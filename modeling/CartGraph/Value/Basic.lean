import CartGraph.Number.Binary64

/-!
# Inspector values

What a document or the inspector of a node can hold: scalars, lists, and tables that keep the order
in which their keys were first written. `omitted` marks an argument slot that was left empty; it is
not `null`, which is a value that was given as nothing.

Keys also name nodes, pins and events. A name keeps the spelling that it was given, and names are
compared through `Key.canonical`, so that a number names the same thing whatever its type.
-/
namespace CartGraph

/-- Keys of tables, and names. -/
inductive Key where
  | null
  | bool (b : Bool)
  | int (n : Int)
  | float (x : Binary64)
  | text (s : String)
  deriving DecidableEq, Repr

inductive Value where
  | null
  | omitted
  | bool (b : Bool)
  | int (n : Int)
  | float (x : Binary64)
  | text (s : String)
  | list (items : List Value)
  | table (entries : List (Key × Value))

namespace Key

/-- A number key that is a whole number, whatever its type, is the key of that integer. -/
def canonical : Key → Key
  | .bool b => .int (if b then 1 else 0)
  | .float x => if x.isInteger then .int x.truncate else .float x
  | k => k

def isNaN : Key → Bool
  | .float x => x.isNaN
  | _ => false

/-- Whether two keys name the same node, pin or event. -/
def alike (a b : Key) : Bool := a.canonical == b.canonical

/-- Whether two keys address the same entry. What is not a number addresses nothing. -/
def same (a b : Key) : Bool := !a.isNaN && a.alike b

@[simp] theorem canonical_text (s : String) : canonical (.text s) = .text s := rfl

@[simp] theorem alike_iff (a b : Key) : a.alike b = true ↔ a.canonical = b.canonical := by
  simp [alike]

@[simp] theorem alike_self (a : Key) : a.alike a = true := by simp

@[simp] theorem alike_text (a b : String) : alike (.text a) (.text b) = (a == b) := by
  rw [Bool.eq_iff_iff]
  simp [alike]

@[simp] theorem same_text (a b : String) : same (.text a) (.text b) = (a == b) := by
  simp [same, isNaN]

def toValue : Key → Value
  | .null => .null
  | .bool b => .bool b
  | .int n => .int n
  | .float x => .float x
  | .text s => .text s

/-- The key that a value is, none for what has parts. -/
def ofValue? : Value → Option Key
  | .null => some .null
  | .bool b => some (.bool b)
  | .int n => some (.int n)
  | .float x => some (.float x)
  | .text s => some (.text s)
  | .omitted | .list _ | .table _ => none

@[simp] theorem ofValue?_toValue (k : Key) : ofValue? k.toValue = some k := by
  cases k <;> rfl

def isText : Key → Bool
  | .text _ => true
  | _ => false

end Key

instance : Coe String Key := ⟨.text⟩

instance : Coe Key Value := ⟨Key.toValue⟩

abbrev Table := List (Key × Value)

namespace Table

def find? (t : Table) (k : Key) : Option Value :=
  match t with
  | [] => none
  | (k', v) :: rest => if k'.same k then some v else find? rest k

/-- The value under a text key, none when the table lacks the key. -/
def get? (t : Table) (name : String) : Option Value := t.find? (.text name)

/-- The value under a text key, `null` when the table lacks the key. -/
def get (t : Table) (name : String) : Value := (t.get? name).getD .null

def has (t : Table) (name : String) : Bool := (t.get? name).isSome

/-- Writes a value under a key. A key that is there keeps its place. -/
def insert (t : Table) (k : Key) (v : Value) : Table :=
  match t with
  | [] => [(k, v)]
  | (k', v') :: rest => if k'.same k then (k', v) :: rest else (k', v') :: insert rest k v

def erase (t : Table) (k : Key) : Table := t.filter fun e => !e.1.same k

/-- Writes all entries of `changes`, in their order. -/
def update (t changes : Table) : Table := changes.foldl (fun acc e => acc.insert e.1 e.2) t

/-- The table that results from writing entries one after the other. -/
def ofEntries (entries : List (Key × Value)) : Table := update [] entries

end Table

namespace Value

instance : Inhabited Value := ⟨.null⟩

def isNull : Value → Bool
  | .null => true
  | _ => false

def isEmptyText : Value → Bool
  | .text s => s.isEmpty
  | _ => false

/-- Nothing, zero and what is empty count as unset where a value falls back to another. -/
def truthy : Value → Bool
  | .null => false
  | .omitted => false
  | .bool b => b
  | .int n => n != 0
  | .float x => !x.isZero
  | .text s => !s.isEmpty
  | .list items => !items.isEmpty
  | .table entries => !entries.isEmpty

/-- The parts of a value: the items of a list, the characters of a text, the keys of a table. -/
def parts? : Value → Option (List Value)
  | .list items => some items
  | .text s => some (s.toList.map fun c => .text (String.ofList [c]))
  | .table entries => some (entries.map fun e => e.1.toValue)
  | _ => none

/-- The value itself when it is set, the other one otherwise. -/
def orElse (v other : Value) : Value := if v.truthy then v else other

/-- A table of text keys. -/
def object (fields : List (String × Value)) : Value :=
  .table (fields.map fun f => (.text f.1, f.2))

def texts (items : List String) : Value := .list (items.map .text)

end Value

end CartGraph
