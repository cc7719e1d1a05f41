import CartGraph.Proofs.GivenNames
import CartGraph.Proofs.Lua.OneLine

/-! # The grammar of literals

The literals of the language are the constants, numerals with an optional minus sign, strings and
table constructors of literals. Each has a shape, and so has each value. The literal of a value is
one of its shape, unless a key of a table was typed in brackets, and it is missing exactly if the
value holds a double that is not finite. -/
namespace CartGraph

namespace Lua

/-! ## The grammar -/

/-- What a literal denotes, up to the number or the text that it is. A field of a table has the
shape of its key, if it has one, and that of its value. -/
inductive Shape where
  | absent
  | truth (b : Bool)
  | number
  | string
  | table (fields : List (Option Shape × Shape))

/-- Characters that a string has to escape besides backslash and quote. -/
def isControl (c : Char) : Bool := decide (c.toNat < 32) || c.toNat == 127

/-- What stands between the quotes of a string. A quote stands only behind the backslash that
escapes it. -/
inductive StringBody : List Char → Prop
  | nil : StringBody []
  | plain {c : Char} {cs : List Char} (hquote : c ≠ '"') (hslash : c ≠ '\\')
      (hcontrol : isControl c = false) (h : StringBody cs) : StringBody (c :: cs)
  | escape {c : Char} {cs : List Char} (hescape : isEscape c cs = true)
      (hcontrol : isControl c = false) (h : StringBody cs) : StringBody ('\\' :: c :: cs)

mutual

inductive Literal : Shape → String → Prop
  | absent : Literal .absent "nil"
  | yes : Literal (.truth true) "true"
  | no : Literal (.truth false) "false"
  | number {text : String} (h : IsNumberText text) : Literal .number text
  | string {body : List Char} (h : StringBody body) :
      Literal .string (String.ofList ('"' :: body ++ ['"']))
  | empty : Literal (.table []) "\x7b\x7d"
  | table {fields : List (Option Shape × Shape)} {text : String} (h : TableFields fields text) :
      Literal (.table fields) ("\x7b " ++ text ++ " \x7d")

inductive TableField : Option Shape × Shape → String → Prop
  | item {shape : Shape} {text : String} (h : Literal shape text) : TableField (none, shape) text
  | named {name : String} {shape : Shape} {text : String} (hname : IsDefinable name)
      (h : Literal shape text) : TableField (some .string, shape) (name ++ " = " ++ text)
  | keyed {key shape : Shape} {keyText text : String} (hkey : Literal key keyText)
      (h : Literal shape text) : TableField (some key, shape) ("[" ++ keyText ++ "] = " ++ text)

inductive TableFields : List (Option Shape × Shape) → String → Prop
  | last {field : Option Shape × Shape} {text : String} (h : TableField field text) :
      TableFields [field] text
  | more {field : Option Shape × Shape} {fields : List (Option Shape × Shape)}
      {text rest : String} (h : TableField field text) (hrest : TableFields fields rest) :
      TableFields (field :: fields) (text ++ ", " ++ rest)

end

end Lua

/-! ## Values -/

namespace Key

def shape : Key → Lua.Shape
  | .null => .absent
  | .bool b => .truth b
  | .int _ | .float _ => .number
  | .text _ => .string

def isFinite : Key → Bool
  | .float x => x.isFinite
  | _ => true

/-- The key was typed in brackets, and is written as it was typed. -/
def isBracketed : Key → Bool
  | .text s => Lua.isBracketed (Text.strip s)
  | _ => false

end Key

namespace Value

mutual

def shape : Value → Lua.Shape
  | .null | .omitted => .absent
  | .bool b => .truth b
  | .int _ | .float _ => .number
  | .text _ => .string
  | .list items => .table (itemShapes items)
  | .table entries => .table (entryShapes entries)

def itemShapes : List Value → List (Option Lua.Shape × Lua.Shape)
  | [] => []
  | v :: rest => (none, v.shape) :: itemShapes rest

def entryShapes : List (Key × Value) → List (Option Lua.Shape × Lua.Shape)
  | [] => []
  | (k, v) :: rest => (some k.shape, v.shape) :: entryShapes rest

end

mutual

/-- All keys and all numbers of the value, at any depth, pass a test. -/
def every (onKey : Key → Bool) (onInt : Int → Bool) (onDouble : Binary64 → Bool) : Value → Bool
  | .int n => onInt n
  | .float x => onDouble x
  | .list items => everyItem onKey onInt onDouble items
  | .table entries => everyEntry onKey onInt onDouble entries
  | .null | .omitted | .bool _ | .text _ => true

def everyItem (onKey : Key → Bool) (onInt : Int → Bool) (onDouble : Binary64 → Bool) :
    List Value → Bool
  | [] => true
  | v :: rest => v.every onKey onInt onDouble && everyItem onKey onInt onDouble rest

def everyEntry (onKey : Key → Bool) (onInt : Int → Bool) (onDouble : Binary64 → Bool) :
    List (Key × Value) → Bool
  | [] => true
  | (k, v) :: rest =>
    onKey k && (v.every onKey onInt onDouble && everyEntry onKey onInt onDouble rest)

end

/-- No double is infinite or not a number, be it an item, the value of a field or a key. -/
def isFinite (v : Value) : Bool := v.every Key.isFinite (fun _ => true) Binary64.isFinite

def isUnbracketed (v : Value) : Bool :=
  v.every (fun k => !k.isBracketed) (fun _ => true) fun _ => true

end Value

namespace Lua

/-! ## Strings -/

theorem isControl_of_isDigit {c : Char} (h : c.isDigit = true) : isControl c = false := by
  have hlow := le_digit_toNat h
  have hhigh := digit_toNat h
  rw [isControl, Bool.or_eq_false_iff, decide_eq_false_iff_not, beq_eq_false_iff_ne]
  omega

theorem isControl_escapeChar (c : Char) : ∀ d ∈ escapeChar c, isControl d = false := by
  unfold escapeChar
  split_ifs with hslash hquote hline hreturn htab hnull hcontrol
  · exact forall_mem_of_all (by decide)
  · exact forall_mem_of_all (by decide)
  · exact forall_mem_of_all (by decide)
  · exact forall_mem_of_all (by decide)
  · exact forall_mem_of_all (by decide)
  · exact forall_mem_of_all (by decide)
  · simp only [Bool.or_eq_true, decide_eq_true_eq, beq_iff_eq] at hcontrol
    have hdigits := (code3_digits c.toNat (by omega)).1
    refine List.forall_mem_cons.mpr ⟨by decide, fun d hd => ?_⟩
    exact isControl_of_isDigit (List.all_eq_true.mp hdigits d hd)
  · intro d hd
    rw [List.mem_singleton.mp hd]
    exact Bool.eq_false_iff.mpr hcontrol

theorem StringBody.digit {c : Char} (hc : c.isDigit = true) {cs : List Char} (h : StringBody cs) :
    StringBody (c :: cs) :=
  .plain (ne_of_isDigit hc (by decide)) (ne_of_isDigit hc (by decide)) (isControl_of_isDigit hc) h

theorem StringBody.escapeChar (c : Char) {rest : List Char} (h : StringBody rest) :
    StringBody (Lua.escapeChar c ++ rest) := by
  have hcontrol := isControl_escapeChar c
  rcases escapeChar_cases c with ⟨d, hd, he⟩ | he | ⟨n, hn, he⟩ | ⟨he, hc⟩ <;> rw [he] at hcontrol ⊢
  · refine .escape ?_ (hcontrol d (by simp)) h
    simp [isEscape, hd]
  · exact .escape (isEscape_null rest) (by decide) h
  · have hdigits := (code3_digits n hn).1
    simp only [code3, List.all_cons, Bool.and_eq_true] at hdigits
    obtain ⟨ha, hb, hd, _⟩ := hdigits
    exact .escape (isEscape_code hn rest) (isControl_of_isDigit ha) (.digit hb (.digit hd h))
  · simp only [List.mem_cons, List.not_mem_nil, or_false, not_or] at hc
    exact .plain hc.2.1 hc.1 (hcontrol c (by simp)) h

theorem stringBody_escapes (cs : List Char) : StringBody (cs.flatMap Lua.escapeChar) := by
  induction cs with
  | nil => exact .nil
  | cons c cs ih => exact ih.escapeChar c

theorem literal_quote (s : String) : Literal .string (quote s) :=
  .string (stringBody_escapes s.toList)

/-! ## Tables -/

theorem tableFields_intercalate {fields : List (Option Shape × Shape)} {texts : List String}
    (h : List.Forall₂ TableField fields texts) (hne : texts ≠ []) :
    TableFields fields (", ".intercalate texts) := by
  induction h with
  | nil => exact absurd rfl hne
  | @cons field text fields texts hfield hrest ih =>
    cases hrest with
    | nil => simpa using TableFields.last hfield
    | cons hnext hrest =>
      rw [String.intercalate_cons_cons]
      exact .more hfield (ih (by simp))

theorem literal_braced {fields : List (Option Shape × Shape)} {texts : List String}
    (h : List.Forall₂ TableField fields texts) : Literal (.table fields) (braced texts) := by
  cases h with
  | nil => exact .empty
  | cons hfield hrest => exact .table (tableFields_intercalate (.cons hfield hrest) (by simp))

theorem isDefinable_strip {s : String} (h : isIdentifier (Text.strip s) = true) :
    IsDefinable (Text.strip s) := by
  obtain ⟨hshape, hword⟩ := Bool.and_eq_true_iff.mp h
  rw [chomp_strip] at hshape
  exact ⟨hshape, by simpa using hword⟩

theorem literal_boolLiteral (b : Bool) : Literal (.truth b) (boolLiteral b) := by
  cases b
  · exact .no
  · exact .yes

theorem keyLiteral_field {k : Key} (hk : k.isBracketed = false) {name : String}
    (h : keyLiteral k = .ok name) {shape : Shape} {text : String} (htext : Literal shape text) :
    TableField (some k.shape, shape) (name ++ " = " ++ text) := by
  have keyed {key : Shape} {keyText : String} (hkey : Literal key keyText) :
      TableField (some key, shape) ("[" ++ keyText ++ "]" ++ " = " ++ text) := by
    have hfield := TableField.keyed hkey htext
    rwa [show "] = " = "]" ++ " = " by rfl, ← String.append_assoc] at hfield
  cases k with
  | null => exact Except.ok.inj h ▸ keyed .absent
  | bool b => exact Except.ok.inj h ▸ keyed (literal_boolLiteral b)
  | int n => exact Except.ok.inj h ▸ keyed (.number (isNumberText_int n))
  | float x =>
    obtain ⟨number, hnumber, rfl⟩ := map_ok h
    exact keyed (.number (isNumberText_float hnumber))
  | text s =>
    rw [← Except.ok.inj h]
    split
    · rename_i hraw
      rcases Bool.or_eq_true_iff.mp hraw with hname | hbracketed
      · exact .named (isDefinable_strip hname) htext
      · exact absurd (hk.symm.trans hbracketed) Bool.false_ne_true
    · exact keyed (literal_quote _)

mutual

theorem anyLiteral_grammar (key : String) (v : Value) (hv : v.isUnbracketed = true) (text : String)
    (h : anyLiteral key v = .ok text) : Literal v.shape text := by
  cases v with
  | null | omitted =>
    rw [anyLiteral] at h
    exact Except.ok.inj h ▸ .absent
  | bool b =>
    rw [anyLiteral] at h
    exact Except.ok.inj h ▸ literal_boolLiteral b
  | int n =>
    rw [anyLiteral] at h
    exact Except.ok.inj h ▸ .number (isNumberText_int n)
  | float x =>
    rw [anyLiteral] at h
    exact .number (isNumberText_float h)
  | text s =>
    rw [anyLiteral] at h
    exact Except.ok.inj h ▸ literal_quote s
  | list items =>
    rw [anyLiteral] at h
    obtain ⟨texts, htexts, rfl⟩ := map_ok h
    exact literal_braced (itemLiterals_grammar items hv texts htexts)
  | table entries =>
    rw [anyLiteral] at h
    obtain ⟨texts, htexts, rfl⟩ := map_ok h
    exact literal_braced (entryLiterals_grammar entries hv texts htexts)

theorem itemLiterals_grammar (items : List Value) (hv : (Value.list items).isUnbracketed = true)
    (texts : List String) (h : itemLiterals items = .ok texts) :
    List.Forall₂ TableField (Value.itemShapes items) texts := by
  cases items with
  | nil =>
    rw [itemLiterals] at h
    cases h
    exact .nil
  | cons v rest =>
    obtain ⟨hv, hrest⟩ := Bool.and_eq_true_iff.mp hv
    rw [itemLiterals] at h
    obtain ⟨text, htext, h⟩ := bind_ok h
    obtain ⟨more, hmore, h⟩ := bind_ok h
    cases h
    exact .cons (.item (anyLiteral_grammar "value" v hv text htext))
      (itemLiterals_grammar rest hrest more hmore)

theorem entryLiterals_grammar (entries : List (Key × Value))
    (hv : (Value.table entries).isUnbracketed = true) (texts : List String)
    (h : entryLiterals entries = .ok texts) :
    List.Forall₂ TableField (Value.entryShapes entries) texts := by
  cases entries with
  | nil =>
    rw [entryLiterals] at h
    cases h
    exact .nil
  | cons entry rest =>
    obtain ⟨hk, hv⟩ := Bool.and_eq_true_iff.mp hv
    obtain ⟨hv, hrest⟩ := Bool.and_eq_true_iff.mp hv
    rw [entryLiterals] at h
    obtain ⟨name, hname, h⟩ := bind_ok h
    obtain ⟨text, htext, h⟩ := bind_ok h
    obtain ⟨more, hmore, h⟩ := bind_ok h
    cases h
    refine .cons ?_ (entryLiterals_grammar rest hrest more hmore)
    have hvalue := anyLiteral_grammar "value" entry.2 hv text htext
    exact keyLiteral_field (by simpa using hk) hname hvalue

end

/-! ## Failures -/

theorem isOk_bind {x : Except ε α} {f : α → Except ε β} {a b : Bool} (hx : x.isOk = a)
    (hf : ∀ r, (f r).isOk = b) : (x >>= f).isOk = (a && b) := by
  subst hx
  cases x with
  | error e => rfl
  | ok r => exact hf r

theorem isOk_map {x : Except ε α} {f : α → β} : (x.map f).isOk = x.isOk := by
  cases x <;> rfl

theorem isOk_floatLiteral (key : String) (x : Binary64) :
    (floatLiteral key x).isOk = x.isFinite := by
  unfold floatLiteral
  cases x.isFinite <;> rfl

theorem isOk_keyLiteral (k : Key) : (keyLiteral k).isOk = k.isFinite := by
  cases k with
  | float x => exact isOk_map.trans (isOk_floatLiteral "value" x)
  | null | bool | int | text => rfl

mutual

theorem isOk_anyLiteral (key : String) (v : Value) : (anyLiteral key v).isOk = v.isFinite := by
  cases v with
  | float x =>
    rw [anyLiteral]
    exact isOk_floatLiteral key x
  | list items =>
    rw [anyLiteral, isOk_map]
    exact isOk_itemLiterals items
  | table entries =>
    rw [anyLiteral, isOk_map]
    exact isOk_entryLiterals entries
  | null | omitted | bool | int | text =>
    rw [anyLiteral]
    rfl

theorem isOk_itemLiterals (items : List Value) :
    (itemLiterals items).isOk = (Value.list items).isFinite := by
  cases items with
  | nil =>
    rw [itemLiterals]
    rfl
  | cons v rest =>
    rw [itemLiterals]
    exact isOk_bind (isOk_anyLiteral "value" v) fun _ => isOk_map.trans (isOk_itemLiterals rest)

theorem isOk_entryLiterals (entries : List (Key × Value)) :
    (entryLiterals entries).isOk = (Value.table entries).isFinite := by
  cases entries with
  | nil =>
    rw [entryLiterals]
    rfl
  | cons entry rest =>
    rw [entryLiterals]
    exact isOk_bind (isOk_keyLiteral entry.1) fun _ =>
      isOk_bind (isOk_anyLiteral "value" entry.2) fun _ => isOk_map.trans (isOk_entryLiterals rest)

end

end Lua

end CartGraph
