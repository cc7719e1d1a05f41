import CartGraph.Error

/-!
# Entries that a value lists

The properties of a node are a table, or a list of pairs that is as good as one. A pair is anything
with two parts: a list of two items, a text of two characters, a table of two keys.
-/
namespace CartGraph.Value

/-- The key and the value that a pair stands for. -/
def pair (v : Value) : Except Error (Key × Value) :=
  match v.parts? with
  | none => .error (.notEntries v)
  | some [k, x] => do return (← k.key, x)
  | some _ => .error (.notAPair v)

/-- The entries of a table, or of a list of pairs. A value that is unset has none. -/
def entries (v : Value) : Except Error Table :=
  match v with
  | .table t => .ok t
  | v =>
    if !v.truthy then .ok []
    else match v.parts? with
      | none => .error (.notEntries v)
      | some parts => parts.mapM pair

@[simp] theorem entries_table (t : Table) : entries (.table t) = .ok t := rfl

end CartGraph.Value
