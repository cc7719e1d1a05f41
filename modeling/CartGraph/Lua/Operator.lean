import CartGraph.Error

/-!
# Comparison operators
-/
namespace CartGraph.Lua

def comparisons : List String := ["==", "!=", "~=", ">", "<", ">=", "<="]

/-- The comparison that a value names, `==` when it names none. `!=` is spelled `~=`. -/
def comparison (v node : Value) : Except CompileError String :=
  let op := Text.strip (if v.isNull then "==" else v.display)
  if comparisons.contains op then .ok (if op == "!=" then "~=" else op)
  else .error (.invalidProperty node "operator" v "not a comparison operator")

end CartGraph.Lua
