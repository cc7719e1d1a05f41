import CartGraph.Error

/-!
# Calls with optional arguments

Slots after the last provided one are dropped. An empty slot before it takes its placeholder, so no
argument changes its position.
-/
namespace CartGraph.Lua

/-- The slots up to the last provided one. -/
def providedSlots (slots : List (Option α)) : List (Option α) :=
  (slots.reverse.dropWhile Option.isNone).reverse

/-- Fills empty slots by their placeholders. The first slot has the given index. -/
def fillSlots (index : Nat) : List (Option α) → List (Option α) → Except Error (List α)
  | [], _ => .ok []
  | some a :: slots, placeholders =>
    (fillSlots (index + 1) slots placeholders.tail).map (a :: ·)
  | none :: slots, some a :: placeholders =>
    (fillSlots (index + 1) slots placeholders).map (a :: ·)
  | none :: _, _ => .error (.slotWithoutPlaceholder index)

/-- The argument list of a call from its slots and their placeholders. -/
def arguments (slots placeholders : List (Option α)) : Except Error (List α) :=
  if placeholders.length < slots.length then .error .slotsWithoutPlaceholders
  else fillSlots 0 (providedSlots slots) placeholders

def call (function : String) (arguments : List String) : String :=
  function ++ "(" ++ ", ".intercalate arguments ++ ")"

end CartGraph.Lua
