/-!
# Stable sorting

Insertion sort by a comparison. Elements that compare both ways keep their order.
-/
namespace CartGraph.Order

/-- Puts an element before the first one that it does not come after. -/
def insertBy (le : α → α → Bool) (x : α) : List α → List α
  | [] => [x]
  | y :: rest => if le x y then x :: y :: rest else y :: insertBy le x rest

def sortBy (le : α → α → Bool) : List α → List α
  | [] => []
  | x :: rest => insertBy le x (sortBy le rest)

/-- Texts in the order of their code points. -/
def textLE (a b : String) : Bool := !b.toList.lex a.toList fun c d => c.toNat < d.toNat

/-- Pairs in the order of their first parts, then of their second parts. -/
def lexLE [DecidableEq α] (leFirst : α → α → Bool) (leSecond : β → β → Bool) (a b : α × β) : Bool :=
  if a.1 = b.1 then leSecond a.2 b.2 else leFirst a.1 b.1

end CartGraph.Order
