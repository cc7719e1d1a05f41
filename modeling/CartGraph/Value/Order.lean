import CartGraph.Order
import CartGraph.Value.Basic

/-!
# Order of numbers and texts

Numbers of different types are compared by their exact values, texts by their code points.
-/
namespace CartGraph

/-- A number as an exact quotient. Infinities have the denominator zero. -/
def Binary64.quotient (x : Binary64) : Int × Nat :=
  let (num, den) := if x.isFinite then x.ratio else (1, 0)
  (if x.isNegative then -(num : Int) else num, den)

namespace Key

def isNumber : Key → Bool
  | .bool _ | .int _ | .float _ => true
  | _ => false

def quotient : Key → Int × Nat
  | .bool b => (if b then 1 else 0, 1)
  | .int n => (n, 1)
  | .float x => x.quotient
  | _ => (0, 1)

/-- Whether a number is less than another. What is not a number is on neither side. -/
def less (a b : Key) : Bool :=
  let (p, q) := a.quotient
  let (r, s) := b.quotient
  !a.isNaN && !b.isNaN && (if q = 0 && s = 0 then decide (p < r) else decide (p * s < r * q))

/-- The order of event names: numbers by value, then texts. -/
def nameLE : Key → Key → Bool
  | .text a, .text b => Order.textLE a b
  | .text _, _ => false
  | _, .text _ => true
  | a, b => !b.less a

@[simp] theorem less_int (m n : Int) : less (.int m) (.int n) = decide (m < n) := by
  simp [less, quotient, isNaN]

@[simp] theorem nameLE_text (a b : String) : nameLE (.text a) (.text b) = Order.textLE a b := rfl

end Key

end CartGraph
