import CartGraph.Error

/-!
# Room on the stack

Calls that are nested hold frames of a stack, and a call that finds too few of them left fails. A
walk is told how many are left to it. Where the room is endless nothing is limited, neither the
stack nor the digits of an integer.
-/
namespace CartGraph

inductive Room where
  | endless
  | frames (left : Nat)
  deriving DecidableEq, Repr

namespace Room

/-- The frames that are left when the work begins: a thousand, less those of the callers. -/
def start : Nat := 985

/-- What is left while a call holds some frames. -/
def less : Room → Nat → Room
  | .endless, _ => .endless
  | .frames left, held => .frames (left - held)

def lacks : Room → Nat → Bool
  | .endless, _ => false
  | .frames left, held => left < held

/-- A result, unless a limit is met before it is found. -/
def within (room : Room) (limit? : Nat → Option Error) (r : Except Error α) : Except Error α :=
  match room with
  | .endless => r
  | .frames left =>
    match limit? left with
    | some e => .error e
    | none => r

theorem within_of_some {limit? : Nat → Option Error} {left : Nat} {e : Error}
    (h : limit? left = some e) (r : Except Error α) : (frames left).within limit? r = .error e := by
  simp only [within, h]

theorem within_of_none {limit? : Nat → Option Error} {left : Nat} (h : limit? left = none)
    (r : Except Error α) : (frames left).within limit? r = r := by
  simp only [within, h]

theorem within_ok {limit? : Nat → Option Error} {room : Room} {r : Except Error α} {a : α}
    (h : room.within limit? r = .ok a) : r = .ok a := by
  cases room with
  | endless => exact h
  | frames left =>
    cases hfound : limit? left with
    | some e =>
      rw [within_of_some hfound] at h
      cases h
    | none => rwa [within_of_none hfound] at h

end Room

/-- Whether the stack ran out. -/
def Error.isOverflow : Error → Bool
  | .nestedTooDeep => true
  | .walkTooDeep _ => true
  | _ => false

end CartGraph
