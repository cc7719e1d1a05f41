/-!
# Tables over code points

A character property is a list of closed ranges of code points, and a case mapping is a list of
runs: every `step`-th code point from `first` to `last` maps to the one at the same distance from
`target`.
-/
namespace CartGraph.Text

/-- Whether a character lies in one of the closed ranges. -/
def inRanges (ranges : List (Nat × Nat)) (c : Char) : Bool :=
  ranges.any fun r => r.1 ≤ c.toNat && c.toNat ≤ r.2

structure Run where
  first : Nat
  last : Nat
  step : Nat
  target : Nat

namespace Run

def covers (r : Run) (c : Char) : Bool :=
  r.first ≤ c.toNat && c.toNat ≤ r.last && (c.toNat - r.first) % r.step == 0

def apply (r : Run) (c : Char) : Char :=
  Char.ofNat (r.target + (c.toNat - r.first))

end Run

/-- The image of a character under the first run that covers it, itself if none does. -/
def mapRuns (runs : List Run) (c : Char) : Char :=
  match runs.find? (·.covers c) with
  | some r => r.apply c
  | none => c

end CartGraph.Text
