/-!
# Numbered names

A name that is taken gets the first free number from a given one on. Among the numbered variants of
one base at most as many are taken as names are in use, so the search is bounded by their count.
-/
namespace CartGraph.Lua

def numbered (base : String) (n : Nat) : String := base ++ "_" ++ toString n

/-- The first free numbered variant from `n` on, within a number of tries. -/
def firstFree (used : List String) (base : String) : Nat → Nat → String
  | 0, n => numbered base n
  | tries + 1, n =>
    if used.contains (numbered base n) then firstFree used base tries (n + 1) else numbered base n

/-- The base itself if it is free, otherwise its first free variant numbered from `start` on. -/
def fresh (used : List String) (base : String) (start : Nat) : String :=
  if used.contains base then firstFree used base used.length start else base

end CartGraph.Lua
