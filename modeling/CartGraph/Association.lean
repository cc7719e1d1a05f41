/-!
# Association lists that keep their order

A key that is written again keeps its place. Looking up is `List.lookup`, and `distinctBy` keeps the
first element of each key.
-/
namespace CartGraph.Association

def assign [DecidableEq κ] (k : κ) (a : α) : List (κ × α) → List (κ × α)
  | [] => [(k, a)]
  | (k', a') :: rest => if k' = k then (k', a) :: rest else (k', a') :: assign k a rest

def erase [DecidableEq κ] (k : κ) (entries : List (κ × α)) : List (κ × α) :=
  entries.filter fun e => e.1 ≠ k

/-- The elements whose key occurs neither in `seen` nor before them. -/
def distinctBy [DecidableEq κ] (key : α → κ) (seen : List κ) : List α → List α
  | [] => []
  | a :: rest =>
    if key a ∈ seen then distinctBy key seen rest
    else a :: distinctBy key (key a :: seen) rest

theorem mem_of_lookup [BEq κ] [LawfulBEq κ] {k : κ} {a : α} {entries : List (κ × α)}
    (h : entries.lookup k = some a) : (k, a) ∈ entries := by
  obtain ⟨before, after, rfl, _⟩ := List.lookup_eq_some_iff.mp h
  exact List.mem_append_right _ (.head _)

end CartGraph.Association
