import CartGraph.Catalogue.Search
import Mathlib.Data.List.Basic

/-! # Distances

A query is found in a text if and only if it is a subsequence of it: to match each character as
early as possible is never worse. Where it is found does not matter for the distance, because the
gaps before, between and after any places make up all of the text but these places. -/
namespace CartGraph.Catalogue

variable {start stop : Nat} {query text : List Char} {found : List Nat}

/-- Matching as early as possible succeeds whenever there is some way to match. -/
theorem isSome_places (start : Nat) (query text : List Char) :
    (places start query text).isSome = true ↔ query.Sublist text := by
  fun_induction places start query text with
  | case1 => simp
  | case2 => simp
  | case3 start q query rest ih =>
    rw [Option.isSome_map, ih, List.cons_sublist_cons]
  | case4 start q query c rest hne ih =>
    -- the query can not start here, so a way to match it lies behind this character
    rw [ih]
    refine ⟨fun h => h.cons c, fun h => ?_⟩
    cases h with
    | cons _ h => exact h
    | cons_cons _ h => exact absurd rfl hne

theorem length_places (h : places start query text = some found) :
    found.length = query.length := by
  fun_induction places start query text generalizing found with
  | case1 => cases h; rfl
  | case2 => cases h
  | case3 start q query rest ih =>
    obtain ⟨later, hlater, rfl⟩ := Option.map_eq_some_iff.mp h
    rw [List.length_cons, List.length_cons, ih hlater]
  | case4 start q query c rest hne ih => exact ih h

/-- Places that ascend and lie within a stretch of a text. -/
structure Ascending (start stop : Nat) (found : List Nat) : Prop where
  pairwise : found.Pairwise (· < ·)
  bounds : ∀ i ∈ found, start ≤ i ∧ i < stop

theorem ascending_places (h : places start query text = some found) :
    Ascending start (start + text.length) found := by
  fun_induction places start query text generalizing found with
  | case1 => cases h; exact ⟨.nil, by simp⟩
  | case2 => cases h
  | case3 start q query rest ih =>
    obtain ⟨later, hlater, rfl⟩ := Option.map_eq_some_iff.mp h
    obtain ⟨hpairwise, hbounds⟩ := ih hlater
    refine ⟨List.pairwise_cons.mpr ⟨fun i hi => (hbounds i hi).1, hpairwise⟩, ?_⟩
    rw [List.forall_mem_cons, List.length_cons]
    refine ⟨by omega, fun i hi => ?_⟩
    have := hbounds i hi
    omega
  | case4 start q query c rest hne ih =>
    obtain ⟨hpairwise, hbounds⟩ := ih h
    refine ⟨hpairwise, fun i hi => ?_⟩
    have := hbounds i hi
    rw [List.length_cons]
    omega

/-- The gaps around any places and the places themselves make up the text. -/
theorem passedOver_add_length (h : Ascending start stop found) (hle : start ≤ stop) :
    start + passedOver start stop found + found.length = stop := by
  induction found generalizing start with
  | nil =>
    rw [passedOver, List.length_nil]
    omega
  | cons i later ih =>
    obtain ⟨hfirst, hpairwise⟩ := List.pairwise_cons.mp h.pairwise
    obtain ⟨hi, hbounds⟩ := List.forall_mem_cons.mp h.bounds
    have hlater : Ascending (i + 1) stop later :=
      ⟨hpairwise, fun j hj => ⟨hfirst j hj, (hbounds j hj).2⟩⟩
    have := ih hlater hi.2
    rw [passedOver, List.length_cons]
    omega

/-- A subsequence is found, and what is passed over is all that the text has more. -/
theorem map_passedOver_places (h : query.Sublist text) :
    (places 0 query text).map (passedOver 0 text.length) = some (text.length - query.length) := by
  obtain ⟨found, hfound⟩ := Option.isSome_iff_exists.mp ((isSome_places 0 query text).mpr h)
  have hascending : Ascending 0 text.length found := by
    simpa using ascending_places hfound
  have hgaps := passedOver_add_length hascending (Nat.zero_le _)
  rw [hfound, Option.map_some, ← length_places hfound]
  exact congrArg some (by omega)

theorem distance_empty {candidate : String} (h : candidate ≠ "") :
    distance "" candidate = some 0 := by
  rw [distance, if_neg (by simpa using h), if_pos (by simp)]

theorem distance_of_ne {query candidate : String} (hquery : query ≠ "")
    (hcandidate : candidate ≠ "") : distance query candidate =
      (places 0 query.toList candidate.toList).map (passedOver 0 candidate.length) := by
  rw [distance, if_neg (by simpa using hcandidate), if_neg (by simpa using hquery)]

theorem distance_of_sublist {query candidate : String} (hquery : query ≠ "")
    (h : query.toList.Sublist candidate.toList) :
    distance query candidate = some (candidate.length - query.length) := by
  have hcandidate : candidate ≠ "" := fun he => by
    rw [he] at h
    exact hquery (String.toList_eq_nil_iff.mp (List.sublist_nil.mp h))
  rw [distance_of_ne hquery hcandidate]
  exact map_passedOver_places h

theorem distance_eq_none_iff {query candidate : String} :
    distance query candidate = none ↔
      candidate = "" ∨ ¬ query.toList.Sublist candidate.toList := by
  rcases eq_or_ne candidate "" with rfl | hcandidate
  · simp [distance]
  rcases eq_or_ne query "" with rfl | hquery
  · simp [distance_empty hcandidate, hcandidate]
  rw [distance_of_ne hquery hcandidate, Option.map_eq_none_iff, ← Option.not_isSome_iff_eq_none,
    isSome_places]
  simp [hcandidate]

/-- The distance in closed form: it is infinite if and only if the text is empty or the query is not
a subsequence of it, and else it is zero for the empty query and the difference of the lengths for
any other, wherever the characters are found. -/
theorem distance_closed_form (query candidate : String) :
    (distance query candidate = none ↔
        candidate = "" ∨ ¬ query.toList.Sublist candidate.toList) ∧
      (query = "" ∧ candidate ≠ "" → distance query candidate = some 0) ∧
      (query ≠ "" ∧ query.toList.Sublist candidate.toList →
        distance query candidate = some (candidate.length - query.length)) := by
  refine ⟨distance_eq_none_iff, ?_, fun h => distance_of_sublist h.1 h.2⟩
  rintro ⟨rfl, hcandidate⟩
  exact distance_empty hcandidate

end CartGraph.Catalogue
