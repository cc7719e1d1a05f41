import CartGraph.Lua.Call

/-! # Arguments of a call

Only empty slots at the end of a call are dropped. The others keep their places, so an argument
stands where its slot stood, and filling fails only where an empty slot that is kept has no
placeholder. -/
namespace CartGraph.Lua

variable {slots placeholders : List (Option α)}

theorem providedSlots_cons (slot : Option α) (rest : List (Option α)) :
    providedSlots (slot :: rest) =
      if slot.isNone && (providedSlots rest).isEmpty then [] else slot :: providedSlots rest := by
  unfold providedSlots
  rw [List.reverse_cons, List.dropWhile_append, List.isEmpty_reverse]
  cases hrest : (rest.reverse.dropWhile Option.isNone).isEmpty
  · simp
  · rw [List.isEmpty_iff.mp hrest]
    cases slot <;> simp

theorem providedSlots_append (slots : List (Option α)) :
    ∃ k, slots = providedSlots slots ++ List.replicate k none := by
  induction slots with
  | nil => exact ⟨0, rfl⟩
  | cons slot rest ih =>
    obtain ⟨k, hk⟩ := ih
    rw [providedSlots_cons]
    split
    · rename_i hempty
      obtain ⟨hslot, hrest⟩ := Bool.and_eq_true_iff.mp hempty
      rw [List.isEmpty_iff.mp hrest, List.nil_append] at hk
      refine ⟨k + 1, ?_⟩
      rw [Option.isNone_iff_eq_none.mp hslot, hk, List.nil_append, List.replicate_succ]
    · exact ⟨k, congrArg (slot :: ·) hk⟩

theorem providedSlots_length_le (slots : List (Option α)) :
    (providedSlots slots).length ≤ slots.length := by
  obtain ⟨k, hk⟩ := providedSlots_append slots
  have hlength := congrArg List.length hk
  rw [List.length_append] at hlength
  omega

/-- A slot that is kept keeps its place. -/
theorem providedSlots_getElem? {i : Nat} (hi : i < (providedSlots slots).length) :
    (providedSlots slots)[i]? = slots[i]? := by
  obtain ⟨k, hk⟩ := providedSlots_append slots
  conv => rhs; rw [hk, List.getElem?_append_left hi]

/-- A slot that is dropped is empty. -/
theorem eq_none_of_dropped {i : Nat} {slot : Option α} (hi : (providedSlots slots).length ≤ i)
    (h : slots[i]? = some slot) : slot = none := by
  obtain ⟨k, hk⟩ := providedSlots_append slots
  rw [hk, List.getElem?_append_right hi] at h
  exact List.eq_of_mem_replicate (List.mem_of_getElem? h)

/-- The last slot that is kept is provided, so an empty one comes before it. -/
theorem lt_of_providedSlots_none {i : Nat} (h : (providedSlots slots)[i]? = some none) :
    i + 1 < (providedSlots slots).length := by
  induction slots generalizing i with
  | nil => cases h
  | cons slot rest ih =>
    rw [providedSlots_cons] at h ⊢
    split at h
    · cases h
    rename_i hkept
    rw [if_neg hkept, List.length_cons]
    cases i with
    | zero =>
      cases h
      have hrest : providedSlots rest ≠ [] := by simpa using hkept
      have := List.length_pos_iff.mpr hrest
      omega
    | succ i =>
      have := ih h
      omega

theorem fillSlots_ok (index : Nat)
    (h : ∀ i : Nat, slots[i]? = some none → ∃ a, placeholders[i]? = some (some a)) :
    ∃ arguments, fillSlots index slots placeholders = .ok arguments := by
  induction slots generalizing index placeholders with
  | nil => exact ⟨[], rfl⟩
  | cons slot slots ih =>
    have hrest : ∀ i : Nat, slots[i]? = some none → ∃ a, placeholders.tail[i]? = some (some a) := by
      intro i hi
      rw [List.getElem?_tail]
      exact h (i + 1) hi
    obtain ⟨arguments, hfill⟩ := ih (index + 1) hrest
    cases slot with
    | some a =>
      refine ⟨a :: arguments, ?_⟩
      rw [fillSlots, hfill]
      rfl
    | none =>
      obtain ⟨a, ha⟩ := h 0 rfl
      cases placeholders with
      | nil => cases ha
      | cons p placeholders =>
        cases ha
        refine ⟨a :: arguments, ?_⟩
        rw [fillSlots, show fillSlots (index + 1) slots placeholders = _ from hfill]
        rfl

theorem fillSlots_same {a : α} (index : Nat)
    (hlength : slots.length ≤ placeholders.length) (h : ∀ p ∈ placeholders, p = some a) :
    fillSlots index slots placeholders = .ok (slots.map fun slot => slot.getD a) := by
  induction slots generalizing index placeholders with
  | nil => rfl
  | cons slot slots ih =>
    obtain ⟨p, rest, rfl⟩ :=
      List.exists_cons_of_length_pos (Nat.lt_of_lt_of_le (by simp) hlength)
    obtain ⟨rfl, hrest⟩ := List.forall_mem_cons.mp h
    have ih := @ih rest (index + 1) (by simpa using hlength) hrest
    cases slot with
    | none => rw [fillSlots, ih]; rfl
    | some b => rw [fillSlots, List.tail_cons, ih]; rfl

/-- A call has arguments if every slot that can be left empty before another has a placeholder. -/
theorem arguments_ok (hlength : slots.length ≤ placeholders.length)
    (h : ∀ i : Nat, i + 1 < slots.length → slots[i]? = some none →
      ∃ a, placeholders[i]? = some (some a)) :
    ∃ args, arguments slots placeholders = .ok args := by
  unfold arguments
  rw [if_neg (Nat.not_lt.mpr hlength)]
  refine fillSlots_ok 0 fun i hi => ?_
  have hlt := lt_of_providedSlots_none hi
  have hle := providedSlots_length_le slots
  rw [providedSlots_getElem? (Nat.lt_of_succ_lt hlt)] at hi
  exact h i (by omega) hi

/-- The arguments of a call whose slots all have the same placeholder. -/
theorem arguments_same {a : α} (hlength : slots.length ≤ placeholders.length)
    (h : ∀ p ∈ placeholders, p = some a) :
    arguments slots placeholders = .ok ((providedSlots slots).map fun slot => slot.getD a) := by
  unfold arguments
  rw [if_neg (Nat.not_lt.mpr hlength)]
  exact fillSlots_same 0 (Nat.le_trans (providedSlots_length_le slots) hlength) h

/-- The first argument is what the first slot provides, or else its placeholder. -/
theorem fillSlots_cons_ok {index : Nat} {slot : Option α} {args : List α}
    (h : fillSlots index (slot :: slots) placeholders = .ok args) :
    ∃ a rest, args = a :: rest ∧ slot.or placeholders.head?.join = some a ∧
      fillSlots (index + 1) slots placeholders.tail = .ok rest := by
  have cons {a : α}
      (hrest : (fillSlots (index + 1) slots placeholders.tail).map (a :: ·) = .ok args) :
      ∃ rest, args = a :: rest ∧ fillSlots (index + 1) slots placeholders.tail = .ok rest := by
    cases hfill : fillSlots (index + 1) slots placeholders.tail with
    | error e =>
      rw [hfill] at hrest
      cases hrest
    | ok rest =>
      rw [hfill] at hrest
      cases hrest
      exact ⟨rest, rfl, rfl⟩
  cases slot with
  | some a =>
    obtain ⟨rest, hargs, hrest⟩ := cons h
    exact ⟨a, rest, hargs, rfl, hrest⟩
  | none =>
    rcases placeholders with _ | ⟨_ | a, placeholders⟩
    · cases h
    · cases h
    · obtain ⟨rest, hargs, hrest⟩ := cons h
      exact ⟨a, rest, hargs, rfl, hrest⟩

theorem fillSlots_mem (index : Nat) {args : List α}
    (h : fillSlots index slots placeholders = .ok args) :
    ∀ a ∈ args, some a ∈ slots ∨ some a ∈ placeholders := by
  induction slots generalizing index placeholders args with
  | nil =>
    cases h
    exact fun a ha => by cases ha
  | cons slot slots ih =>
    obtain ⟨b, rest, rfl, hb, hrest⟩ := fillSlots_cons_ok h
    refine List.forall_mem_cons.mpr ⟨?_, fun a ha => ?_⟩
    · rcases Option.or_eq_some_iff.mp hb with rfl | ⟨_, hb⟩
      · exact .inl (.head _)
      · exact .inr (List.mem_of_mem_head? (Option.join_eq_some_iff.mp hb))
    · exact (ih _ hrest a ha).imp (.tail _) List.mem_of_mem_tail

/-- Every argument is what a slot provides or a placeholder. -/
theorem arguments_mem {args : List α} (h : arguments slots placeholders = .ok args) :
    ∀ a ∈ args, some a ∈ slots ∨ some a ∈ placeholders := by
  unfold arguments at h
  split at h
  · cases h
  · intro a ha
    obtain ⟨k, hk⟩ := providedSlots_append slots
    refine (fillSlots_mem 0 h a ha).imp_left fun hs => ?_
    rw [hk]
    exact List.mem_append_left _ hs

theorem fillSlots_getElem? (index : Nat) {args : List α}
    (h : fillSlots index slots placeholders = .ok args) :
    args.length = slots.length ∧
      ∀ i < args.length, args[i]? = slots[i]?.join.or placeholders[i]?.join := by
  induction slots generalizing index placeholders args with
  | nil =>
    cases h
    simp
  | cons slot slots ih =>
    obtain ⟨a, rest, rfl, ha, hrest⟩ := fillSlots_cons_ok h
    obtain ⟨hlength, hget⟩ := ih _ hrest
    refine ⟨congrArg (· + 1) hlength, fun i hi => ?_⟩
    cases i with
    | zero =>
      rw [List.head?_eq_getElem?] at ha
      exact ha.symm
    | succ i =>
      have hi := hget i (Nat.lt_of_succ_lt_succ hi)
      rwa [List.getElem?_tail] at hi

/-- A slot is kept exactly if it or a slot after it is provided. -/
theorem lt_providedSlots_iff {i : Nat} :
    i < (providedSlots slots).length ↔ ∃ j a, i ≤ j ∧ slots[j]? = some (some a) := by
  constructor
  · intro hi
    obtain ⟨slot, hlast⟩ :
        ∃ slot, (providedSlots slots)[(providedSlots slots).length - 1]? = some slot :=
      ⟨_, List.getElem?_eq_getElem (by omega)⟩
    cases slot with
    | none =>
      have := lt_of_providedSlots_none hlast
      omega
    | some a =>
      rw [providedSlots_getElem? (by omega)] at hlast
      exact ⟨_, a, by omega, hlast⟩
  · rintro ⟨j, a, hij, ha⟩
    refine Nat.lt_of_not_le fun hi => ?_
    cases eq_none_of_dropped (Nat.le_trans hi hij) ha

theorem providedSlots_append_none (slots : List (Option α)) (n : Nat) :
    providedSlots (slots ++ List.replicate n none) = providedSlots slots := by
  unfold providedSlots
  rw [List.reverse_append, List.reverse_replicate, List.dropWhile_append_of_pos]
  intro slot hslot
  rw [List.eq_of_mem_replicate hslot]
  rfl

/-- Placeholders after the last slot are not looked at. -/
theorem fillSlots_append (index : Nat) (hlength : slots.length ≤ placeholders.length)
    (more : List (Option α)) :
    fillSlots index slots (placeholders ++ more) = fillSlots index slots placeholders := by
  induction slots generalizing index placeholders with
  | nil => rfl
  | cons slot slots ih =>
    obtain ⟨p, placeholders, rfl⟩ :=
      List.exists_cons_of_length_pos (Nat.lt_of_lt_of_le (by simp) hlength)
    have ih := @ih placeholders (index + 1) (by simpa using hlength)
    rcases slot with _ | a
    · rcases p with _ | b
      · rfl
      · rw [List.cons_append, fillSlots, fillSlots, ih]
    · rw [List.cons_append, fillSlots, fillSlots, List.tail_cons, List.tail_cons, ih]

theorem fillSlots_error_iff (index : Nat) : (∃ e, fillSlots index slots placeholders = .error e) ↔
    ∃ i : Nat, slots[i]? = some none ∧ placeholders[i]?.join = none := by
  constructor
  · rintro ⟨e, he⟩
    refine Classical.byContradiction fun hall => ?_
    obtain ⟨args, hargs⟩ := @fillSlots_ok _ slots placeholders index fun i hi => by
      have hsome := Option.ne_none_iff_exists'.mp fun hnone => hall ⟨i, hi, hnone⟩
      exact hsome.imp fun a ha => Option.join_eq_some_iff.mp ha
    rw [he] at hargs
    cases hargs
  · rintro ⟨i, hslot, hplaceholder⟩
    cases hfill : fillSlots index slots placeholders with
    | error e => exact ⟨e, rfl⟩
    | ok args =>
      obtain ⟨hlength, hget⟩ := fillSlots_getElem? index hfill
      have hi : i < args.length := hlength ▸ (List.getElem?_eq_some_iff.mp hslot).1
      have hnone := hget i hi
      rw [hslot, hplaceholder] at hnone
      exact absurd (List.getElem?_eq_none_iff.mp hnone) (Nat.not_le.mpr hi)

theorem arguments_error_iff : (∃ e, arguments slots placeholders = .error e) ↔
    placeholders.length < slots.length ∨ ∃ (i j : Nat) (a : α), i < j ∧ slots[i]? = some none ∧
      placeholders[i]? = some none ∧ slots[j]? = some (some a) := by
  unfold arguments
  split
  · rename_i hfew
    exact ⟨fun _ => .inl hfew, fun _ => ⟨_, rfl⟩⟩
  rename_i hlength
  rw [fillSlots_error_iff]
  constructor
  · rintro ⟨i, hslot, hplaceholder⟩
    have hlast := lt_of_providedSlots_none hslot
    have hle := providedSlots_length_le slots
    obtain ⟨j, a, hij, ha⟩ := lt_providedSlots_iff.mp hlast
    rw [providedSlots_getElem? (by omega)] at hslot
    have hi : i < placeholders.length := by omega
    rw [List.getElem?_eq_getElem hi, Option.join_some] at hplaceholder
    refine .inr ⟨i, j, a, hij, hslot, ?_, ha⟩
    rw [List.getElem?_eq_getElem hi, hplaceholder]
  · rintro (hfew | ⟨i, j, a, hij, hslot, hplaceholder, ha⟩)
    · exact absurd hfew hlength
    · have hi := lt_providedSlots_iff.mpr ⟨j, a, Nat.le_of_lt hij, ha⟩
      refine ⟨i, ?_, ?_⟩
      · rw [providedSlots_getElem? hi, hslot]
      · rw [hplaceholder]
        rfl

theorem arguments_getElem? {args : List α} (h : arguments slots placeholders = .ok args) :
    args.length = (providedSlots slots).length ∧
      ∀ i < args.length, args[i]? = slots[i]?.join.or placeholders[i]?.join := by
  unfold arguments at h
  split at h
  · cases h
  obtain ⟨hlength, hget⟩ := fillSlots_getElem? 0 h
  refine ⟨hlength, fun i hi => ?_⟩
  rw [hget i hi, providedSlots_getElem? (hlength ▸ hi)]

theorem arguments_append_none (more : List (Option α)) :
    arguments (slots ++ List.replicate more.length none) (placeholders ++ more) =
      arguments slots placeholders := by
  unfold arguments
  rw [providedSlots_append_none]
  simp only [List.length_append, List.length_replicate, Nat.add_lt_add_iff_right]
  split
  · rfl
  · rename_i hlength
    have := providedSlots_length_le slots
    exact fillSlots_append 0 (by omega) more

/-- Arguments keep the places of their slots. There are none exactly if placeholders are missing:
fewer than slots, or that of an empty slot before one that is provided. Otherwise the last argument
stands in the last slot that is provided, each argument is what its slot provides or the placeholder
of the slot, and empty slots that follow, with their placeholders, change nothing. -/
theorem arguments_in_place (slots placeholders : List (Option α)) :
    ((∃ e, arguments slots placeholders = .error e) ↔
      placeholders.length < slots.length ∨ ∃ (i j : Nat) (a : α), i < j ∧ slots[i]? = some none ∧
        placeholders[i]? = some none ∧ slots[j]? = some (some a)) ∧
    (∀ args, arguments slots placeholders = .ok args →
      (∀ (j : Nat) a, slots[j]? = some (some a) → j < args.length) ∧
      (∀ k, args.length = k + 1 → ∃ a, slots[k]? = some (some a)) ∧
      ∀ i < args.length, args[i]? = slots[i]?.join.or placeholders[i]?.join) ∧
    ∀ more, arguments (slots ++ List.replicate more.length none) (placeholders ++ more) =
      arguments slots placeholders := by
  refine ⟨arguments_error_iff, fun args h => ?_, arguments_append_none⟩
  obtain ⟨hlength, hget⟩ := arguments_getElem? h
  rw [hlength] at hget ⊢
  refine ⟨fun j a ha => lt_providedSlots_iff.mpr ⟨j, a, Nat.le_refl j, ha⟩, fun k hk => ?_, hget⟩
  -- A slot from `k` on is provided, and the one after `k` is dropped.
  obtain ⟨j, a, hkj, ha⟩ := lt_providedSlots_iff.mp (show k < (providedSlots slots).length by omega)
  have hj := lt_providedSlots_iff.mpr ⟨j, a, Nat.le_refl j, ha⟩
  exact ⟨a, (show j = k by omega) ▸ ha⟩

end CartGraph.Lua
