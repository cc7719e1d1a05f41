import CartGraph.Lua.FreshName
import CartGraph.Lua.Identifier
import Mathlib.Data.List.Nodup
import Mathlib.Data.List.Perm.Subperm

/-! # Names of the user, hidden names and numbered names

A sanitised name is made of lower-case letters, digits and underscores, and it is neither empty nor
a reserved word nor a hidden name. Numbering a name that is taken keeps what it is made of and finds
a name that is free. -/
namespace CartGraph.Lua

/-- No reserved word has an underscore, so a name that gets one is none. -/
theorem reserved_underscore : ∀ w ∈ reserved, '_' ∉ w.toList := by decide

theorem maskChar_lower (c : Char) : isLowerNameChar (maskChar c) = true := by
  unfold maskChar
  split
  · assumption
  · rfl

theorem guardDigit_lower {cs : List Char} (h : ∀ c ∈ cs, isLowerNameChar c = true) :
    ∀ c ∈ guardDigit cs, isLowerNameChar c = true := by
  unfold guardDigit
  split
  · simpa using ⟨by decide, by decide, h⟩
  · exact h

theorem guardReserved_lower {cs : List Char} (h : ∀ c ∈ cs, isLowerNameChar c = true) :
    ∀ c ∈ guardReserved cs, isLowerNameChar c = true := by
  unfold guardReserved
  split
  · intro c hc
    rcases List.mem_append.mp hc with hc | hc
    · exact h c hc
    · rw [List.mem_singleton.mp hc]; decide
  · exact h

theorem guardHidden_lower {cs : List Char} (h : ∀ c ∈ cs, isLowerNameChar c = true) :
    ∀ c ∈ guardHidden cs, isLowerNameChar c = true := by
  unfold guardHidden
  split
  · simpa using ⟨by decide, h⟩
  · exact h

theorem guardReserved_free (cs : List Char) : String.ofList (guardReserved cs) ∉ reserved := by
  unfold guardReserved
  split
  · intro hm
    exact reserved_underscore _ hm (by simp)
  · rename_i h
    simpa using h

theorem guardHidden_free {cs : List Char} (h : String.ofList cs ∉ reserved) :
    String.ofList (guardHidden cs) ∉ reserved := by
  unfold guardHidden
  split
  · rename_i hp
    intro hm
    obtain ⟨rest, rfl⟩ := List.isPrefixOf_iff_prefix.mp hp
    exact reserved_underscore _ hm (by simp [hiddenStart])
  · exact h

theorem guardHidden_visible (cs : List Char) : ¬ hiddenStart.toList <+: guardHidden cs := by
  unfold guardHidden
  split
  · rintro ⟨rest, hr⟩
    simp [hiddenStart] at hr
  · rename_i h
    exact fun hp => h (List.isPrefixOf_iff_prefix.mpr hp)

theorem sanitize_cases (raw : String) :
    sanitize raw = "var" ∨ folded raw ≠ [] ∧ sanitize raw =
      String.ofList (guardHidden (guardReserved (guardDigit ((folded raw).map maskChar)))) := by
  unfold sanitize
  by_cases h : (folded raw).any isLowerAlnum = true
  · obtain ⟨c, hc, _⟩ := List.any_eq_true.mp h
    exact .inr ⟨List.ne_nil_of_mem hc, if_pos h⟩
  · exact .inl (if_neg h)

theorem sanitize_lower (raw : String) : ∀ c ∈ (sanitize raw).toList, isLowerNameChar c = true := by
  rcases sanitize_cases raw with h | ⟨_, h⟩ <;> rw [h]
  · exact List.all_eq_true.mp (by decide)
  · rw [String.toList_ofList]
    refine guardHidden_lower (guardReserved_lower (guardDigit_lower fun c hc => ?_))
    obtain ⟨a, _, rfl⟩ := List.mem_map.mp hc
    exact maskChar_lower a

theorem sanitize_free (raw : String) : sanitize raw ∉ reserved := by
  rcases sanitize_cases raw with h | ⟨_, h⟩ <;> rw [h]
  · decide
  · exact guardHidden_free (guardReserved_free _)

theorem sanitize_visible (raw : String) : ¬ hiddenStart.toList <+: (sanitize raw).toList := by
  rcases sanitize_cases raw with h | ⟨_, h⟩ <;> rw [h]
  · decide
  · rw [String.toList_ofList]
    exact guardHidden_visible _

theorem sanitize_ne_empty (raw : String) : sanitize raw ≠ "" := by
  rcases sanitize_cases raw with h | ⟨hne, h⟩ <;> rw [h]
  · decide
  · intro he
    have he := congrArg String.toList he
    rw [String.toList_ofList] at he
    revert he
    unfold guardHidden guardReserved guardDigit
    split <;> split <;> split <;> simp [hne]

/-! No name of the user starts with a digit. -/

theorem guardDigit_head (cs : List Char) : ∀ c ∈ (guardDigit cs).head?, c.isDigit = false := by
  unfold guardDigit
  split
  · rintro c ⟨⟩
    decide
  · rename_i h
    intro c hc
    rw [Option.mem_def.mp hc] at h
    exact Bool.eq_false_iff.mpr h

theorem guardReserved_head {cs : List Char} (h : ∀ c ∈ cs.head?, c.isDigit = false) :
    ∀ c ∈ (guardReserved cs).head?, c.isDigit = false := by
  unfold guardReserved
  split
  · cases cs with
    | nil =>
      rintro c ⟨⟩
      decide
    | cons c cs => exact h
  · exact h

theorem guardHidden_head {cs : List Char} (h : ∀ c ∈ cs.head?, c.isDigit = false) :
    ∀ c ∈ (guardHidden cs).head?, c.isDigit = false := by
  unfold guardHidden
  split
  · rintro c ⟨⟩
    decide
  · exact h

theorem sanitize_head (raw : String) : ∀ c ∈ (sanitize raw).toList.head?, c.isDigit = false := by
  rcases sanitize_cases raw with h | ⟨_, h⟩ <;> rw [h]
  · rintro c ⟨⟩
    decide
  · rw [String.toList_ofList]
    exact guardHidden_head (guardReserved_head (guardDigit_head _))

/-! ## Trimming -/

theorem mem_of_mem_trimBy {p : Char → Bool} {cs : List Char} {c : Char}
    (h : c ∈ Text.trimBy p cs) : c ∈ cs := by
  unfold Text.trimBy at h
  have h := (List.dropWhile_sublist p).subset (List.mem_reverse.mp h)
  exact (List.dropWhile_sublist p).subset (List.mem_reverse.mp h)

theorem trimBy_eq_self {p : Char → Bool} {cs : List Char} (h : ∀ c ∈ cs, p c = false) :
    Text.trimBy p cs = cs := by
  have hdrop {cs : List Char} (h : ∀ c ∈ cs, p c = false) : cs.dropWhile p = cs := by
    cases cs with
    | nil => rfl
    | cons c cs => exact List.dropWhile_cons_of_neg (by simp [h c (.head _)])
  rw [Text.trimBy, hdrop h, hdrop fun c hc => h c (List.mem_reverse.mp hc), List.reverse_reverse]

theorem strip_eq_self {s : String} (h : ∀ c ∈ s.toList, Text.isBlank c = false) :
    Text.strip s = s := by
  rw [Text.strip, trimBy_eq_self h, String.ofList_toList]

/-! ## Hidden names -/

theorem hiddenPart_lower {raw fallback : String}
    (h : ∀ c ∈ fallback.toList, isLowerNameChar c = true) :
    ∀ c ∈ hiddenPart raw fallback, isLowerNameChar c = true := by
  intro c hc
  unfold hiddenPart at hc
  dsimp only at hc
  split at hc
  · exact h c hc
  · obtain ⟨a, _, rfl⟩ := List.mem_map.mp (mem_of_mem_trimBy hc)
    exact maskChar_lower a

theorem hidden_lower (owner label : String) :
    ∀ c ∈ (hidden owner label).toList, isLowerNameChar c = true := by
  intro c hc
  have hstart : ∀ c ∈ hiddenStart.toList, isLowerNameChar c = true :=
    List.all_eq_true.mp (by decide)
  rw [hidden, String.toList_ofList] at hc
  rcases List.mem_append.mp hc with hc | hc
  · rcases List.mem_append.mp hc with hc | hc
    · exact hstart c hc
    · exact hiddenPart_lower (List.all_eq_true.mp (by decide)) c hc
  · rcases List.mem_cons.mp hc with rfl | hc
    · decide
    · exact hiddenPart_lower (List.all_eq_true.mp (by decide)) c hc

theorem hidden_hidden (owner label : String) : hiddenStart.toList <+: (hidden owner label).toList := by
  rw [hidden, String.toList_ofList, List.append_assoc]
  exact List.prefix_append ..

theorem mem_hidden {owner label : String} {c : Char} (h : c ∈ hiddenPart label "tmp") :
    c ∈ (hidden owner label).toList := by
  rw [hidden, String.toList_ofList]
  exact List.mem_append_right _ (.tail _ h)

/-! ## Numbered names -/

theorem toString_digits (n : Nat) : ∀ c ∈ (toString n).toList, c.isDigit = true := by
  intro c hc
  rw [Nat.toString_eq_ofList_toDigits, String.toList_ofList] at hc
  exact Nat.isDigit_of_mem_toDigits (by decide) (by decide) hc

theorem numbered_lower {base : String} (h : ∀ c ∈ base.toList, isLowerNameChar c = true) (n : Nat) :
    ∀ c ∈ (numbered base n).toList, isLowerNameChar c = true := by
  intro c hc
  rw [numbered, String.toList_append, String.toList_append] at hc
  rcases List.mem_append.mp hc with hc | hc
  · rcases List.mem_append.mp hc with hc | hc
    · exact h c hc
    · rw [List.mem_singleton.mp (by simpa using hc : c ∈ ['_'])]
      decide
  · simp [isLowerNameChar, isLowerAlnum, toString_digits n c hc]

theorem numbered_injective (base : String) {m n : Nat} (h : numbered base m = numbered base n) :
    m = n := by
  have h := congrArg String.toList h
  simp only [numbered, String.toList_append, Nat.toString_eq_ofList_toDigits] at h
  have h := congrArg (fun ds => Nat.ofDigitChars 10 ds 0) (List.append_cancel_left h)
  simpa using h

theorem firstFree_cases (used : List String) (base : String) (tries start : Nat) :
    ∃ n, firstFree used base tries start = numbered base n ∧ start ≤ n ∧ n ≤ start + tries ∧
      (∀ i, start ≤ i → i < n → numbered base i ∈ used) ∧
      (n < start + tries → numbered base n ∉ used) := by
  induction tries generalizing start with
  | zero => exact ⟨start, rfl, by omega, by omega, by omega, by omega⟩
  | succ tries ih =>
    unfold firstFree
    split
    · rename_i hu
      obtain ⟨n, hn, hle, hge, hall, hfree⟩ := ih (start + 1)
      refine ⟨n, hn, by omega, by omega, fun i hi hin => ?_, fun hlt => hfree (by omega)⟩
      rcases Nat.eq_or_lt_of_le hi with rfl | hi
      · simpa using hu
      · exact hall i hi hin
    · rename_i hu
      exact ⟨start, rfl, by omega, by omega, by omega, fun _ => by simpa using hu⟩

/-- Different numbers give different names, so among more of them than names are in use one is
free. -/
theorem firstFree_not_mem (used : List String) (base : String) (start : Nat) :
    firstFree used base used.length start ∉ used := by
  obtain ⟨n, hn, hle, hge, hall, hfree⟩ := firstFree_cases used base used.length start
  rw [hn]
  intro hmem
  have hlast : n = start + used.length := by
    rcases Nat.lt_or_ge n (start + used.length) with hlt | hge'
    · exact absurd hmem (hfree hlt)
    · omega
  have hsubset : (List.range (used.length + 1)).map (fun i => numbered base (start + i)) ⊆ used := by
    intro name hname
    obtain ⟨i, hi, rfl⟩ := List.mem_map.mp hname
    have hi := List.mem_range.mp hi
    rcases Nat.lt_or_ge (start + i) n with hlt | hge'
    · exact hall (start + i) (by omega) hlt
    · rw [show start + i = n by omega]
      exact hmem
  have hnodup : ((List.range (used.length + 1)).map fun i => numbered base (start + i)).Nodup :=
    List.nodup_range.map fun i j hij => by
      have := numbered_injective base hij
      omega
  have hlength := (List.subperm_of_subset hnodup hsubset).length_le
  rw [List.length_map, List.length_range] at hlength
  omega

theorem fresh_not_mem (used : List String) (base : String) (start : Nat) :
    fresh used base start ∉ used := by
  unfold fresh
  split
  · exact firstFree_not_mem used base start
  · rename_i h
    simpa using h

theorem fresh_cases (used : List String) (base : String) (start : Nat) :
    fresh used base start = base ∨ ∃ n, fresh used base start = numbered base n := by
  unfold fresh
  split
  · obtain ⟨n, hn, _⟩ := firstFree_cases used base used.length start
    exact .inr ⟨n, hn⟩
  · exact .inl rfl

theorem fresh_lower {base : String} (h : ∀ c ∈ base.toList, isLowerNameChar c = true)
    (used : List String) (start : Nat) :
    ∀ c ∈ (fresh used base start).toList, isLowerNameChar c = true := by
  rcases fresh_cases used base start with he | ⟨n, he⟩ <;> rw [he]
  · exact h
  · exact numbered_lower h n

/-- A name starts with what it was numbered from. -/
theorem fresh_base (used : List String) (base : String) (start : Nat) :
    base.toList <+: (fresh used base start).toList := by
  rcases fresh_cases used base start with he | ⟨n, he⟩
  · simp only [he, List.prefix_rfl]
  · rw [he, numbered, String.toList_append, String.toList_append, List.append_assoc]
    exact List.prefix_append ..

theorem fresh_head {base : String} (hne : base ≠ "")
    (h : ∀ c ∈ base.toList.head?, c.isDigit = false) (used : List String) (start : Nat) :
    ∀ c ∈ (fresh used base start).toList.head?, c.isDigit = false := by
  obtain ⟨rest, hrest⟩ := fresh_base used base start
  cases hb : base.toList with
  | nil => exact absurd (String.toList_eq_nil_iff.mp hb) hne
  | cons c cs =>
    rw [hb] at h hrest
    rw [← hrest]
    exact h

/-- A numbered name is hidden only if nothing but its number stands outside of the marker. -/
theorem fresh_visible {base : String} (h : ¬ hiddenStart.toList <+: base.toList)
    {used : List String} {start : Nat} {c : Char} (hc : c ∈ (fresh used base start).toList)
    (hmarker : c ∉ hiddenStart.toList) (hdigit : c.isDigit = false) :
    ¬ hiddenStart.toList <+: (fresh used base start).toList := by
  rcases fresh_cases used base start with he | ⟨n, he⟩ <;> rw [he] at hc ⊢
  · exact h
  · intro hp
    rw [numbered, String.toList_append, String.toList_append, List.append_assoc] at hc hp
    rcases List.mem_append.mp hc with hc | hc
    · rcases List.prefix_or_prefix_of_prefix hp (List.prefix_append ..) with hp | hp
      · exact h hp
      · exact hmarker (hp.subset hc)
    · rcases List.mem_append.mp hc with hc | hc
      · rw [List.mem_singleton.mp (by simpa using hc : c ∈ ['_'])] at hmarker
        exact hmarker (by decide)
      · exact Bool.false_ne_true (hdigit.symm.trans (toString_digits n c hc))

theorem fresh_free {base : String} (h : base ∉ reserved) (used : List String) (start : Nat) :
    fresh used base start ∉ reserved := by
  rcases fresh_cases used base start with he | ⟨n, he⟩ <;> rw [he]
  · exact h
  · exact fun hm => reserved_underscore _ hm (by simp [numbered])

end CartGraph.Lua
