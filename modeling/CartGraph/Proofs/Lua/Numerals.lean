import CartGraph.Proofs.Lua.Literals
import CartGraph.Proofs.Lua.Names
import CartGraph.Proofs.Number.ShortestText

/-! # Numerals of the console

The console reads decimal, hexadecimal and binary numerals with an optional fraction, and no
exponents. A number pin writes such a numeral, unless digits of another script were typed or the
number is a double below `0.0001`, whose text has an exponent. -/
namespace CartGraph

namespace Lua

/-! ## The grammar -/

/-- One digit or more of some sort, then perhaps a point and any number of digits. -/
inductive WithFraction (isDigit : Char → Bool) : List Char → Prop
  | whole {ds : List Char} (hne : ds ≠ []) (h : ∀ c ∈ ds, isDigit c = true) :
      WithFraction isDigit ds
  | point {ds fs : List Char} (hne : ds ≠ []) (h : ∀ c ∈ ds, isDigit c = true)
      (hfs : ∀ c ∈ fs, isDigit c = true) : WithFraction isDigit (ds ++ '.' :: fs)

/-- A numeral without a sign, given the decimal digits. -/
inductive Unsigned (isDigit : Char → Bool) : List Char → Prop
  | decimal {cs : List Char} (h : WithFraction isDigit cs) : Unsigned isDigit cs
  | fraction {fs : List Char} (hne : fs ≠ []) (h : ∀ c ∈ fs, isDigit c = true) :
      Unsigned isDigit ('.' :: fs)
  | hexadecimal {c : Char} {cs : List Char} (hc : c = 'x' ∨ c = 'X')
      (h : WithFraction isHexDigit cs) : Unsigned isDigit ('0' :: c :: cs)
  | binary {c : Char} {cs : List Char} (hc : c = 'b' ∨ c = 'B')
      (h : WithFraction isBinaryDigit cs) : Unsigned isDigit ('0' :: c :: cs)

inductive Numeral (isDigit : Char → Bool) : List Char → Prop
  | positive {cs : List Char} (h : Unsigned isDigit cs) : Numeral isDigit cs
  | negative {cs : List Char} (h : Unsigned isDigit cs) : Numeral isDigit ('-' :: cs)

variable {isDigit : Char → Bool} {cs : List Char}

theorem isDigitsWithFraction_iff (hpoint : isDigit '.' = false) :
    isDigitsWithFraction isDigit cs = true ↔ WithFraction isDigit cs := by
  constructor
  · intro h
    obtain ⟨hne, hrest⟩ := Bool.and_eq_true_iff.mp h
    have hne : cs.takeWhile isDigit ≠ [] := by simpa using hne
    have hds : ∀ c ∈ cs.takeWhile isDigit, isDigit c = true := fun c hc =>
      List.mem_takeWhile_imp hc
    have hcs := List.takeWhile_append_dropWhile (p := isDigit) (l := cs)
    cases hdrop : cs.dropWhile isDigit with
    | nil =>
      rw [hdrop, List.append_nil] at hcs
      exact hcs ▸ .whole hne hds
    | cons c fs =>
      rw [hdrop] at hrest hcs
      obtain ⟨hc, hfs⟩ := Bool.and_eq_true_iff.mp hrest
      rw [eq_of_beq hc] at hcs
      exact hcs ▸ .point hne hds (List.all_eq_true.mp hfs)
  · rintro (⟨hne, h⟩ | ⟨hne, h, hfs⟩)
    · rw [isDigitsWithFraction, List.takeWhile_eq_self_iff.mpr h, List.dropWhile_eq_nil_iff.mpr h]
      simp [isFraction, hne]
    · rw [isDigitsWithFraction, List.takeWhile_append_of_pos h, List.dropWhile_append_of_pos h]
      simpa [isFraction, hpoint, hne] using hfs

theorem WithFraction.head (h : WithFraction isDigit cs) : ∃ c rest, cs = c :: rest ∧
    isDigit c = true ∧ ∀ d ∈ rest.head?, isDigit d = true ∨ d = '.' := by
  have second {ds tail : List Char} (hds : ∀ c ∈ ds, isDigit c = true)
      (htail : ∀ d ∈ tail.head?, d = '.') :
      ∀ d ∈ (ds ++ tail).head?, isDigit d = true ∨ d = '.' := by
    cases ds with
    | nil => exact fun d hd => .inr (htail d hd)
    | cons d ds =>
      rintro _ ⟨⟩
      exact .inl (hds d (.head _))
  cases h with
  | whole hne h =>
    obtain ⟨c, ds, rfl⟩ := List.exists_cons_of_ne_nil hne
    obtain ⟨hc, hds⟩ := List.forall_mem_cons.mp h
    have := @second _ [] hds (by simp)
    exact ⟨c, ds, rfl, hc, by rwa [List.append_nil] at this⟩
  | point hne h hfs =>
    obtain ⟨c, ds, rfl⟩ := List.exists_cons_of_ne_nil hne
    obtain ⟨hc, hds⟩ := List.forall_mem_cons.mp h
    exact ⟨c, _, rfl, hc, second hds (by simp)⟩

/-- After a decimal digit comes another or a point, but no marker of another base. -/
theorem isUnsignedNumeral_decimal (h : WithFraction Text.isDecimalDigit cs) :
    isUnsignedNumeral cs = true := by
  have hdigits := (isDigitsWithFraction_iff (by decide)).mpr h
  obtain ⟨c, rest, rfl, hc, hsecond⟩ := h.head
  have hmarker : ∀ d ∈ ['x', 'X', 'b', 'B'], ¬ (Text.isDecimalDigit d = true ∨ d = '.') :=
    forall_mem_of_all (by decide)
  unfold isUnsignedNumeral
  split
  · rename_i d rest heq
    cases heq
    have hd := hsecond d rfl
    have hne {m : Char} (hm : m ∈ ['x', 'X', 'b', 'B']) : d ≠ m := fun h => hmarker m hm (h ▸ hd)
    rw [if_neg (by simp [@hne 'x' (by simp), @hne 'X' (by simp)]),
      if_neg (by simp [@hne 'b' (by simp), @hne 'B' (by simp)])]
    exact hdigits
  · rename_i heq
    cases heq
    exact absurd hc (by decide)
  · exact hdigits

theorem isUnsignedNumeral_iff : isUnsignedNumeral cs = true ↔ Unsigned Text.isDecimalDigit cs := by
  constructor
  · intro h
    unfold isUnsignedNumeral at h
    split at h
    · split_ifs at h with hhex hbinary
      · exact .hexadecimal (by simpa using hhex) ((isDigitsWithFraction_iff (by decide)).mp h)
      · exact .binary (by simpa using hbinary) ((isDigitsWithFraction_iff (by decide)).mp h)
      · exact .decimal ((isDigitsWithFraction_iff (by decide)).mp h)
    · obtain ⟨hne, hfs⟩ := Bool.and_eq_true_iff.mp h
      exact .fraction (by simpa using hne) (List.all_eq_true.mp hfs)
    · exact .decimal ((isDigitsWithFraction_iff (by decide)).mp h)
  · rintro (h | ⟨hne, h⟩ | ⟨hc, h⟩ | ⟨hc, h⟩)
    · exact isUnsignedNumeral_decimal h
    · exact Bool.and_eq_true_iff.mpr ⟨by simpa using hne, List.all_eq_true.mpr h⟩
    · rw [isUnsignedNumeral, if_pos (by simpa using hc)]
      exact (isDigitsWithFraction_iff (by decide)).mpr h
    · rw [isUnsignedNumeral, if_neg (by rcases hc with rfl | rfl <;> decide),
        if_pos (by simpa using hc)]
      exact (isDigitsWithFraction_iff (by decide)).mpr h

theorem Unsigned.head_ne (hminus : isDigit '-' = false) (h : Unsigned isDigit cs) :
    ∀ c ∈ cs.head?, c ≠ '-' := by
  cases h with
  | decimal h =>
    obtain ⟨c, rest, rfl, hc, _⟩ := h.head
    rintro _ ⟨⟩ rfl
    exact Bool.false_ne_true (hminus.symm.trans hc)
  | fraction | hexadecimal | binary => simp

theorem isNumeral_iff : isNumeral cs = true ↔ Numeral Text.isDecimalDigit cs := by
  constructor
  · intro h
    unfold isNumeral at h
    split at h
    · exact .negative (isUnsignedNumeral_iff.mp h)
    · exact .positive (isUnsignedNumeral_iff.mp h)
  · rintro (h | h)
    · unfold isNumeral
      split
      · exact absurd rfl (h.head_ne (by decide) '-' rfl)
      · exact isUnsignedNumeral_iff.mpr h
    · exact isUnsignedNumeral_iff.mpr h

/-! ## The characters of numerals -/

theorem WithFraction.forall {P : Char → Prop} (h : WithFraction isDigit cs)
    (hdigit : ∀ c ∈ cs, isDigit c = true → P c) (hpoint : P '.') : ∀ c ∈ cs, P c := by
  cases h with
  | whole _ h => exact fun c hc => hdigit c hc (h c hc)
  | point _ h hfs =>
    intro c hc
    rcases List.mem_append.mp hc with hds | hrest
    · exact hdigit c hc (h c hds)
    · rcases List.mem_cons.mp hrest with rfl | hrest
      · exact hpoint
      · exact hdigit c hc (hfs c hrest)

def isMarker (c : Char) : Bool := isHexDigit c || ['-', '.', 'x', 'X'].contains c

theorem Numeral.chars (h : Numeral isDigit cs) :
    ∀ c ∈ cs, isDigit c = true ∨ isMarker c = true := by
  have hbased {p : Char → Bool} (hp : ∀ c, p c = true → isMarker c = true) {c : Char}
      (hc : isMarker c = true) {cs : List Char} (h : WithFraction p cs) :
      ∀ d ∈ '0' :: c :: cs, isDigit d = true ∨ isMarker d = true := by
    refine List.forall_mem_cons.mpr ⟨.inr (by decide), List.forall_mem_cons.mpr ⟨.inr hc, ?_⟩⟩
    exact h.forall (fun c _ hc => .inr (hp c hc)) (.inr (by decide))
  have hunsigned {cs : List Char} (h : Unsigned isDigit cs) :
      ∀ c ∈ cs, isDigit c = true ∨ isMarker c = true := by
    cases h with
    | decimal h => exact h.forall (fun c _ hc => .inl hc) (.inr (by decide))
    | fraction _ h => exact List.forall_mem_cons.mpr ⟨.inr (by decide), fun c hc => .inl (h c hc)⟩
    | hexadecimal hc h =>
      refine hbased (fun c hc => ?_) (by rcases hc with rfl | rfl <;> decide) h
      simp [isMarker, hc]
    | binary hc h =>
      refine hbased (fun c hc => ?_) (by rcases hc with rfl | rfl <;> decide) h
      have hdigit : c = '0' ∨ c = '1' := by simpa [isBinaryDigit] using hc
      rcases hdigit with rfl | rfl <;> decide
  cases h with
  | positive h => exact hunsigned h
  | negative h => exact List.forall_mem_cons.mpr ⟨.inr (by decide), hunsigned h⟩

theorem isMarker_plain {c : Char} (h : isMarker c = true) :
    c.toNat < 128 ∧ Text.isBlank c = false := by
  have hcode : c.toNat < 128 := by
    have hbelow {d : Char} (hd : d.toNat < 128) (hle : c ≤ d) : c.toNat < 128 :=
      Nat.lt_of_le_of_lt (UInt32.le_iff_toNat_le.mp (Char.le_def.mp hle)) hd
    simp only [isMarker, isHexDigit, Bool.or_eq_true, Bool.and_eq_true, decide_eq_true_eq,
      List.contains_eq_mem, List.mem_cons, List.not_mem_nil, or_false] at h
    rcases h with ((hd | ⟨_, hle⟩) | ⟨_, hle⟩) | rfl | rfl | rfl | rfl
    · exact Nat.lt_of_le_of_lt (digit_toNat hd) (by decide)
    · exact hbelow (by decide) hle
    · exact hbelow (by decide) hle
    all_goals decide
  have hall : ∀ n < 128, isMarker (Char.ofNat n) = true → Text.isBlank (Char.ofNat n) = false := by
    decide
  have := hall c.toNat hcode
  rw [Char.ofNat_toNat] at this
  exact ⟨hcode, this h⟩

/-- A digit of any script is no blank, and the digits of ASCII are those of the first script. -/
theorem isDecimalDigit_plain {c : Char} (h : Text.isDecimalDigit c = true) :
    Text.isBlank c = false ∧ (c.toNat < 128 → c.isDigit = true) := by
  have hall : ∀ z ∈ Text.zeros, ∀ d < 10, Text.isBlank (Char.ofNat (z + d)) = false ∧
      (z + d < 128 → (Char.ofNat (z + d)).isDigit = true) := by decide +kernel
  unfold Text.isDecimalDigit Text.digitValue? at h
  rw [Option.isSome_map] at h
  obtain ⟨z, hz⟩ := Option.isSome_iff_exists.mp h
  have hrange := List.find?_some hz
  simp only [Bool.and_eq_true, decide_eq_true_eq] at hrange
  have := hall z (List.mem_of_find?_eq_some hz) (c.toNat - z) (by omega)
  rwa [show z + (c.toNat - z) = c.toNat by omega, Char.ofNat_toNat] at this

theorem isDecimalDigit_of_isDigit {c : Char} (h : c.isDigit = true) :
    Text.isDecimalDigit c = true := by
  have hall : ∀ n < 58, (Char.ofNat n).isDigit = true →
      Text.isDecimalDigit (Char.ofNat n) = true := by decide
  have := hall c.toNat (Nat.lt_succ_of_le (digit_toNat h))
  rw [Char.ofNat_toNat] at this
  exact this h

theorem Numeral.imp {isDigit' : Char → Bool} (h : Numeral isDigit cs)
    (himp : ∀ c ∈ cs, isDigit c = true → isDigit' c = true) : Numeral isDigit' cs := by
  have hdecimal {cs : List Char} (h : WithFraction isDigit cs)
      (himp : ∀ c ∈ cs, isDigit c = true → isDigit' c = true) : WithFraction isDigit' cs := by
    cases h with
    | whole hne h => exact .whole hne fun c hc => himp c hc (h c hc)
    | point hne h hfs =>
      exact .point hne (fun c hc => himp c (List.mem_append_left _ hc) (h c hc))
        fun c hc => himp c (List.mem_append_right _ (.tail _ hc)) (hfs c hc)
  have hunsigned {cs : List Char} (h : Unsigned isDigit cs)
      (himp : ∀ c ∈ cs, isDigit c = true → isDigit' c = true) : Unsigned isDigit' cs := by
    cases h with
    | decimal h => exact .decimal (hdecimal h himp)
    | fraction hne h => exact .fraction hne fun c hc => himp c (.tail _ hc) (h c hc)
    | hexadecimal hc h => exact .hexadecimal hc h
    | binary hc h => exact .binary hc h
  cases h with
  | positive h => exact .positive (hunsigned h himp)
  | negative h => exact .negative (hunsigned h fun c hc => himp c (.tail _ hc))

/-- The numerals that number text may be, without digits of other scripts, are the numerals of
ASCII. -/
theorem numeral_ascii_iff : Numeral Char.isDigit cs ↔
    Numeral Text.isDecimalDigit cs ∧ ∀ c ∈ cs, c.toNat < 128 := by
  constructor
  · intro h
    refine ⟨h.imp fun c _ hc => isDecimalDigit_of_isDigit hc, fun c hc => ?_⟩
    rcases h.chars c hc with hc | hc
    · have := digit_toNat hc
      omega
    · exact (isMarker_plain hc).1
  · rintro ⟨h, hascii⟩
    exact h.imp fun c hc hd => (isDecimalDigit_plain hd).2 (hascii c hc)

/-! ## Number text -/

theorem literal_numeral_iff {text key : String} :
    literal .number (.text text) key = .ok text ↔ Numeral Text.isDecimalDigit text.toList := by
  rw [← isNumeral_iff]
  change (if isNumeral (Text.strip text).toList then Except.ok (Text.strip text)
    else invalid key (.text text) "expected a number") = .ok text ↔ _
  constructor
  · intro h
    split at h
    · rename_i hnumeral
      rwa [Except.ok.inj h] at hnumeral
    · cases h
  · intro h
    have hstrip : Text.strip text = text := strip_eq_self fun c hc => by
      rcases (isNumeral_iff.mp h).chars c hc with hc | hc
      · exact (isDecimalDigit_plain hc).1
      · exact (isMarker_plain hc).2
    rw [hstrip, if_pos h]

theorem numeral_int (n : Int) : Numeral Char.isDigit (toString n).toList := by
  have hnat (m : Nat) : Unsigned Char.isDigit (toString m).toList := by
    rw [Nat.toString_eq_ofList_toDigits, String.toList_ofList]
    exact .decimal (.whole Nat.toDigits_ne_nil (Binary64.toDigits_digits m))
  cases n with
  | ofNat m => exact .positive (hnat m)
  | negSucc m =>
    change Numeral _ ("-" ++ toString (m + 1)).toList
    rw [String.toList_append]
    exact .negative (hnat (m + 1))

end Lua

namespace Binary64

variable {x : Binary64}

/-- Digits with an exponent. -/
theorem layout_exponent {digits : List Char} (h : ∀ c ∈ digits, c.isDigit = true) {point : Int}
    (hplaces : ¬ (-4 < point ∧ point ≤ 16)) :
    'e' ∈ layout digits point ∧
      ∀ c ∈ layout digits point, c.isDigit = true ∨ c ∈ ['.', 'e', '-', '+'] := by
  obtain ⟨d, ds, hd, hds, hexponent⟩ := exponentText_eq (point - 1)
  unfold layout
  rw [if_neg (by simpa using hplaces)]
  dsimp only
  rw [hexponent]
  refine ⟨by simp, fun c hc => ?_⟩
  rcases List.mem_append.mp hc with hc | hc
  · rcases List.mem_append.mp hc with hc | hc
    · exact .inl (h c (List.mem_of_mem_take hc))
    · split at hc
      · cases hc
      · rcases List.mem_cons.mp hc with rfl | hc
        · exact .inr (by simp)
        · exact .inl (h c (List.mem_of_mem_drop hc))
  · rcases List.mem_cons.mp hc with rfl | hc
    · exact .inr (by simp)
    · rcases List.mem_cons.mp hc with rfl | hc
      · exact .inr (by split <;> simp)
      · exact .inl ((List.mem_cons.mp hc).elim (fun h => h ▸ hd) (hds c))

theorem magnitudeText_eq (hzero : x.isZero = false) : x.magnitudeText =
    layout (stripTrailingZeros (Nat.toDigits 10 x.shortest.1)) x.textPoint := by
  rw [magnitudeText, hzero, if_neg Bool.false_ne_true]
  rfl

theorem not_isInteger_of_isTiny (h : x.isTiny = true) : x.isInteger = false := by
  simp only [isTiny, Bool.and_eq_true, Bool.not_eq_true', decide_eq_true_eq] at h
  obtain ⟨⟨hfinite, hzero⟩, hlt⟩ := h
  have hpos := ratio_num_pos hzero
  simp only [isInteger, hfinite, Bool.true_and, beq_eq_false_iff_ne]
  rw [Nat.mod_eq_of_lt (by omega)]
  omega

/-- A double with a fraction has its point in place, unless it is tiny. -/
theorem magnitudeText_withFraction (hfinite : x.isFinite = true) (hinteger : x.isInteger = false)
    (htiny : x.isTiny = false) : Lua.WithFraction Char.isDigit x.magnitudeText := by
  have hzero := not_isZero hfinite hinteger
  have hlow : ¬ x.textPoint ≤ -4 := fun h =>
    Bool.false_ne_true (htiny.symm.trans ((textPoint_le_iff hfinite hzero).mp h))
  obtain ⟨ds, fs, hne, hds, hfs, hlayout⟩ := layout_point (stripTrailingZeros_digits x.shortest.1)
    ⟨not_le.mp hlow, textPoint_le hfinite hinteger⟩
  rw [magnitudeText_eq hzero, hlayout]
  exact .point hne hds hfs

theorem magnitudeText_exponent (hfinite : x.isFinite = true) (hzero : x.isZero = false)
    (htiny : x.isTiny = true) : 'e' ∈ x.magnitudeText ∧
      ∀ c ∈ x.magnitudeText, c.isDigit = true ∨ c ∈ ['.', 'e', '-', '+'] := by
  have hlow := (textPoint_le_iff hfinite hzero).mpr htiny
  rw [magnitudeText_eq hzero]
  exact layout_exponent (stripTrailingZeros_digits x.shortest.1) fun h => by omega

end Binary64

namespace Lua

/-- The letter of an exponent is a digit in hexadecimal numerals only. -/
theorem Numeral.hexadecimal_of_e (h : Numeral isDigit cs) (hdigit : isDigit 'e' = false)
    (he : 'e' ∈ cs) : 'x' ∈ cs ∨ 'X' ∈ cs := by
  have hfraction {p : Char → Bool} (hp : p 'e' = false) {cs : List Char} (h : WithFraction p cs) :
      'e' ∉ cs := fun he =>
    h.forall (P := (· ≠ 'e')) (fun c _ hc => by rintro rfl; simp [hp] at hc) (by decide) 'e' he rfl
  have hunsigned {cs : List Char} (h : Unsigned isDigit cs) (he : 'e' ∈ cs) :
      'x' ∈ cs ∨ 'X' ∈ cs := by
    cases h with
    | decimal h => exact absurd he (hfraction hdigit h)
    | fraction _ h =>
      have := h 'e' (by simpa using he)
      simp [hdigit] at this
    | hexadecimal hc h => rcases hc with rfl | rfl <;> simp
    | binary hc h =>
      refine absurd ?_ (hfraction (by decide) h)
      rcases hc with rfl | rfl <;> simpa using he
  cases h with
  | positive h => exact hunsigned h he
  | negative h => exact (hunsigned h (by simpa using he)).imp (.tail _) (.tail _)

theorem numeral_toText {x : Binary64} (hfinite : x.isFinite = true) (hinteger : x.isInteger = false)
    (htiny : x.isTiny = false) : Numeral Char.isDigit x.toText.toList := by
  have hmagnitude := Binary64.magnitudeText_withFraction hfinite hinteger htiny
  rw [Binary64.toText_eq hfinite, String.toList_ofList]
  split
  · exact .negative (.decimal hmagnitude)
  · exact .positive (.decimal hmagnitude)

/-- An exponent is not part of any numeral, whatever the digits. -/
theorem not_numeral_toText {x : Binary64} (htiny : x.isTiny = true) :
    ¬ Numeral Text.isDecimalDigit x.toText.toList := by
  obtain ⟨hfinite, hzero⟩ : x.isFinite = true ∧ x.isZero = false := by
    simp only [Binary64.isTiny, Bool.and_eq_true, Bool.not_eq_true'] at htiny
    exact htiny.1
  obtain ⟨he, hchars⟩ := Binary64.magnitudeText_exponent hfinite hzero htiny
  have hmarker {c : Char} (hc : c = 'x' ∨ c = 'X') : c ∉ x.toText.toList := by
    have hmagnitude : c ∉ x.magnitudeText := fun hm => by
      rcases hc with rfl | rfl <;> exact absurd (hchars _ hm) (by decide)
    rw [Binary64.toText_eq hfinite, String.toList_ofList]
    split
    · exact List.not_mem_cons_of_ne_of_not_mem (by rcases hc with rfl | rfl <;> decide) hmagnitude
    · exact hmagnitude
  intro h
  have he : 'e' ∈ x.toText.toList := by
    rw [Binary64.toText_eq hfinite, String.toList_ofList]
    split
    · exact .tail _ he
    · exact he
  rcases h.hexadecimal_of_e (by decide) he with hx | hx
  · exact hmarker (.inl rfl) hx
  · exact hmarker (.inr rfl) hx

theorem floatLiteral_numeral {key text : String} {x : Binary64}
    (h : floatLiteral key x = .ok text) :
    if x.isTiny then ¬ Numeral Text.isDecimalDigit text.toList
    else Numeral Char.isDigit text.toList := by
  unfold floatLiteral at h
  split at h
  · cases h
  rename_i hfinite
  have hfinite : x.isFinite = true := by simpa using hfinite
  rw [← Except.ok.inj h]
  split
  · rename_i htiny
    rw [Binary64.not_isInteger_of_isTiny htiny, if_neg Bool.false_ne_true]
    exact not_numeral_toText htiny
  · rename_i htiny
    split
    · exact numeral_int _
    · rename_i hinteger
      exact numeral_toText hfinite (Bool.eq_false_iff.mpr hinteger) (Bool.eq_false_iff.mpr htiny)

end Lua

/-- A double that is written with an exponent. -/
def Value.isTiny : Value → Bool
  | .float x => x.isTiny
  | _ => false

/-- Number text with a digit outside of ASCII. -/
def Value.isForeign : Value → Bool
  | .text s => !(Text.strip s).toList.all fun c => decide (c.toNat < 128)
  | _ => false

namespace Lua

/-- A number pin that is not absent writes number text unless the number is tiny, and a numeral of
the console unless it is tiny or was typed in digits of another script. -/
theorem number_literal_numeral {v : Value} {key text : String}
    (h : literal .number v key = .ok text) :
    (v = .null ∨ v = .omitted) ∧ text = "nil" ∨
    (v ≠ .null ∧ v ≠ .omitted) ∧
      (Numeral Char.isDigit text.toList ↔ v.isTiny = false ∧ v.isForeign = false) ∧
      (literal .number (.text text) key = .ok text ↔ v.isTiny = false) := by
  rw [literal_numeral_iff]
  have plain (hnumeral : Numeral Char.isDigit text.toList) :
      Numeral Char.isDigit text.toList ∧ Numeral Text.isDecimalDigit text.toList :=
    ⟨hnumeral, (numeral_ascii_iff.mp hnumeral).1⟩
  cases v with
  | null | omitted => exact .inl ⟨by simp, (Except.ok.inj h).symm⟩
  | bool | list | table => cases h
  | int n =>
    have hnumeral := plain (Except.ok.inj h ▸ numeral_int n)
    exact .inr ⟨by simp, by simpa [Value.isTiny, Value.isForeign] using hnumeral⟩
  | float x =>
    have hfloat := floatLiteral_numeral h
    refine .inr ⟨by simp, ?_⟩
    cases htiny : x.isTiny with
    | true =>
      rw [htiny, if_pos rfl] at hfloat
      have hascii : ¬ Numeral Char.isDigit text.toList := fun h => hfloat (plain h).2
      simp [Value.isTiny, htiny, hfloat, hascii]
    | false =>
      rw [htiny, if_neg Bool.false_ne_true] at hfloat
      simp [Value.isTiny, Value.isForeign, htiny, plain hfloat]
  | text s =>
    change (if isNumeral (Text.strip s).toList then Except.ok (Text.strip s)
      else invalid key (.text s) "expected a number") = .ok text at h
    split at h
    · rename_i hnumeral
      rw [isNumeral_iff, Except.ok.inj h] at hnumeral
      refine .inr ⟨by simp, ?_⟩
      rw [numeral_ascii_iff]
      simp [Value.isTiny, Value.isForeign, hnumeral, Except.ok.inj h]
    · cases h

theorem literal_fraction {x : Binary64} (hfinite : x.isFinite = true)
    (hinteger : x.isInteger = false) (key : String) :
    literal .number (.float x) key = .ok x.toText := by
  change floatLiteral key x = _
  rw [floatLiteral, if_neg (by simp [hfinite]), hinteger, if_neg Bool.false_ne_true]

/-- The double nearest to `0.00001`. -/
def hundredThousandth : Binary64 := ⟨0x3ee4f8b588e368f1⟩

theorem literal_hundredThousandth :
    literal .number (.float hundredThousandth) "value" = .ok "1e-05" := by
  have htext : hundredThousandth.toText = "1e-05" := by decide +kernel
  rw [literal_fraction (by decide +kernel) (by decide +kernel), htext]

theorem number_literal_numeral_tiny :
    literal .number (.float ⟨0xc029000000000000⟩) "value" = .ok "-12.5" ∧
      Numeral Char.isDigit "-12.5".toList ∧ literal .number (.text "-12.5") "value" = .ok "-12.5" ∧
    literal .number (.float hundredThousandth) "value" = .ok "1e-05" ∧
      ¬ Numeral Char.isDigit "1e-05".toList ∧
      literal .number (.text "1e-05") "value" ≠ .ok "1e-05" := by
  have htext : Binary64.toText ⟨0xc029000000000000⟩ = "-12.5" := by decide +kernel
  have hwritten : literal .number (.float ⟨0xc029000000000000⟩) "value" = .ok "-12.5" := by
    rw [literal_fraction (by decide +kernel) (by decide +kernel), htext]
  have htiny : (Value.float hundredThousandth).isTiny = true := by decide +kernel
  rcases number_literal_numeral hwritten with ⟨habsent, _⟩ | ⟨_, hplain, hagain⟩
  · simp at habsent
  refine ⟨hwritten, hplain.mpr ⟨by decide +kernel, rfl⟩, hagain.mpr (by decide +kernel), ?_⟩
  rcases number_literal_numeral literal_hundredThousandth with ⟨habsent, _⟩ | ⟨_, hplain, hagain⟩
  · simp at habsent
  · refine ⟨literal_hundredThousandth, ?_, ?_⟩
    · exact fun h => absurd (hplain.mp h).1 (by simp [htiny])
    · exact fun h => absurd (hagain.mp h) (by simp [htiny])

/-- A tiny double and a digit of another script are written as they are, and neither is a numeral of
the console; the first is not even number text. -/
theorem exponent_and_foreign_digit :
    literal .number (.float hundredThousandth) "value" = .ok "1e-05" ∧
      ¬ Numeral Char.isDigit "1e-05".toList ∧
      literal .number (.text "1e-05") "value" ≠ .ok "1e-05" ∧
    literal .number (.text "٣") "value" = .ok "٣" ∧ ¬ Numeral Char.isDigit "٣".toList := by
  have hexponent : ¬ Numeral Text.isDecimalDigit "1e-05".toList := fun h =>
    absurd (isNumeral_iff.mpr h) (by decide)
  refine ⟨literal_hundredThousandth, ?_, ?_, ?_, ?_⟩
  · exact fun h => hexponent (numeral_ascii_iff.mp h).1
  · exact fun h => hexponent (literal_numeral_iff.mp h)
  · exact literal_numeral_iff.mpr (isNumeral_iff.mp (by decide))
  · exact fun h => absurd ((numeral_ascii_iff.mp h).2 '٣' (by decide)) (by decide)

end Lua

end CartGraph
