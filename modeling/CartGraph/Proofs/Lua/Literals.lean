import CartGraph.Proofs.Lua.Reading
import Mathlib.Data.List.TakeWhile
import Mathlib.Data.List.Basic

/-! # The literals of values, read back

The literal of a truth value is a constant, that of a text a string with valid escapes, and that of a
number a decimal numeral, with a minus sign before it if the number is negative. Each is read as
itself. -/
namespace CartGraph

namespace Lua

/-! ## Strings -/

theorem escapeChar_cases (c : Char) :
    (∃ d ∈ simpleEscapes, escapeChar c = ['\\', d]) ∨ escapeChar c = ['\\', '0'] ∨
      (∃ n < 128, escapeChar c = '\\' :: code3 n) ∨
      escapeChar c = [c] ∧ c ∉ ['\\', '"', '\n', '\r'] := by
  generalize he : escapeChar c = text
  unfold escapeChar at he
  split_ifs at he with hslash hquote hline hreturn htab hnull hcontrol <;> subst he
  · exact .inl ⟨'\\', by decide, rfl⟩
  · exact .inl ⟨'"', by decide, rfl⟩
  · exact .inl ⟨'n', by decide, rfl⟩
  · exact .inl ⟨'r', by decide, rfl⟩
  · exact .inl ⟨'t', by decide, rfl⟩
  · exact .inr (.inl rfl)
  · refine .inr (.inr (.inl ⟨c.toNat, ?_, rfl⟩))
    simp only [Bool.or_eq_true, decide_eq_true_eq, beq_iff_eq] at hcontrol
    omega
  · refine .inr (.inr (.inr ⟨rfl, ?_⟩))
    simp_all

theorem code3_digits : ∀ n < 128, (code3 n).all Char.isDigit = true ∧
    Nat.ofDigitChars 10 (code3 n) 0 ≤ 255 := by
  decide

theorem run_plain (read : List Char) {c : Char} (hslash : c ≠ '\\') (hquote : c ≠ '"') :
    (Scan.string '"' read).next? c = some (.string '"' (read ++ [c])) := by
  simp [Scan.next?, hslash, hquote]

theorem run_escape (read : List Char) (c : Char) :
    (escapeChar c).foldlM Scan.next? (.string '"' read) =
      some (.string '"' (read ++ escapeChar c)) := by
  have hdigit : ∀ (read : List Char) {d : Char}, d.isDigit = true →
      (Scan.string '"' read).next? d = some (.string '"' (read ++ [d])) := fun read _ hd =>
    run_plain read (ne_of_isDigit hd (by decide)) (ne_of_isDigit hd (by decide))
  rcases escapeChar_cases c with ⟨d, _, h⟩ | h | ⟨n, hn, h⟩ | ⟨h, hc⟩ <;> rw [h]
  · simp [Scan.next?]
  · simp [Scan.next?]
  · obtain ⟨hdigits, _⟩ := code3_digits n hn
    simp only [code3, List.all_cons, Bool.and_eq_true] at hdigits ⊢
    obtain ⟨_, ha, hb, _⟩ := hdigits
    have hslash : (Scan.string '"' read).next? '\\' = some (.escape '"' (read ++ ['\\'])) := rfl
    have hfirst (d : Char) : (Scan.escape '"' (read ++ ['\\'])).next? d =
        some (.string '"' (read ++ ['\\'] ++ [d])) := rfl
    simp only [List.foldlM_cons, List.foldlM_nil, hslash, hfirst, hdigit _ ha, hdigit _ hb,
      Option.bind_eq_bind, Option.bind_some, List.append_assoc, List.cons_append, List.nil_append]
    rfl
  · simp only [List.mem_cons, List.not_mem_nil, or_false, not_or] at hc
    simp [run_plain read hc.1 hc.2.1]

/-- The code of the null character stays small with the digits that may follow it. -/
theorem nullCode_le {ds : List Char} (h : ∀ c ∈ ds, c.isDigit = true) :
    Nat.ofDigitChars 10 ('0' :: ds.take 2) 0 ≤ 255 := by
  rcases ds with _ | ⟨a, _ | ⟨b, _⟩⟩
  · decide
  · have ha := digit_toNat (h a (by simp))
    simp [Nat.ofDigitChars]
    omega
  · have ha := digit_toNat (h a (by simp))
    have hb := digit_toNat (h b (by simp))
    simp [Nat.ofDigitChars]
    omega

theorem isEscape_null (rest : List Char) : isEscape '0' rest = true := by
  have hvalue : Nat.ofDigitChars 10 ('0' :: (rest.takeWhile Char.isDigit).take 2) 0 ≤ 255 :=
    nullCode_le fun c hc => List.mem_takeWhile_imp hc
  simp only [isEscape]
  rw [List.takeWhile_cons_of_pos (by decide), List.take_succ_cons]
  simp [hvalue, show Char.isDigit '0' = true by decide]

theorem isEscape_code {n : Nat} (hn : n < 128) (rest : List Char) :
    isEscape (Nat.digitChar (n / 100))
      (Nat.digitChar (n / 10 % 10) :: Nat.digitChar (n % 10) :: rest) = true := by
  obtain ⟨hdigits, hvalue⟩ := code3_digits n hn
  simp only [code3, List.all_cons, Bool.and_eq_true] at hdigits hvalue
  obtain ⟨ha, hb, hd, _⟩ := hdigits
  simp [isEscape, ha, hb, hd, hvalue]

theorem isContent_escape (c : Char) (rest : List Char) :
    isContent false (escapeChar c ++ rest) = isContent false rest := by
  have hplain : ∀ (rest : List Char) {d : Char}, d.isDigit = true →
      isContent false (d :: rest) = isContent false rest := by
    intro rest d hd
    have hslash : d ≠ '\\' := ne_of_isDigit hd (by decide)
    have hline : d ≠ '\n' := ne_of_isDigit hd (by decide)
    have hreturn : d ≠ '\r' := ne_of_isDigit hd (by decide)
    simp [isContent, hslash, hline, hreturn]
  rcases escapeChar_cases c with ⟨d, hd, h⟩ | h | ⟨n, hn, h⟩ | ⟨h, hc⟩ <;> rw [h]
  · simp [isContent, isEscape, hd]
  · simp [isContent, isEscape_null]
  · have hdigits := (code3_digits n hn).1
    simp only [code3, List.all_cons, Bool.and_eq_true] at hdigits ⊢
    obtain ⟨_, hb, hd, _⟩ := hdigits
    simp only [List.cons_append, List.nil_append]
    change (isEscape _ _ && isContent false _) = _
    rw [isEscape_code hn, hplain _ hb, hplain _ hd, Bool.true_and]
  · simp only [List.mem_cons, List.not_mem_nil, or_false, not_or] at hc
    simp [isContent, hc]

theorem run_escapes (read cs : List Char) :
    (cs.flatMap escapeChar).foldlM Scan.next? (.string '"' read) =
      some (.string '"' (read ++ cs.flatMap escapeChar)) := by
  induction cs generalizing read with
  | nil => simp
  | cons c cs ih =>
    rw [List.flatMap_cons, List.foldlM_append, run_escape]
    simp only [Option.bind_eq_bind, Option.bind_some]
    rw [ih, List.append_assoc]

theorem isContent_escapes (cs : List Char) : isContent false (cs.flatMap escapeChar) = true := by
  induction cs with
  | nil => rfl
  | cons c cs ih => rw [List.flatMap_cons, isContent_escape, ih]

theorem reads_quote (s : String) : Reads (quote s) (.string (quote s)) := by
  have hlist : (quote s).toList = '"' :: (s.toList.flatMap escapeChar ++ ['"']) := by simp [quote]
  have hrun : (s.toList.flatMap escapeChar ++ ['"']).foldlM Scan.next? (.string '"' []) =
      some (.done (.string (quote s))) := by
    rw [List.foldlM_append, run_escapes, List.nil_append]
    change some (if isContent false _ then Scan.done (.string (quote s)) else .refused) = _
    rw [isContent_escapes, if_pos rfl]
  refine ⟨[.string (quote s)], ?_, groups_string _⟩
  rw [hlist]
  exact lexes_of_run rfl hrun rfl fun _ _ => rfl

/-! ## Numerals -/

theorem run_digits {stage : Stage} (hstage : stage.isComplete = true) {ds : List Char}
    (h : ∀ c ∈ ds, c.isDigit = true) : ds.foldlM Stage.next? stage = some stage := by
  induction ds with
  | nil => rfl
  | cons c ds ih =>
    obtain ⟨hc, hds⟩ := List.forall_mem_cons.mp h
    have hnext : stage.next? c = some stage := by
      cases stage <;> simp_all [Stage.next?, Stage.isComplete]
    rw [List.foldlM_cons, hnext]
    exact ih hds

/-- What may follow the digits before the point. -/
theorem isDecimal_append {ds : List Char} (hne : ds ≠ []) (h : ∀ c ∈ ds, c.isDigit = true)
    (tail : List Char) :
    isDecimal (ds ++ tail) = (tail.foldlM Stage.next? .whole).any Stage.isComplete := by
  obtain ⟨c, ds, rfl⟩ := List.exists_cons_of_ne_nil hne
  obtain ⟨hc, hds⟩ := List.forall_mem_cons.mp h
  rw [List.cons_append, isDecimal, hc, List.foldlM_append, run_digits rfl hds]
  rfl

theorem isDecimal_digits {ds : List Char} (hne : ds ≠ []) (h : ∀ c ∈ ds, c.isDigit = true) :
    isDecimal ds = true := by
  have := isDecimal_append hne h []
  rwa [List.append_nil] at this

theorem isDecimal_point {ds fs : List Char} (hne : ds ≠ []) (h : ∀ c ∈ ds, c.isDigit = true)
    (hfs : ∀ c ∈ fs, c.isDigit = true) : isDecimal (ds ++ '.' :: fs) = true := by
  rw [isDecimal_append hne h, List.foldlM_cons, show Stage.whole.next? '.' = some .fraction from rfl]
  change Option.any _ (fs.foldlM Stage.next? .fraction) = true
  rw [run_digits rfl hfs]
  rfl

end Lua

namespace Binary64

theorem toDigits_digits (n : Nat) : ∀ c ∈ Nat.toDigits 10 n, c.isDigit = true := fun _ hc =>
  Nat.isDigit_of_mem_toDigits (by decide) (by decide) hc

theorem zerosText_digits (n : Nat) : ∀ c ∈ zerosText n, c.isDigit = true := by
  intro c hc
  rw [List.eq_of_mem_replicate hc]
  decide

theorem exponentText_eq (e : Int) : ∃ c ds, c.isDigit = true ∧ (∀ d ∈ ds, d.isDigit = true) ∧
    exponentText e = (if e < 0 then '-' else '+') :: c :: ds := by
  have hdigits : ∀ c ∈ zerosText (2 - (Nat.toDigits 10 e.natAbs).length) ++
      Nat.toDigits 10 e.natAbs, c.isDigit = true := by
    intro c hc
    rcases List.mem_append.mp hc with hc | hc
    · exact zerosText_digits _ c hc
    · exact toDigits_digits _ c hc
  cases hcs : zerosText (2 - (Nat.toDigits 10 e.natAbs).length) ++ Nat.toDigits 10 e.natAbs with
  | nil => exact absurd (List.append_eq_nil_iff.mp hcs).2 Nat.toDigits_ne_nil
  | cons c ds =>
    rw [hcs] at hdigits
    obtain ⟨hc, hds⟩ := List.forall_mem_cons.mp hdigits
    exact ⟨c, ds, hc, hds, congrArg (_ :: ·) hcs⟩

theorem run_exponent {stage : Lua.Stage} (hstage : stage = .whole ∨ stage = .fraction) (e : Int) :
    ('e' :: exponentText e).foldlM Lua.Stage.next? stage = some .exponent := by
  obtain ⟨c, ds, hc, hds, he⟩ := exponentText_eq e
  have hmark : stage.next? 'e' = some .marker := by rcases hstage with rfl | rfl <;> rfl
  have hsign : Lua.Stage.marker.next? (if e < 0 then '-' else '+') = some .sign := by
    split <;> rfl
  have hdigit : Lua.Stage.sign.next? c = some .exponent := if_pos hc
  simp only [he, List.foldlM_cons, hmark, hsign, hdigit, Option.bind_eq_bind, Option.bind_some]
  exact Lua.run_digits rfl hds

/-- Digits with the point in place. -/
theorem layout_point {digits : List Char} (h : ∀ c ∈ digits, c.isDigit = true) {point : Int}
    (hplaces : -4 < point ∧ point ≤ 16) :
    ∃ ds fs, ds ≠ [] ∧ (∀ c ∈ ds, c.isDigit = true) ∧ (∀ c ∈ fs, c.isDigit = true) ∧
      layout digits point = ds ++ '.' :: fs := by
  have hall {a b : List Char} (ha : ∀ c ∈ a, c.isDigit = true) (hb : ∀ c ∈ b, c.isDigit = true) :
      ∀ c ∈ a ++ b, c.isDigit = true := fun c hc =>
    (List.mem_append.mp hc).elim (ha c) (hb c)
  unfold layout
  rw [if_pos (by simpa using hplaces)]
  split_ifs with hsmall hlarge
  · exact ⟨['0'], _, by simp, zerosText_digits 1, hall (zerosText_digits _) h, rfl⟩
  · refine ⟨_, ['0'], fun he => ?_, hall h (zerosText_digits _), zerosText_digits 1, rfl⟩
    have hlength := congrArg List.length he
    rw [List.length_append, zerosText, List.length_replicate, List.length_nil] at hlength
    omega
  · refine ⟨_, _, fun he => ?_, fun c hc => h c (List.mem_of_mem_take hc),
      fun c hc => h c (List.mem_of_mem_drop hc), rfl⟩
    have hlength := congrArg List.length he
    rw [List.length_take, List.length_nil] at hlength
    omega

theorem layout_isDecimal {digits : List Char} (h : ∀ c ∈ digits, c.isDigit = true) {point : Int}
    (hne : digits = [] → point = 1) : Lua.isDecimal (layout digits point) = true := by
  by_cases hplaces : -4 < point ∧ point ≤ 16
  · obtain ⟨ds, fs, hds, hdigits, hfs, hlayout⟩ := layout_point h hplaces
    rw [hlayout]
    exact Lua.isDecimal_point hds hdigits hfs
  · unfold layout
    rw [if_neg (by simpa using hplaces)]
    cases digits with
    | nil =>
      rw [hne rfl] at hplaces
      exact absurd (by decide) hplaces
    | cons d ds =>
      obtain ⟨hd, hds⟩ := List.forall_mem_cons.mp h
      have hfirst : ∀ c ∈ [d], c.isDigit = true := by simpa using hd
      simp only [List.take_succ_cons, List.take_zero, List.drop_succ_cons, List.drop_zero]
      rw [List.append_assoc, Lua.isDecimal_append (by simp) hfirst]
      cases ds with
      | nil =>
        change Option.any _ (('e' :: exponentText (point - 1)).foldlM Lua.Stage.next? .whole) = true
        rw [run_exponent (.inl rfl)]
        rfl
      | cons f fs =>
        change Option.any _ ((f :: fs ++ 'e' :: exponentText (point - 1)).foldlM
          Lua.Stage.next? .fraction) = true
        rw [List.foldlM_append, Lua.run_digits rfl hds]
        change Option.any _ (('e' :: exponentText (point - 1)).foldlM Lua.Stage.next?
          .fraction) = true
        rw [run_exponent (.inr rfl)]
        rfl

/-- Digits that are zero read back as zero. -/
theorem ofDecimal_zero (negative : Bool) (exponent : Int) :
    (ofDecimal negative 0 exponent).isZero = true := by
  cases negative <;> simp [ofDecimal, ofMagnitude, isZero, magnitude, signBit]

theorem readBackNear?_ne_zero {x : Binary64} (hx : x.isZero = false) {unit : Int} {digits : Nat}
    (h : readBackNear? x unit = some digits) : digits ≠ 0 := by
  have hreads : (ofDecimal x.isNegative digits unit == x) = true := by
    unfold readBackNear? at h
    dsimp only at h
    split_ifs at h <;> · cases h; assumption
  rintro rfl
  rw [← eq_of_beq hreads, ofDecimal_zero] at hx
  cases hx

theorem shortest_cases {x : Binary64} (hx : x.isZero = false) :
    x.shortest.1 ≠ 0 ∨ x.shortest = (0, 0) := by
  unfold shortest
  dsimp only
  cases hf : (List.range 17).findSome? _ with
  | none => exact .inr rfl
  | some found =>
    obtain ⟨i, _, hi⟩ := List.exists_of_findSome?_eq_some hf
    obtain ⟨digits, hdigits, rfl⟩ := Option.map_eq_some_iff.mp hi
    exact .inl (readBackNear?_ne_zero hx hdigits)

theorem ofDigitChars_zeros {ds : List Char} (h : ∀ c ∈ ds, c = '0') :
    Nat.ofDigitChars 10 ds 0 = 0 := by
  induction ds with
  | nil => rfl
  | cons c ds ih =>
    obtain ⟨rfl, hds⟩ := List.forall_mem_cons.mp h
    exact ih hds

theorem stripTrailingZeros_digits (n : Nat) :
    ∀ c ∈ stripTrailingZeros (Nat.toDigits 10 n), c.isDigit = true := by
  intro c hc
  have hc := (List.dropWhile_sublist _).subset (List.mem_reverse.mp hc)
  exact toDigits_digits n c (List.mem_reverse.mp hc)

theorem stripTrailingZeros_ne_nil {n : Nat} (h : n ≠ 0) :
    stripTrailingZeros (Nat.toDigits 10 n) ≠ [] := by
  intro he
  have hzeros := List.dropWhile_eq_nil_iff.mp (List.reverse_eq_nil_iff.mp he)
  have hvalue : Nat.ofDigitChars 10 (Nat.toDigits 10 n) 0 = 0 :=
    ofDigitChars_zeros fun c hc => by simpa using hzeros c (List.mem_reverse.mpr hc)
  rw [Nat.ofDigitChars_toDigits (by decide) (by decide)] at hvalue
  exact h hvalue

theorem magnitudeText_isDecimal (x : Binary64) : Lua.isDecimal x.magnitudeText = true := by
  unfold magnitudeText
  split
  · decide
  · rename_i hx
    rcases hs : x.shortest with ⟨digits, unit⟩
    refine layout_isDecimal (stripTrailingZeros_digits digits) fun he => ?_
    rcases shortest_cases (Bool.eq_false_iff.mpr hx) with hne | hzero
    · rw [hs] at hne
      exact absurd he (stripTrailingZeros_ne_nil hne)
    · cases hs.symm.trans hzero
      rfl

theorem toText_eq {x : Binary64} (hfinite : x.isFinite = true) : x.toText =
    String.ofList (if x.isNegative then '-' :: x.magnitudeText else x.magnitudeText) := by
  have hnan : x.isNaN = false := by simp [isNaN, hfinite]
  rw [toText, hnan, if_neg Bool.false_ne_true, if_pos hfinite]

end Binary64

namespace Lua

/-! ## Literals -/

def Tree.ofLiteral (text : String) : Tree :=
  if constants.contains text then .constant text
  else match text.toList with
    | '"' :: _ => .string text
    | '-' :: digits => .unary "-" (.number (String.ofList digits))
    | _ => .number text

theorem reads_constantLiteral {word : String} (h : word ∈ constants) :
    Reads word (.ofLiteral word) := by
  have hword : Tree.ofLiteral word = .constant word := if_pos (by simpa using h)
  exact hword ▸ reads_constant h

theorem ofLiteral_of_head {text : String} {c : Char} {cs : List Char} (htext : text.toList = c :: cs)
    (hc : isNameStart c = false) : Tree.ofLiteral text =
      if c = '"' then .string text else if c = '-' then .unary "-" (.number (String.ofList cs))
      else .number text := by
  have hhead : ∀ word ∈ constants, word.toList.head?.any isNameStart = true := by decide
  have hword : ¬ constants.contains text = true := fun hm => by
    have := hhead text (by simpa using hm)
    rw [htext] at this
    simp [hc] at this
  rw [Tree.ofLiteral, if_neg hword, htext]
  split <;> simp_all

theorem reads_quoteLiteral (s : String) : Reads (quote s) (.ofLiteral (quote s)) := by
  have hlist : (quote s).toList = '"' :: (s.toList.flatMap escapeChar ++ ['"']) := by simp [quote]
  rw [ofLiteral_of_head hlist (by decide), if_pos rfl]
  exact reads_quote s

/-- A decimal numeral with or without a minus sign. -/
def IsNumberText (text : String) : Prop :=
  ∃ cs, isDecimal cs = true ∧ (text = String.ofList cs ∨ text = String.ofList ('-' :: cs))

theorem IsNumberText.reads {text : String} (h : IsNumberText text) :
    Reads text (.ofLiteral text) := by
  obtain ⟨cs, hcs, rfl | rfl⟩ := h
  · cases cs with
    | nil => cases hcs
    | cons c cs =>
      have hc := (Bool.and_eq_true_iff.mp hcs).1
      rw [ofLiteral_of_head String.toList_ofList (digit_not_nameStart hc),
        if_neg (ne_of_isDigit hc (by decide)), if_neg (ne_of_isDigit hc (by decide))]
      exact reads_number hcs
  · rw [ofLiteral_of_head String.toList_ofList (by decide)]
    exact reads_negative hcs

theorem isNumberText_int (n : Int) : IsNumberText (toString n) := by
  have hnat : ∀ m : Nat, isDecimal (toString m).toList = true := by
    intro m
    rw [Nat.toString_eq_ofList_toDigits, String.toList_ofList]
    exact isDecimal_digits Nat.toDigits_ne_nil (Binary64.toDigits_digits m)
  cases n with
  | ofNat m => exact ⟨_, hnat m, .inl String.ofList_toList.symm⟩
  | negSucc m =>
    refine ⟨_, hnat (m + 1), .inr ?_⟩
    change "-" ++ toString (m + 1) = _
    rw [← String.toList_inj, String.toList_append, String.toList_ofList, String.toList_ofList,
      List.singleton_append]

theorem isNumberText_toText {x : Binary64} (h : x.isFinite = true) : IsNumberText x.toText := by
  refine ⟨_, x.magnitudeText_isDecimal, ?_⟩
  rw [Binary64.toText_eq h]
  cases x.isNegative
  · exact .inl rfl
  · exact .inr rfl

theorem isNumberText_float {key text : String} {x : Binary64} (h : floatLiteral key x = .ok text) :
    IsNumberText text := by
  unfold floatLiteral at h
  split at h
  · cases h
  · rename_i hfinite
    rw [← Except.ok.inj h]
    split
    · exact isNumberText_int _
    · exact isNumberText_toText (by simpa using hfinite)

/-- Whether a value of some kind has a literal of its own: on a number only numbers do, and where
anything may stand lists and tables do not. -/
def isPlain : Kind → Value → Bool
  | .number, .int _ | .number, .float _ => true
  | .any, .bool _ | .any, .text _ | .any, .int _ | .any, .float _ => true
  | .string, _ | .boolean, _ => true
  | _, _ => false

theorem reads_boolLiteral (b : Bool) : Reads (boolLiteral b) (.ofLiteral (boolLiteral b)) :=
  reads_constantLiteral (by cases b <;> decide)

theorem booleanLiteral_ok {key text : String} {v : Value} (h : booleanLiteral key v = .ok text) :
    ∃ b, text = boolLiteral b := by
  unfold booleanLiteral at h
  split at h
  · exact ⟨_, (Except.ok.inj h).symm⟩
  · split at h
    · exact ⟨_, (Except.ok.inj h).symm⟩
    · cases h
  · split_ifs at h
    · exact ⟨false, (Except.ok.inj h).symm⟩
    · exact ⟨true, (Except.ok.inj h).symm⟩
    · cases h
  · cases h

theorem stringLiteral_ok {key text : String} {v : Value} (h : stringLiteral key v = .ok text) :
    ∃ s, text = quote s := by
  unfold stringLiteral at h
  split at h
  · cases h
  · cases h
  · exact ⟨_, (Except.ok.inj h).symm⟩
  · exact ⟨_, (Except.ok.inj h).symm⟩

theorem literal_reads {kind : Kind} {v : Value} {key text : String} (hplain : isPlain kind v = true)
    (h : literal kind v key = .ok text) : Reads text (.ofLiteral text) := by
  unfold literal at h
  split at h
  · rw [← Except.ok.inj h]
    exact reads_constantLiteral (by decide)
  · rw [← Except.ok.inj h]
    exact reads_constantLiteral (by decide)
  · cases kind with
    | number =>
      cases v with
      | int n => exact Except.ok.inj h ▸ (isNumberText_int n).reads
      | float x => exact (isNumberText_float h).reads
      | _ => cases hplain
    | boolean =>
      obtain ⟨b, rfl⟩ := booleanLiteral_ok h
      exact reads_boolLiteral b
    | string =>
      obtain ⟨s, rfl⟩ := stringLiteral_ok h
      exact reads_quoteLiteral s
    | any =>
      cases v with
      | bool b => exact Except.ok.inj h ▸ reads_boolLiteral b
      | int n => exact Except.ok.inj h ▸ (isNumberText_int n).reads
      | float x => exact (isNumberText_float h).reads
      | text s => exact Except.ok.inj h ▸ reads_quoteLiteral s
      | _ => cases hplain
    | table => cases hplain
    | exec => cases hplain

end Lua

end CartGraph
