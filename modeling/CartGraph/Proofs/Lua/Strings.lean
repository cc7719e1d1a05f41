import CartGraph.Proofs.Lua.Literals
import Mathlib.Data.List.Chain

/-! # Strings, read back as texts

A string denotes a text: escapes are undone, and a code takes as many of the digits that follow the
backslash as it can have (`Lua.unquote`). The literal of a text is read to its end, but not always
as that text: the short escape of the null character takes digits of the text for digits of its
code. -/
namespace CartGraph.Lua

/-! ## Reading -/

/-- What stands for a character after a backslash, unless it is the code of the character. -/
def escapes : List (Char × Char) :=
  [('\\', '\\'), ('"', '"'), ('n', '\n'), ('r', '\r'), ('t', '\t')]

/-- The digits of a code: as many as there are, up to three. -/
def codeDigits (cs : List Char) : List Char := (cs.takeWhile Char.isDigit).take 3

/-- The character of an escape from behind its backslash, and what follows. A code is that of a
byte. -/
def readEscape (cs : List Char) : Option (Char × List Char) :=
  let ds := codeDigits cs
  if ds.isEmpty then
    match cs with
    | [] => none
    | d :: rest => (escapes.lookup d).map (·, rest)
  else if Nat.ofDigitChars 10 ds 0 ≤ 255 then
    some (Char.ofNat (Nat.ofDigitChars 10 ds 0), cs.drop ds.length)
  else none

theorem readEscape_length {cs rest : List Char} {c : Char} (h : readEscape cs = some (c, rest)) :
    rest.length ≤ cs.length := by
  unfold readEscape at h
  dsimp only at h
  split_ifs at h
  · cases cs with
    | nil => simp at h
    | cons d cs =>
      obtain ⟨e, _, he⟩ := Option.map_eq_some_iff.mp h
      cases he
      simp
  · cases h
    simp

def withChar (c : Char) (r : List Char × List Char) : List Char × List Char := (c :: r.1, r.2)

/-- The text of a string from behind its opening quote, and what follows its closing quote. -/
def readContent : List Char → Option (List Char × List Char)
  | [] => none
  | c :: rest =>
    if c == '"' then some ([], rest)
    else if c == '\\' then
      match _h : readEscape rest with
      | none => none
      | some (c, after) => (readContent after).map (withChar c)
    else if c == '\n' || c == '\r' then none
    else (readContent rest).map (withChar c)
termination_by cs => cs.length
decreasing_by
  · have := readEscape_length _h
    simp
    omega
  · simp

/-- The text that a double-quoted string denotes, and what follows the string. -/
def unquote (literal : String) : Option (String × String) :=
  match literal.toList with
  | '"' :: rest => (readContent rest).map fun r => (String.ofList r.1, String.ofList r.2)
  | _ => none

theorem readContent_quote (rest : List Char) : readContent ('"' :: rest) = some ([], rest) := by
  rw [readContent, if_pos (by simp)]

theorem readContent_escape {c : Char} {cs rest : List Char} (h : readEscape cs = some (c, rest)) :
    readContent ('\\' :: cs) = (readContent rest).map (withChar c) := by
  rw [readContent, if_neg (by simp), if_pos (by simp)]
  split
  · rename_i hnone
    rw [h] at hnone
    cases hnone
  · rename_i hsome
    rw [h] at hsome
    cases hsome
    rfl

theorem readContent_plain {c : Char} (h : c ∉ ['\\', '"', '\n', '\r']) (rest : List Char) :
    readContent (c :: rest) = (readContent rest).map (withChar c) := by
  simp only [List.mem_cons, List.not_mem_nil, or_false, not_or] at h
  obtain ⟨hslash, hquote, hline, hreturn⟩ := h
  rw [readContent, if_neg (by simpa using hquote), if_neg (by simpa using hslash),
    if_neg (by simp [hline, hreturn])]

/-! ## Escapes of a text -/

theorem readEscape_simple {d c : Char} (hd : d.isDigit = false) (hc : escapes.lookup d = some c)
    (rest : List Char) : readEscape (d :: rest) = some (c, rest) := by
  simp [readEscape, codeDigits, hd, hc]

/-- A code of three digits is read as it was written, whatever follows. -/
theorem readEscape_code {n : Nat} (hn : n < 128) (rest : List Char) :
    readEscape (code3 n ++ rest) = some (Char.ofNat n, rest) := by
  have hcode : ∀ n < 128,
      (code3 n).all Char.isDigit = true ∧ Nat.ofDigitChars 10 (code3 n) 0 = n := by
    decide
  obtain ⟨hdigits, hvalue⟩ := hcode n hn
  have hds : codeDigits (code3 n ++ rest) = code3 n := by
    simp only [code3, List.all_cons, List.all_nil, Bool.and_true, Bool.and_eq_true] at hdigits
    obtain ⟨ha, hb, hc⟩ := hdigits
    simp [codeDigits, code3, ha, hb, hc]
  have hlength : (code3 n).length = 3 := rfl
  simp [readEscape, hds, hvalue, ← List.length_eq_zero_iff, hlength, show n ≤ 255 by omega]

/-- Every character but the null character is read back from its escape, whatever follows. -/
theorem readContent_escapeChar {c : Char} (hc : c ≠ '\x00') (rest : List Char) :
    readContent (escapeChar c ++ rest) = (readContent rest).map (withChar c) := by
  have simple {d : Char} (hd : d.isDigit = false) (hl : escapes.lookup d = some c) :
      readContent ('\\' :: d :: rest) = (readContent rest).map (withChar c) :=
    readContent_escape (readEscape_simple hd hl rest)
  unfold escapeChar
  split_ifs with hslash hquote hline hreturn htab hnull hcontrol
  · exact simple (by decide) (by rw [eq_of_beq hslash]; rfl)
  · exact simple (by decide) (by rw [eq_of_beq hquote]; rfl)
  · exact simple (by decide) (by rw [eq_of_beq hline]; rfl)
  · exact simple (by decide) (by rw [eq_of_beq hreturn]; rfl)
  · exact simple (by decide) (by rw [eq_of_beq htab]; rfl)
  · refine absurd ?_ hc
    rw [← Char.ofNat_toNat c, eq_of_beq hnull]
  · have hn : c.toNat < 128 := by
      simp only [Bool.or_eq_true, decide_eq_true_eq, beq_iff_eq] at hcontrol
      omega
    have hread := readEscape_code hn rest
    rw [Char.ofNat_toNat] at hread
    exact readContent_escape hread
  · refine readContent_plain ?_ rest
    simp_all

/-! ## What a text is read as -/

/-- The digits that a null character takes for digits of its code. -/
def taken (rest : List Char) : List Char := (rest.takeWhile Char.isDigit).take 2

/-- What a text is read as: a null character becomes the character whose code is made of the digits
that it takes. -/
def absorbed : List Char → List Char
  | [] => []
  | c :: rest =>
    if c == '\x00' then
      Char.ofNat (Nat.ofDigitChars 10 (taken rest) 0) :: absorbed (rest.drop (taken rest).length)
    else c :: absorbed rest
termination_by cs => cs.length

theorem taken_digits (rest : List Char) : ∀ c ∈ taken rest, c.isDigit = true := by
  intro c hc
  exact List.mem_takeWhile_imp (List.mem_of_mem_take hc)

theorem taken_append (rest : List Char) : taken rest ++ rest.drop (taken rest).length = rest :=
  List.prefix_iff_eq_append.mp
    ((List.take_prefix ..).trans (List.takeWhile_prefix Char.isDigit))

theorem absorbed_null (rest : List Char) : absorbed ('\x00' :: rest) =
    Char.ofNat (Nat.ofDigitChars 10 (taken rest) 0) ::
      absorbed (rest.drop (taken rest).length) := by
  rw [absorbed, if_pos (by decide)]

theorem absorbed_cons {c : Char} (h : c ≠ '\x00') (rest : List Char) :
    absorbed (c :: rest) = c :: absorbed rest := by
  rw [absorbed, if_neg (by simpa using h)]

theorem escapeChar_digit {c : Char} (h : c.isDigit = true) : escapeChar c = [c] := by
  have hlow := le_digit_toNat h
  have hhigh := digit_toNat h
  have hne {d : Char} (hd : d.isDigit = false) : c ≠ d := ne_of_isDigit h hd
  have hslash : c ≠ '\\' := hne (by decide)
  have hquote : c ≠ '"' := hne (by decide)
  have hline : c ≠ '\n' := hne (by decide)
  have hreturn : c ≠ '\r' := hne (by decide)
  have htab : c ≠ '\t' := hne (by decide)
  have hnull : c.toNat ≠ 0 := by omega
  have hcontrol : ¬ (c.toNat < 32 ∨ c.toNat = 127) := by omega
  simp [escapeChar, hslash, hquote, hline, hreturn, htab, hnull, hcontrol]

/-- The digits that a text starts with are written as they are. -/
theorem escapes_digits {ds : List Char} (h : ∀ c ∈ ds, c.isDigit = true) (cs : List Char) :
    (ds ++ cs).flatMap escapeChar = ds ++ cs.flatMap escapeChar := by
  induction ds with
  | nil => rfl
  | cons c ds ih =>
    obtain ⟨hc, hds⟩ := List.forall_mem_cons.mp h
    simp [escapeChar_digit hc, ih hds]

/-- No escape starts with a digit that the text does not start with. -/
theorem takeWhile_escapes (cs rest : List Char) :
    (cs.flatMap escapeChar ++ '"' :: rest).takeWhile Char.isDigit = cs.takeWhile Char.isDigit := by
  induction cs with
  | nil => rfl
  | cons c cs ih =>
    by_cases hc : c.isDigit = true
    · rw [List.flatMap_cons, escapeChar_digit hc, List.takeWhile_cons_of_pos hc]
      simp [hc, ih]
    · rw [List.takeWhile_cons_of_neg hc, List.flatMap_cons, List.append_assoc]
      rcases escapeChar_cases c with ⟨d, _, h⟩ | h | ⟨n, _, h⟩ | ⟨h, _⟩ <;> rw [h] <;> simp [hc]

theorem readEscape_null (cs rest : List Char) :
    readEscape ('0' :: (cs.flatMap escapeChar ++ '"' :: rest)) =
      some (Char.ofNat (Nat.ofDigitChars 10 (taken cs) 0),
        (cs.drop (taken cs).length).flatMap escapeChar ++ '"' :: rest) := by
  have hds : codeDigits ('0' :: (cs.flatMap escapeChar ++ '"' :: rest)) = '0' :: taken cs := by
    rw [codeDigits, List.takeWhile_cons_of_pos (by decide), takeWhile_escapes, List.take_succ_cons,
      taken]
  have hvalue : Nat.ofDigitChars 10 ('0' :: taken cs) 0 = Nat.ofDigitChars 10 (taken cs) 0 := by
    simp [Nat.ofDigitChars]
  have hbyte : Nat.ofDigitChars 10 (taken cs) 0 ≤ 255 := by
    have hdigits : ∀ c ∈ cs.takeWhile Char.isDigit, c.isDigit = true := fun _ hc =>
      List.mem_takeWhile_imp hc
    exact hvalue ▸ nullCode_le hdigits
  have hrest : (cs.flatMap escapeChar ++ '"' :: rest).drop (taken cs).length =
      (cs.drop (taken cs).length).flatMap escapeChar ++ '"' :: rest := by
    have hsplit := escapes_digits (taken_digits cs) (cs.drop (taken cs).length)
    rw [taken_append] at hsplit
    rw [hsplit, List.append_assoc, List.drop_left]
  simp [readEscape, hds, hvalue, hbyte, hrest]

theorem readContent_escapes (cs rest : List Char) :
    readContent (cs.flatMap escapeChar ++ '"' :: rest) = some (absorbed cs, rest) := by
  fun_induction absorbed cs with
  | case1 => exact readContent_quote rest
  | case2 c cs hc ih =>
    rw [eq_of_beq hc]
    have hread := readContent_escape (readEscape_null cs rest)
    rw [ih] at hread
    exact hread
  | case3 c cs hc ih =>
    rw [List.flatMap_cons, List.append_assoc, readContent_escapeChar (by simpa using hc), ih]
    rfl

/-! ## Which texts are read back -/

def NullsApart (cs : List Char) : Prop := cs.IsChain fun a b => a = '\x00' → b.isDigit = false

instance (cs : List Char) : Decidable (NullsApart cs) :=
  inferInstanceAs (Decidable (cs.IsChain _))

theorem length_absorbed_le (cs : List Char) : (absorbed cs).length ≤ cs.length := by
  fun_induction absorbed cs with
  | case1 => simp
  | case2 c cs _ ih =>
    rw [List.length_drop] at ih
    simp only [List.length_cons]
    omega
  | case3 c cs _ ih => simpa using ih

theorem taken_eq_nil_iff {rest : List Char} :
    taken rest = [] ↔ ∀ d ∈ rest.head?, d.isDigit = false := by
  cases rest with
  | nil => simp [taken]
  | cons d rest => by_cases hd : d.isDigit = true <;> simp [taken, hd]

theorem nullsApart_null_iff {rest : List Char} :
    NullsApart ('\x00' :: rest) ↔ taken rest = [] ∧ NullsApart rest := by
  rw [taken_eq_nil_iff, NullsApart, List.isChain_cons]
  simp [NullsApart]

theorem nullsApart_cons_iff {c : Char} (h : c ≠ '\x00') {rest : List Char} :
    NullsApart (c :: rest) ↔ NullsApart rest := by
  rw [NullsApart, List.isChain_cons]
  simp [NullsApart, h]

/-- A text is read as itself unless a null character takes a digit: then what is read is shorter. -/
theorem absorbed_eq_iff (cs : List Char) : absorbed cs = cs ↔ NullsApart cs := by
  induction cs with
  | nil => simp [absorbed, NullsApart]
  | cons c cs ih =>
    by_cases hc : c = '\x00'
    · subst hc
      rw [absorbed_null, nullsApart_null_iff]
      by_cases htaken : taken cs = []
      · simp [htaken, ih, Nat.ofDigitChars]
      · have hshort := length_absorbed_le (cs.drop (taken cs).length)
        have hpos := List.length_pos_iff.mpr htaken
        have hle := congrArg List.length (taken_append cs)
        constructor
        · intro h
          have hlength := congrArg List.length h
          simp at hlength hshort hle
          omega
        · exact fun h => absurd h.1 htaken
    · rw [absorbed_cons hc, nullsApart_cons_iff hc, ← ih]
      simp

theorem unquote_eq (s : String) :
    unquote (quote s) = some (String.ofList (absorbed s.toList), "") := by
  simp [unquote, quote, readContent_escapes]

theorem unquote_eq_self_iff (s : String) :
    unquote (quote s) = some (s, "") ↔ NullsApart s.toList := by
  rw [unquote_eq, ← absorbed_eq_iff, Option.some.injEq, Prod.mk.injEq, ← String.toList_inj]
  simp

/-- The literal of a text is read to its end, as the text in which null characters have taken the
digits after them. So a text is read back exactly if no digit stands right after a null character,
and different texts of this kind have different literals. -/
theorem unquote_quote (s : String) :
    unquote (quote s) = some (String.ofList (absorbed s.toList), "") ∧
    (unquote (quote s) = some (s, "") ↔ NullsApart s.toList) ∧
    (NullsApart s.toList → ∀ t : String, NullsApart t.toList → quote s = quote t → s = t) := by
  refine ⟨unquote_eq s, unquote_eq_self_iff s, fun hs t ht h => ?_⟩
  have hsame := (unquote_eq_self_iff s).mpr hs
  rw [h, (unquote_eq_self_iff t).mpr ht] at hsame
  exact (Prod.mk.inj (Option.some.inj hsame)).1.symm

/-- A null character before a digit is lost: the two are read as the character with the code of the
digit. So a text with two digits after it has the literal of another text. -/
theorem null_before_digit_lost :
    unquote (quote "\x001") = some ("\x01", "") ∧ quote "\x0001" = quote "\x01" := by
  constructor
  · have htaken : taken ['1'] = ['1'] := rfl
    have hread : absorbed "\x001".toList = "\x01".toList := by
      rw [show "\x001".toList = ['\x00', '1'] by rfl, absorbed_null, htaken]
      simp [absorbed]
      rfl
    rw [unquote_eq, hread, String.ofList_toList]
  · decide

end CartGraph.Lua
