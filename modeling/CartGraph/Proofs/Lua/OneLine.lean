import CartGraph.Proofs.Faults
import CartGraph.Proofs.Lua.Lines
import CartGraph.Proofs.Lua.Numerals
import CartGraph.Text.Uppercase

/-! # Texts that stand on one line

A text that holds no line feed and no carriage return stays on the line that it is written to. All
literals are such texts, whatever the value, but for the table expression that a text of kind
`table` stands for and for keys of tables that were typed in brackets: both are written as they
are. -/
namespace CartGraph

namespace Text

def isBreak (c : Char) : Bool := c == '\n' || c == '\r'

def OneLine (s : String) : Prop := ∀ c ∈ s.toList, isBreak c = false

instance (s : String) : Decidable (OneLine s) := List.decidableBAll _ s.toList

/-- Characters of a sort to which no line break belongs. -/
theorem isBreak_of_pos {p : Char → Bool} (hp : p '\n' = false ∧ p '\r' = false) {c : Char}
    (h : p c = true) : isBreak c = false := by
  simp only [isBreak, Bool.or_eq_false_iff, beq_eq_false_iff_ne]
  constructor
  · rintro rfl
    exact absurd (hp.1.symm.trans h) Bool.false_ne_true
  · rintro rfl
    exact absurd (hp.2.symm.trans h) Bool.false_ne_true

@[simp] theorem oneLine_append {a b : String} : OneLine (a ++ b) ↔ OneLine a ∧ OneLine b := by
  unfold OneLine
  rw [String.toList_append, List.forall_mem_append]

namespace OneLine

variable {a b : String}

theorem append (ha : OneLine a) (hb : OneLine b) : OneLine (a ++ b) := oneLine_append.mpr ⟨ha, hb⟩

theorem intercalate {texts : List String} (hsep : OneLine a) (h : ∀ s ∈ texts, OneLine s) :
    OneLine (a.intercalate texts) := by
  induction texts with
  | nil => exact fun c hc => by cases hc
  | cons s rest ih =>
    obtain ⟨hs, hrest⟩ := List.forall_mem_cons.mp h
    cases rest with
    | nil => simpa using hs
    | cons t rest =>
      rw [String.intercalate_cons_cons]
      exact (hs.append hsep).append (ih hrest)

end OneLine

theorem oneLine_blanks (n : Nat) : OneLine (Settings.blanks n) := by
  intro c hc
  rw [Settings.blanks, String.toList_ofList] at hc
  rw [List.eq_of_mem_replicate hc]
  decide

/-! ## Upper and lower case -/

theorem isBreak_ofNat {n : Nat} (h : 14 ≤ n) : isBreak (Char.ofNat n) = false := by
  have hcode : (Char.ofNat n).toNat = n ∨ (Char.ofNat n).toNat = 0 := by
    unfold Char.ofNat
    by_cases hvalid : n.isValidChar
    · rw [dif_pos hvalid]
      exact .inl rfl
    · rw [dif_neg hvalid]
      exact .inr rfl
  simp only [isBreak, Bool.or_eq_false_iff, beq_eq_false_iff_ne]
  constructor
  · intro hc
    rw [hc] at hcode
    have : '\n'.toNat = 10 := rfl
    omega
  · intro hc
    rw [hc] at hcode
    have : '\r'.toNat = 13 := rfl
    omega

theorem isBreak_mapRuns {runs : List Run} (hruns : ∀ r ∈ runs, 14 ≤ r.target) {c : Char}
    (hc : isBreak c = false) : isBreak (mapRuns runs c) = false := by
  unfold mapRuns
  split
  · rename_i r hr
    have := hruns r (List.mem_of_find?_eq_some hr)
    exact isBreak_ofNat (by omega)
  · exact hc

theorem lowerRuns_targets : ∀ r ∈ lowerRuns, 14 ≤ r.target := by decide +kernel

theorem upperRuns_targets : ∀ r ∈ upperRuns, 14 ≤ r.target := by decide +kernel

theorem upperExpansions_codes : ∀ e ∈ upperExpansions, ∀ code ∈ e.2, 14 ≤ code := by decide +kernel

/-- On ASCII the case of a letter changes nothing else. -/
theorem isBreak_ascii {c : Char} (h : c.toNat < 128) (hc : isBreak c = false) :
    isBreak c.toLower = false ∧ isBreak c.toUpper = false := by
  have hall : ∀ n < 128, isBreak (Char.ofNat n) = false →
      isBreak (Char.ofNat n).toLower = false ∧ isBreak (Char.ofNat n).toUpper = false := by decide
  have := hall c.toNat h
  rw [Char.ofNat_toNat] at this
  exact this hc

theorem isBreak_lowerChar {c : Char} (hc : isBreak c = false) :
    ∀ d ∈ lowerChar c, isBreak d = false := by
  unfold lowerChar
  split_ifs with hascii hdotted
  · simpa using (isBreak_ascii hascii hc).1
  · simp [isBreak]
  · simpa using isBreak_mapRuns lowerRuns_targets hc

theorem isBreak_upperChar {c : Char} (hc : isBreak c = false) :
    ∀ d ∈ upperChar c, isBreak d = false := by
  unfold upperChar
  split_ifs with hascii
  · simpa using (isBreak_ascii hascii hc).2
  · split
    · rename_i codes hcodes
      intro d hd
      obtain ⟨code, hcode, rfl⟩ := List.mem_map.mp hd
      exact isBreak_ofNat (upperExpansions_codes _ (Association.mem_of_lookup hcodes) code hcode)
    · simpa using isBreak_mapRuns upperRuns_targets hc

theorem isBreak_lowerAfter {cs : List Char} (h : ∀ c ∈ cs, isBreak c = false)
    (before : List Char) : ∀ d ∈ lowerAfter before cs, isBreak d = false := by
  induction cs generalizing before with
  | nil => exact fun d hd => by cases hd
  | cons c rest ih =>
    obtain ⟨hc, hrest⟩ := List.forall_mem_cons.mp h
    intro d hd
    unfold lowerAfter at hd
    rcases List.mem_append.mp hd with hd | hd
    · split at hd
      · rw [List.mem_singleton.mp hd]
        split <;> decide
      · exact isBreak_lowerChar hc d hd
    · exact ih hrest _ d hd

theorem OneLine.lower {s : String} (h : OneLine s) : OneLine (lower s) := by
  intro c hc
  rw [Text.lower, String.toList_ofList] at hc
  exact isBreak_lowerAfter h [] c hc

theorem OneLine.upper {s : String} (h : OneLine s) : OneLine (upper s) := by
  intro c hc
  rw [Text.upper, String.toList_ofList] at hc
  obtain ⟨d, hd, hc⟩ := List.mem_flatMap.mp hc
  exact isBreak_upperChar (h d hd) c hc

end Text

namespace Lua

open Text

/-! ## Names and numbers -/

theorem IsName.oneLine {name : String} (h : IsName name) : OneLine name :=
  fun c hc => isBreak_of_pos (by decide) (h.lower c hc)

theorem isBreak_escapeChar (c : Char) : ∀ d ∈ escapeChar c, isBreak d = false := by
  unfold escapeChar
  split_ifs with hslash hquote hline hreturn htab hnull hcontrol
  · simp [isBreak]
  · simp [isBreak]
  · simp [isBreak]
  · simp [isBreak]
  · simp [isBreak]
  · simp [isBreak]
  · simp only [Bool.or_eq_true, decide_eq_true_eq, beq_iff_eq] at hcontrol
    have hdigits := (code3_digits c.toNat (by omega)).1
    intro d hd
    rcases List.mem_cons.mp hd with rfl | hd
    · decide
    · exact isBreak_of_pos (by decide) (List.all_eq_true.mp hdigits d hd)
  · intro d hd
    rw [List.mem_singleton.mp hd, isBreak, Bool.or_eq_false_iff]
    exact ⟨by simpa using hline, by simpa using hreturn⟩

/-- What is quoted has its line breaks escaped. -/
theorem oneLine_quote (s : String) : OneLine (quote s) := by
  intro c hc
  rw [quote, String.toList_ofList, List.cons_append] at hc
  rcases List.mem_cons.mp hc with rfl | hc
  · decide
  · rcases List.mem_append.mp hc with hc | hc
    · obtain ⟨d, _, hc⟩ := List.mem_flatMap.mp hc
      exact isBreak_escapeChar d c hc
    · rw [List.mem_singleton.mp hc]
      decide

theorem Stage.isBreak_of_next {stage stage' : Stage} {c : Char} (h : stage.next? c = some stage') :
    isBreak c = false := by
  have hnone : stage.next? '\n' = none ∧ stage.next? '\r' = none := by
    cases stage <;> exact ⟨rfl, rfl⟩
  refine isBreak_of_pos (p := fun c => (stage.next? c).isSome) ?_ (by rw [h]; rfl)
  rw [hnone.1, hnone.2]
  exact ⟨rfl, rfl⟩

theorem Stage.isBreak_of_run {cs : List Char} {stage stage' : Stage}
    (h : cs.foldlM Stage.next? stage = some stage') : ∀ c ∈ cs, isBreak c = false := by
  induction cs generalizing stage with
  | nil => exact fun c hc => by cases hc
  | cons d rest ih =>
    rw [List.foldlM_cons] at h
    obtain ⟨next, hnext, hrest⟩ := Option.bind_eq_some_iff.mp h
    exact List.forall_mem_cons.mpr ⟨isBreak_of_next hnext, ih hrest⟩

theorem IsNumberText.oneLine {text : String} (h : IsNumberText text) : OneLine text := by
  have hdecimal {cs : List Char} (hcs : isDecimal cs = true) : ∀ c ∈ cs, isBreak c = false := by
    cases cs with
    | nil => cases hcs
    | cons c cs =>
      obtain ⟨hc, hcs⟩ := Bool.and_eq_true_iff.mp hcs
      obtain ⟨stage, hrun, _⟩ := (Option.any_eq_true _ _).mp hcs
      exact List.forall_mem_cons.mpr ⟨isBreak_of_pos (by decide) hc, Stage.isBreak_of_run hrun⟩
  obtain ⟨cs, hcs, rfl | rfl⟩ := h
  · rw [OneLine, String.toList_ofList]
    exact hdecimal hcs
  · rw [OneLine, String.toList_ofList]
    exact List.forall_mem_cons.mpr ⟨by decide, hdecimal hcs⟩

/-! ## Number text -/

theorem isBreak_of_numeral {cs : List Char} (h : isNumeral cs = true) :
    ∀ c ∈ cs, isBreak c = false := by
  intro c hc
  rcases (isNumeral_iff.mp h).chars c hc with hdigit | hmarker
  · exact isBreak_of_pos (by decide) hdigit
  · exact isBreak_of_pos (by decide) hmarker

/-! ## Literals -/

/-- What is left of a text that was trimmed does not end with a line break. -/
theorem chomp_strip (s : String) : chomp (Text.strip s).toList = (Text.strip s).toList := by
  have hlast : (Text.strip s).toList.getLast? ≠ some '\n' := by
    rw [Text.strip, String.toList_ofList, Text.trimBy, List.getLast?_reverse]
    intro h
    have hhead := List.head?_dropWhile_not Text.isBlank (s.toList.dropWhile Text.isBlank).reverse
    rw [h] at hhead
    exact absurd hhead (by decide)
  rw [chomp, if_neg (by simpa using hlast)]

theorem oneLine_identifier {s : String} (h : isIdentifier (Text.strip s) = true) :
    OneLine (Text.strip s) := by
  have hshape := (Bool.and_eq_true_iff.mp h).1
  rw [chomp_strip] at hshape
  unfold OneLine
  cases hcs : (Text.strip s).toList with
  | nil => exact fun c hc => by cases hc
  | cons c rest =>
    rw [hcs] at hshape
    obtain ⟨hc, hrest⟩ := Bool.and_eq_true_iff.mp hshape
    exact List.forall_mem_cons.mpr ⟨isBreak_of_pos (by decide) hc,
      fun d hd => isBreak_of_pos (by decide) (List.all_eq_true.mp hrest d hd)⟩

theorem numberLiteral_oneLine {key text : String} {v : Value} (h : numberLiteral key v = .ok text) :
    OneLine text := by
  cases v with
  | int n => exact Except.ok.inj h ▸ (isNumberText_int n).oneLine
  | float x => exact (isNumberText_float h).oneLine
  | text s =>
    unfold numberLiteral at h
    dsimp only at h
    split at h
    · rename_i hnumeral
      rw [← Except.ok.inj h]
      exact isBreak_of_numeral hnumeral
    · cases h
  | null | omitted | bool | list | table => cases h

end Lua

/-- A key of a table that was typed in brackets holds no line break. -/
def Key.isUnbroken : Key → Bool
  | .text s => !Lua.isBracketed (Text.strip s) || decide (Text.OneLine (Text.strip s))
  | _ => true

namespace Value

mutual

/-- No key of a table in the value was typed in brackets and holds a line break. -/
def isUnbroken : Value → Bool
  | .list items => itemsUnbroken items
  | .table entries => entriesUnbroken entries
  | _ => true

def itemsUnbroken : List Value → Bool
  | [] => true
  | v :: rest => v.isUnbroken && itemsUnbroken rest

def entriesUnbroken : List (Key × Value) → Bool
  | [] => true
  | (k, v) :: rest => k.isUnbroken && v.isUnbroken && entriesUnbroken rest

end

end Value

namespace Lua

open Text

theorem keyLiteral_oneLine {k : Key} (hk : k.isUnbroken = true) {text : String}
    (h : keyLiteral k = .ok text) : OneLine text := by
  cases k with
  | null => exact Except.ok.inj h ▸ by decide
  | bool b => exact Except.ok.inj h ▸ by cases b <;> decide
  | int n =>
    rw [← Except.ok.inj h]
    exact (OneLine.append (by decide) (isNumberText_int n).oneLine).append (by decide)
  | float x =>
    obtain ⟨number, hnumber, rfl⟩ := map_ok h
    exact (OneLine.append (by decide) (isNumberText_float hnumber).oneLine).append (by decide)
  | text s =>
    rw [← Except.ok.inj h]
    split
    · rename_i hraw
      rcases Bool.or_eq_true_iff.mp hraw with hname | hbracketed
      · exact oneLine_identifier hname
      · rw [Key.isUnbroken, hbracketed] at hk
        simpa using hk
    · simp +decide [oneLine_quote]

theorem oneLine_boolLiteral (b : Bool) : OneLine (boolLiteral b) := by
  cases b <;> decide

theorem oneLine_braced {fields : List String} (h : ∀ s ∈ fields, OneLine s) :
    OneLine (braced fields) := by
  unfold braced
  split
  · decide
  · have hfields : OneLine (", ".intercalate fields) := .intercalate (by decide) h
    simp +decide [hfields]

mutual

theorem anyLiteral_oneLine (key : String) (v : Value) (hv : v.isUnbroken = true) (text : String)
    (h : anyLiteral key v = .ok text) : OneLine text := by
  cases v with
  | null | omitted =>
    rw [anyLiteral] at h
    exact Except.ok.inj h ▸ by decide
  | bool b =>
    rw [anyLiteral] at h
    exact Except.ok.inj h ▸ oneLine_boolLiteral b
  | int n =>
    rw [anyLiteral] at h
    exact Except.ok.inj h ▸ (isNumberText_int n).oneLine
  | float x =>
    rw [anyLiteral] at h
    exact (isNumberText_float h).oneLine
  | text s =>
    rw [anyLiteral] at h
    exact Except.ok.inj h ▸ oneLine_quote s
  | list items =>
    rw [anyLiteral] at h
    rw [Value.isUnbroken] at hv
    obtain ⟨texts, htexts, rfl⟩ := map_ok h
    exact oneLine_braced (itemLiterals_oneLine items hv texts htexts)
  | table entries =>
    rw [anyLiteral] at h
    rw [Value.isUnbroken] at hv
    obtain ⟨texts, htexts, rfl⟩ := map_ok h
    exact oneLine_braced (entryLiterals_oneLine entries hv texts htexts)

theorem itemLiterals_oneLine (items : List Value) (hv : Value.itemsUnbroken items = true)
    (texts : List String) (h : itemLiterals items = .ok texts) : ∀ s ∈ texts, OneLine s := by
  cases items with
  | nil =>
    rw [itemLiterals] at h
    cases h
    exact fun s hs => by cases hs
  | cons v rest =>
    rw [Value.itemsUnbroken] at hv
    obtain ⟨hv, hrest⟩ := Bool.and_eq_true_iff.mp hv
    rw [itemLiterals] at h
    obtain ⟨text, htext, h⟩ := bind_ok h
    obtain ⟨more, hmore, h⟩ := bind_ok h
    cases h
    exact List.forall_mem_cons.mpr
      ⟨anyLiteral_oneLine "value" v hv text htext, itemLiterals_oneLine rest hrest more hmore⟩

theorem entryLiterals_oneLine (entries : List (Key × Value))
    (hv : Value.entriesUnbroken entries = true) (texts : List String)
    (h : entryLiterals entries = .ok texts) : ∀ s ∈ texts, OneLine s := by
  cases entries with
  | nil =>
    rw [entryLiterals] at h
    cases h
    exact fun s hs => by cases hs
  | cons entry rest =>
    rw [Value.entriesUnbroken] at hv
    obtain ⟨hentry, hrest⟩ := Bool.and_eq_true_iff.mp hv
    obtain ⟨hk, hv⟩ := Bool.and_eq_true_iff.mp hentry
    rw [entryLiterals] at h
    obtain ⟨name, hname, h⟩ := bind_ok h
    obtain ⟨text, htext, h⟩ := bind_ok h
    obtain ⟨more, hmore, h⟩ := bind_ok h
    cases h
    refine List.forall_mem_cons.mpr ⟨?_, entryLiterals_oneLine rest hrest more hmore⟩
    exact ((keyLiteral_oneLine hk hname).append (by decide)).append
      (anyLiteral_oneLine "value" entry.2 hv text htext)

end

/-- The literal of a value stays on its line, unless it is a table expression. -/
theorem literal_oneLine {kind : Kind} (hkind : kind ≠ .table) {v : Value}
    (hv : v.isUnbroken = true) {key text : String} (h : literal kind v key = .ok text) :
    OneLine text := by
  unfold literal at h
  split at h
  · exact Except.ok.inj h ▸ by decide
  · exact Except.ok.inj h ▸ by decide
  · cases kind with
    | number => exact numberLiteral_oneLine h
    | boolean =>
      obtain ⟨b, rfl⟩ := booleanLiteral_ok h
      exact oneLine_boolLiteral b
    | string =>
      obtain ⟨s, rfl⟩ := stringLiteral_ok h
      exact oneLine_quote s
    | table => exact absurd rfl hkind
    | any | exec => exact anyLiteral_oneLine key _ hv text h

end Lua

end CartGraph
