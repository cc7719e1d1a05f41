import CartGraph.Emit.Expression
import CartGraph.Proofs.Lua.Grammar
import CartGraph.Proofs.Lua.Lines
import Mathlib.Data.List.Forall2

/-! # Texts that read as trees

`Lua.Reads text tree` says that a text is read as a tree wherever it stands: before the end, before a
closing bracket and before a comma. It holds of names, numerals, strings and constants, and the texts
of operators and of calls have it from their parts. -/
namespace CartGraph.Lua

/-- Characters of a list are checked one by one. -/
theorem forall_mem_of_all {P : Char → Prop} [DecidablePred P] {cs : List Char}
    (h : cs.all (fun c => decide (P c)) = true) : ∀ c ∈ cs, P c := fun c hc =>
  of_decide_eq_true (List.all_eq_true.mp h c hc)

/-! ## Scanning -/

def separators : List Char := [' ', '(', ')', ',']

def Apart (rest : List Char) : Prop := ∀ c ∈ rest.head?, c ∈ separators

/-- A text is cut into some tokens, whatever follows it. -/
def Lexes (text : List Char) (tokens : List Token) : Prop :=
  ∀ rest, Apart rest → scan .gap (text ++ rest) = (scan .gap rest).map (tokens ++ ·)

theorem Apart.nil : Apart [] := fun _ h => nomatch h

theorem Apart.cons {c : Char} (hc : c ∈ separators) (rest : List Char) : Apart (c :: rest) := by
  intro d hd
  cases hd
  exact hc

theorem scan_gap_cons (c : Char) (rest : List Char) :
    scan .gap (c :: rest) = (Scan.start? c).bind fun state => scan state rest := by
  cases h : Scan.start? c <;> simp [scan, Scan.next?, Scan.finish, h]

theorem scan_stop {state : Scan} {rest : List Char} (h : ∀ c ∈ rest.head?, state.next? c = none) :
    scan state rest = state.finish.bind fun tokens => (scan .gap rest).map (tokens ++ ·) := by
  cases rest with
  | nil =>
    rw [scan, show scan .gap [] = some [] from rfl]
    cases state.finish <;> simp
  | cons c rest =>
    rw [scan_gap_cons, scan, h c rfl]
    cases Scan.start? c with
    | none => cases state.finish <;> rfl
    | some next =>
      cases state.finish with
      | none => rfl
      | some tokens =>
        change (scan next rest).bind _ = (scan next rest).map _
        cases scan next rest <;> rfl

theorem scan_run {cs : List Char} {state state' : Scan}
    (h : cs.foldlM Scan.next? state = some state') (rest : List Char) :
    scan state (cs ++ rest) = scan state' rest := by
  induction cs generalizing state with
  | nil => cases h; rfl
  | cons c cs ih =>
    rw [List.foldlM_cons] at h
    obtain ⟨next, hnext, h⟩ := Option.bind_eq_some_iff.mp h
    rw [List.cons_append, scan, hnext]
    exact ih h

theorem lexes_of_run {c : Char} {cs : List Char} {state state' : Scan} {tokens : List Token}
    (hstart : Scan.start? c = some state) (hrun : cs.foldlM Scan.next? state = some state')
    (hfinish : state'.finish = some tokens) (hstop : ∀ d ∈ separators, state'.next? d = none) :
    Lexes (c :: cs) tokens := by
  intro rest hrest
  rw [List.cons_append, scan_gap_cons, hstart, Option.bind_some, scan_run hrun,
    scan_stop fun d hd => hstop d (hrest d hd), hfinish, Option.bind_some]

/-- A symbol that no other one starts with. -/
theorem scan_symbol {c : Char} (hstart : Scan.start? c = some (.symbol c))
    (hnext : ∀ d, (Scan.symbol c).next? d = none) (rest : List Char) :
    scan .gap (c :: rest) = (scan .gap rest).map (.ofSymbol c :: ·) := by
  rw [scan_gap_cons, hstart, Option.bind_some, scan_stop fun d _ => hnext d]
  rfl

theorem scan_opening (rest : List Char) :
    scan .gap ('(' :: rest) = (scan .gap rest).map (.opening :: ·) :=
  scan_symbol (by decide) (fun d => by simp [Scan.next?, pairs, refusedPairs]) rest

theorem scan_closing (rest : List Char) :
    scan .gap (')' :: rest) = (scan .gap rest).map (.closing :: ·) :=
  scan_symbol (by decide) (fun d => by simp [Scan.next?, pairs, refusedPairs]) rest

theorem scan_comma (rest : List Char) :
    scan .gap (',' :: rest) = (scan .gap rest).map (.comma :: ·) :=
  scan_symbol (by decide) (fun d => by simp [Scan.next?, pairs, refusedPairs]) rest

theorem scan_blank (rest : List Char) : scan .gap (' ' :: rest) = scan .gap rest := by
  rw [scan_gap_cons, show Scan.start? ' ' = some .gap by decide, Option.bind_some]

/-! ## Words, numerals and strings -/

theorem run_word (read : List Char) {cs : List Char} (h : ∀ c ∈ cs, isNameChar c = true) :
    cs.foldlM Scan.next? (.word read) = some (.word (read ++ cs)) := by
  induction cs generalizing read with
  | nil => simp
  | cons c cs ih =>
    obtain ⟨hc, hcs⟩ := List.forall_mem_cons.mp h
    rw [List.foldlM_cons]
    simp only [Scan.next?, hc, if_true, Option.bind_eq_bind, Option.bind_some]
    rw [ih _ hcs, List.append_assoc, List.singleton_append]

theorem start_word {c : Char} (h : isNameStart c = true) : Scan.start? c = some (.word [c]) := by
  have hblanks : ∀ c ∈ blanks, isNameStart c = false := forall_mem_of_all (by decide)
  have hblank : c ∉ blanks := fun hb => by
    rw [hblanks c hb] at h
    cases h
  simp [Scan.start?, hblank, h]

theorem lexes_word {cs : List Char} (h : hasNameShape cs = true) : Lexes cs [.ofWord cs] := by
  cases cs with
  | nil => cases h
  | cons c cs =>
    obtain ⟨hc, hcs⟩ := Bool.and_eq_true_iff.mp h
    have hstop : ∀ d ∈ separators, isNameChar d = false := forall_mem_of_all (by decide)
    exact lexes_of_run (start_word hc) (run_word [c] (List.all_eq_true.mp hcs)) rfl fun d hd => by
      simp [Scan.next?, hstop d hd]

/-- Digits, then a fraction or none, then an exponent or none. -/
def isDecimal : List Char → Bool
  | [] => false
  | c :: cs => c.isDigit && (cs.foldlM Stage.next? .whole).any Stage.isComplete

theorem run_number (read : List Char) {cs : List Char} {stage stage' : Stage}
    (h : cs.foldlM Stage.next? stage = some stage') :
    cs.foldlM Scan.next? (.number stage read) = some (.number stage' (read ++ cs)) := by
  induction cs generalizing stage read with
  | nil => cases h; simp
  | cons c cs ih =>
    rw [List.foldlM_cons] at h
    obtain ⟨next, hnext, h⟩ := Option.bind_eq_some_iff.mp h
    rw [List.foldlM_cons]
    simp only [Scan.next?, hnext, Option.bind_eq_bind, Option.bind_some]
    rw [ih _ h, List.append_assoc, List.singleton_append]

theorem ne_of_isDigit {c d : Char} (h : c.isDigit = true) (hd : d.isDigit = false) : c ≠ d := by
  rintro rfl
  rw [h] at hd
  cases hd

theorem digit_toNat {c : Char} (h : c.isDigit = true) : c.toNat ≤ 57 := by
  simpa [UInt32.le_iff_toNat_le] using (Bool.and_eq_true_iff.mp h).2

theorem le_digit_toNat {c : Char} (h : c.isDigit = true) : 48 ≤ c.toNat := by
  simpa [UInt32.le_iff_toNat_le] using (Bool.and_eq_true_iff.mp h).1

theorem digit_not_nameStart {c : Char} (h : c.isDigit = true) : isNameStart c = false := by
  have hc := digit_toNat h
  have hupper : c.isUpper = false := Bool.eq_false_iff.mpr fun hu => by
    have : 65 ≤ c.toNat := by
      simpa [UInt32.le_iff_toNat_le] using (of_decide_eq_true hu).1
    omega
  have hlower : c.isLower = false := Bool.eq_false_iff.mpr fun hl => by
    have : 97 ≤ c.toNat := by
      simpa [UInt32.le_iff_toNat_le] using (Bool.and_eq_true_iff.mp hl).1
    omega
  have hunder : (c == '_') = false := beq_eq_false_iff_ne.mpr (ne_of_isDigit h (by decide))
  change ((c.isUpper || c.isLower) || c == '_') = false
  rw [hupper, hlower, hunder]
  rfl

theorem start_number {c : Char} (h : c.isDigit = true) :
    Scan.start? c = some (.number .whole [c]) := by
  have hblanks : ∀ c ∈ blanks, c.isDigit = false := forall_mem_of_all (by decide)
  have hblank : c ∉ blanks := fun hb => ne_of_isDigit h (hblanks c hb) rfl
  simp [Scan.start?, hblank, digit_not_nameStart h, h]

theorem lexes_number {cs : List Char} (h : isDecimal cs = true) :
    Lexes cs [.number (String.ofList cs)] := by
  cases cs with
  | nil => cases h
  | cons c cs =>
    obtain ⟨hc, hcs⟩ := Bool.and_eq_true_iff.mp h
    obtain ⟨stage, hstage, hcomplete⟩ := (Option.any_eq_true _ _).mp hcs
    have hstop : ∀ d ∈ separators, stage.next? d = none ∧ isNameChar d = false ∧ d ≠ '.' :=
      forall_mem_of_all (by cases stage <;> decide)
    refine lexes_of_run (start_number hc) (run_number [c] hstage) ?_ fun d hd => ?_
    · simp [Scan.finish, hcomplete]
    · obtain ⟨hnext, hname, hpoint⟩ := hstop d hd
      simp [Scan.next?, hnext, hname, hpoint]

/-! ## Grouping -/

def Ends (rest : List Token) : Prop := ∀ token ∈ rest.head?, token = .closing ∨ token = .comma

def Uncalled (rest : List Token) : Prop :=
  ∀ token ∈ rest.head?, token ≠ .opening ∧ ∀ text, token ≠ .string text

/-- Some tokens are grouped to a tree, whatever follows them. -/
def Groups (tokens : List Token) (tree : Tree) : Prop :=
  ∀ rest, Ends rest → ∀ fuel, 4 * tokens.length ≤ fuel →
    expression fuel 0 (tokens ++ rest) = some (tree, rest)

theorem Ends.nil : Ends [] := fun _ h => nomatch h

theorem Ends.closing (rest : List Token) : Ends (.closing :: rest) := by
  rintro token ⟨⟩
  exact .inl rfl

theorem Ends.comma (rest : List Token) : Ends (.comma :: rest) := by
  rintro token ⟨⟩
  exact .inr rfl

theorem Ends.uncalled {rest : List Token} (h : Ends rest) : Uncalled rest := by
  intro token ht
  rcases h token ht with rfl | rfl <;> simp

theorem operators_end {rest : List Token} (h : Ends rest) (fuel limit : Nat) (left : Tree) :
    operators (fuel + 1) limit left rest = some (left, rest) := by
  cases rest with
  | nil => rfl
  | cons token rest => rcases h token rfl with rfl | rfl <;> rfl

theorem calls_end {rest : List Token} (h : Uncalled rest) (fuel : Nat) (function : Tree) :
    calls (fuel + 1) function rest = some (function, rest) := by
  cases rest with
  | nil => rfl
  | cons token rest =>
    obtain ⟨hopening, hstring⟩ := h token rfl
    cases token with
    | opening => exact absurd rfl hopening
    | string text => exact absurd rfl (hstring text)
    | _ => rfl

theorem expression_operand {tokens rest : List Token} {tree : Tree} {fuel : Nat} (limit : Nat)
    (h : operand (fuel + 1) tokens = some (tree, rest)) (hrest : Ends rest) :
    expression (fuel + 2) limit tokens = some (tree, rest) := by
  rw [expression, h]
  exact operators_end hrest fuel limit tree

theorem groups_number (text : String) : Groups [.number text] (.number text) := by
  intro rest hrest fuel hfuel
  obtain ⟨fuel, rfl⟩ : ∃ n, fuel = n + 2 := ⟨fuel - 2, by simp at hfuel; omega⟩
  exact expression_operand 0 rfl hrest

theorem groups_string (text : String) : Groups [.string text] (.string text) := by
  intro rest hrest fuel hfuel
  obtain ⟨fuel, rfl⟩ : ∃ n, fuel = n + 2 := ⟨fuel - 2, by simp at hfuel; omega⟩
  exact expression_operand 0 rfl hrest

theorem groups_name (text : String) : Groups [.name text] (.name text) := by
  intro rest hrest fuel hfuel
  obtain ⟨fuel, rfl⟩ : ∃ n, fuel = n + 3 := ⟨fuel - 3, by simp at hfuel; omega⟩
  exact expression_operand 0 (calls_end hrest.uncalled fuel _) hrest

theorem groups_constant {word : String} (h : word ∈ constants) :
    Groups [.word word] (.constant word) := by
  intro rest hrest fuel hfuel
  obtain ⟨fuel, rfl⟩ : ∃ n, fuel = n + 2 := ⟨fuel - 2, by simp at hfuel; omega⟩
  refine expression_operand 0 ?_ hrest
  simp only [constants, List.mem_cons, List.not_mem_nil, or_false] at h
  rcases h with rfl | rfl | rfl <;> rfl

/-- A minus sign before a numeral. -/
theorem groups_negative (text : String) :
    Groups [.symbol "-", .number text] (.unary "-" (.number text)) := by
  intro rest hrest fuel hfuel
  obtain ⟨fuel, rfl⟩ : ∃ n, fuel = n + 4 := ⟨fuel - 4, by simp at hfuel; omega⟩
  refine expression_operand 0 ?_ hrest
  change ((expression (fuel + 2) unaryPriority (.number text :: rest)).bind fun p =>
    some (Tree.unary "-" p.1, p.2)) = _
  rw [@expression_operand (.number text :: rest) _ _ _ unaryPriority rfl hrest]
  rfl

/-- What stands in brackets is an operand. -/
theorem operand_brackets {tokens rest : List Token} {tree : Tree} (h : Groups tokens tree)
    (hrest : Uncalled rest) {fuel : Nat} (hfuel : 4 * tokens.length < fuel) :
    operand (fuel + 1) (.opening :: (tokens ++ .closing :: rest)) = some (tree, rest) := by
  obtain ⟨fuel, rfl⟩ : ∃ n, fuel = n + 1 := ⟨fuel - 1, by omega⟩
  rw [operand, h _ (.closing rest) _ (by omega)]
  exact calls_end hrest fuel tree

theorem Groups.binary {a b : List Token} {left right : Tree} {operator : String}
    {before after : Nat} (ha : Groups a left) (hb : Groups b right)
    (hoperator : (Token.symbol operator).binary? = some (operator, before, after))
    (hbefore : 0 < before) :
    Groups (.opening :: (a ++ .closing :: .symbol operator :: .opening :: (b ++ [.closing])))
      (.binary operator left right) := by
  intro rest hrest fuel hfuel
  simp only [List.length_cons, List.length_append, List.length_nil] at hfuel
  obtain ⟨fuel, rfl⟩ : ∃ n, fuel = n + 5 := ⟨fuel - 5, by omega⟩
  simp only [List.cons_append, List.append_assoc, List.nil_append]
  have hleft : operand (fuel + 4) (.opening :: (a ++ .closing :: .symbol operator :: .opening ::
      (b ++ .closing :: rest))) =
        some (left, .symbol operator :: .opening :: (b ++ .closing :: rest)) :=
    operand_brackets ha (by rintro token ⟨⟩; simp) (by omega)
  have hright : expression (fuel + 3) after (.opening :: (b ++ .closing :: rest)) =
      some (right, rest) :=
    expression_operand after (operand_brackets hb hrest.uncalled (by omega)) hrest
  rw [expression, hleft]
  change operators (fuel + 4) 0 left _ = _
  rw [operators, hoperator]
  simp only [if_pos hbefore, hright, Option.bind_eq_bind, Option.bind_some]
  exact operators_end hrest _ _ _

theorem Groups.starts {tokens : List Token} {tree : Tree} (h : Groups tokens tree) :
    ∃ first rest, tokens = first :: rest ∧ first ≠ .closing := by
  cases tokens with
  | nil => cases h [] .nil 2 (by simp)
  | cons first rest =>
    refine ⟨first, rest, rfl, ?_⟩
    rintro rfl
    cases h [] .nil (4 * rest.length + 4) (by simp; omega)

/-! ## Reading -/

/-- A text is read as a tree, wherever an expression may stand. -/
def Reads (text : String) (tree : Tree) : Prop :=
  ∃ tokens, Lexes text.toList tokens ∧ Groups tokens tree

theorem Reads.parse {text : String} {tree : Tree} (h : Reads text tree) :
    parse text = some tree := by
  obtain ⟨tokens, hlex, hgroup⟩ := h
  have hscan : scan .gap text.toList = some tokens := by
    simpa [show scan .gap [] = some [] from rfl] using hlex [] .nil
  have hexpression : expression (4 * tokens.length) 0 tokens = some (tree, []) := by
    simpa using hgroup [] .nil _ (Nat.le_refl _)
  simp [Lua.parse, hscan, hexpression]

theorem reads_name {name : String} (hshape : hasNameShape name.toList = true)
    (hfree : name ∉ reserved) : Lexes name.toList [.name name] ∧ Reads name (.name name) := by
  have hword : Token.ofWord name.toList = .name name := by
    simp [Token.ofWord, String.ofList_toList, hfree]
  have hlex := hword ▸ lexes_word hshape
  exact ⟨hlex, _, hlex, groups_name name⟩

theorem reads_constant {word : String} (h : word ∈ constants) : Reads word (.constant word) := by
  have hshape : ∀ word ∈ constants, hasNameShape word.toList = true ∧ word ∈ reserved := by decide
  obtain ⟨hshape, hreserved⟩ := hshape word h
  have hword : Token.ofWord word.toList = .word word := by
    simp [Token.ofWord, String.ofList_toList, hreserved]
  exact ⟨_, hword ▸ lexes_word hshape, groups_constant h⟩

theorem reads_number {cs : List Char} (h : isDecimal cs = true) :
    Reads (String.ofList cs) (.number (String.ofList cs)) :=
  ⟨_, by rw [String.toList_ofList]; exact lexes_number h, groups_number _⟩

theorem reads_negative {cs : List Char} (h : isDecimal cs = true) :
    Reads (String.ofList ('-' :: cs)) (.unary "-" (.number (String.ofList cs))) := by
  refine ⟨_, fun rest hrest => ?_, groups_negative _⟩
  have hnext : ∀ c ∈ (cs ++ rest).head?, (Scan.symbol '-').next? c = none := by
    cases cs with
    | nil => cases h
    | cons c cs =>
      rintro d ⟨⟩
      have hc := (Bool.and_eq_true_iff.mp h).1
      have hminus : c ≠ '-' := ne_of_isDigit hc (by decide)
      simp [Scan.next?, pairs, refusedPairs, hminus]
  have hstart : Scan.start? '-' = some (.symbol '-') := rfl
  rw [String.toList_ofList, List.cons_append, scan_gap_cons, hstart, Option.bind_some,
    scan_stop hnext, lexes_number h rest hrest]
  simp [Scan.finish, Token.ofSymbol, Function.comp_def]

/-- The texts of several arguments, parted by commas. -/
theorem reads_arguments {texts : List String} {trees : List Tree} (h : List.Forall₂ Reads texts trees)
    (hne : texts ≠ []) :
    ∃ first tokens, first ≠ .closing ∧ Lexes (", ".intercalate texts).toList (first :: tokens) ∧
      ∀ rest fuel, 4 * tokens.length + 4 < fuel →
        argumentList fuel (first :: (tokens ++ .closing :: rest)) = some (trees, rest) := by
  induction h with
  | nil => exact absurd rfl hne
  | @cons text tree texts trees hhead htail ih =>
    obtain ⟨tokens, hlex, hgroup⟩ := hhead
    obtain ⟨first, tokens, rfl, hfirst⟩ := hgroup.starts
    cases texts with
    | nil =>
      cases htail
      refine ⟨first, tokens, hfirst, by simpa using hlex, fun rest fuel hfuel => ?_⟩
      obtain ⟨fuel, rfl⟩ : ∃ n, fuel = n + 1 := ⟨fuel - 1, by omega⟩
      have hexpression := hgroup _ (.closing rest) fuel (by rw [List.length_cons]; omega)
      rw [List.cons_append] at hexpression
      rw [argumentList, hexpression]
      rfl
    | cons next texts =>
      obtain ⟨second, more, _, hlex', hmore⟩ := ih (List.cons_ne_nil _ _)
      refine ⟨first, tokens ++ .comma :: second :: more, hfirst, fun rest hrest => ?_,
        fun rest fuel hfuel => ?_⟩
      · rw [String.intercalate_cons_cons]
        simp only [String.toList_append, List.append_assoc, show ", ".toList = [',', ' '] from rfl,
          List.cons_append, List.nil_append]
        rw [hlex _ (.cons (by decide) _), scan_comma, scan_blank, hlex' _ hrest]
        simp [Function.comp_def]
      · simp only [List.length_append, List.length_cons] at hfuel
        obtain ⟨fuel, rfl⟩ : ∃ n, fuel = n + 1 := ⟨fuel - 1, by omega⟩
        have hexpression := hgroup _ (.comma (second :: (more ++ .closing :: rest))) fuel
          (by rw [List.length_cons]; omega)
        rw [List.cons_append] at hexpression
        simp only [List.append_assoc, List.cons_append]
        rw [argumentList, hexpression]
        change ((argumentList fuel (second :: (more ++ .closing :: rest))).bind fun p =>
          some (tree :: p.1, p.2)) = _
        rw [hmore rest fuel (by omega)]
        rfl

/-- A list of arguments in brackets, which may be empty. -/
theorem calls_arguments {texts : List String} {trees : List Tree}
    (h : List.Forall₂ Reads texts trees) :
    ∃ tokens, Lexes (", ".intercalate texts).toList tokens ∧
      ∀ function rest fuel, Uncalled rest → 4 * tokens.length < fuel →
        calls (fuel + 2) function (.opening :: (tokens ++ .closing :: rest)) =
          some (.call function trees, rest) := by
  by_cases hne : texts = []
  · subst hne
    cases h
    refine ⟨[], fun rest _ => ?_, fun function rest fuel hrest _ => calls_end hrest fuel _⟩
    change scan .gap rest = Option.map id _
    rw [Option.map_id]
    rfl
  · obtain ⟨first, tokens, hfirst, hlex, harguments⟩ := reads_arguments h hne
    refine ⟨first :: tokens, hlex, fun function rest fuel hrest hfuel => ?_⟩
    rw [List.length_cons] at hfuel
    rw [List.cons_append, calls]
    · rw [harguments rest _ (by omega)]
      exact calls_end hrest fuel _
    · exact fun _ he => hfirst (List.cons.inj he).1

theorem Reads.call {function : String} {texts : List String} {trees : List Tree}
    (hfunction : Lexes function.toList [.name function]) (h : List.Forall₂ Reads texts trees) :
    Reads (Lua.call function texts) (.call (.name function) trees) := by
  obtain ⟨tokens, hlex, hcalls⟩ := calls_arguments h
  have htext : (Lua.call function texts).toList =
      function.toList ++ '(' :: ((", ".intercalate texts).toList ++ [')']) := by
    simp [Lua.call]
  refine ⟨.name function :: .opening :: (tokens ++ [.closing]), fun rest hrest => ?_,
    fun rest hrest fuel hfuel => ?_⟩
  · rw [htext]
    simp only [List.append_assoc, List.cons_append, List.nil_append]
    rw [hfunction _ (.cons (by decide) _), scan_opening, hlex _ (.cons (by decide) _), scan_closing]
    simp [Function.comp_def]
  · simp only [List.length_cons, List.length_append, List.length_nil] at hfuel
    obtain ⟨fuel, rfl⟩ : ∃ n, fuel = n + 4 := ⟨fuel - 4, by omega⟩
    refine expression_operand 0 ?_ hrest
    simp only [List.cons_append, List.append_assoc, List.nil_append]
    exact hcalls _ rest fuel hrest.uncalled (by omega)

def writtenOperators : List String := ["+", "*", "==", "~=", "<", ">", "<=", ">="]

theorem lexes_operator : ∀ operator ∈ writtenOperators, Lexes operator.toList [.symbol operator] := by
  simp only [writtenOperators, List.forall_mem_cons]
  refine ⟨?_, ?_, ?_, ?_, ?_, ?_, ?_, ?_, fun _ h => nomatch h⟩
  all_goals exact lexes_of_run rfl rfl rfl (forall_mem_of_all (by decide))

theorem binary_operator : ∀ operator ∈ writtenOperators, ∃ before after, 0 < before ∧
    (Token.symbol operator).binary? = some (operator, before, after) := by
  simp only [writtenOperators, List.forall_mem_cons]
  refine ⟨?_, ?_, ?_, ?_, ?_, ?_, ?_, ?_, fun _ h => nomatch h⟩
  all_goals exact ⟨_, _, by decide, rfl⟩

theorem Reads.binary {a b : String} {left right : Tree} {operator : String} (ha : Reads a left)
    (hb : Reads b right) (hoperator : operator ∈ writtenOperators) :
    Reads (binaryText operator a b) (.binary operator left right) := by
  obtain ⟨as, hlexa, hgroupa⟩ := ha
  obtain ⟨bs, hlexb, hgroupb⟩ := hb
  obtain ⟨before, after, hbefore, hbinary⟩ := binary_operator operator hoperator
  refine ⟨_, fun rest hrest => ?_, hgroupa.binary hgroupb hbinary hbefore⟩
  have htext : (binaryText operator a b).toList = '(' :: (a.toList ++ ')' :: ' ' ::
      (operator.toList ++ ' ' :: '(' :: (b.toList ++ [')']))) := by
    simp [binaryText]
  rw [htext]
  simp only [List.append_assoc, List.cons_append, List.nil_append]
  rw [scan_opening, hlexa _ (.cons (by decide) _), scan_closing, scan_blank,
    lexes_operator operator hoperator _ (.cons (by decide) _), scan_blank, scan_opening,
    hlexb _ (.cons (by decide) _), scan_closing]
  simp [Function.comp_def]

end CartGraph.Lua
