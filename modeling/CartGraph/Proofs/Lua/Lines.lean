import CartGraph.Proofs.Lua.Names
import CartGraph.Settings

/-! # Lines of a program, read back

What a line does to the locals in scope is told by its first word and by the names between that word
and the first equals sign. -/
namespace CartGraph.Lua

inductive Form where
  /-- Opens a block that has locals of its own. -/
  | opens (names : List String)
  /-- Closes a block and opens another. -/
  | turns
  | closes
  | declares (names : List String)
  | plain
  deriving DecidableEq, Repr

def flush (word : List Char) : List String := if word.isEmpty then [] else [String.ofList word]

/-- The words before an equals sign, given what was read of the first one. -/
def wordsFrom (word : List Char) : List Char → List String
  | [] => flush word
  | c :: rest =>
    if c = '=' then flush word
    else if isNameChar c then wordsFrom (word ++ [c]) rest
    else flush word ++ wordsFrom [] rest

def Form.ofWord (word : String) (rest : List Char) : Form :=
  if word = "for" then .opens (wordsFrom [] rest)
  else if word = "if" then .opens []
  else if word = "else" then .turns
  else if word = "end" then .closes
  else if word = "local" then .declares (wordsFrom [] rest)
  else .plain

def Form.ofLine (line : String) : Form :=
  let text := line.toList.dropWhile (· == ' ')
  .ofWord (String.ofList (text.takeWhile isNameChar)) (text.dropWhile isNameChar)

/-- What can be declared: text of lower-case letters, digits and underscores. -/
structure IsName (s : String) : Prop where
  ne_empty : s ≠ ""
  lower : ∀ c ∈ s.toList, isLowerNameChar c = true

theorem sanitize_isName (raw : String) : IsName (sanitize raw) :=
  ⟨sanitize_ne_empty raw, sanitize_lower raw⟩

theorem isNameChar_of_lower {c : Char} (h : isLowerNameChar c = true) : isNameChar c = true := by
  simp only [isLowerNameChar, isLowerAlnum, Bool.or_eq_true] at h
  simp only [isNameChar, Char.isAlphanum, Bool.or_eq_true]
  rcases h with (h | h) | h
  · exact .inl (.inl (Bool.or_eq_true_iff.mpr (.inr h)))
  · exact .inl (.inr h)
  · exact .inr h

theorem equals_not_name {c : Char} (h : isNameChar c = true) : c ≠ '=' := by
  rintro rfl
  exact absurd h (by decide)

theorem wordsFrom_name {name : List Char} (hn : ∀ c ∈ name, isNameChar c = true)
    (word rest : List Char) : wordsFrom word (name ++ rest) = wordsFrom (word ++ name) rest := by
  induction name generalizing word with
  | nil => simp
  | cons c cs ih =>
    obtain ⟨hc, hcs⟩ := List.forall_mem_cons.mp hn
    rw [List.cons_append, wordsFrom, if_neg (equals_not_name hc), if_pos hc, ih hcs]
    simp

theorem wordsFrom_break {c : Char} (hc : isNameChar c = false) (he : c ≠ '=')
    (word rest : List Char) : wordsFrom word (c :: rest) = flush word ++ wordsFrom [] rest := by
  rw [wordsFrom, if_neg he, hc]
  rfl

theorem wordsFrom_equals (word rest : List Char) : wordsFrom word ('=' :: rest) = flush word := by
  rw [wordsFrom, if_pos rfl]

theorem flush_name {name : String} (h : IsName name) : flush name.toList = [name] := by
  have hne : name.toList ≠ [] := fun h' => h.ne_empty (String.toList_eq_nil_iff.mp h')
  simp [flush, hne]

/-- A name up to the equals sign. -/
theorem wordsFrom_single {name : String} (h : IsName name) (rest : List Char) :
    wordsFrom [] (' ' :: name.toList ++ ' ' :: '=' :: rest) = [name] := by
  have hn c hc := isNameChar_of_lower (h.lower c hc)
  rw [List.cons_append, wordsFrom_break (by decide) (by decide), wordsFrom_name hn,
    wordsFrom_break (by decide) (by decide), wordsFrom_equals, List.nil_append, flush_name h]
  rfl

theorem wordsFrom_pair {a b : String} (ha : IsName a) (hb : IsName b) (rest : List Char) :
    wordsFrom [] (' ' :: a.toList ++ ',' :: ' ' :: b.toList ++ ' ' :: '=' :: rest) = [a, b] := by
  have hna c hc := isNameChar_of_lower (ha.lower c hc)
  have hnb c hc := isNameChar_of_lower (hb.lower c hc)
  simp only [List.cons_append, List.append_assoc]
  rw [wordsFrom_break (by decide) (by decide), wordsFrom_name hna,
    wordsFrom_break (by decide) (by decide), wordsFrom_break (by decide) (by decide),
    wordsFrom_name hnb, wordsFrom_break (by decide) (by decide), wordsFrom_equals,
    List.nil_append, List.nil_append, flush_name ha, flush_name hb]
  rfl

/-- The form of a line that starts with a word after its blanks. -/
theorem Form.ofLine_blanks (k : Nat) {text : String} {word rest : List Char}
    (htext : text.toList = word ++ rest) (hword : ∀ c ∈ word, isNameChar c = true)
    (hrest : ∀ c ∈ rest.head?, isNameChar c = false) (hblank : ∀ c ∈ text.toList.head?, c ≠ ' ') :
    Form.ofLine (Settings.blanks k ++ text) = Form.ofWord (String.ofList word) rest := by
  have hdrop : (Settings.blanks k ++ text).toList.dropWhile (· == ' ') = text.toList := by
    rw [String.toList_append, Settings.blanks, String.toList_ofList,
      List.dropWhile_append_of_pos (by simp)]
    cases hl : text.toList with
    | nil => rfl
    | cons c cs =>
      have hc : c ≠ ' ' := hblank c (by rw [hl]; rfl)
      rw [List.dropWhile_cons_of_neg (by simpa using hc)]
  have hhead : rest.takeWhile isNameChar = [] ∧ rest.dropWhile isNameChar = rest := by
    cases rest with
    | nil => exact ⟨rfl, rfl⟩
    | cons c cs =>
      have hc := hrest c rfl
      rw [List.takeWhile_cons_of_neg (by simp [hc]), List.dropWhile_cons_of_neg (by simp [hc])]
      exact ⟨rfl, rfl⟩
  unfold ofLine
  simp only [hdrop, htext]
  rw [List.takeWhile_append_of_pos hword, List.dropWhile_append_of_pos hword, hhead.1, hhead.2,
    List.append_nil]

namespace Form

theorem ofLine_for (k : Nat) {index : String} (h : IsName index) (range : String) :
    ofLine (Settings.blanks k ++ ("for " ++ index ++ " = " ++ range)) = .opens [index] := by
  have htext : ("for " ++ index ++ " = " ++ range).toList =
      ['f', 'o', 'r'] ++ (' ' :: index.toList ++ ' ' :: '=' :: ' ' :: range.toList) := by simp
  rw [ofLine_blanks k htext (List.all_eq_true.mp (by decide)) (by simp [isNameChar]) (by simp)]
  simp only [ofWord, wordsFrom_single h]
  rfl

theorem ofLine_local (k : Nat) {name : String} (h : IsName name) (value : String) :
    ofLine (Settings.blanks k ++ ("local " ++ name ++ " = " ++ value)) = .declares [name] := by
  have htext : ("local " ++ name ++ " = " ++ value).toList =
      ['l', 'o', 'c', 'a', 'l'] ++ (' ' :: name.toList ++ ' ' :: '=' :: ' ' :: value.toList) := by
    simp
  rw [ofLine_blanks k htext (List.all_eq_true.mp (by decide)) (by simp [isNameChar]) (by simp)]
  simp only [ofWord, wordsFrom_single h]
  rfl

theorem ofLine_local_pair (k : Nat) {a b : String} (ha : IsName a) (hb : IsName b)
    (value : String) : ofLine (Settings.blanks k ++ ("local " ++ a ++ ", " ++ b ++ " = " ++ value)) =
      .declares [a, b] := by
  have htext : ("local " ++ a ++ ", " ++ b ++ " = " ++ value).toList = ['l', 'o', 'c', 'a', 'l'] ++
      (' ' :: a.toList ++ ',' :: ' ' :: b.toList ++ ' ' :: '=' :: ' ' :: value.toList) := by
    simp
  rw [ofLine_blanks k htext (List.all_eq_true.mp (by decide)) (by simp [isNameChar]) (by simp)]
  simp only [ofWord, wordsFrom_pair ha hb]
  rfl

theorem ofLine_if (k : Nat) (condition : String) :
    ofLine (Settings.blanks k ++ ("if " ++ condition ++ " then")) = .opens [] := by
  have htext : ("if " ++ condition ++ " then").toList =
      ['i', 'f'] ++ (' ' :: (condition ++ " then").toList) := by simp
  rw [ofLine_blanks k htext (List.all_eq_true.mp (by decide)) (by simp [isNameChar]) (by simp)]
  rfl

theorem ofLine_else (k : Nat) : ofLine (Settings.blanks k ++ "else") = .turns := by
  rw [ofLine_blanks k (List.append_nil _).symm (List.all_eq_true.mp (by decide)) (by simp) (by simp)]
  rfl

theorem ofLine_end (k : Nat) : ofLine (Settings.blanks k ++ "end") = .closes := by
  rw [ofLine_blanks k (List.append_nil _).symm (List.all_eq_true.mp (by decide)) (by simp) (by simp)]
  rfl

theorem ofLine_comment (k : Nat) (text : String) :
    ofLine (Settings.blanks k ++ ("--" ++ text)) = .plain := by
  have htext : ("--" ++ text).toList = [] ++ ('-' :: '-' :: text.toList) := by simp
  rw [ofLine_blanks k htext (by simp) (by simp [isNameChar]) (by simp)]
  rfl

/-- A line that starts with a name is no more than a statement. -/
theorem ofLine_name (k : Nat) {name rest : String} (h : IsName name) (hfree : name ∉ reserved)
    (hrest : ∀ c ∈ rest.toList.head?, isNameChar c = false) :
    ofLine (Settings.blanks k ++ (name ++ rest)) = .plain := by
  have hname c hc := isNameChar_of_lower (h.lower c hc)
  have hblank : ∀ c ∈ (name ++ rest).toList.head?, c ≠ ' ' := by
    have hne : name.toList ≠ [] := fun h' => h.ne_empty (String.toList_eq_nil_iff.mp h')
    rw [String.toList_append, List.head?_append_of_ne_nil _ hne]
    rintro c hc rfl
    exact absurd (hname ' ' (List.mem_of_mem_head? hc)) (by decide)
  have hword {w : String} (hw : w ∈ reserved) : name ≠ w := fun hn => hfree (hn ▸ hw)
  rw [ofLine_blanks k String.toList_append hname hrest hblank, String.ofList_toList]
  unfold ofWord
  rw [if_neg (hword (by decide)), if_neg (hword (by decide)), if_neg (hword (by decide)),
    if_neg (hword (by decide)), if_neg (hword (by decide))]

end Form

/-! ## What lines do to the locals in scope -/

/-- The locals of the open blocks by who declares them, inner blocks and later locals first. -/
abbrev Frames (α : Type) := List (List (α × String))

def Form.apply (form : Form) (owner : α) (frames : Frames α) : Frames α :=
  match form with
  | .opens names => (names.map fun name => (owner, name)).reverse :: frames
  | .turns => [] :: frames.tail
  | .closes => frames.tail
  | .declares names =>
    ((names.map fun name => (owner, name)).reverse ++ frames.headD []) :: frames.tail
  | .plain => frames

def Frames.owner? (frames : Frames α) (name : String) : Option α :=
  (frames.flatten.find? fun d => d.2 = name).map Prod.fst

/-- A local that is in scope under a name is what the name stands for, unless the name is declared
again later. -/
theorem Frames.owner?_eq_some_iff {frames : Frames α} {later earlier : List (α × String)} {owner : α}
    {name : String} (h : frames.flatten = later ++ (owner, name) :: earlier)
    (hlater : (owner, name) ∉ later) : frames.owner? name = some owner ↔ ∀ d ∈ later, d.2 ≠ name := by
  unfold owner?
  rw [h, List.find?_append]
  cases hf : later.find? fun d => d.2 = name with
  | none =>
    have hnone := List.find?_eq_none.mp hf
    simpa using hnone
  | some d =>
    have hd := List.mem_of_find?_eq_some hf
    have hname : d.2 = name := by simpa using List.find?_some hf
    refine ⟨fun ho => ?_, fun hall => absurd hname (hall d hd)⟩
    have ho : d.1 = owner := by simpa using ho
    exact absurd (show (owner, name) ∈ later by rw [← ho, ← hname]; exact hd) hlater

end CartGraph.Lua
