import CartGraph.Proofs.Emit.Runs
import CartGraph.Proofs.GivenNames

/-! # The lines of a chain are nested blocks

A block is a list of lines at one depth, in which a line that opens a condition or a loop is followed
by a block that is deeper by one and not empty, and by the line that closes it (`Lua.Block`). All that
stands at the start of another line is a name that is not a word of the language, a comment, or the
word `local`, so no such line is taken for one that opens or closes a block. -/
namespace CartGraph

namespace Lua

/-- The word that a text starts with, empty if it starts with none. -/
def firstWord (text : String) : String := String.ofList (text.toList.takeWhile isNameChar)

/-- A text that opens no block, turns to no other and closes none. -/
structure IsSimple (text : String) : Prop where
  ne_end : text ≠ "end"
  ne_else : text ≠ "else"
  ne_if : ∀ rest, text ≠ "if " ++ rest
  ne_for : ∀ rest, text ≠ "for " ++ rest

inductive Block (s : Settings) : Int → List String → Prop
  | nil {level : Int} : Block s level []
  | simple {level : Int} {pad text : String} {rest : List String}
    (hpad : s.indent level = .ok pad) (htext : IsSimple text) (hrest : Block s level rest) :
    Block s level ((pad ++ text) :: rest)
  | branch {level : Int} {pad condition : String} {body rest : List String}
    (hpad : s.indent level = .ok pad) (hne : body ≠ []) (hbody : Block s (level + 1) body)
    (hrest : Block s level rest) :
    Block s level
      ((pad ++ ("if " ++ condition ++ " then")) :: (body ++ (pad ++ "end") :: rest))
  | branches {level : Int} {pad condition : String} {body other rest : List String}
    (hpad : s.indent level = .ok pad) (hne : body ≠ []) (hbody : Block s (level + 1) body)
    (hne' : other ≠ []) (hother : Block s (level + 1) other) (hrest : Block s level rest) :
    Block s level ((pad ++ ("if " ++ condition ++ " then")) ::
      (body ++ (pad ++ "else") :: (other ++ (pad ++ "end") :: rest)))
  | loop {level : Int} {pad range : String} {body rest : List String}
    (hpad : s.indent level = .ok pad) (hne : body ≠ []) (hbody : Block s (level + 1) body)
    (hrest : Block s level rest) :
    Block s level ((pad ++ ("for " ++ range ++ " do")) :: (body ++ (pad ++ "end") :: rest))

theorem Block.append {s : Settings} {level : Int} {lines more : List String}
    (h : Block s level lines) (hmore : Block s level more) : Block s level (lines ++ more) := by
  induction h with
  | nil => exact hmore
  | simple hpad htext _ ih => exact .simple hpad htext (ih hmore)
  | branch hpad hne hbody _ _ ih =>
    rw [List.cons_append, List.append_assoc]
    exact .branch hpad hne hbody (ih hmore)
  | branches hpad hne hbody hne' hother _ _ _ ih =>
    rw [List.cons_append, List.append_assoc, List.cons_append, List.append_assoc]
    exact .branches hpad hne hbody hne' hother (ih hmore)
  | loop hpad hne hbody _ _ ih =>
    rw [List.cons_append, List.append_assoc]
    exact .loop hpad hne hbody (ih hmore)

/-! ## Simple lines -/

def blockWords : List String := ["if", "for", "else", "end"]

theorem firstWord_append {a b : String} (hb : ∀ c ∈ b.toList.head?, isNameChar c = false) :
    firstWord (a ++ b) = firstWord a := by
  have hnone : b.toList.takeWhile isNameChar = [] := by
    cases hl : b.toList with
    | nil => rfl
    | cons c rest =>
      have := hb c (by rw [hl]; rfl)
      simp [this]
  unfold firstWord
  rw [String.toList_append]
  congr 1
  induction a.toList with
  | nil => exact hnone
  | cons c rest ih =>
    rw [List.cons_append, List.takeWhile_cons, List.takeWhile_cons, ih]

theorem firstWord_name {name : String} (h : IsName name) : firstWord name = name := by
  have hall : ∀ c ∈ name.toList, isNameChar c = true := fun c hc =>
    isNameChar_of_lower (h.lower c hc)
  have hself : name.toList.takeWhile isNameChar = name.toList := by
    simpa using @List.takeWhile_append_of_pos _ isNameChar name.toList [] hall
  rw [firstWord, hself, String.ofList_toList]

theorem isSimple_of_firstWord {text : String} (h : firstWord text ∉ blockWords) :
    IsSimple text where
  ne_end he := h (he ▸ by decide)
  ne_else he := h (he ▸ by decide)
  ne_if rest he := by
    rw [he, show "if " ++ rest = "if" ++ (" " ++ rest) by simp [← String.append_assoc],
      firstWord_append (by simp [isNameChar])] at h
    exact h (by decide)
  ne_for rest he := by
    rw [he, show "for " ++ rest = "for" ++ (" " ++ rest) by simp [← String.append_assoc],
      firstWord_append (by simp [isNameChar])] at h
    exact h (by decide)

theorem blockWords_reserved : ∀ w ∈ blockWords, w ∈ reserved := by decide

/-- A line that starts with a name that is no word of the language. -/
theorem isSimple_name {name rest : String} (h : IsName name) (hfree : name ∉ reserved)
    (hrest : ∀ c ∈ rest.toList.head?, isNameChar c = false) : IsSimple (name ++ rest) := by
  refine isSimple_of_firstWord fun hm => hfree (blockWords_reserved _ ?_)
  rwa [firstWord_append hrest, firstWord_name h] at hm

theorem isSimple_comment (text : String) : IsSimple ("-- " ++ text) := by
  refine isSimple_of_firstWord ?_
  rw [show "-- " ++ text = "" ++ ("-- " ++ text) by simp, firstWord_append (by simp [isNameChar])]
  decide

theorem isSimple_local (text : String) : IsSimple ("local " ++ text) := by
  refine isSimple_of_firstWord ?_
  rw [show "local " ++ text = "local" ++ (" " ++ text) by simp [← String.append_assoc],
    firstWord_append (by simp [isNameChar])]
  decide

theorem isSimple_call {function : String} (h : IsName function) (hfree : function ∉ reserved)
    (arguments : List String) : IsSimple (call function arguments) := by
  unfold call
  rw [String.append_assoc, String.append_assoc]
  exact isSimple_name h hfree (by simp [isNameChar])

end Lua

/-! ## What is named before the walk -/

/-- The names of globals and of the functions of custom events are no words of the language. -/
structure Compilation.Unreserved (c : Compilation) : Prop where
  globals : ∀ id name, c.globals.lookup id = some name → Lua.IsName name ∧ name ∉ Lua.reserved
  functions : ∀ v signature, c.event? v = some signature →
    Lua.IsName signature.functionName ∧ signature.functionName ∉ Lua.reserved

theorem Compilation.unreserved {c : Compilation} {globals : List Variable}
    {declarations : Variable.Declarations} {customs : List Node}
    (hglobals : Variable.declare globals = .ok declarations) (hnames : c.globals = declarations.names)
    (hevents : c.events = Signature.ofNodes customs) : c.Unreserved where
  globals id name hl := Variable.declare_names hglobals (hnames ▸ hl)
  functions v signature hv := by
    unfold event? at hv
    split at hv
    · rw [hevents] at hv
      obtain ⟨_, _, _, _, hname⟩ := Signature.ofNodes_lookup hv
      exact hname
    · cases hv

theorem Compilation.variableName_free {c : Compilation} (h : c.Unreserved) {node : Key}
    {name : String} (hn : c.variableName node = .ok name) :
    Lua.IsName name ∧ name ∉ Lua.reserved := by
  obtain ⟨n, _, hn⟩ := bind_ok hn
  dsimp only at hn
  split at hn
  · rename_i id _
    rw [← Except.ok.inj hn]
    cases hl : c.globals.lookup id with
    | some name => exact h.globals id name hl
    | none =>
      rw [Option.getD_none]
      exact ⟨Lua.sanitize_isName _, Lua.sanitize_free _⟩
  · rw [← Except.ok.inj hn]
    exact ⟨Lua.sanitize_isName _, Lua.sanitize_free _⟩

def Statement.function? : Statement → Option String
  | .call function _ => some function
  | _ => none

theorem Library.functions_named : ∀ t ∈ types, ∀ st ∈ t.statement?, ∀ f ∈ st.function?,
    f ≠ "" ∧ f.toList.all Lua.isLowerNameChar = true ∧ f ∉ Lua.reserved := by
  decide

/-- The functions of the console have names of their own. -/
theorem Represented.function_free {g : Graph} (h : Represented g) {node : Key} {function : String}
    {slots : List Slot} (hst : g.statement? node = some (.call function slots)) :
    Lua.IsName function ∧ function ∉ Lua.reserved := by
  obtain ⟨t, ht, _, hst⟩ := h.statement_mem hst
  obtain ⟨hne, hlower, hfree⟩ := Library.functions_named t ht _ hst function rfl
  exact ⟨⟨hne, List.all_eq_true.mp hlower⟩, hfree⟩

/-! ## What each task writes -/

/-- What a part of a statement writes at the depth of the statement. -/
def Part.Writes (s : Settings) (level : Int) : Part → List String → Prop
  | .line text, lines => ∃ pad, s.indent level = .ok pad ∧ lines = [pad ++ text]
  | .follow _, lines => Lua.Block s level lines
  | .block _ comment, lines =>
    Lua.IsSimple comment → lines ≠ [] ∧ Lua.Block s (level + 1) lines
  | .loop _, lines => lines ≠ [] ∧ Lua.Block s (level + 1) lines

def Part.WriteAll (s : Settings) (level : Int) : List Part → List String → Prop
  | [], all => all = []
  | part :: rest, all => ∃ lines more, all = lines ++ more ∧ part.Writes s level lines ∧
    WriteAll s level rest more

def Task.Writes (s : Settings) : Task → List String → Prop
  | .chain _ level _, lines => Lua.Block s level lines
  | .parts site ps, lines => Part.WriteAll s site.level ps lines
  | .part site p, lines => p.Writes s site.level lines
  | .body site _ comment, lines =>
    Lua.IsSimple comment → lines ≠ [] ∧ Lua.Block s (site.level + 1) lines

theorem Compilation.line_indent {c : Compilation} {level : Int} {text full : String}
    (h : c.line level text = .ok full) :
    ∃ pad, c.settings.indent level = .ok pad ∧ full = pad ++ text := by
  unfold line at h
  cases hi : c.settings.indent level with
  | error e => rw [hi] at h; cases h
  | ok pad =>
    rw [hi] at h
    exact ⟨pad, rfl, (Except.ok.inj h).symm⟩

theorem Site.written_indent {site : Site} {c : Compilation} {level : Int} {text : String}
    {p : Progress} {lines : List String} (h : (site.written c level text p).1 = .ok lines) :
    ∃ pad, c.settings.indent level = .ok pad ∧ lines = [pad ++ text] := by
  unfold written at h
  cases hl : c.line level text with
  | error e => rw [hl] at h; cases h
  | ok line =>
    rw [hl] at h
    obtain ⟨pad, hpad, rfl⟩ := c.line_indent hl
    exact ⟨pad, hpad, (Except.ok.inj h).symm⟩

/-- What stands for an empty block is a block. -/
theorem Site.commented_block {site : Site} {c : Compilation} {comment : String} {out : Outcome}
    {lines : List String} (hcomment : Lua.IsSimple comment)
    (hout : ∀ more, out.1 = .ok more → Lua.Block c.settings (site.level + 1) more)
    (h : (site.commented c comment out).1 = .ok lines) :
    lines ≠ [] ∧ Lua.Block c.settings (site.level + 1) lines := by
  rcases out with ⟨e | more, p⟩
  · cases h
  · cases more with
    | nil =>
      obtain ⟨pad, hpad, rfl⟩ := site.written_indent h
      exact ⟨List.cons_ne_nil _ _, .simple hpad hcomment .nil⟩
    | cons line more =>
      cases h
      exact ⟨List.cons_ne_nil _ _, hout _ rfl⟩

namespace Opening

variable {c : Compilation} {site : Site} {p p' : Progress} {lines : List String}

/-- The lines that an opening writes: none, or one at the depth of the statement. -/
theorem perform_lines {opening : Opening} (h : opening.perform c site p = (.ok lines, p')) :
    match opening with
    | .silent _ | .parameters _ => lines = []
    | .line text _ => ∃ pad, c.settings.indent site.level = .ok pad ∧ lines = [pad ++ text]
    | .resume call => ∃ pad a b, c.settings.indent site.level = .ok pad ∧
        lines = [pad ++ ("local " ++ a ++ ", " ++ b ++ " = " ++ call)] := by
  have hwritten {text : String} {p : Progress}
      (h : (do return [← site.line c text] : Emit (List String)) p = (.ok lines, p')) :
      ∃ pad, c.settings.indent site.level = .ok pad ∧ lines = [pad ++ text] := by
    have hw : site.written c site.level text p = (.ok lines, p') :=
      (site.lineAt_eq c site.level text p).symm.trans h
    exact site.written_indent (congrArg Prod.fst hw)
  cases opening with
  | silent parts =>
    cases h
    rfl
  | parameters ps =>
    obtain ⟨_, _, _, h⟩ := Emit.bind_ok h
    cases h
    rfl
  | line text parts => exact hwritten h
  | resume call =>
    obtain ⟨_, _, _, h⟩ := Emit.bind_ok h
    obtain ⟨a, _, _, h⟩ := Emit.bind_ok h
    obtain ⟨_, _, _, h⟩ := Emit.bind_ok h
    obtain ⟨b, _, _, h⟩ := Emit.bind_ok h
    obtain ⟨pad, hpad, hl⟩ := hwritten h
    exact ⟨pad, a, b, hpad, hl⟩

end Opening

/-! ## From parts to blocks -/

section

variable {s : Settings} {level : Int} {pad : String} {lines : List String}

theorem Part.WriteAll.follow {pin : String} (h : WriteAll s level [.follow pin] lines) :
    Lua.Block s level lines := by
  obtain ⟨lines, _, rfl, hlines, rfl⟩ := h
  rwa [List.append_nil]

theorem Part.WriteAll.sequence {pins : List Pin}
    (h : WriteAll s level (Site.sequenceParts pins) lines) : Lua.Block s level lines := by
  induction pins generalizing lines with
  | nil =>
    cases h
    exact .nil
  | cons pin rest ih =>
    obtain ⟨_, _, rfl, ⟨pad, hpad, rfl⟩, chain, more, rfl, hchain, hrest⟩ := h
    have hchain : Lua.Block s level chain := hchain
    refine .simple hpad ?_ (hchain.append (ih hrest))
    have := Lua.isSimple_comment ("sequence " ++ Text.lower pin.label)
    rwa [← String.append_assoc] at this

theorem Part.WriteAll.close (hpad : s.indent level = .ok pad)
    (h : WriteAll s level [.line "end"] lines) : lines = [pad ++ "end"] := by
  obtain ⟨_, _, rfl, ⟨pad', hpad', rfl⟩, rfl⟩ := h
  cases hpad.symm.trans hpad'
  rfl

theorem Part.WriteAll.branch {c : Compilation} {site : Site} {condition : String}
    (hpad : s.indent level = .ok pad) (h : WriteAll s level (site.branchParts c) lines) :
    Lua.Block s level ((pad ++ ("if " ++ condition ++ " then")) :: lines) := by
  unfold Site.branchParts at h
  obtain ⟨body, more, rfl, hbody, h⟩ := h
  obtain ⟨hne, hbody⟩ := hbody (Lua.isSimple_comment "then branch")
  split at h
  · rw [WriteAll.close hpad h]
    exact .branch hpad hne hbody .nil
  · obtain ⟨_, _, rfl, ⟨pad', hpad', rfl⟩, other, more, rfl, hother, h⟩ := h
    cases hpad.symm.trans hpad'
    obtain ⟨hne', hother⟩ := hother (Lua.isSimple_comment "else branch")
    rw [WriteAll.close hpad h]
    exact .branches hpad hne hbody hne' hother .nil

theorem Part.WriteAll.loop {index range : String} (hpad : s.indent level = .ok pad)
    (h : WriteAll s level [.loop index, .line "end", .follow "completed"] lines) :
    Lua.Block s level ((pad ++ ("for " ++ range ++ " do")) :: lines) := by
  obtain ⟨body, _, rfl, ⟨hne, hbody⟩, _, _, rfl, ⟨pad', hpad', rfl⟩, h⟩ := h
  cases hpad.symm.trans hpad'
  exact .loop hpad hne hbody (follow h)

end

/-- What an opening writes, with what comes after it, is a block. -/
theorem Opens.block {c : Compilation} (h : Represented c.graph) (hc : c.Unreserved) {site : Site}
    {st : Statement} {opening : Opening} (hst : c.graph.statement? site.node = some st)
    (ho : Opens c site st opening) {p p' : Progress} {lines more : List String}
    (hp : opening.perform c site p = (.ok lines, p'))
    (hmore : Part.WriteAll c.settings site.level opening.parts more) :
    Lua.Block c.settings site.level (lines ++ more) := by
  have hlines := Opening.perform_lines hp
  cases ho with
  | follow | noEvent | event =>
    rw [hlines]
    exact Part.WriteAll.follow hmore
  | noTarget =>
    obtain ⟨pad, hpad, rfl⟩ := hlines
    exact .simple hpad (Lua.isSimple_comment "missing custom event target") (Part.WriteAll.follow hmore)
  | callEvent he =>
    obtain ⟨pad, hpad, rfl⟩ := hlines
    obtain ⟨hname, hfree⟩ := hc.functions _ _ he
    exact .simple hpad (Lua.isSimple_call hname hfree _) (Part.WriteAll.follow hmore)
  | branch =>
    obtain ⟨pad, hpad, rfl⟩ := hlines
    exact Part.WriteAll.branch hpad hmore
  | @loop index first last step =>
    obtain ⟨pad, hpad, rfl⟩ := hlines
    have := @Part.WriteAll.loop _ _ _ _ index
      (index ++ " = " ++ first ++ ", " ++ last ++ ", " ++ step) hpad hmore
    simpa [String.append_assoc] using this
  | sequence =>
    rw [hlines]
    exact Part.WriteAll.sequence hmore
  | assign hn =>
    obtain ⟨pad, hpad, rfl⟩ := hlines
    obtain ⟨hname, hfree⟩ := Compilation.variableName_free hc hn
    rw [String.append_assoc]
    exact .simple hpad (Lua.isSimple_name hname hfree (by simp [Lua.isNameChar])) (Part.WriteAll.follow hmore)
  | declare =>
    obtain ⟨pad, hpad, rfl⟩ := hlines
    rw [String.append_assoc, String.append_assoc]
    exact .simple hpad (Lua.isSimple_local _) (Part.WriteAll.follow hmore)
  | @call function slots arguments =>
    obtain ⟨pad, hpad, rfl⟩ := hlines
    obtain ⟨hname, hfree⟩ := h.function_free hst
    exact .simple hpad (Lua.isSimple_call hname hfree _) (Part.WriteAll.follow hmore)
  | resume =>
    obtain ⟨pad, a, b, hpad, rfl⟩ := hlines
    simp only [String.append_assoc]
    exact .simple hpad (Lua.isSimple_local _) (Part.WriteAll.follow hmore)

theorem Runs.writes {c : Compilation} (h : Represented c.graph) (hc : c.Unreserved) {task : Task}
    {s : Progress} {out : Outcome} (run : Runs c task s out) :
    ∀ lines, out.1 = .ok lines → task.Writes c.settings lines := by
  have after {out : Outcome} {lines all : List String} (ho : (out.after lines).1 = .ok all) :
      ∃ more, out.1 = .ok more ∧ all = lines ++ more := by
    obtain ⟨more, hm⟩ := Outcome.after_ok ho
    rw [Outcome.after, hm] at ho
    exact ⟨more, hm, (Except.ok.inj ho).symm⟩
  induction run with
  | refused | unread | unopened | stop => intro lines ho; cases ho
  | entered enters hg hp _ ih =>
    intro all ho
    obtain ⟨more, hm, rfl⟩ := after ho
    exact (Statement.gather_ok hg).block h hc enters.statement hp (ih more hm)
  | done => exact fun lines ho => (Except.ok.inj ho).symm
  | next _ _ ihf ih =>
    intro all ho
    obtain ⟨more, hm, rfl⟩ := after ho
    exact ⟨_, more, rfl, ihf _ rfl, ih more hm⟩
  | line => exact fun lines ho => Site.written_indent ho
  | idle =>
    intro lines ho
    cases ho
    exact .nil
  | follow _ _ ih => exact ih
  | block _ ih => exact ih
  | loop _ _ ih => exact fun lines ho => ih lines ho (Lua.isSimple_comment "loop body")
  | blank =>
    intro lines ho hcomment
    refine Site.commented_block hcomment (fun more hm => ?_) ho
    cases hm
    exact .nil
  | filled _ _ ih =>
    intro lines ho hcomment
    refine Site.commented_block hcomment ?_ ho
    exact ih

/-- The lines of a chain that succeeds are a block of its depth. -/
theorem chain_block {document : Value} {c : Compilation} {globals : List Variable}
    {declarations : Variable.Declarations} {customs : List Node}
    (hload : Graph.load document Library.catalogue = .ok c.graph)
    (hglobals : Variable.declare globals = .ok declarations) (hnames : c.globals = declarations.names)
    (hevents : c.events = Signature.ofNodes customs) {node : Key} {level : Int} {path : List Key}
    {s s' : Progress} {lines : List String} (hrun : c.chain node level path s = (.ok lines, s')) :
    Lua.Block c.settings level lines := by
  have hloaded := Loaded.of_load hload
  have hruns := Compilation.chainWithin_runs hloaded.toRepresented c.reach node level path s
  have hout : (c.chainWithin c.reach node level path s).1 = .ok lines := congrArg Prod.fst hrun
  exact hruns.writes hloaded.toRepresented (Compilation.unreserved hglobals hnames hevents) lines hout

/-- A condition without a first branch, with a loop in the second, and a global that is called like
a word of the language. -/
def guardedLoop : Value := Graph.outline
  [("cond", "if", []), ("loop", "for_loop", []), ("name", "set_var", [("name", .text "end")])]
  [("cond", "else", "loop", "exec_in"), ("loop", "loop", "name", "exec_in")]

theorem chain_block_guardedLoop : ∃ g s', Graph.load guardedLoop Library.catalogue = .ok g ∧
    let lines := ["  if false then", "    -- then branch", "  else", "    for i = 0, 10, 1 do",
      "      end_ = nil", "    end", "  end"]
    Compilation.chain { graph := g } "cond" 1 [] {} = (.ok lines, s') ∧ Lua.Block {} 1 lines := by
  have heval : ((Graph.load guardedLoop Library.catalogue).toOption.any fun g =>
      (Compilation.chain { graph := g } "cond" 1 [] {}).1.toOption ==
        some ["  if false then", "    -- then branch", "  else", "    for i = 0, 10, 1 do",
          "      end_ = nil", "    end", "  end"]) = true := by
    decide +kernel
  obtain ⟨g, hload, heval⟩ := exists_ok_of_any heval
  rcases hrun : Compilation.chain { graph := g } "cond" 1 [] {} with ⟨e | lines, s'⟩
  · rw [hrun] at heval
    cases heval
  · rw [hrun] at heval
    cases Option.some.inj (eq_of_beq heval)
    have hglobals : Variable.declare [] = .ok {} := rfl
    have hevents : ([] : List (Key × Signature)) = Signature.ofNodes [] := rfl
    exact ⟨g, s', hload, hrun, chain_block hload hglobals rfl hevents hrun⟩

end CartGraph
