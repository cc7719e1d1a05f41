import CartGraph.Proofs.Emit.Reads
import CartGraph.Proofs.Graph.ExecTree
import CartGraph.Proofs.Lua.Names
import CartGraph.Proofs.SymbolTable

/-! # What a walk does, as a relation

`Runs` derives the outcome of every task of the walk, whether it answers or fails, without a count of
steps. Facts about walks are proved along these derivations. The walk is functional, so one direction
is enough: what the functions compute is derivable. -/
namespace CartGraph

/-- What a part of the walk answers, and the state that it leaves. -/
abbrev Outcome := Except Error (List String) × Progress

namespace Progress

def note (s : Progress) (v : Visit) : Progress := { s with trail := v :: s.trail }

def opened (s : Progress) : Progress := { s with symbols := s.symbols.push }

def bound (s : Progress) (node pin : Key) (name : String) : Progress :=
  { s with symbols := s.symbols.bind node pin name }

/-- Closes the block that was opened in an earlier state. -/
def leave (s' s : Progress) : Progress :=
  { s' with symbols := { s.symbols with issued := s'.symbols.issued } }

end Progress

namespace Outcome

/-- Lines that stand before those of an outcome. -/
def after (lines : List String) (out : Outcome) : Outcome := (out.1.map (lines ++ ·), out.2)

theorem after_ok_eq {lines lines' : List String} {out : Outcome}
    (h : (out.after lines).1 = .ok lines') : ∃ more, out.1 = .ok more ∧ lines' = lines ++ more := by
  rcases out with ⟨e | more, s⟩
  · cases h
  · cases h
    exact ⟨more, rfl, rfl⟩

theorem after_ok {lines lines' : List String} {out : Outcome}
    (h : (out.after lines).1 = .ok lines') : ∃ more, out.1 = .ok more :=
  (after_ok_eq h).imp fun _ h => h.1

theorem after_eq (lines : List String) (m : Emit (List String)) (s : Progress) :
    (do return lines ++ (← m) : Emit (List String)) s = after lines (m s) := by
  change Emit.bind m _ s = _
  unfold Emit.bind after
  rcases m s with ⟨e | more, s'⟩ <;> rfl

def leave (out : Outcome) (s : Progress) : Outcome := (out.1, out.2.leave s)

end Outcome

namespace Site

def enter (node : Key) (level : Int) (path : List Key) : Site := ⟨node, level, node.canonical :: path⟩

def written (s : Site) (c : Compilation) (level : Int) (text : String) (p : Progress) : Outcome :=
  match c.line level text with
  | .ok line => (.ok [line], p.note (.line s.node line))
  | .error e => (.error e, p)

/-- A comment stands for a block without lines. -/
def commented (s : Site) (c : Compilation) (comment : String) : Outcome → Outcome
  | (.ok [], p) => s.written c (s.level + 1) comment p
  | out => out

end Site

theorem Site.commented_ok {s : Site} {c : Compilation} {comment : String} (out : Outcome)
    {lines : List String} (h : (s.commented c comment out).1 = .ok lines) :
    ∃ more, out.1 = .ok more := by
  rcases out with ⟨e | more, p⟩
  · cases h
  · exact ⟨more, rfl⟩

/-- A node is entered: it is not on the path, it is a statement, and its visit is noted. -/
structure Enters (c : Compilation) (node : Key) (level : Int) (path : List Key) (st : Statement)
    (s s' : Progress) : Prop where
  fresh : node.canonical ∉ path
  statement : c.graph.statement? node = some st
  symbols : s'.symbols = s.symbols
  trail : s'.trail = .statement node level :: s.trail

inductive Task where
  | chain (node : Key) (level : Int) (path : List Key)
  | parts (site : Site) (parts : List Part)
  | part (site : Site) (part : Part)
  | body (site : Site) (pin comment : String)

inductive Runs (c : Compilation) : Task → Progress → Outcome → Prop
  /-- The node is not entered. -/
  | refused {node level path s s' e} (hs : s'.symbols = s.symbols) (ht : s'.trail = s.trail) :
    Runs c (.chain node level path) s (.error e, s')
  /-- The inputs of the node can not be had. -/
  | unread {node level path st s s₁ s₂ e} (enters : Enters c node level path st s s₁)
    (hg : st.gather c (c.evaluate node) (.enter node level path) s₁ = (.error e, s₂)) :
    Runs c (.chain node level path) s (.error e, s₂)
  | unopened {node level path st s s₁ s₂ s₃ opening e} (enters : Enters c node level path st s s₁)
    (hg : st.gather c (c.evaluate node) (.enter node level path) s₁ = (.ok opening, s₂))
    (hp : opening.perform c (.enter node level path) s₂ = (.error e, s₃)) :
    Runs c (.chain node level path) s (.error e, s₃)
  | entered {node level path st s s₁ s₂ s₃ opening lines out}
    (enters : Enters c node level path st s s₁)
    (hg : st.gather c (c.evaluate node) (.enter node level path) s₁ = (.ok opening, s₂))
    (hp : opening.perform c (.enter node level path) s₂ = (.ok lines, s₃))
    (run : Runs c (.parts (.enter node level path) opening.parts) s₃ out) :
    Runs c (.chain node level path) s (out.after lines)
  | done {site s} : Runs c (.parts site []) s (.ok [], s)
  | stop {site part rest s s₁ e} (first : Runs c (.part site part) s (.error e, s₁)) :
    Runs c (.parts site (part :: rest)) s (.error e, s₁)
  | next {site part rest s s₁ lines out} (first : Runs c (.part site part) s (.ok lines, s₁))
    (run : Runs c (.parts site rest) s₁ out) :
    Runs c (.parts site (part :: rest)) s (out.after lines)
  | line {site text s} : Runs c (.part site (.line text)) s (site.written c site.level text s)
  | idle {site s} {pin : String} (ht : c.graph.execTargets site.node pin = []) :
    Runs c (.part site (.follow pin)) s (.ok [], s)
  | follow {site target s out} {pin : String} (ht : c.graph.execTargets site.node pin = [target])
    (run : Runs c (.chain target site.level site.path) s out) :
    Runs c (.part site (.follow pin)) s out
  | block {site pin comment s out} (run : Runs c (.body site pin comment) s out) :
    Runs c (.part site (.block pin comment)) s out
  | loop {site index s out} (hi : index ≠ "")
    (run : Runs c (.body site "loop" "-- loop body") (s.opened.bound site.node "index" index) out) :
    Runs c (.part site (.loop index)) s (out.leave s)
  | blank {site comment s} {pin : String} (ht : c.graph.execTargets site.node pin = []) :
    Runs c (.body site pin comment) s (site.commented c comment (.ok [], s))
  | filled {site comment target s out} {pin : String} (ht : c.graph.execTargets site.node pin = [target])
    (run : Runs c (.chain target (site.level + 1) site.path) s.opened out) :
    Runs c (.body site pin comment) s (site.commented c comment (out.leave s))

/-! ## What every task keeps -/

/-- The enclosing blocks are as they were, nothing is taken from the log, and every temporary that
was issued keeps its name. -/
structure Progress.Extends (s s' : Progress) : Prop where
  outer : s'.symbols.outer = s.symbols.outer
  trail : s.trail <:+ s'.trail
  issued : s.symbols.issued <+: s'.symbols.issued

namespace Progress.Extends

theorem rfl {s : Progress} : s.Extends s := ⟨Eq.refl _, List.suffix_rfl, List.prefix_rfl⟩

theorem trans {s₁ s₂ s₃ : Progress} (h : s₁.Extends s₂) (h' : s₂.Extends s₃) : s₁.Extends s₃ :=
  ⟨h'.outer.trans h.outer, h.trail.trans h'.trail, h.issued.trans h'.issued⟩

theorem note (s : Progress) (v : Visit) : s.Extends (s.note v) :=
  ⟨Eq.refl _, List.suffix_cons .., List.prefix_rfl⟩

theorem bound (s : Progress) (node pin : Key) (name : String) : s.Extends (s.bound node pin name) :=
  ⟨Eq.refl _, List.suffix_rfl, List.prefix_rfl⟩

theorem leave {s s' : Progress} (h : s.opened.Extends s') : s.Extends (s'.leave s) :=
  ⟨Eq.refl _, h.trail, h.issued⟩

end Progress.Extends

/-- A relation between states that holds across each single thing an opening of a node does. -/
structure Progress.AdmitsAt (node : Key) (Q : Progress → Progress → Prop) : Prop where
  refl : ∀ s, Q s s
  trans : ∀ {s₁ s₂ s₃}, Q s₁ s₂ → Q s₂ s₃ → Q s₁ s₃
  line : ∀ s text, Q s (s.note (.line node text))
  bound : ∀ s pin name, Q s (s.bound node pin name)
  temp : ∀ s label, Q s { s with symbols := (s.symbols.temp node label).2 }

/-- A relation between states that holds across each single thing an opening does. -/
structure Progress.Admits (Q : Progress → Progress → Prop) : Prop where
  refl : ∀ s, Q s s
  trans : ∀ {s₁ s₂ s₃}, Q s₁ s₂ → Q s₂ s₃ → Q s₁ s₃
  line : ∀ s node text, Q s (s.note (.line node text))
  bound : ∀ s node pin name, Q s (s.bound node pin name)
  temp : ∀ s node label, Q s { s with symbols := (s.symbols.temp node label).2 }

theorem Progress.Admits.forNode {Q : Progress → Progress → Prop} (hQ : Progress.Admits Q)
    (node : Key) : Progress.AdmitsAt node Q :=
  ⟨hQ.refl, hQ.trans, fun s => hQ.line s node, fun s => hQ.bound s node, fun s => hQ.temp s node⟩

/-- A relation that moreover holds across reading and across a block. -/
structure Progress.Follows (Q : Progress → Progress → Prop) : Prop extends Progress.Admits Q where
  quiet : ∀ s s', s'.symbols = s.symbols → s.trail <:+ s'.trail → Q s s'
  leave : ∀ s s', Q s.opened s' → Q s (s'.leave s)

theorem Progress.Extends.follows : Progress.Follows Progress.Extends where
  refl _ := .rfl
  trans := .trans
  line s _ _ := .note s _
  bound := .bound
  temp s node label :=
    ⟨(s.symbols.temp_scopes node label).2, List.suffix_rfl, s.symbols.temp_issued node label⟩
  quiet s s' hs ht := ⟨by rw [hs], ht, by simp only [hs, List.prefix_rfl]⟩
  leave _ _ := .leave

theorem Progress.follows_issued :
    Progress.Follows fun s s' => s.symbols.Issued → s'.symbols.Issued where
  refl _ hs := hs
  trans h h' hs := h' (h hs)
  line _ _ _ hs := hs
  bound _ _ _ _ hs := hs.congr rfl
  temp _ node label hs := hs.temp node label
  quiet _ _ hs _ hi := hs ▸ hi
  leave _ _ h hs := (h (hs.congr rfl)).congr rfl

theorem Progress.follows_labelled :
    Progress.Follows fun s s' => s.symbols.Labelled → s'.symbols.Labelled where
  refl _ hs := hs
  trans h h' hs := h' (h hs)
  line _ _ _ hs := hs
  bound _ _ _ _ hs := hs.congr rfl
  temp _ node label hs := hs.temp node label
  quiet _ _ hs _ hi := hs ▸ hi
  leave _ _ h hs := (h (hs.congr rfl)).congr rfl

/-- A step across which a relation between states holds. -/
def Emit.Within (Q : Progress → Progress → Prop) (m : Emit α) : Prop := ∀ s, Q s (m s).2

/-- A name that is not empty is bound as it is. -/
theorem Emit.bindOutput_some {name : String} (h : name ≠ "") (node pin : Key) (s : Progress) :
    bindOutput node pin (some name) s = (.ok name, s.bound node pin name) := by
  have hne : (!name.isEmpty) = true := by simpa using h
  simp only [bindOutput, Option.filter_some, hne]
  rfl

theorem Site.lineAt_eq (s : Site) (c : Compilation) (level : Int) (text : String) (p : Progress) :
    (do return [← s.lineAt c level text] : Emit (List String)) p = s.written c level text p := by
  unfold written
  cases h : c.line level text with
  | ok line =>
    show Emit.bind (s.lineAt c level text) _ p = _
    simp only [lineAt, h]
    rfl
  | error e =>
    show Emit.bind (s.lineAt c level text) _ p = _
    simp only [lineAt, h]
    rfl

section

variable {Q : Progress → Progress → Prop}

namespace Emit

variable {node : Key} (hQ : Progress.AdmitsAt node Q)
include hQ

theorem pure_within (a : α) : (pure a : Emit α).Within Q := hQ.refl

theorem bind_within {m : Emit α} {f : α → Emit β} (hm : m.Within Q) (hf : ∀ a, (f a).Within Q) :
    (m >>= f).Within Q := fun s => by
  change Q s (Emit.bind m f s).2
  have h := hm s
  unfold Emit.bind
  rcases hms : m s with ⟨a | a, s₁⟩ <;> rw [hms] at h
  · exact h
  · exact hQ.trans h (hf a s₁)

theorem bindOutput_within (pin : Key) (name : Option String) :
    (bindOutput node pin name).Within Q := by
  have bind (a : String) : (withSymbols fun t => (a, t.bind node pin a)).Within Q := fun s =>
    hQ.bound s pin a
  unfold bindOutput
  dsimp only
  split
  · exact bind_within hQ (pure_within hQ _) bind
  · exact bind_within hQ (fun s => hQ.temp s pin) bind

end Emit

namespace Site

variable (s : Site) (hQ : Progress.AdmitsAt s.node Q) (c : Compilation)
include hQ

theorem written_within (level : Int) (text : String) (p : Progress) :
    Q p (s.written c level text p).2 := by
  unfold written
  split
  · exact hQ.line p _
  · exact hQ.refl p

theorem commented_within (comment : String) (r : Except Error (List String)) (p : Progress) :
    Q p (s.commented c comment (r, p)).2 := by
  unfold commented
  split
  · rename_i h
    cases h
    exact s.written_within hQ c _ _ _
  · exact hQ.refl p

theorem line_within (text : String) : (do return [← s.line c text] : Emit (List String)).Within Q :=
  fun p => (s.lineAt_eq c s.level text p) ▸ s.written_within hQ c s.level text p

theorem bindParameters_within (ps : List Parameter) : (s.bindParameters ps).Within Q := by
  induction ps with
  | nil => exact Emit.pure_within hQ _
  | cons p rest ih => exact Emit.bind_within hQ (Emit.bindOutput_within hQ _ _) fun _ => ih

end Site

theorem Opening.perform_within (opening : Opening) (c : Compilation) (s : Site)
    (hQ : Progress.AdmitsAt s.node Q) : (opening.perform c s).Within Q := by
  cases opening with
  | silent parts => exact Emit.pure_within hQ _
  | parameters ps =>
    exact Emit.bind_within hQ (s.bindParameters_within hQ ps) fun _ => Emit.pure_within hQ _
  | line text parts => exact s.line_within hQ c text
  | resume call =>
    exact Emit.bind_within hQ (fun p => hQ.temp p _) fun _ =>
      Emit.bind_within hQ (Emit.bindOutput_within hQ _ _) fun _ =>
      Emit.bind_within hQ (fun p => hQ.temp p _) fun _ =>
      Emit.bind_within hQ (Emit.bindOutput_within hQ _ _) fun _ => s.line_within hQ c _

/-- An opening stays within a relation whether it answers or fails. -/
theorem Opening.perform_related {opening : Opening} {c : Compilation} {site : Site}
    {s s' : Progress} {r : Except Error (List String)} (hQ : Progress.Admits Q)
    (hp : opening.perform c site s = (r, s')) : Q s s' := by
  have hrelated := opening.perform_within c site (hQ.forNode _) s
  rwa [hp] at hrelated

end

/-- Nothing is known of the outputs that are read. -/
theorem Compilation.asks_any (c : Compilation) : c.Asks (fun _ _ => True) fun _ _ => True :=
  ⟨fun _ _ => trivial, fun _ _ _ => trivial, fun _ _ _ _ => trivial⟩

section

variable {c : Compilation} (h : Represented c.graph)
include h

theorem Statement.gather_reads {E R : Key → Key → Prop} (hc : c.Asks E R) {node : Key}
    {st : Statement} (hst : c.graph.statement? node = some st) (site : Site) :
    (st.gather c (c.evaluate node) site).Quiet R := by
  obtain ⟨t, ht, _, hst⟩ := h.statement_mem hst
  exact Statement.gather_quiet hc (c.evaluateWithin_quiet h hc _ _ _) site
    (Library.statement_pins t ht st hst)

/-- A relation between states that holds across every step of a walk holds across the walk. -/
theorem Runs.within {Q : Progress → Progress → Prop} (hQ : Progress.Follows Q) {task : Task}
    {s : Progress} {out : Outcome} (run : Runs c task s out) : Q s out.2 := by
  have gather {node level path st s s₁ r s₂} (enters : Enters c node level path st s s₁)
      (hg : st.gather c (c.evaluate node) (.enter node level path) s₁ = (r, s₂)) : Q s s₂ := by
    obtain ⟨asked, ht, hs, _⟩ := Statement.gather_reads h c.asks_any enters.statement
      (.enter node level path) s₁
    rw [hg] at ht hs
    refine hQ.quiet s s₂ (hs.trans enters.symbols) ?_
    rw [ht, enters.trail]
    exact (List.suffix_cons ..).trans (List.suffix_append ..)
  have perform {opening : Opening} {site s r s'} (hp : opening.perform c site s = (r, s')) :
      Q s s' := Opening.perform_related hQ.toAdmits hp
  induction run with
  | refused hs ht => exact hQ.quiet _ _ hs (by simp only [ht, List.suffix_rfl])
  | unread enters hg => exact gather enters hg
  | unopened enters hg hp => exact hQ.trans (gather enters hg) (perform hp)
  | entered enters hg hp _ ih => exact hQ.trans (hQ.trans (gather enters hg) (perform hp)) ih
  | done => exact hQ.refl _
  | stop _ ih => exact ih
  | next _ _ ihf ih => exact hQ.trans ihf ih
  | line => exact Site.written_within _ (hQ.toAdmits.forNode _) ..
  | idle => exact hQ.refl _
  | follow _ _ ih => exact ih
  | block _ ih => exact ih
  | loop _ _ ih => exact hQ.leave _ _ (hQ.trans (hQ.bound ..) ih)
  | blank => exact Site.commented_within _ (hQ.toAdmits.forNode _) ..
  | filled _ _ ih =>
    exact hQ.trans (hQ.leave _ _ ih) (Site.commented_within _ (hQ.toAdmits.forNode _) ..)

theorem Runs.extends {task : Task} {s : Progress} {out : Outcome} (run : Runs c task s out) :
    s.Extends out.2 := run.within h Progress.Extends.follows

/-- Names that were issued stay hidden and different. -/
theorem Runs.issued {task : Task} {s : Progress} {out : Outcome} (run : Runs c task s out)
    (hs : s.symbols.Issued) : out.2.symbols.Issued := run.within h Progress.follows_issued hs

theorem Runs.labelled {task : Task} {s : Progress} {out : Outcome} (run : Runs c task s out)
    (hs : s.symbols.Labelled) : out.2.symbols.Labelled := run.within h Progress.follows_labelled hs

/-! ## The walk runs as the relation says -/

omit h in
theorem Emit.inBlock_eq {m : Emit α} {s : Progress} (hm : s.opened.Extends (m s.opened).2) :
    m.inBlock s = ((m s.opened).1, (m s.opened).2.leave s) := by
  have ho : (m s.opened).2.symbols.outer = s.symbols.top :: s.symbols.outer := hm.outer
  have hpop : (m { s with symbols := s.symbols.push }).2.symbols.pop =
      .ok { s.symbols with issued := (m s.opened).2.symbols.issued } := by
    unfold SymbolTable.pop
    rw [show (m { s with symbols := s.symbols.push }).2.symbols.outer = _ from ho]
    rfl
  simp only [Emit.inBlock, hpop]
  rfl

section

variable {chain : Chain}
  (hchain : ∀ node level path s, Runs c (.chain node level path) s (chain node level path s))
include hchain

theorem Site.body_runs (site : Site) (pin comment : String) (s : Progress) :
    Runs c (.body site pin comment) s (site.body c chain pin comment s) := by
  have comments (m : Emit (List String)) : (m >>= fun lines => if lines.isEmpty then
      do return [← site.innerLine c comment] else pure lines) s =
      site.commented c comment (m s) := by
    change Emit.bind m _ s = _
    unfold Emit.bind commented
    rcases m s with ⟨e | lines, s'⟩
    · rfl
    · cases lines with
      | nil => exact site.lineAt_eq c _ comment s'
      | cons line rest => rfl
  have hbody : site.body c chain pin comment s =
      site.commented c comment (site.branchAt c chain pin (site.level + 1) site.path s) :=
    comments _
  rw [hbody]
  rcases h.execTargets_cases site.node pin with ht | ⟨target, ht⟩
  · have : site.branchAt c chain pin (site.level + 1) site.path = pure [] := by
      unfold branchAt
      rw [ht]
    rw [this]
    exact .blank ht
  · have : site.branchAt c chain pin (site.level + 1) site.path =
        .inBlock (chain target (site.level + 1) site.path) := by
      have hlt : site.level < site.level + 1 := by omega
      unfold branchAt
      rw [ht]
      simp [Chain.all, hlt]
    have run := hchain target (site.level + 1) site.path s.opened
    rw [this, Emit.inBlock_eq (run.extends h)]
    exact .filled ht run

def Part.Named : Part → Prop
  | .loop index => index ≠ ""
  | _ => True

theorem Part.runs {part : Part} (hn : part.Named) (site : Site) (s : Progress) :
    Runs c (.part site part) s (part.emit c chain site s) := by
  cases part with
  | line text =>
    have : (Part.line text).emit c chain site s = site.written c site.level text s :=
      site.lineAt_eq c site.level text s
    rw [this]
    exact .line
  | follow pin =>
    rcases h.execTargets_cases site.node pin with ht | ⟨target, ht⟩
    · have : (Part.follow pin).emit c chain site = pure [] := by
        simp only [emit, Site.branchAt, ht]
      rw [this]
      exact .idle ht
    · have : (Part.follow pin).emit c chain site = chain target site.level site.path := by
        simp [emit, Site.branchAt, ht, Chain.all]
      rw [this]
      exact .follow ht (hchain target site.level site.path s)
  | block pin comment => exact .block (site.body_runs h hchain pin comment s)
  | loop index =>
    have hbind := Emit.bindOutput_some hn site.node "index" s.opened
    have run := site.body_runs h hchain "loop" "-- loop body" (s.opened.bound site.node "index" index)
    have hrun : (do
        let _ ← Emit.bindOutput site.node "index" (some index)
        site.body c chain "loop" "-- loop body" : Emit (List String)) s.opened =
        site.body c chain "loop" "-- loop body" (s.opened.bound site.node "index" index) := by
      change Emit.bind _ _ _ = _
      unfold Emit.bind
      rw [hbind]
    have hkeep := (Progress.Extends.bound s.opened site.node "index" index).trans (run.extends h)
    have hblock := Emit.inBlock_eq (hrun.symm ▸ hkeep)
    rw [hrun] at hblock
    rw [show (Part.loop index).emit c chain site s = _ from hblock]
    exact .loop hn run

theorem Part.all_runs {parts : List Part} (hn : ∀ part ∈ parts, part.Named) (site : Site)
    (s : Progress) : Runs c (.parts site parts) s (Part.emitAll c chain site parts s) := by
  induction parts generalizing s with
  | nil => exact .done
  | cons part rest ih =>
    obtain ⟨hpart, hrest⟩ := List.forall_mem_cons.mp hn
    have first := Part.runs h hchain hpart site s
    change Runs c _ s (Emit.bind (part.emit c chain site) _ s)
    unfold Emit.bind
    rcases hp : part.emit c chain site s with ⟨e | lines, s₁⟩ <;> rw [hp] at first
    · exact .stop first
    · dsimp only
      rw [Outcome.after_eq]
      exact .next first (ih hrest s₁)

end

omit h in
theorem Compilation.nameProperty_ok {node : Key} {key fallback name : String}
    (hn : c.nameProperty node key fallback = .ok name) : ∃ raw, name = Lua.sanitize raw := by
  obtain ⟨v, _, hv⟩ := CartGraph.bind_ok hn
  exact ⟨v.spelling, (Except.ok.inj hv).symm⟩

omit h in
/-- The parts that statements leave to do are named. -/
theorem Opens.named {site : Site} {st : Statement} {opening : Opening}
    (ho : Opens c site st opening) : ∀ part ∈ opening.parts, part.Named := by
  cases ho with
  | loop hi =>
    obtain ⟨raw, hraw⟩ := c.nameProperty_ok hi
    have hne := hraw ▸ Lua.sanitize_ne_empty raw
    simpa [Opening.parts, Part.Named] using hne
  | branch =>
    simp only [Opening.parts, Site.branchParts]
    split <;> simp [Part.Named]
  | sequence =>
    intro part hpart
    obtain ⟨pin, _, hpart⟩ := List.mem_flatMap.mp hpart
    rcases List.mem_pair.mp hpart with rfl | rfl <;> trivial
  | _ => simp [Opening.parts, Part.Named]

/-- A node that is entered gathers, opens and goes on. -/
theorem entered_runs {chain : Chain}
    (hchain : ∀ node level path s, Runs c (.chain node level path) s (chain node level path s))
    {node : Key} {level : Int} {path : List Key} {st : Statement} {s s₁ : Progress}
    (henters : Enters c node level path st s s₁) : Runs c (.chain node level path) s
      ((st.emit c (c.evaluate node) chain (.enter node level path)) s₁) := by
  rw [Statement.emit_eq _ _ _ h]
  change Runs c _ s (Emit.bind (st.gather c (c.evaluate node) (.enter node level path)) _ s₁)
  unfold Emit.bind
  rcases hg : st.gather c (c.evaluate node) (.enter node level path) s₁ with ⟨e | opening, s₂⟩
  · exact .unread henters hg
  change Runs c _ s (Emit.bind (opening.perform c (.enter node level path)) _ s₂)
  unfold Emit.bind
  rcases hp : opening.perform c (.enter node level path) s₂ with ⟨e | lines, s₃⟩
  · exact .unopened henters hg hp
  dsimp only
  rw [Outcome.after_eq]
  exact .entered henters hg hp
    (Part.all_runs h hchain (Statement.gather_ok hg).named (.enter node level path) s₃)

theorem Compilation.chainWithin_runs (steps : Nat) (node : Key) (level : Int) (path : List Key)
    (s : Progress) : Runs c (.chain node level path) s (c.chainWithin steps node level path s) := by
  induction steps generalizing node level path s with
  | zero => exact .refused rfl rfl
  | succ steps ih =>
    rw [chainWithin_succ]
    unfold chainStep chainCall
    by_cases hp : path.contains node.canonical = true
    · simp only [hp]
      exact .refused rfl rfl
    simp only [hp]
    change Runs c _ s (Emit.bind (c.checkDepth level node) _ s)
    unfold Emit.bind
    rcases hd : c.checkDepth level node s with ⟨e | _, s₁⟩ <;>
      obtain rfl : s = s₁ := congrArg Prod.snd hd
    · exact .refused rfl rfl
    dsimp only
    change Runs c _ s (Emit.bind (c.tick node) _ s)
    unfold Emit.bind
    have htick : (c.tick node s).2 = { s with visits := s.visits + 1 } := rfl
    rcases ht : c.tick node s with ⟨e | _, s₁⟩ <;> rw [ht] at htick <;> cases htick
    · exact .refused rfl rfl
    dsimp only
    cases htype : c.graph.typeOf node with
    | error e => exact .refused rfl rfl
    | ok t =>
      change Runs c _ s (Emit.bind (Emit.lift (.ok t)) _ _)
      unfold Emit.bind
      simp only [Emit.lift]
      cases hst : t.statement? with
      | none => exact .refused rfl rfl
      | some st =>
        have henters : Enters c node level path st s
            { s with visits := s.visits + 1, trail := .statement node level :: s.trail } :=
          ⟨by simpa using hp, (Graph.statement?_of_type htype).trans hst, rfl, rfl⟩
        exact entered_runs h ih henters

/-- A function is a chain in a block of its own. -/
theorem Compilation.entry_runs (node : Key) (level : Int) (s : Progress) :
    ∃ out, Runs c (.chain node level []) s.opened out ∧ c.entry node level s = out.leave s := by
  have run := c.chainWithin_runs h c.reach node level [] s.opened
  exact ⟨_, run, Emit.inBlock_eq (run.extends h)⟩

end

end CartGraph
