import CartGraph.Proofs.Emit.Frames
import CartGraph.Proofs.Emit.LocalScope

/-! # Which declaration a name stands for

A name that a lookup finds is declared in scope for the node that was asked for. It stands for this
declaration unless a line in between declares the same name again, and only the index of a loop or a
declared local, whose names the user chose, can do that. -/
namespace CartGraph

/-- After what was noted before a statement, a name is declared in scope for a node. -/
def Denotes (c : Compilation) (entry : Key) (before : List Visit) (n : Key) (x : String) : Prop :=
  ∃ t : SymbolTable, t.Issued ∧ t.Labelled ∧ Grounded c entry t.issued (c.frames entry before) ∧
    (c.graph.declarer n, x) ∈ (c.frames entry before).flatten ∧
    (c.graph.statement? n ≠ some .openEvent → c.Owns t.issued n x)

abbrev Denoting (c : Compilation) (entry : Key) (log : List Visit) : Prop :=
  EachRead (fun before _ n _ found => ∀ x, found = some x → Denotes c entry before n x) log

/-- What holds where a task starts that leaves the scope `outer`. -/
structure Framed (c : Compilation) (entry : Key) (base : List Visit)
    (outer : Lua.Frames (Option Key)) (log : List Visit) (s : Progress) : Prop where
  trail : s.trail = log ++ base
  open_ : outer ≠ []
  known : Known c s outer
  grounded : Grounded c entry s.symbols.issued (c.frames entry log)
  issued : s.symbols.Issued
  labelled : s.symbols.Labelled

/-- The scope in which a task starts, around the one that it leaves. -/
def Task.Starts (c : Compilation) (entry : Key) (outer frames : Lua.Frames (Option Key)) : Task → Prop
  | .chain node _ _ => frames = outer ∧
    (c.graph.statement? node = some .openEvent → node.canonical = entry.canonical)
  | .parts site ps => ∃ inside, Part.Nested inside ps ∧ Part.Around c site.node outer frames inside
  | .part _ (.line _) => True
  | .part _ (.follow _) => frames = outer
  | .part _ (.block _ comment) => Lua.IsPlain comment ∧ outer.flatten ⊆ frames.flatten
  | .part site (.loop index) => c.Chooses site.node index ∧
    (some site.node.canonical, index) ∈ frames.flatten ∧ outer.flatten ⊆ frames.flatten
  | .body _ _ comment => Lua.IsPlain comment ∧ frames = outer

/-- The scope after a task that answered: a line does what its form says, a body leaves the table as
it was, and any other task leaves what it declared in the scope around it. -/
def Task.Leaves (c : Compilation) (entry : Key) (outer frames frames' : Lua.Frames (Option Key))
    (s s' : Progress) : Task → Prop
  | .part site (.line text) => s'.symbols = s.symbols ∧ ∃ k, frames' =
    (Lua.Form.ofLine (Settings.blanks k ++ text)).apply (some site.node.canonical) frames
  | .part _ (.block _ _) | .part _ (.loop _) | .body _ _ _ =>
    frames.Grows frames' ∧ Grounded c entry s'.symbols.issued frames' ∧
      ∀ n p, s'.symbols.lookup n p = s.symbols.lookup n p
  | _ => outer.Grows frames' ∧ Grounded c entry s'.symbols.issued frames' ∧ Known c s' frames'

/-- What is known of a task that was run after `log`. -/
structure Task.Scopes (c : Compilation) (entry : Key) (base : List Visit)
    (outer : Lua.Frames (Option Key)) (log new : List Visit) (s : Progress) (out : Outcome)
    (task : Task) : Prop where
  trail : out.2.trail = (new ++ log) ++ base
  reads : Denoting c entry (new ++ log)
  ends : ∀ lines, out.1 = .ok lines → lines = (texts new).reverse ∧
    task.Leaves c entry outer (c.frames entry log) (c.frames entry (new ++ log)) s out.2

section

variable {c : Compilation} {entry : Key} {base log : List Visit}
  {outer frames frames' : Lua.Frames (Option Key)} {s s' : Progress}

theorem Compilation.frames_append (c : Compilation) (entry : Key) (new log : List Visit) :
    c.frames entry (new ++ log) = new.foldr Visit.apply (c.frames entry log) := List.foldr_append

/-- Lookups change no scope, so the lines of a statement are written in the scope before it. -/
theorem Compilation.frames_entered {R : Key → Key → Prop} {table : SymbolTable}
    {asked : List Visit} (h : ∀ v ∈ asked, v.Asks R table) (node : Key) (level : Int)
    (lines : List Visit) : c.frames entry ((lines ++ asked ++ [.statement node level]) ++ log) =
      lines.foldr Visit.apply (c.frames entry log) := by
  rw [List.append_assoc, List.append_assoc, frames_append]
  congr 1
  induction asked with
  | nil => rfl
  | cons v rest ih =>
    obtain ⟨hv, hrest⟩ := List.forall_mem_cons.mp h
    refine Eq.trans ?_ (ih hrest)
    cases v with
    | line node text => exact hv.elim
    | _ => rfl

theorem texts_append (a b : List Visit) : texts (a ++ b) = texts a ++ texts b := List.filterMap_append

theorem texts_entered {R : Key → Key → Prop} {table : SymbolTable} {asked : List Visit}
    (h : ∀ v ∈ asked, v.Asks R table) (node : Key) (level : Int) (lines : List Visit) :
    texts (lines ++ asked ++ [.statement node level]) = texts lines := by
  have hasked : texts asked = [] := by
    refine List.filterMap_eq_nil_iff.mpr fun v hv => ?_
    have := h v hv
    cases v with
    | line node text => exact this.elim
    | _ => rfl
  rw [texts_append, texts_append, hasked, List.append_nil]
  exact List.append_nil _

/-- The inputs of a statement are looked up in the scope before its line. -/
theorem Framed.entered (h : Framed c entry base (c.frames entry log) log s)
    (hreads : Denoting c entry log) {node : Key} {level : Int} {asked lines : List Visit}
    (hasked : ∀ v ∈ asked, v.Asks c.graph.IsLocal s.symbols)
    (hlines : ∀ v ∈ lines, ∃ node text, v = .line node text) :
    Denoting c entry ((lines ++ asked ++ [.statement node level]) ++ log) := by
  refine EachRead.entered hreads hasked hlines fun n p reader found hread x hx => ?_
  obtain ⟨_, hfound⟩ := hasked _ hread
  obtain ⟨hmem, howns⟩ := h.known n p x (hfound.symm.trans hx)
  exact ⟨s.symbols, h.issued, h.labelled, h.grounded, hmem, howns⟩

/-! ## From part to part -/

theorem Task.Starts.head {site : Site} {part : Part} {rest : List Part}
    (h : (Task.parts site (part :: rest)).Starts c entry outer frames) :
    (Task.part site part).Starts c entry outer frames := by
  obtain ⟨inside, hnested, haround⟩ := h
  have around {names : List String} (h : Part.Around c site.node outer frames (some names)) :
      outer.flatten ⊆ frames.flatten := by
    obtain ⟨frame, rfl, _⟩ := h
    exact List.subset_append_right ..
  cases hnested with
  | follow => exact haround
  | comment | turn | close => trivial
  | block hc => exact ⟨hc, around haround⟩
  | loop hi =>
    refine ⟨?_, ?_, around haround⟩
    all_goals obtain ⟨frame, rfl, hnames⟩ := haround
    · exact (hnames _ hi).2
    · exact List.mem_append_left _ (hnames _ hi).1

/-- After a part that answered, the rest of the parts can be run. -/
theorem Task.Starts.tail {site : Site} {part : Part} {rest : List Part}
    (h : (Task.parts site (part :: rest)).Starts c entry outer frames)
    (hopen : outer ≠ []) (hknown : Known c s outer)
    (hground : Grounded c entry s.symbols.issued frames)
    (hissued : s.symbols.issued <+: s'.symbols.issued)
    (hleaves : (Task.part site part).Leaves c entry outer frames frames' s s') :
    ∃ outer', outer.Grows outer' ∧ (Task.parts site rest).Starts c entry outer' frames' ∧
      Known c s' outer' ∧ Grounded c entry s'.symbols.issued frames' := by
  obtain ⟨inside, hnested, haround⟩ := h
  have hsame := Lua.Frames.Grows.refl hopen
  have kept (hlookup : ∀ n p, s'.symbols.lookup n p = s.symbols.lookup n p) : Known c s' outer :=
    hknown.mono (List.Subset.refl _) hlookup hissued
  -- a body adds to the innermost block, so the scope around it stays
  have body {names : List String} (haround : Part.Around c site.node outer frames (some names))
      (hgrows : frames.Grows frames') : Part.Around c site.node outer frames' (some names) := by
    obtain ⟨frame, rfl, hnames⟩ := haround
    obtain ⟨more, rfl⟩ := hgrows
    exact ⟨more ++ frame, rfl, fun x hx => ⟨List.mem_append_right _ (hnames x hx).1, (hnames x hx).2⟩⟩
  cases hnested with
  | follow hrest =>
    obtain ⟨hgrows, hground', hknown'⟩ := hleaves
    exact ⟨frames', hgrows, ⟨none, hrest, rfl⟩, hknown', hground'⟩
  | comment ht hrest =>
    obtain ⟨hsymbols, k, hframes⟩ := hleaves
    rw [ht k] at hframes
    subst hframes
    exact ⟨outer, hsame, ⟨none, hrest, haround⟩, kept fun _ _ => by rw [hsymbols], hground.mono hissued⟩
  | block _ hrest =>
    obtain ⟨hgrows, hground', hlookup⟩ := hleaves
    exact ⟨outer, hsame, ⟨_, hrest, body haround hgrows⟩, kept hlookup, hground'⟩
  | loop _ hrest =>
    obtain ⟨hgrows, hground', hlookup⟩ := hleaves
    exact ⟨outer, hsame, ⟨_, hrest, body haround hgrows⟩, kept hlookup, hground'⟩
  | turn hrest =>
    obtain ⟨hsymbols, k, hframes⟩ := hleaves
    obtain ⟨frame, rfl, _⟩ := haround
    rw [Lua.Form.ofLine_else] at hframes
    subst hframes
    refine ⟨outer, hsame, ⟨_, hrest, [], rfl, fun _ hx => nomatch hx⟩,
      kept fun _ _ => by rw [hsymbols], ?_⟩
    exact .block (fun _ hd => nomatch hd) ((hground.tail hopen).mono hissued)
  | close hrest =>
    obtain ⟨hsymbols, k, hframes⟩ := hleaves
    obtain ⟨frame, rfl, _⟩ := haround
    rw [Lua.Form.ofLine_end] at hframes
    rw [show frames' = outer from hframes]
    exact ⟨outer, hsame, ⟨none, hrest, rfl⟩, kept fun _ _ => by rw [hsymbols],
      (hground.tail hopen).mono hissued⟩

/-! ## Walks -/

theorem Task.Scopes.nothing {out : Outcome} {task : Task} (hreads : Denoting c entry log)
    (ht : out.2.trail = log ++ base) (hends : ∀ lines, out.1 = .ok lines → lines = [] ∧
      task.Leaves c entry outer (c.frames entry log) (c.frames entry log) s out.2) :
    task.Scopes c entry base outer log [] s out := ⟨ht, hreads, hends⟩

/-- A node that another one leads to is no event. -/
theorem Loaded.target_not_event {g : Graph} (h : Loaded g) {node pin target : Key}
    (ht : g.execTargets node pin = [target]) : g.statement? target ≠ some .openEvent := by
  intro hst
  have hmem : target ∈ g.execTargets node pin := by simp [ht]
  obtain ⟨w, hw, hx, _, rfl⟩ := h.mem_execTargets.mp hmem
  obtain ⟨t, hm, htype, p, hp, hpx, _⟩ := h.exec_target hw hx
  rw [Graph.statement?_of_type htype] at hst
  cases hpx.symm.trans (Library.openEvent_inputs t hm hst p hp)

/-- A line does what its form says. -/
theorem Site.written_scope (site : Site) (level : Int) (text : String)
    (hreads : Denoting c entry log) (htrail : s.trail = log ++ base) :
    ∃ new, (site.written c level text s).2.trail = (new ++ log) ++ base ∧
      Denoting c entry (new ++ log) ∧ ∀ lines, (site.written c level text s).1 = .ok lines →
        lines = (texts new).reverse ∧ (site.written c level text s).2.symbols = s.symbols ∧
        ∃ k, c.frames entry (new ++ log) = (Lua.Form.ofLine (Settings.blanks k ++ text)).apply
          (some site.node.canonical) (c.frames entry log) := by
  unfold written
  cases hl : c.line level text with
  | error e => exact ⟨[], htrail, hreads, fun _ h => nomatch h⟩
  | ok line =>
    obtain ⟨k, rfl⟩ := c.line_ok hl
    refine ⟨[.line site.node (Settings.blanks k ++ text)], congrArg (_ :: ·) htrail,
      hreads.lines fun v hv => ⟨_, _, List.mem_singleton.mp hv⟩, fun lines h => ?_⟩
    exact ⟨(Except.ok.inj h).symm, rfl, k, Visit.foldr_line ..⟩

/-- The comment for an empty body leaves everything as it is. -/
theorem Site.commented_scope (site : Site) {comment : String} (hc : Lua.IsPlain comment)
    {out : Outcome} {new : List Visit} (hreads : Denoting c entry (new ++ log))
    (htrail : out.2.trail = (new ++ log) ++ base)
    (hout : ∀ lines, out.1 = .ok lines → lines = (texts new).reverse) :
    ∃ new', (site.commented c comment out).2.trail = (new' ++ log) ++ base ∧
      Denoting c entry (new' ++ log) ∧ ∀ lines, (site.commented c comment out).1 = .ok lines →
        lines = (texts new').reverse ∧
        (site.commented c comment out).2.symbols = out.2.symbols ∧
        c.frames entry (new' ++ log) = c.frames entry (new ++ log) := by
  rcases out with ⟨e | _ | ⟨line, rest⟩, s⟩
  · exact ⟨new, htrail, hreads, fun _ h => nomatch h⟩
  · obtain ⟨more, ht, hr, hends⟩ := site.written_scope (site.level + 1) comment hreads htrail
    have hall : (more ++ new) ++ log = more ++ (new ++ log) := List.append_assoc ..
    refine ⟨more ++ new, hall ▸ ht, hall ▸ hr, fun lines h => ?_⟩
    obtain ⟨htexts, hsymbols, k, hframes⟩ := hends lines h
    rw [hc k] at hframes
    refine ⟨?_, hsymbols, hall ▸ hframes⟩
    rw [texts_append, List.reverse_append, ← hout [] rfl, htexts, List.nil_append]
  · exact ⟨new, htrail, hreads, fun lines h => ⟨hout lines h, rfl, rfl⟩⟩

/-- Inside of a loop the index is declared by the line of the loop. -/
theorem Known.loop {node : Key} {index : String} (h : Known c s frames)
    (hchooses : c.Chooses node index) (hmem : (some node.canonical, index) ∈ frames.flatten) :
    Known c (s.opened.bound node "index" index) frames := by
  intro n p x hx
  have hlookup : (s.opened.bound node "index" index).symbols.lookup n p =
      if outputOf n p = outputOf node "index" then some index else s.symbols.lookup n p :=
    SymbolTable.lookup_bind ..
  rw [hlookup] at hx
  split at hx
  · rename_i ho
    cases hx
    have hk : n.canonical = node.canonical := congrArg Prod.fst ho
    have howns : c.Owns (s.opened.bound node "index" index).symbols.issued n index :=
      .chosen (hchooses.congr hk.symm)
    refine ⟨?_, fun _ => howns⟩
    rw [Graph.declarer_of_ne howns.not_event, hk]
    exact hmem
  · exact h n p x hx

/-- A node is entered: its lines are written, and its parts can be run in the scope that they leave. -/
theorem Framed.enter (hg : Loaded c.graph) (hc : c.Unreserved) (hnames : c.NamesParameters)
    {node : Key} {level : Int} {path : List Key} {st : Statement} {opening : Opening}
    {lines : List String} {s₁ s₂ : Progress}
    (hevent : c.graph.statement? node = some .openEvent → node.canonical = entry.canonical)
    (h : Framed c entry base (c.frames entry log) log s) (hreads : Denoting c entry log)
    (enters : Enters c node level path st s s₁)
    (hgather : st.gather c (c.evaluate node) (.enter node level path) s₁ = (.ok opening, s₂))
    (hp : opening.perform c (.enter node level path) s₂ = (.ok lines, s')) :
    ∃ new outer, (c.frames entry log).Grows outer ∧ lines = (texts new).reverse ∧
      Denoting c entry (new ++ log) ∧ Framed c entry base outer (new ++ log) s' ∧
      (Task.parts (.enter node level path) opening.parts).Starts c entry outer
        (c.frames entry (new ++ log)) := by
  obtain ⟨asked, ht, hs, hasked, _⟩ := enters.asked hg hgather
  obtain ⟨new, hnt, htexts, hlines, outer, inside, hgrows, hnested, haround, hknown, hground⟩ :=
    (Statement.gather_ok hgather).hosted hg.toRepresented hc hnames enters.statement
      (fun hst => hevent (hst ▸ enters.statement)) hp (hs ▸ h.issued)
      (h.known.congr hs) (hs ▸ h.grounded)
  have hframes : c.frames entry ((new ++ asked ++ [.statement node level]) ++ log) =
      new.foldr Visit.apply (c.frames entry log) := c.frames_entered hasked node level new
  refine ⟨new ++ asked ++ [.statement node level], outer, hgrows, ?_, h.entered hreads hasked hlines,
    ⟨?_, hgrows.ne_nil, hknown, hframes ▸ hground, ?_, ?_⟩, inside, hnested, hframes ▸ haround⟩
  · rw [texts_entered hasked, htexts]
  · simp [hnt, ht, h.trail]
  · exact Opening.perform_related Progress.follows_issued.toAdmits hp (hs ▸ h.issued)
  · exact Opening.perform_related Progress.follows_labelled.toAdmits hp (hs ▸ h.labelled)

/-- After a part that answered, the rest of the parts can be run in the scope that it leaves. -/
theorem Framed.next (hg : Loaded c.graph) {site : Site} {part : Part} {rest : List Part}
    {lines : List String} {new : List Visit}
    (hstarts : (Task.parts site (part :: rest)).Starts c entry outer (c.frames entry log))
    (h : Framed c entry base outer log s) (first : Runs c (.part site part) s (.ok lines, s'))
    (hscopes : (Task.part site part).Scopes c entry base outer log new s (.ok lines, s')) :
    ∃ outer', outer.Grows outer' ∧ Framed c entry base outer' (new ++ log) s' ∧
      (Task.parts site rest).Starts c entry outer' (c.frames entry (new ++ log)) := by
  obtain ⟨_, hleaves⟩ := hscopes.ends lines rfl
  obtain ⟨outer', hgrows, hstarts', hknown, hground⟩ := hstarts.tail h.open_ h.known h.grounded
    (first.extends hg.toRepresented).issued hleaves
  exact ⟨outer', hgrows, ⟨hscopes.trail, hgrows.ne_nil, hknown, hground,
    first.issued hg.toRepresented h.issued, first.labelled hg.toRepresented h.labelled⟩, hstarts'⟩

/-- Parts go on after lines that were written, in a scope that has grown. -/
theorem Task.Scopes.after {site : Site} {parts : List Part} {task : Task} {s₁ : Progress}
    {out : Outcome} {new more : List Visit} {lines : List String}
    {outer' : Lua.Frames (Option Key)}
    (h : (Task.parts site parts).Scopes c entry base outer' (new ++ log) more s₁ out)
    (hgrows : outer.Grows outer') (hlines : lines = (texts new).reverse)
    (hleaves : ∀ frames' s', outer.Grows frames' ∧ Grounded c entry s'.symbols.issued frames' ∧
      Known c s' frames' → task.Leaves c entry outer (c.frames entry log) frames' s s') :
    task.Scopes c entry base outer log (more ++ new) s (out.after lines) := by
  have hall : (more ++ new) ++ log = more ++ (new ++ log) := List.append_assoc ..
  refine ⟨hall ▸ h.trail, hall ▸ h.reads, fun lines' hl => ?_⟩
  obtain ⟨lines'', hl'', rfl⟩ := Outcome.after_ok_eq hl
  obtain ⟨htexts, hgrows', hground, hknown⟩ := h.ends lines'' hl''
  rw [hall]
  refine ⟨?_, hleaves _ _ ⟨hgrows.trans hgrows', hground, hknown⟩⟩
  rw [hlines, htexts, texts_append, List.reverse_append]

theorem Runs.scopes (hg : Loaded c.graph) (hc : c.Unreserved) (hnames : c.NamesParameters)
    {task : Task} {s : Progress} {out : Outcome} (run : Runs c task s out) :
    ∀ {outer log}, task.Starts c entry outer (c.frames entry log) →
      Framed c entry base outer log s → Denoting c entry log →
      ∃ new, task.Scopes c entry base outer log new s out := by
  induction run with
  | refused hs ht =>
    intro outer log _ hframed hreads
    exact ⟨[], .nothing hreads (ht.trans hframed.trail) fun _ h => nomatch h⟩
  | @unread node level path st s s₁ s₂ e enters hgather =>
    intro outer log hstarts hframed hreads
    obtain ⟨rfl, _⟩ := hstarts
    obtain ⟨asked, ht, _, hasked, _⟩ := enters.asked hg hgather
    refine ⟨[] ++ asked ++ [.statement node level], ?_, ?_, fun _ h => nomatch h⟩
    · simp [ht, hframed.trail]
    · exact hframed.entered hreads hasked fun _ hv => nomatch hv
  | @unopened node level path st s s₁ s₂ s₃ opening e enters hgather hp =>
    intro outer log hstarts hframed hreads
    obtain ⟨rfl, _⟩ := hstarts
    obtain ⟨asked, ht, _, hasked, _⟩ := enters.asked hg hgather
    obtain ⟨new, hnt, hlines⟩ := Opening.perform_related lines_admits hp
    refine ⟨new ++ asked ++ [.statement node level], ?_, ?_, fun _ h => nomatch h⟩
    · simp [hnt, ht, hframed.trail]
    · exact hframed.entered hreads hasked hlines
  | entered enters hgather hp run ih =>
    intro outer log hstarts hframed hreads
    obtain ⟨rfl, hevent⟩ := hstarts
    obtain ⟨new, outer', hgrows, hlines, hreads', hframed', hstarts'⟩ :=
      hframed.enter hg hc hnames hevent hreads enters hgather hp
    obtain ⟨more, hscopes⟩ := ih hstarts' hframed' hreads'
    exact ⟨_, hscopes.after hgrows hlines fun _ _ h => h⟩
  | @done site s =>
    intro outer log hstarts hframed hreads
    obtain ⟨inside, hnested, haround⟩ := hstarts
    cases hnested
    refine ⟨[], .nothing hreads hframed.trail fun _ hl => ⟨(Except.ok.inj hl).symm, ?_⟩⟩
    rw [show c.frames entry log = outer from haround]
    exact ⟨.refl hframed.open_, haround ▸ hframed.grounded, hframed.known⟩
  | stop _ ih =>
    intro outer log hstarts hframed hreads
    obtain ⟨new, hscopes⟩ := ih hstarts.head hframed hreads
    exact ⟨new, hscopes.trail, hscopes.reads, fun _ h => nomatch h⟩
  | next first run ihf ih =>
    intro outer log hstarts hframed hreads
    obtain ⟨new, hscopes⟩ := ihf hstarts.head hframed hreads
    obtain ⟨outer', hgrows, hframed', hstarts'⟩ := hframed.next hg hstarts first hscopes
    obtain ⟨more, hscopes'⟩ := ih hstarts' hframed' hscopes.reads
    exact ⟨_, hscopes'.after hgrows (hscopes.ends _ rfl).1 fun _ _ h => h⟩
  | @line site text s =>
    intro outer log _ hframed hreads
    obtain ⟨new, ht, hr, hends⟩ := site.written_scope site.level text hreads hframed.trail
    exact ⟨new, ht, hr, hends⟩
  | @idle site s pin ht =>
    intro outer log hstarts hframed hreads
    refine ⟨[], .nothing hreads hframed.trail fun _ hl => ⟨(Except.ok.inj hl).symm, ?_⟩⟩
    rw [show c.frames entry log = outer from hstarts]
    exact ⟨.refl hframed.open_, hstarts ▸ hframed.grounded, hframed.known⟩
  | @follow site target s out pin ht run ih =>
    intro outer log hstarts hframed hreads
    obtain ⟨new, hscopes⟩ :=
      ih ⟨hstarts, fun hst => absurd hst (hg.target_not_event ht)⟩ hframed hreads
    exact ⟨new, hscopes.trail, hscopes.reads, hscopes.ends⟩
  | @block site pin comment s out run ih =>
    intro outer log hstarts hframed hreads
    obtain ⟨hcomment, hsub⟩ := hstarts
    obtain ⟨new, hscopes⟩ := ih ⟨hcomment, rfl⟩ { hframed with
      open_ := hframed.grounded.ne_nil
      known := hframed.known.mono hsub (fun _ _ => rfl) List.prefix_rfl } hreads
    exact ⟨new, hscopes.trail, hscopes.reads, hscopes.ends⟩
  | @loop site index s out hi run ih =>
    intro outer log hstarts hframed hreads
    obtain ⟨hchooses, hmem, hsub⟩ := hstarts
    have hknown := hframed.known.mono hsub (fun _ _ => rfl) List.prefix_rfl
    obtain ⟨new, hscopes⟩ := ih ⟨Lua.isPlain_comment "loop body", rfl⟩
      ⟨hframed.trail, hframed.grounded.ne_nil, hknown.loop hchooses hmem, hframed.grounded,
        hframed.issued.congr rfl, hframed.labelled.congr rfl⟩ hreads
    refine ⟨new, hscopes.trail, hscopes.reads, fun lines hl => ?_⟩
    obtain ⟨htexts, hgrows, hground, _⟩ := hscopes.ends lines hl
    exact ⟨htexts, hgrows, hground, fun _ _ => rfl⟩
  | @blank site comment s pin ht =>
    intro outer log hstarts hframed hreads
    obtain ⟨hcomment, rfl⟩ := hstarts
    obtain ⟨new, ht, hr, hends⟩ := @Site.commented_scope c entry base log site comment hcomment
      (.ok [], s) [] hreads hframed.trail fun _ hl => (Except.ok.inj hl).symm
    refine ⟨new, ht, hr, fun lines hl => ?_⟩
    obtain ⟨htexts, hsymbols, hframes⟩ := hends lines hl
    refine ⟨htexts, ?_⟩
    rw [hframes, Task.Leaves, hsymbols]
    exact ⟨.refl hframed.open_, hframed.grounded, fun _ _ => rfl⟩
  | @filled site comment target s out pin ht run ih =>
    intro outer log hstarts hframed hreads
    obtain ⟨hcomment, rfl⟩ := hstarts
    obtain ⟨new, hscopes⟩ := ih ⟨rfl, fun hst => absurd hst (hg.target_not_event ht)⟩
      ⟨hframed.trail, hframed.open_, hframed.known, hframed.grounded, hframed.issued.congr rfl,
        hframed.labelled.congr rfl⟩ hreads
    obtain ⟨new', ht', hr, hends⟩ := @Site.commented_scope c entry base log site comment hcomment
      (out.leave s) new hscopes.reads hscopes.trail fun lines hl => (hscopes.ends lines hl).1
    refine ⟨new', ht', hr, fun lines hl => ?_⟩
    obtain ⟨lines', hl'⟩ := Site.commented_ok (out.leave s) hl
    obtain ⟨_, hgrows, hground, _⟩ := hscopes.ends lines' hl'
    obtain ⟨htexts, hsymbols, hframes⟩ := hends lines hl
    refine ⟨htexts, ?_⟩
    rw [hframes, Task.Leaves, hsymbols]
    exact ⟨hgrows, hground, fun _ _ => rfl⟩

/-! ## Names -/

variable {n m : Key} {x : String} {customs : List Node} {t : SymbolTable}

/-- Names that the user chose are not hidden. -/
theorem Compilation.Chooses.visible (h : c.Chooses n x) : ¬ Lua.hiddenStart.toList <+: x.toList := by
  have hname : ∃ raw, x = Lua.sanitize raw := by
    cases h with
    | index _ hx => exact c.nameProperty_ok hx
    | declare _ hx => exact c.nameProperty_ok hx
  obtain ⟨raw, hraw⟩ := hname
  rw [hraw]
  exact Lua.sanitize_visible raw

theorem resumeLabels_letter : ∀ l ∈ resumeLabels, 'c' ∈ Lua.hiddenPart l.2 "tmp" := by decide

/-- Temporaries are hidden, and not just by a number. -/
theorem SymbolTable.Issued.temporary (hissued : t.Issued) (hlabelled : t.Labelled)
    {pin label : String} (hlabel : (pin, label) ∈ resumeLabels)
    (hx : t.issued.lookup (outputOf n label) = some x) :
    Lua.hiddenStart.toList <+: x.toList ∧ 'c' ∈ x.toList := by
  obtain ⟨l₁, l₂, hl, _⟩ := List.lookup_eq_some_iff.mp hx
  have hmem : (outputOf n label, x) ∈ t.issued := by simp [hl]
  have hletter : 'c' ∈ Lua.hiddenPart label "tmp" := resumeLabels_letter (pin, label) hlabel
  exact ⟨hissued.hidden _ hmem, hlabelled _ hmem label rfl 'c' hletter⟩

/-- No parameter has the name of a temporary. -/
theorem Compilation.headFrame_visible (hevents : c.events = Signature.ofNodes customs)
    {o : Option Key} (h : (o, x) ∈ c.headFrame entry) (hc : 'c' ∈ x.toList) :
    ¬ Lua.hiddenStart.toList <+: x.toList := by
  obtain ⟨q, hq, he⟩ := List.mem_map.mp (List.mem_reverse.mp h)
  cases he
  unfold parameters at hq
  cases hl : c.events.lookup entry.canonical with
  | none => rw [hl] at hq; cases hq
  | some signature =>
    rw [hl] at hq
    rw [hevents] at hl
    obtain ⟨m, _, _, hs, _⟩ := Signature.ofNodes_lookup hl
    obtain ⟨used, raw, hname⟩ := m.parameters_fresh q (hs ▸ hq)
    rw [hname] at hc ⊢
    exact Lua.fresh_visible (Lua.sanitize_visible raw) hc (by decide) (by decide)

theorem Compilation.headFrame_none {d : Option Key × String} (h : d ∈ c.headFrame entry) :
    d.1 = none := by
  obtain ⟨q, _, rfl⟩ := List.mem_map.mp (List.mem_reverse.mp h)
  rfl

/-- What a line declares under the name of another local in scope is a local whose name the user
chose, and the other one is no temporary. -/
theorem Compilation.Owns.chosen_of_other (hevents : c.events = Signature.ofNodes customs)
    (hissued : t.Issued) (hlabelled : t.Labelled) (h : c.Owns t.issued m x)
    (hother : m.canonical ≠ n.canonical)
    (hevent : c.graph.statement? n = some .openEvent → (none, x) ∈ c.headFrame entry)
    (howns : c.graph.statement? n ≠ some .openEvent → c.Owns t.issued n x) :
    c.Chooses m x ∧ c.graph.statement? n ≠ some .resume := by
  cases h with
  | chosen h =>
    refine ⟨h, fun hst => ?_⟩
    cases howns (by simp [hst]) with
    | chosen h' => rcases h' with ⟨hst', _⟩ | ⟨hst', _⟩ <;> cases hst.symm.trans hst'
    | temporary _ hlabel hx => exact absurd (hissued.temporary hlabelled hlabel hx).1 h.visible
  | temporary hst hlabel hx =>
    obtain ⟨hhidden, hletter⟩ := hissued.temporary hlabelled hlabel hx
    by_cases hn : c.graph.statement? n = some .openEvent
    · exact absurd hhidden (c.headFrame_visible hevents (hevent hn) hletter)
    · cases howns hn with
      | chosen h' => exact absurd hhidden h'.visible
      | temporary _ _ hx' =>
        exact absurd (congrArg Prod.fst (hissued.eq_of_lookup hx hx')) hother

/-- The name is declared in scope for the node, and what declares it again later has it from the
user. -/
theorem Denotes.split (hevents : c.events = Signature.ofNodes customs) {before : List Visit}
    (h : Denotes c entry before n x) : ∃ later earlier,
      (c.frames entry before).flatten = later ++ (c.graph.declarer n, x) :: earlier ∧
      (c.graph.declarer n, x) ∉ later ∧
      ∀ d ∈ later, d.2 = x → c.graph.statement? n ≠ some .resume ∧
        ∃ m : Key, d.1 = some m.canonical ∧ m.canonical ≠ n.canonical ∧ c.Chooses m x := by
  obtain ⟨t, hissued, hlabelled, hground, hmem, howns⟩ := h
  obtain ⟨lined, hflat, hlined⟩ := hground.flatten
  obtain ⟨later, earlier, hsplit, hnot⟩ := List.eq_append_cons_of_mem hmem
  refine ⟨later, earlier, hsplit, hnot, fun d hd hx => ?_⟩
  -- a local of the head stands for an event, and comes after all others
  have hevent (hst : c.graph.statement? n = some .openEvent) : (none, x) ∈ c.headFrame entry := by
    rw [Graph.declarer, if_pos hst, hflat] at hmem
    refine (List.mem_append.mp hmem).resolve_left fun hl => ?_
    obtain ⟨m, hm, _⟩ := hlined _ hl
    cases hm
  have hin : d ∈ lined := by
    rcases List.append_eq_append_iff.mp (hsplit.symm.trans hflat) with
      ⟨_, rfl, _⟩ | ⟨rest, rfl, hhead⟩
    · exact List.mem_append_left _ hd
    · refine (List.mem_append.mp hd).resolve_right fun hr => hnot (List.mem_append_right _ ?_)
      have hnone : ∀ e ∈ rest ++ (c.graph.declarer n, x) :: earlier, e.1 = none := fun e he =>
        c.headFrame_none (hhead ▸ he)
      have hn : c.graph.declarer n = none := hnone _ (List.mem_append_right _ (.head _))
      have hd : d.1 = none := hnone d (List.mem_append_left _ hr)
      rw [hn, ← hd, ← hx]
      exact hr
  obtain ⟨m, hm, hm'⟩ := hlined d hin
  rw [hx] at hm'
  have hother : m.canonical ≠ n.canonical := by
    intro hk
    have hdecl : c.graph.declarer n = d.1 := by
      rw [Graph.declarer_of_ne (hm'.congr hk).not_event, ← hk, hm]
    exact hnot (hdecl ▸ hx ▸ hd)
  obtain ⟨hchooses, hst⟩ := hm'.chosen_of_other hevents hissued hlabelled hother hevent howns
  exact ⟨hst, m, hm, hother, hchooses⟩

/-! ## Functions -/

theorem Idle.labelled (hg : Loaded c.graph) (h : Idle c s) : s.symbols.Labelled := by
  induction h with
  | start => exact fun _ he => nomatch he
  | entry node level _ ih =>
    obtain ⟨out, run, hentry⟩ := c.entry_runs hg.toRepresented node level _
    rw [hentry]
    exact (run.labelled hg.toRepresented (ih.congr rfl)).congr rfl

/-- What a function notes, latest first: its lines, and lookups of what is declared in scope. -/
theorem Compilation.entry_scopes (hg : Loaded c.graph) (hc : c.Unreserved)
    (hnames : c.NamesParameters) (hs : Idle c s) (entry : Key) (level : Int) :
    ∃ new, (c.entry entry level).log s = new.reverse ∧ Denoting c entry new ∧
      ∀ lines, (c.entry entry level s).1 = .ok lines → lines = (texts new).reverse := by
  obtain ⟨out, run, hentry⟩ := c.entry_runs hg.toRepresented entry level s
  have hframed : Framed c entry s.trail [c.headFrame entry] [] s.opened := by
    obtain ⟨htop, houter, hissued⟩ := hs.symbols hg
    refine ⟨rfl, List.cons_ne_nil _ _, fun n p x hx => ?_, ?_, hissued.congr rfl,
      (hs.labelled hg).congr rfl⟩
    · have hnone : s.opened.symbols.lookup n p = none := by
        change (SymbolTable.push s.symbols).lookup n p = none
        rw [SymbolTable.lookup_push, SymbolTable.lookup, htop, houter]
        rfl
      cases hnone.symm.trans hx
    · exact @Grounded.head c entry _ [] (by simp)
  obtain ⟨new, hscopes⟩ := run.scopes hg hc hnames ⟨rfl, fun _ => rfl⟩ hframed .nil
  have htrail := hscopes.trail
  have hreads := hscopes.reads
  rw [List.append_nil] at htrail hreads
  refine ⟨new, Emit.log_eq ?_, hreads, fun lines hl => ?_⟩
  · rw [hentry]
    exact htrail
  · rw [hentry] at hl
    exact (hscopes.ends lines hl).1

end

/-- In a function that was emitted, the name that a lookup found is declared in scope for the node
that was asked for, and it stands for this declaration exactly if it is not declared again later.
Only the index of a loop or a declared local of another node can do that, since the user chose their
names, and a temporary is never declared again. -/
theorem owner?_read_iff {document : Value} {c : Compilation} {globals : List Variable}
    {declarations : Variable.Declarations} {customs : List Node}
    (hload : Graph.load document Library.catalogue = .ok c.graph)
    (hglobals : Variable.declare globals = .ok declarations) (hnames : c.globals = declarations.names)
    (hevents : c.events = Signature.ofNodes customs) {s s' : Progress} (hs : Idle c s)
    {entry : Key} {level : Int} {lines : List String}
    (hrun : c.entry entry level s = (.ok lines, s')) {r n p reader : Key} {depth : Int} {x : String}
    {before mid after : List Visit}
    (hlog : (c.entry entry level).log s =
      before ++ .statement r depth :: (mid ++ .read n p reader (some x) :: after))
    (hmid : statements mid = []) :
    texts ((c.entry entry level).log s) = lines ∧ ∃ later earlier,
      (c.scopeAfter entry before).flatten = later ++ (c.graph.declarer n, x) :: earlier ∧
      (∀ d ∈ later, d.2 = x → c.graph.statement? n ≠ some .resume ∧
        ∃ m : Key, d.1 = some m.canonical ∧ m.canonical ≠ n.canonical ∧ c.Chooses m x) ∧
      ((c.scopeAfter entry before).owner? x = some (c.graph.declarer n) ↔
        ∀ d ∈ later, d.2 ≠ x) := by
  have hg := Loaded.of_load hload
  obtain ⟨new, hnew, hreads, htexts⟩ := c.entry_scopes hg
    (Compilation.unreserved hglobals hnames hevents) (c.namesParameters hevents) hs entry level
  have hscope : c.scopeAfter entry before = c.frames entry before.reverse := by
    rw [← c.scopeAfter_reverse, List.reverse_reverse]
  have hdenotes : Denotes c entry before.reverse n x :=
    hreads.of_reverse (hnew.symm.trans hlog) hmid x rfl
  obtain ⟨later, earlier, hsplit, hnot, hlater⟩ := hdenotes.split hevents
  rw [hscope]
  refine ⟨?_, later, earlier, hsplit, hlater, Lua.Frames.owner?_eq_some_iff hsplit hnot⟩
  rw [htexts lines (congrArg Prod.fst hrun), hnew, texts, List.filterMap_reverse]
  rfl

/-- Two loops with the same index, one in the other, and a reader of the outer one inside. -/
def shadowedIndex : Value := Graph.outline
  [("boot", "event_start", []), ("outer", "for_loop", []), ("inner", "for_loop", []),
    ("show", "print", [])]
  [("boot", "exec_out", "outer", "exec_in"), ("outer", "loop", "inner", "exec_in"),
    ("inner", "loop", "show", "exec_in"), ("outer", "index", "show", "x")]

def shadowedIndexBefore : List Visit := [
  .statement "boot" 1,
  .statement "outer" 1, .line "outer" "  for i = 0, 10, 1 do",
  .statement "inner" 2, .line "inner" "    for i = 0, 10, 1 do"]

def shadowedIndexLog : List Visit := shadowedIndexBefore ++ .statement "show" 3 ::
  ([.value "outer" "index"] ++ .read "outer" "index" "show" (some "i") :: [
    .line "show" "      print(\"hello\", i, 0, 7)", .line "inner" "    end",
    .line "outer" "  end"])

theorem owner?_read_iff_shadowedIndex : ∃ g,
    Graph.load shadowedIndex Library.catalogue = .ok g ∧
    let c : Compilation := { graph := g }
    (c.entry "boot" 1).log {} = shadowedIndexLog ∧
    ∃ later earlier, (c.scopeAfter "boot" shadowedIndexBefore).flatten =
        later ++ (g.declarer "outer", "i") :: earlier ∧
      ((c.scopeAfter "boot" shadowedIndexBefore).owner? "i" = some (g.declarer "outer") ↔
        ∀ d ∈ later, d.2 ≠ "i") := by
  have heval : ((Graph.load shadowedIndex Library.catalogue).toOption.any fun g =>
      let c : Compilation := { graph := g }
      (c.entry "boot" 1 {}).1.isOk && (c.entry "boot" 1).log {} == shadowedIndexLog) = true := by
    decide +kernel
  obtain ⟨g, hload, heval⟩ := exists_ok_of_any heval
  obtain ⟨hok, hlog⟩ := Bool.and_eq_true_iff.mp heval
  have hlog := eq_of_beq hlog
  rcases hrun : Compilation.entry { graph := g } "boot" 1 {} with ⟨e | lines, s'⟩
  · rw [hrun] at hok
    cases hok
  have hdeclared : Variable.declare [] = .ok {} := rfl
  have hevents : ([] : List (Key × Signature)) = Signature.ofNodes [] := rfl
  obtain ⟨_, later, earlier, hsplit, _, howner⟩ :=
    @owner?_read_iff _ { graph := g } _ _ _ hload hdeclared rfl hevents _ _ .start _ _ _ hrun _ _ _ _
      _ _ _ _ _ hlog rfl
  exact ⟨g, hload, hlog, later, earlier, hsplit, howner⟩

/-- The name that the reader was given stands for the index of the inner loop. -/
theorem shadowedIndex_captured : ∃ g,
    Graph.load shadowedIndex Library.catalogue = .ok g ∧
    let c : Compilation := { graph := g }
    (c.entry "boot" 1).log {} = shadowedIndexLog ∧
    (c.scopeAfter "boot" shadowedIndexBefore).owner? "i" = some (g.declarer "inner") ∧
    g.declarer "inner" ≠ g.declarer "outer" := by
  have heval : ((Graph.load shadowedIndex Library.catalogue).toOption.any fun g =>
      let c : Compilation := { graph := g }
      (c.entry "boot" 1).log {} == shadowedIndexLog &&
      (c.scopeAfter "boot" shadowedIndexBefore).owner? "i" == some (g.declarer "inner") &&
      g.declarer "inner" != g.declarer "outer") = true := by
    decide +kernel
  obtain ⟨g, hload, heval⟩ := exists_ok_of_any heval
  obtain ⟨⟨hlog, howner⟩, hne⟩ := by simpa only [Bool.and_eq_true] using heval
  exact ⟨g, hload, eq_of_beq hlog, eq_of_beq howner, by simpa using hne⟩

end CartGraph
