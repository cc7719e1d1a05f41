import CartGraph.Proofs.Emit.Scope

/-! # Where locals can be read

Every lookup of the walk happens while the inputs of some statement are gathered, and it finds what
is visible at that statement. A lookup that finds nothing ends the walk. -/
namespace CartGraph

/-- A lookup, after what was noted before it, found what is visible at the statement that was
entered last. -/
structure Lookup (c : Compilation) (entry : Key) (before : List Visit) (r n p : Key)
    (found : Option String) (ws : List Connection) (issued : List (Output × String)) : Prop where
  path : c.graph.ExecPath entry r ws
  asks : c.graph.statement? r ≠ some .openEvent
  above : ∀ w ∈ ws, w.sourceNode.Among (statements before)
  isLocal : c.graph.IsLocal n p
  found : ∀ name, found = some name ↔
    Visible c entry issued (statements before) (c.graph.bodies ws) n p name
  settled : Settled c before issued

/-- Every lookup of a log, latest first, has a property, which may speak of the statement that was
entered last and of what was noted before it. -/
def EachRead (P : List Visit → Key → Key → Key → Option String → Prop) (log : List Visit) : Prop :=
  ∀ n p reader found pre, .read n p reader found :: pre <:+ log →
    ∃ mid r level before, pre = mid ++ .statement r level :: before ∧ statements mid = [] ∧
      P before r n p found

def Sound (c : Compilation) (entry : Key) (log : List Visit) : Prop :=
  EachRead (fun before r n p found => ∃ ws issued, Lookup c entry before r n p found ws issued) log

theorem suffix_append_cases {v : Visit} {pre new log : List Visit} (h : v :: pre <:+ new ++ log) :
    (∃ rest, v :: rest <:+ new ∧ pre = rest ++ log) ∨ v :: pre <:+ log := by
  obtain ⟨t, ht⟩ := h
  rcases List.append_eq_append_iff.mp ht with ⟨u, hnew, hlog⟩ | ⟨u, ht', hlog⟩
  · rcases List.cons_eq_append_iff.mp hlog with ⟨_, hpre⟩ | ⟨rest, rfl, hpre⟩
    · exact .inr ⟨[], hpre.symm⟩
    · exact .inl ⟨rest, ⟨t, hnew.symm⟩, hpre⟩
  · exact .inr ⟨u, hlog.symm⟩

theorem statements_asked {R : Key → Key → Prop} {table : SymbolTable} {asked : List Visit}
    (h : ∀ v ∈ asked, v.Asks R table) : statements asked = [] := by
  refine List.filterMap_eq_nil_iff.mpr fun v hv => ?_
  have := h v hv
  cases v with
  | statement node level => exact this.elim
  | _ => rfl

/-- A line is no lookup. -/
theorem read_not_mem_lines {lines : List Visit}
    (h : ∀ v ∈ lines, ∃ node text, v = .line node text) {n p reader : Key}
    {found : Option String} : .read n p reader found ∉ lines := by
  intro hr
  obtain ⟨_, _, hv⟩ := h _ hr
  cases hv

namespace EachRead

variable {P : List Visit → Key → Key → Key → Option String → Prop} {log : List Visit}

theorem nil : EachRead P [] := fun _ _ _ _ _ hs => nomatch List.suffix_nil.mp hs

theorem lines (h : EachRead P log) {new : List Visit}
    (hnew : ∀ v ∈ new, ∃ node text, v = .line node text) : EachRead P (new ++ log) := by
  intro n p reader found pre hs
  rcases suffix_append_cases hs with ⟨rest, hs, _⟩ | hs
  · exact absurd (hs.subset (.head _)) (read_not_mem_lines hnew)
  · exact h n p reader found pre hs

/-- The inputs of a statement are looked up after it was entered and before its lines. -/
theorem entered (h : EachRead P log) {R : Key → Key → Prop} {table : SymbolTable} {node : Key}
    {level : Int} {asked lines : List Visit} (hasked : ∀ v ∈ asked, v.Asks R table)
    (hlines : ∀ v ∈ lines, ∃ node text, v = .line node text)
    (hread : ∀ n p reader found, .read n p reader found ∈ asked → P log node n p found) :
    EachRead P ((lines ++ asked ++ [.statement node level]) ++ log) := by
  rw [List.append_assoc, List.append_assoc, List.singleton_append]
  refine EachRead.lines (fun n p reader found pre hs => ?_) hlines
  rcases suffix_append_cases hs with ⟨rest, hrest, rfl⟩ | hs
  · have hmid : ∀ v ∈ rest, v.Asks R table := fun v hv => hasked v (hrest.subset (.tail _ hv))
    exact ⟨rest, node, level, log, rfl, statements_asked hmid,
      hread n p reader found (hrest.subset (.head _))⟩
  · rcases List.suffix_cons_iff.mp hs with hs | hs
    · cases hs
    · exact h n p reader found pre hs

end EachRead

section

variable {c : Compilation} {entry : Key} {base log : List Visit}

theorem Sound.entered (h : Sound c entry log) {ws : List Connection} {s : Progress} {node : Key}
    {level : Int} {asked lines : List Visit} (hpath : c.graph.ExecPath entry node ws)
    (habove : ∀ w ∈ ws, w.sourceNode.Among (statements log))
    (hheld : Held c entry base (c.graph.bodies ws) log s)
    (hasked : ∀ v ∈ asked, v.Asks c.graph.IsLocal s.symbols)
    (hevent : c.graph.statement? node = some .openEvent → asked = [])
    (hlines : ∀ v ∈ lines, ∃ node text, v = .line node text) :
    Sound c entry ((lines ++ asked ++ [.statement node level]) ++ log) := by
  refine EachRead.entered h hasked hlines fun n p reader found hread => ?_
  obtain ⟨hlocal, hfound⟩ := hasked _ hread
  refine ⟨ws, s.symbols.issued, hpath, fun hst => ?_, habove, hlocal, fun name => ?_, hheld.settled⟩
  · rw [hevent hst] at hread
    cases hread
  · rw [hfound]
    exact hheld.table n p name

/-! ## Walks -/

def Task.blocks (g : Graph) (ws : List Connection) : Task → List Place
  | .body site pin _ => g.bodies ws ++ [placeOf site.node pin]
  | _ => g.bodies ws

/-- What holds after a task that answered: a body leaves the table as it was, any other task leaves
in scope what it brought there. -/
def Task.Ends (c : Compilation) (entry : Key) (base : List Visit) (ws : List Connection)
    (log : List Visit) (s s' : Progress) : Task → Prop
  | .body _ _ _ => Settled c log s'.symbols.issued ∧ s'.symbols.Issued ∧
    ∀ n p, s'.symbols.lookup n p = s.symbols.lookup n p
  | _ => Held c entry base (c.graph.bodies ws) log s'

/-- What is known of a task that was run after `log`. -/
structure Task.Reads (c : Compilation) (entry : Key) (base : List Visit) (ws : List Connection)
    (log new : List Visit) (s : Progress) (out : Outcome) (task : Task) : Prop where
  trail : out.2.trail = (new ++ log) ++ base
  sound : Sound c entry (new ++ log)
  dangling : ∀ node pin reader : Key, .read node pin reader none ∈ new →
    out.1 = .error (.compile (.danglingValue node pin reader))
  ends : ∀ lines, out.1 = .ok lines → task.Ends c entry base ws (new ++ log) s out.2

theorem Settled.lines {issued : List (Output × String)} (h : Settled c log issued)
    {new : List Visit} (hnew : ∀ v ∈ new, ∃ node text, v = .line node text) :
    Settled c (new ++ log) issued := by
  intro n st hn hst hheads
  rw [statements_lines hnew] at hn
  obtain ⟨form, hform, hline⟩ := h n st hn hst hheads
  exact ⟨form, hform, hline.mono (fun v hv => List.mem_append_right _ hv) rfl⟩

theorem Held.lines {bs : List Place} {s s' : Progress} (h : Held c entry base bs log s)
    {new : List Visit} (hnew : ∀ v ∈ new, ∃ node text, v = .line node text)
    (hsymbols : s'.symbols = s.symbols) (htrail : s'.trail = new ++ s.trail) :
    Held c entry base bs (new ++ log) s' where
  trail := by rw [htrail, h.trail, List.append_assoc]
  table := by
    rw [statements_lines hnew]
    unfold Scoped
    rw [hsymbols]
    exact h.table
  settled := hsymbols ▸ h.settled.lines hnew
  issued := hsymbols ▸ h.issued

/-! ## Openings and bodies -/

/-- What a line adds to the log. -/
theorem Site.written_lines (site : Site) (c : Compilation) (level : Int) (text : String)
    (p : Progress) : (site.written c level text p).2.symbols = p.symbols ∧
      ∃ new, (site.written c level text p).2.trail = new ++ p.trail ∧
        ∀ v ∈ new, ∃ node text, v = .line node text := by
  refine ⟨?_, site.written_within (lines_admits.forNode _) c level text p⟩
  unfold written
  split <;> rfl

theorem Site.commented_lines (site : Site) (c : Compilation) (comment : String) (out : Outcome) :
    (site.commented c comment out).2.symbols = out.2.symbols ∧
      ∃ new, (site.commented c comment out).2.trail = new ++ out.2.trail ∧
        ∀ v ∈ new, ∃ node text, v = .line node text := by
  refine ⟨?_, site.commented_within (lines_admits.forNode _) c comment out.1 out.2⟩
  unfold commented
  split
  · exact (site.written_lines c _ _ _).1
  · rfl

theorem Site.commented_error {site : Site} {c : Compilation} {comment : String} {out : Outcome}
    {e : Error} (h : out.1 = .error e) : (site.commented c comment out).1 = .error e := by
  rcases out with ⟨r, s⟩
  cases h
  rfl

/-- What is looked up between entering a node and its opening. -/
theorem Enters.asked (hg : Loaded c.graph) {node : Key} {level : Int} {path : List Key}
    {st : Statement} {s s₁ s₂ : Progress} {r : Except Error Opening}
    (enters : Enters c node level path st s s₁)
    (hgather : st.gather c (c.evaluate node) (.enter node level path) s₁ = (r, s₂)) :
    ∃ asked, s₂.trail = asked ++ .statement node level :: s.trail ∧ s₂.symbols = s.symbols ∧
      (∀ v ∈ asked, v.Asks c.graph.IsLocal s.symbols) ∧
      (∀ n p reader : Key, .read n p reader none ∈ asked →
        r = .error (.compile (.danglingValue n p reader))) ∧
      (c.graph.statement? node = some .openEvent → asked = []) := by
  obtain ⟨asked, ht, hs, hv, hd⟩ := Statement.gather_reads hg.toRepresented hg.asks enters.statement
    (.enter node level path) s₁
  rw [hgather] at ht hs hd
  rw [enters.trail] at ht
  rw [enters.symbols] at hs hv
  refine ⟨asked, ht, hs, hv, hd, fun hst => ?_⟩
  -- an event reads nothing
  cases enters.statement.symm.trans hst
  have hsame : s₂ = s₁ := by
    cases he : c.event? (Site.enter node level path).node <;>
      simp only [Statement.gather, he] at hgather <;> cases hgather <;> rfl
  rw [hsame, enters.trail] at ht
  exact (List.append_left_eq_self.mp ht.symm)

/-- A node is entered, and lookups for its inputs stand before the lines that it writes, if any. Only
a lookup that found nothing fails the node. -/
theorem Enters.reads (hg : Loaded c.graph) {node : Key} {level : Int} {path : List Key}
    {st : Statement} {s s₁ s₂ : Progress} {r : Except Error Opening} {ws : List Connection}
    (enters : Enters c node level path st s s₁)
    (hgather : st.gather c (c.evaluate node) (.enter node level path) s₁ = (r, s₂))
    (hready : (Task.chain node level path).Ready c entry ws (statements log))
    (hheld : Held c entry base (c.graph.bodies ws) log s) (hsound : Sound c entry log) :
    ∃ asked, s₂.trail = asked ++ .statement node level :: s.trail ∧ s₂.symbols = s.symbols ∧
      statements asked = [] ∧ ∀ lines, (∀ v ∈ lines, ∃ node text, v = .line node text) →
        Sound c entry ((lines ++ asked ++ [.statement node level]) ++ log) ∧
        ∀ n p reader : Key, .read n p reader none ∈ lines ++ asked ++ [.statement node level] →
          r = .error (.compile (.danglingValue n p reader)) := by
  obtain ⟨asked, ht, hs, hv, hd, hevent⟩ := enters.asked hg hgather
  obtain ⟨hpath, _⟩ := hready.stands enters.fresh
  refine ⟨asked, ht, hs, statements_asked hv, fun lines hlines => ⟨?_, fun n p reader hr => ?_⟩⟩
  · exact hsound.entered hpath hready.above hheld hv hevent hlines
  · rcases List.mem_append.mp hr with hr | hr
    · rcases List.mem_append.mp hr with hr | hr
      · exact absurd hr (read_not_mem_lines hlines)
      · exact hd n p reader hr
    · cases List.mem_singleton.mp hr

namespace Task.Reads

variable {ws : List Connection} {s s₁ : Progress} {out : Outcome} {task task' : Task}
  {new more : List Visit}

/-- A task that writes lines only looks nothing up. -/
theorem lines (hsound : Sound c entry log) (hnew : ∀ v ∈ new, ∃ node text, v = .line node text)
    (ht : out.2.trail = (new ++ log) ++ base)
    (hends : ∀ lines, out.1 = .ok lines → task.Ends c entry base ws (new ++ log) s out.2) :
    task.Reads c entry base ws log new s out where
  trail := ht
  sound := EachRead.lines hsound hnew
  dangling := fun _ _ _ hr => absurd hr (read_not_mem_lines hnew)
  ends := hends

theorem nothing (hsound : Sound c entry log) (ht : out.2.trail = log ++ base)
    (hends : ∀ lines, out.1 = .ok lines → task.Ends c entry base ws log s out.2) :
    task.Reads c entry base ws log [] s out :=
  lines hsound (fun _ hv => nomatch hv) ht hends

/-- A task goes on after lookups that all found something. -/
theorem after (h : task.Reads c entry base ws (new ++ log) more s₁ out)
    (hnew : ∀ n p reader : Key, .read n p reader none ∉ new)
    (hends : ∀ log s', task.Ends c entry base ws log s₁ s' → task'.Ends c entry base ws log s s')
    (lines : List String) : task'.Reads c entry base ws log (more ++ new) s (out.after lines) := by
  have hlog : (more ++ new) ++ log = more ++ (new ++ log) := List.append_assoc ..
  refine ⟨hlog ▸ h.trail, hlog ▸ h.sound, fun n p reader hr => ?_, fun lines' hl => ?_⟩
  · have hr := (List.mem_append.mp hr).resolve_right (hnew n p reader)
    rw [Outcome.after, h.dangling n p reader hr]
    rfl
  · obtain ⟨lines'', hl''⟩ := Outcome.after_ok hl
    rw [hlog]
    exact hends _ _ (h.ends lines'' hl'')

/-- A chain in a block of its own is a body, in which a comment stands for no lines. -/
theorem filled {site : Site} {pin comment : String} {target : Key} {level : Int} {path : List Key}
    {ws' : List Connection}
    (h : (Task.chain target level path).Reads c entry base ws' log new s.opened out) :
    ∃ new', (Task.body site pin comment).Reads c entry base ws log new' s
      (site.commented c comment (out.leave s)) := by
  obtain ⟨hs, more, htr, hlines⟩ := site.commented_lines c comment (out.leave s)
  have hlog : (more ++ new) ++ log = more ++ (new ++ log) := List.append_assoc ..
  have htrail : (out.leave s).2.trail = (new ++ log) ++ base := h.trail
  refine ⟨more ++ new, ?_, hlog ▸ EachRead.lines h.sound hlines, fun n p reader hr => ?_,
    fun lines hl => ?_⟩
  · rw [htr, htrail, hlog, List.append_assoc more]
  · have hr := (List.mem_append.mp hr).resolve_left (read_not_mem_lines hlines)
    exact Site.commented_error (h.dangling n p reader hr)
  · obtain ⟨lines', hl'⟩ := Site.commented_ok (out.leave s) hl
    have hends : Held c entry base (c.graph.bodies ws') (new ++ log) out.2 := h.ends lines' hl'
    rw [hlog, Ends, hs]
    exact ⟨hends.settled.lines hlines, hends.issued.congr rfl, fun _ _ => rfl⟩

end Task.Reads

/-- What a task visits are the statements that it notes. -/
theorem Runs.visits_new (hg : Loaded c.graph) {task : Task} {s : Progress} {out : Outcome}
    {ws : List Connection} {seen : List Key} {new : List Visit} (run : Runs c task s out)
    (hready : task.Ready c entry ws seen) (ht : s.trail = log ++ base)
    (ht' : out.2.trail = (new ++ log) ++ base) :
    task.Visits c.graph entry ws out.1 (statements new) := by
  obtain ⟨visited, hv, hvisits⟩ := run.visits hg hready.stands
  have hnew : statements new = visited := by
    rw [ht, ht', List.append_assoc, statements, List.filterMap_append] at hv
    exact List.append_cancel_right hv
  exact hnew ▸ hvisits

/-- The block of a body is closed: what was emitted in it is out of scope. -/
theorem Held.close (hg : Loaded c.graph) {site : Site} {pin comment : String}
    {ws : List Connection} {new : List Visit} {s s₁ s₂ s' : Progress} {r : Except Error (List String)}
    (hready : (Task.body site pin comment).Ready c entry ws (statements log))
    (h : Held c entry base (c.graph.bodies ws) log s)
    (hvisits : (Task.body site pin comment).Visits c.graph entry ws r (statements new))
    (hextends : s₁.Extends s₂) (hissued : s.symbols.issued = s₁.symbols.issued)
    (hends : (Task.body site pin comment).Ends c entry base ws (new ++ log) s₁ s₂)
    (hlookup : ∀ n p, s'.symbols.lookup n p = s.symbols.lookup n p)
    (hissued' : s'.symbols.issued = s₂.symbols.issued) (htrail : s'.trail = (new ++ log) ++ base) :
    Held c entry base (c.graph.bodies ws) (new ++ log) s' := by
  obtain ⟨hsettled, hi, _⟩ := hends
  refine ⟨htrail, ?_, hissued' ▸ hsettled, hi.congr hissued'⟩
  rw [statements_append]
  refine h.table.close hg hready.stands h.settled hready.fits hvisits.placed hlookup ?_
  rw [hissued, hissued']
  exact hextends.issued

theorem Runs.reads (hg : Loaded c.graph) (hnames : c.NamesParameters) {task : Task} {s : Progress}
    {out : Outcome} (run : Runs c task s out) : ∀ {ws log}, task.Ready c entry ws (statements log) →
      Held c entry base (task.blocks c.graph ws) log s → Sound c entry log →
      ∃ new, task.Reads c entry base ws log new s out := by
  induction run with
  | refused hs ht =>
    intro ws log _ hheld hsound
    exact ⟨[], .nothing hsound (ht.trans hheld.trail) fun _ h => nomatch h⟩
  | unread enters hgather =>
    intro ws log hready hheld hsound
    obtain ⟨asked, ht, _, _, hnoted⟩ := enters.reads hg hgather hready hheld hsound
    obtain ⟨hsound', hd⟩ := hnoted [] fun _ hv => nomatch hv
    refine ⟨_, ?_, hsound', fun n p reader hr => ?_, fun _ h => nomatch h⟩
    · simp [ht, hheld.trail]
    · exact congrArg _ (Except.error.inj (hd n p reader hr))
  | unopened enters hgather hp =>
    intro ws log hready hheld hsound
    obtain ⟨asked, ht, _, _, hnoted⟩ := enters.reads hg hgather hready hheld hsound
    obtain ⟨lines, hlt, hlines⟩ := Opening.perform_related lines_admits hp
    obtain ⟨hsound', hd⟩ := hnoted lines hlines
    refine ⟨_, ?_, hsound', fun n p reader hr => ?_, fun _ h => nomatch h⟩
    · simp [hlt, ht, hheld.trail]
    -- the inputs were had, so every lookup found something
    · cases hd n p reader hr
  | @entered node level path st s s₁ s₂ s₃ opening first out enters hgather hp run ih =>
    intro ws log hready hheld hsound
    obtain ⟨asked, ht, hs, hasked, hnoted⟩ := enters.reads hg hgather hready hheld hsound
    obtain ⟨hpath, _⟩ := hready.stands enters.fresh
    have hopens := Statement.gather_ok hgather
    obtain ⟨lines, hlines, hheld'⟩ := hheld.enter hg hnames hpath (hready.fresh.not_mem hpath)
      enters.statement hopens hs ht hasked hp
    obtain ⟨hsound', hd⟩ := hnoted lines hlines
    have hready' := hready.enter hg enters hopens
    rw [← statements_entered node level log hasked hlines] at hready'
    obtain ⟨more, hreads⟩ := ih hready' hheld' hsound'
    refine ⟨_, hreads.after (fun n p reader hr => ?_) (fun _ _ h => ?_) first⟩
    · cases hd n p reader hr
    · exact h
  | done =>
    intro ws log _ hheld hsound
    exact ⟨[], .nothing hsound hheld.trail fun _ _ => hheld⟩
  | stop _ ih =>
    intro ws log hready hheld hsound
    obtain ⟨new, hreads⟩ := ih hready.head hheld hsound
    exact ⟨new, hreads.trail, hreads.sound, hreads.dangling, fun _ h => nomatch h⟩
  | @next site part rest s s₁ lines out first run ihf ih =>
    intro ws log hready hheld hsound
    obtain ⟨new, hreads⟩ := ihf hready.head hheld hsound
    have hheld' : Held c entry base (c.graph.bodies ws) (new ++ log) s₁ := hreads.ends lines rfl
    have hvisits := first.visits_new hg hready.head hheld.trail hreads.trail
    have hready' := hready.tail hg hvisits
    rw [← statements_append] at hready'
    obtain ⟨more, hreads'⟩ := ih hready' hheld' hreads.sound
    refine ⟨_, hreads'.after (fun n p reader hr => ?_) (fun _ _ h => ?_) lines⟩
    · cases hreads.dangling n p reader hr
    · exact h
  | @line site text s =>
    intro ws log _ hheld hsound
    obtain ⟨hs, new, ht, hlines⟩ := site.written_lines c site.level text s
    have hheld' := hheld.lines hlines hs ht
    exact ⟨new, .lines hsound hlines hheld'.trail fun _ _ => hheld'⟩
  | idle =>
    intro ws log _ hheld hsound
    exact ⟨[], .nothing hsound hheld.trail fun _ _ => hheld⟩
  | @follow site target s out pin ht run ih =>
    intro ws log hready hheld hsound
    obtain ⟨w, _, hbodies, hready'⟩ := hready.follow hg ht
    have hheld' : Held c entry base (c.graph.bodies (ws ++ [w])) log s := by
      rw [hbodies]
      exact hheld
    obtain ⟨new, hreads⟩ := ih hready' hheld' hsound
    refine ⟨new, hreads.trail, hreads.sound, hreads.dangling, fun lines hl => ?_⟩
    have hends : Held c entry base (c.graph.bodies (ws ++ [w])) _ _ := hreads.ends lines hl
    rw [hbodies] at hends
    exact hends
  | @block site pin comment s out run ih =>
    intro ws log hready hheld hsound
    have hopen := hheld.table.openBranch hg hready.stands hready.fits hready.block.fresh
    obtain ⟨new, hreads⟩ := ih hready.block ⟨hheld.trail, hopen, hheld.settled, hheld.issued⟩ hsound
    refine ⟨new, hreads.trail, hreads.sound, hreads.dangling, fun lines hl => ?_⟩
    have hends := hreads.ends lines hl
    exact hheld.close hg hready.block (run.visits_new hg hready.block hheld.trail hreads.trail)
      (run.extends hg.toRepresented) rfl hends hends.2.2 rfl hreads.trail
  | @loop site index s out hi run ih =>
    intro ws log hready hheld hsound
    obtain ⟨hst, hindex⟩ := hready.fits
    have hbody : (Task.body site "loop" "-- loop body").Ready c entry ws (statements log) :=
      hready.loop
    have hopen := hheld.table.openLoop hg hready.stands hst hindex hbody.fresh
    obtain ⟨new, hreads⟩ := ih hbody ⟨hheld.trail, hopen, hheld.settled,
      hheld.issued.congr rfl⟩ hsound
    refine ⟨new, hreads.trail, hreads.sound, hreads.dangling, fun lines hl => ?_⟩
    have hvisits := run.visits_new hg hbody hheld.trail hreads.trail
    exact hheld.close hg hbody hvisits (run.extends hg.toRepresented) rfl
      (hreads.ends lines hl) (fun _ _ => rfl) rfl hreads.trail
  | @blank site comment s pin ht =>
    intro ws log _ hheld hsound
    obtain ⟨hs, new, htr, hlines⟩ := site.commented_lines c comment (.ok [], s)
    have hheld' := hheld.lines hlines hs htr
    refine ⟨new, .lines hsound hlines hheld'.trail fun _ _ => ?_⟩
    exact ⟨hheld'.settled, hheld'.issued, fun n p => by rw [hs]⟩
  | @filled site comment target s out pin ht run ih =>
    intro ws log hready hheld hsound
    obtain ⟨w, _, hbodies, hready'⟩ := hready.body hg ht
    have hheld' : Held c entry base (c.graph.bodies (ws ++ [w])) log s.opened := by
      rw [hbodies]
      exact ⟨hheld.trail, hheld.table, hheld.settled, hheld.issued.congr rfl⟩
    obtain ⟨new, hreads⟩ := ih hready' hheld' hsound
    exact hreads.filled

/-! ## Functions -/

inductive Idle (c : Compilation) : Progress → Prop
  | start : Idle c {}
  | entry {s : Progress} (node : Key) (level : Int) (h : Idle c s) : Idle c (c.entry node level s).2

/-- Between functions nothing is in scope. -/
theorem Idle.symbols (hg : Loaded c.graph) {s : Progress} (h : Idle c s) :
    s.symbols.top = [] ∧ s.symbols.outer = [] ∧ s.symbols.Issued := by
  induction h with
  | start => exact ⟨rfl, rfl, fun _ he => (nomatch he), fun _ he => (nomatch he), .nil⟩
  | entry node level _ ih =>
    obtain ⟨htop, houter, hissued⟩ := ih
    obtain ⟨out, run, hentry⟩ := c.entry_runs hg.toRepresented node level _
    rw [hentry]
    refine ⟨htop, houter, ?_⟩
    exact (run.issued hg.toRepresented (hissued.congr rfl)).congr rfl

theorem Held.start (hg : Loaded c.graph) {s : Progress} (h : Idle c s) :
    Held c entry s.trail [] [] s.opened := by
  obtain ⟨htop, houter, hissued⟩ := h.symbols hg
  have hnone (n p : Key) : s.opened.symbols.lookup n p = none := by
    change (SymbolTable.push s.symbols).lookup n p = none
    rw [SymbolTable.lookup_push, SymbolTable.lookup, htop, houter]
    rfl
  refine ⟨rfl, fun n p name => ?_, fun _ _ hn => (nomatch hn), hissued.congr rfl⟩
  rw [hnone]
  refine ⟨fun hx => (nomatch hx), fun hv => ?_⟩
  cases hv with
  | temporary _ hseen => cases hseen
  | index _ hbs => cases hbs
  | parameter _ hseen => cases hseen

/-- What a function notes, latest first. -/
theorem Compilation.entry_reads (hg : Loaded c.graph) (hnames : c.NamesParameters) {s : Progress}
    (hs : Idle c s) (entry : Key) (level : Int) : ∃ new,
      (c.entry entry level).log s = new.reverse ∧ Sound c entry new ∧
      ∀ node pin reader : Key, .read node pin reader none ∈ new →
        (c.entry entry level s).1 = .error (.compile (.danglingValue node pin reader)) := by
  obtain ⟨out, run, hentry⟩ := c.entry_runs hg.toRepresented entry level s
  obtain ⟨new, hreads⟩ := run.reads hg hnames (.start c entry level) (Held.start hg hs)
    .nil
  refine ⟨new, Emit.log_eq ?_, ?_, fun node pin reader hr => ?_⟩
  · rw [hentry]
    have := hreads.trail
    rw [List.append_nil] at this
    exact this
  · have := hreads.sound
    rwa [List.append_nil] at this
  · rw [hentry]
    exact hreads.dangling node pin reader hr

/-- The statement that was entered last is told by the log. -/
theorem statement_split_unique {mid mid' before before' : List Visit} {r r' : Key} {k k' : Int}
    (hmid : statements mid = []) (hmid' : statements mid' = [])
    (h : mid ++ .statement r k :: before = mid' ++ .statement r' k' :: before') :
    r = r' ∧ before = before' := by
  induction mid generalizing mid' with
  | nil =>
    cases mid' with
    | nil => cases h; exact ⟨rfl, rfl⟩
    | cons v rest => cases h; cases hmid'
  | cons v rest ih =>
    cases mid' with
    | nil => cases h; cases hmid
    | cons v' rest' =>
      have hcons {v : Visit} {l : List Visit} (h : statements (v :: l) = []) : statements l = [] :=
        List.filterMap_eq_nil_iff.mpr fun w hw => List.filterMap_eq_nil_iff.mp h w (.tail _ hw)
      exact ih (hcons hmid) (hcons hmid') (List.cons.inj h).2

/-- What holds of a lookup, found in a log that has the earliest visit first. -/
theorem EachRead.of_reverse {P : List Visit → Key → Key → Key → Option String → Prop}
    {before mid after : List Visit} {r n p reader : Key} {depth : Int} {found : Option String}
    (h : EachRead P log) (hlog : log.reverse =
      before ++ .statement r depth :: (mid ++ .read n p reader found :: after))
    (hmid : statements mid = []) : P before.reverse r n p found := by
  have hlist : log = after.reverse ++ .read n p reader found ::
      (mid.reverse ++ .statement r depth :: before.reverse) := by
    rw [← log.reverse_reverse, hlog]
    simp
  obtain ⟨mid', r', depth', before', hpre, hmid', hP⟩ :=
    h n p reader found _ ⟨after.reverse, hlist.symm⟩
  have hmidr : statements mid.reverse = [] := by
    rw [statements, List.filterMap_reverse]
    exact List.reverse_eq_nil_iff.mpr hmid
  obtain ⟨rfl, rfl⟩ := statement_split_unique hmidr hmid' hpre
  exact hP

end

end CartGraph
