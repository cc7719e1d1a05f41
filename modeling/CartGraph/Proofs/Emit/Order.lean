import CartGraph.Proofs.Emit.Runs
import Mathlib.Data.List.Nodup

/-! # The order of the walk

A walk from an entry node visits the nodes below it, each once, and when it answers it has visited
all of them in preorder. A node is visited below the connections that lead to it, and the parts of a
statement follow different exec outputs, so no node can be met by two of them. -/
namespace CartGraph

def Visit.statement? : Visit → Option Key
  | .statement node _ => some node
  | _ => none

def statements (log : List Visit) : List Key := log.filterMap Visit.statement?

def Visit.text? : Visit → Option String
  | .line _ text => some text
  | _ => none

def Part.pin? : Part → Option String
  | .line _ => none
  | .follow pin => some pin
  | .block pin _ => some pin
  | .loop _ => some "loop"

def Part.targets (g : Graph) (node : Key) (part : Part) : List Key :=
  part.pin?.toList.flatMap fun (pin : String) => g.execTargets node pin

def Task.roots (g : Graph) : Task → List Key
  | .chain node _ _ => [node]
  | .parts site ps => ps.flatMap (Part.targets g site.node)
  | .part site p => p.targets g site.node
  | .body site pin _ => g.execTargets site.node pin

/-! ## The parts of a statement -/

theorem Site.sequenceParts_pins (pins : List Pin) :
    (Site.sequenceParts pins).filterMap Part.pin? = pins.map Pin.id := by
  induction pins with
  | nil => rfl
  | cons pin rest ih =>
    simp only [sequenceParts, List.flatMap_cons, List.filterMap_append] at ih ⊢
    rw [ih]
    rfl

theorem Part.targets_eq (g : Graph) (node : Key) (parts : List Part) :
    parts.flatMap (Part.targets g node) =
      (parts.filterMap Part.pin?).flatMap fun (pin : String) => g.execTargets node pin := by
  induction parts with
  | nil => rfl
  | cons part rest ih =>
    rw [List.flatMap_cons, ih, List.filterMap_cons, Part.targets]
    cases part.pin? <;> simp

section

variable {c : Compilation} {site : Site} {st : Statement} {opening : Opening}

/-- The parts of a statement go on with the exec successors of its node. -/
theorem Opens.roots (hg : Loaded c.graph) (hst : c.graph.statement? site.node = some st)
    (ho : Opens c site st opening) :
    opening.parts.flatMap (Part.targets c.graph site.node) = c.graph.execSuccessors site.node := by
  cases ho with
  | sequence hps =>
    obtain ⟨hpins, _⟩ := hg.sequence_outputs hst hps
    rw [Part.targets_eq, Opening.parts, Site.sequenceParts_pins, Graph.execSuccessors, hpins,
      List.flatMap_map]
  | branch =>
    rw [hg.execSuccessors_eq hst (by decide)]
    simp only [Opening.parts, Site.branchParts]
    split
    · rename_i he
      have he := List.isEmpty_iff.mp he
      simp [Part.targets, Part.pin?, Statement.execOutputs, he]
    · simp [Part.targets, Part.pin?, Statement.execOutputs]
  | _ =>
    rw [hg.execSuccessors_eq hst (by simp)]
    simp [Opening.parts, Part.targets, Part.pin?, Statement.execOutputs]

theorem Opens.pins_nodup (hg : Loaded c.graph) (hst : c.graph.statement? site.node = some st)
    (ho : Opens c site st opening) : (opening.parts.filterMap Part.pin?).Nodup := by
  cases ho with
  | sequence hps =>
    obtain ⟨_, hn⟩ := hg.sequence_outputs hst hps
    rw [Opening.parts, Site.sequenceParts_pins]
    exact hn
  | branch =>
    simp only [Opening.parts, Site.branchParts]
    split <;> simp [Part.pin?, List.filterMap_cons]
  | _ => simp [Opening.parts, Part.pin?, List.filterMap_cons]

end

/-! ## Where tasks stand in the tree -/

section

variable (g : Graph) (entry : Key)

/-- A node that is not on the path yet is reached by the connections `ws`. -/
def Arrives (node : Key) (path : List Key) (ws : List Connection) : Prop :=
  node.canonical ∉ path → g.ExecPath entry node ws ∧ entry.canonical ∈ node.canonical :: path

structure Site.Stands (site : Site) (ws : List Connection) : Prop where
  path : g.ExecPath entry site.node ws
  entry_mem : entry.canonical ∈ site.path

def Task.Stands (ws : List Connection) : Task → Prop
  | .chain node _ path => Arrives g entry node path ws
  | .parts site ps => site.Stands g entry ws ∧ (ps.filterMap Part.pin?).Nodup
  | .part site _ => site.Stands g entry ws
  | .body site _ _ => site.Stands g entry ws

end

/-- A path goes on from a site by an exec output. -/
def Site.Leads (site : Site) (ws : List Connection) (pin : String) (path : List Connection) :
    Prop :=
  ∃ w us, w.source = placeOf site.node pin ∧ path = ws ++ w :: us

/-- The paths of the nodes that a task may visit. -/
def Task.Covers (ws : List Connection) (path : List Connection) : Task → Prop
  | .chain _ _ _ => ws <+: path
  | .parts site ps => ∃ pin ∈ ps.filterMap Part.pin?, site.Leads ws pin path
  | .part site p => ∃ pin ∈ p.pin?, site.Leads ws pin path
  | .body site pin _ => site.Leads ws pin path

/-- None of the nodes is one that the task may visit. -/
def Task.Fresh (g : Graph) (entry : Key) (ws : List Connection) (seen : List Key) (task : Task) :
    Prop :=
  ∀ m ∈ seen, ∀ path, g.ExecPath entry m path → ¬ task.Covers ws path

namespace Task.Fresh

variable {g : Graph} {entry : Key} {ws : List Connection} {site : Site} {seen : List Key}

/-- A node that a chain may visit is none of those that were seen. -/
theorem not_mem {node : Key} {level : Int} {path : List Key} (hpath : g.ExecPath entry node ws)
    (h : (Task.chain node level path).Fresh g entry ws seen) :
    node.canonical ∉ seen.map Key.canonical := by
  intro hm
  obtain ⟨m, hm, hk⟩ := List.mem_map.mp hm
  exact h m hm ws (hpath.congr hk.symm) List.prefix_rfl

/-- Nothing below a node is visited when it is entered. -/
theorem enter (hg : Loaded g) {node : Key} {level : Int} {path : List Key}
    (hpath : g.ExecPath entry node ws) (h : (Task.chain node level path).Fresh g entry ws seen)
    (parts : List Part) :
    (Task.parts (.enter node level path) parts).Fresh g entry ws (node :: seen) := by
  intro m hm p hp hc
  obtain ⟨_, _, w, us, _, rfl⟩ := hc
  rcases List.mem_cons.mp hm with rfl | hm
  · have := congrArg List.length (hpath.unique hg hp)
    simp at this
  · exact h m hm _ hp (List.prefix_append ..)

theorem head {part : Part} {rest : List Part}
    (h : (Task.parts site (part :: rest)).Fresh g entry ws seen) :
    (Task.part site part).Fresh g entry ws seen := by
  intro m hm path hp hc
  obtain ⟨pin, hpin, hl⟩ := hc
  exact h m hm path hp ⟨pin, List.mem_filterMap.mpr ⟨part, .head _, hpin⟩, hl⟩

/-- The rest of the parts meets no node that the first part visited. -/
theorem tail (hg : Loaded g) {part : Part} {rest : List Part} {first : List Key}
    (hpins : ((part :: rest).filterMap Part.pin?).Nodup)
    (h : (Task.parts site (part :: rest)).Fresh g entry ws seen)
    (hfirst : ∀ m ∈ first, ∃ path, g.ExecPath entry m path ∧ (Task.part site part).Covers ws path) :
    (Task.parts site rest).Fresh g entry ws (first ++ seen) := by
  intro m hm path hp hc
  obtain ⟨pin, hpin, hl⟩ := hc
  obtain ⟨q, hq, hqpin⟩ := List.mem_filterMap.mp hpin
  rcases List.mem_append.mp hm with hm | hm
  · obtain ⟨path', hp', pin', hpin', w', us', hw', rfl⟩ := hfirst m hm
    obtain ⟨w, us, hw, he⟩ := hl
    cases hp.unique hg hp'
    have hww := (List.cons.inj (List.append_cancel_left he)).1
    subst hww
    -- one connection can not leave two different outputs
    have hsame : pin' = pin := Key.text.inj (congrArg Prod.snd (hw'.symm.trans hw))
    rw [List.filterMap_cons_some hpin', hsame] at hpins
    exact (List.nodup_cons.mp hpins).1 hpin
  · exact h m hm path hp ⟨pin, List.mem_filterMap.mpr ⟨q, .tail _ hq, hqpin⟩, hl⟩

end Task.Fresh

/-- What is known of the nodes that a task visited, latest first. -/
structure Task.Visits (g : Graph) (entry : Key) (ws : List Connection) (task : Task)
    (r : Except Error (List String)) (visited : List Key) : Prop where
  placed : ∀ m ∈ visited, ∃ path, g.ExecPath entry m path ∧ task.Covers ws path
  distinct : ∀ seen, task.Fresh g entry ws seen → (seen.map Key.canonical).Nodup →
    ((visited ++ seen).map Key.canonical).Nodup
  preorder : ∀ lines, r = .ok lines → Preorder g.execSuccessors (task.roots g) visited.reverse

namespace Task.Visits

variable {g : Graph} {entry : Key} {ws : List Connection} {site : Site} {r : Except Error (List String)}
  {visited : List Key}

theorem nothing {task : Task} (h : ∀ lines, r = .ok lines → task.roots g = []) :
    task.Visits g entry ws r [] where
  placed _ hm := nomatch hm
  distinct _ _ hn := hn
  preorder lines hl := by rw [h lines hl]; exact .nil

/-- What a task visits, another task visits that covers the same paths. -/
theorem congr {task task' : Task} {ws' : List Connection} {r' : Except Error (List String)}
    (h : task.Visits g entry ws r visited)
    (hcovers : ∀ path, task.Covers ws path → task'.Covers ws' path)
    (hr : ∀ lines, r' = .ok lines → task.roots g = task'.roots g ∧ ∃ lines', r = .ok lines') :
    task'.Visits g entry ws' r' visited where
  placed m hm := by
    obtain ⟨path, hp, hc⟩ := h.placed m hm
    exact ⟨path, hp, hcovers path hc⟩
  distinct seen hf hn := h.distinct seen (fun m hm path hp hc => hf m hm path hp (hcovers path hc)) hn
  preorder lines hl := by
    obtain ⟨hroots, lines', hl'⟩ := hr lines hl
    exact hroots ▸ h.preorder lines' hl'

/-- A node is visited before what lies below it. -/
theorem enter (hg : Loaded g) {node : Key} {level : Int} {path : List Key} {parts : List Part}
    {r' : Except Error (List String)} (hpath : g.ExecPath entry node ws)
    (h : (Task.parts (.enter node level path) parts).Visits g entry ws r visited)
    (hr : ∀ lines, r' = .ok lines →
      parts.flatMap (Part.targets g node) = g.execSuccessors node ∧ ∃ lines', r = .ok lines') :
    (Task.chain node level path).Visits g entry ws r' (visited ++ [node]) where
  placed m hm := by
    rcases List.mem_append.mp hm with hm | hm
    · obtain ⟨p, hp, _, _, w, us, _, rfl⟩ := h.placed m hm
      exact ⟨_, hp, List.prefix_append ..⟩
    · rw [List.mem_singleton.mp hm]
      exact ⟨ws, hpath, List.prefix_rfl⟩
  distinct seen hf hn := by
    rw [List.append_assoc]
    refine h.distinct (node :: seen) (hf.enter hg hpath parts) ?_
    exact List.nodup_cons.mpr ⟨hf.not_mem hpath, hn⟩
  preorder lines hl := by
    obtain ⟨hroots, lines', hl'⟩ := hr lines hl
    have hbelow := h.preorder lines' hl'
    change Preorder _ (parts.flatMap (Part.targets g node)) _ at hbelow
    rw [hroots] at hbelow
    have hvisit := Preorder.visit hbelow Preorder.nil
    rw [List.append_nil] at hvisit
    rw [List.reverse_append, List.reverse_singleton, List.singleton_append]
    exact hvisit

theorem next (hg : Loaded g) {part : Part} {rest : List Part} {first : List Key}
    {lines : List String} {r' : Except Error (List String)}
    (hpins : ((part :: rest).filterMap Part.pin?).Nodup)
    (hfirst : (Task.part site part).Visits g entry ws (.ok lines) first)
    (h : (Task.parts site rest).Visits g entry ws r visited)
    (hr : ∀ lines, r' = .ok lines → ∃ lines', r = .ok lines') :
    (Task.parts site (part :: rest)).Visits g entry ws r' (visited ++ first) where
  placed m hm := by
    rcases List.mem_append.mp hm with hm | hm
    · obtain ⟨path, hp, pin, hpin, hl⟩ := h.placed m hm
      obtain ⟨q, hq, hqpin⟩ := List.mem_filterMap.mp hpin
      exact ⟨path, hp, pin, List.mem_filterMap.mpr ⟨q, .tail _ hq, hqpin⟩, hl⟩
    · obtain ⟨path, hp, pin, hpin, hl⟩ := hfirst.placed m hm
      exact ⟨path, hp, pin, List.mem_filterMap.mpr ⟨part, .head _, hpin⟩, hl⟩
  distinct seen hf hn := by
    rw [List.append_assoc]
    exact h.distinct (first ++ seen) (hf.tail hg hpins hfirst.placed) (hfirst.distinct seen hf.head hn)
  preorder lines' hl' := by
    obtain ⟨lines'', hl''⟩ := hr lines' hl'
    rw [List.reverse_append]
    exact (hfirst.preorder lines rfl).append (h.preorder lines'' hl'')

end Task.Visits

/-! ## Walks -/

theorem statements_quiet {R : Key → Key → Prop} {m : Emit α} (h : m.Quiet R) (s : Progress) :
    statements (m s).2.trail = statements s.trail := by
  obtain ⟨asked, ht, _, hv, _⟩ := h s
  have hnone : asked.filterMap Visit.statement? = [] := by
    refine List.filterMap_eq_nil_iff.mpr fun v hm => ?_
    cases v with
    | statement node level => exact (hv _ hm).elim
    | _ => rfl
  rw [ht, statements, List.filterMap_append, hnone]
  rfl

/-- Nothing that an opening does is a visit. -/
theorem statements_admits :
    Progress.Admits fun s s' => statements s'.trail = statements s.trail where
  refl _ := rfl
  trans h h' := h'.trans h
  line _ _ _ := rfl
  bound _ _ _ _ := rfl
  temp _ _ _ := rfl

theorem Site.Stands.hop {g : Graph} {entry : Key} {site : Site} {ws : List Connection}
    (hg : Loaded g) (h : site.Stands g entry ws) {pin : String} {target : Key}
    (ht : g.execTargets site.node pin = [target]) :
    ∃ w ∈ g.connections, w.isExec = true ∧ w.source = placeOf site.node pin ∧
      w.targetNode = target ∧ Arrives g entry target site.path (ws ++ [w]) := by
  have hm : target ∈ g.execTargets site.node pin := by rw [ht]; exact .head _
  obtain ⟨w, hw, hx, hs, rfl⟩ := hg.mem_execTargets.mp hm
  refine ⟨w, hw, hx, hs, rfl, fun hfresh => ?_⟩
  have hne : w.targetNode.canonical ≠ entry.canonical := fun he => hfresh (he ▸ h.entry_mem)
  exact ⟨.step h.path hw hx (congrArg Prod.fst hs) rfl hne, .tail _ h.entry_mem⟩

theorem Site.leads_of_initial {site : Site} {ws path : List Connection} {w : Connection}
    {pin : String} (hs : w.source = placeOf site.node pin) (h : ws ++ [w] <+: path) :
    site.Leads ws pin path := by
  obtain ⟨us, rfl⟩ := h
  exact ⟨w, us, hs, by simp⟩

theorem Runs.visits {c : Compilation} (hg : Loaded c.graph) {entry : Key} {task : Task}
    {s : Progress} {out : Outcome} (run : Runs c task s out) :
    ∀ {ws}, task.Stands c.graph entry ws → ∃ visited,
      statements out.2.trail = visited ++ statements s.trail ∧
      task.Visits c.graph entry ws out.1 visited := by
  have failed (task : Task) {ws} (e : Error) : task.Visits c.graph entry ws (.error e) [] :=
    .nothing fun _ h => nomatch h
  have opened {node level path st s s₁ r s₂} (enters : Enters c node level path st s s₁)
      (hgather : st.gather c (c.evaluate node) (.enter node level path) s₁ = (r, s₂)) :
      statements s₂.trail = node :: statements s.trail := by
    have hq := statements_quiet (Statement.gather_reads hg.toRepresented c.asks_any
      enters.statement (.enter node level path)) s₁
    rw [hgather] at hq
    rw [hq, enters.trail]
    rfl
  have performed {opening : Opening} {site s r s'} (hp : opening.perform c site s = (r, s')) :
      statements s'.trail = statements s.trail := Opening.perform_related statements_admits hp
  have alone {node level path e} {ws : List Connection} (hpath : c.graph.ExecPath entry node ws) :
      (Task.chain node level path).Visits c.graph entry ws (.error e) [node] :=
    .enter hg hpath (failed (.parts (.enter node level path) []) e) fun _ h => nomatch h
  induction run with
  | refused _ ht => exact fun _ => ⟨[], by rw [ht]; rfl, failed _ _⟩
  | unread enters hgather =>
    intro ws harrives
    exact ⟨[_], opened enters hgather, alone (harrives enters.fresh).1⟩
  | unopened enters hgather hp =>
    intro ws harrives
    exact ⟨[_], (performed hp).trans (opened enters hgather), alone (harrives enters.fresh).1⟩
  | @entered node level path st s s₁ s₂ s₃ opening lines out enters hgather hp run ih =>
    intro ws harrives
    obtain ⟨hpath, hentry⟩ := harrives enters.fresh
    have hopens := Statement.gather_ok hgather
    obtain ⟨visited, ht, hv⟩ := ih ⟨⟨hpath, hentry⟩, hopens.pins_nodup hg enters.statement⟩
    refine ⟨visited ++ [node], ?_, .enter hg hpath hv fun lines' hl => ?_⟩
    · rw [List.append_assoc]
      exact ht.trans (congrArg (visited ++ ·) ((performed hp).trans (opened enters hgather)))
    · exact ⟨hopens.roots hg enters.statement, Outcome.after_ok hl⟩
  | done => exact fun _ => ⟨[], rfl, .nothing fun _ _ => rfl⟩
  | @stop site part rest s s₁ e first ih =>
    intro ws hstands
    obtain ⟨visited, ht, hv⟩ := ih hstands.1
    refine ⟨visited, ht, hv.congr (fun path hc => ?_) fun _ h => nomatch h⟩
    obtain ⟨pin, hpin, hl⟩ := hc
    exact ⟨pin, List.mem_filterMap.mpr ⟨part, .head _, hpin⟩, hl⟩
  | @next site part rest s s₁ lines out first run ihf ih =>
    intro ws hstands
    obtain ⟨hsite, hpins⟩ := hstands
    have hrest : (rest.filterMap Part.pin?).Nodup := by
      refine hpins.sublist ?_
      exact (List.sublist_cons_self part rest).filterMap Part.pin?
    obtain ⟨firsts, htf, hvf⟩ := ihf hsite
    obtain ⟨visited, ht, hv⟩ := ih ⟨hsite, hrest⟩
    refine ⟨visited ++ firsts, ?_, .next hg hpins hvf hv fun _ hl => Outcome.after_ok hl⟩
    rw [List.append_assoc, ← htf]
    exact ht
  | line =>
    exact fun _ => ⟨[], Site.written_within _ (statements_admits.forNode _) ..,
      .nothing fun _ _ => rfl⟩
  | @idle site s pin ht =>
    intro ws _
    refine ⟨[], rfl, .nothing fun _ _ => ?_⟩
    simpa [Task.roots, Part.targets, Part.pin?] using ht
  | @follow site target s out pin ht run ih =>
    intro ws hstands
    obtain ⟨w, _, _, hs, _, harrives⟩ := hstands.hop hg ht
    obtain ⟨visited, htr, hv⟩ := ih harrives
    refine ⟨visited, htr, hv.congr (fun path hc => ⟨pin, rfl, Site.leads_of_initial hs hc⟩)
      fun lines hl => ⟨?_, lines, hl⟩⟩
    simp [Task.roots, Part.targets, Part.pin?, ht]
  | @block site pin comment s out run ih =>
    intro ws hstands
    obtain ⟨visited, htr, hv⟩ := ih hstands
    refine ⟨visited, htr, hv.congr (fun path hc => ⟨pin, rfl, hc⟩) fun lines hl => ⟨?_, lines, hl⟩⟩
    simp [Task.roots, Part.targets, Part.pin?]
  | @loop site index s out hi run ih =>
    intro ws hstands
    obtain ⟨visited, htr, hv⟩ := ih hstands
    refine ⟨visited, htr, hv.congr (fun path hc => ⟨"loop", rfl, hc⟩) fun lines hl => ⟨?_, lines, hl⟩⟩
    simp [Task.roots, Part.targets, Part.pin?]
  | blank ht =>
    exact fun _ => ⟨[], Site.commented_within _ (statements_admits.forNode _) ..,
      .nothing fun _ _ => ht⟩
  | @filled site comment target s out pin ht run ih =>
    intro ws hstands
    obtain ⟨w, _, _, hs, _, harrives⟩ := hstands.hop hg ht
    obtain ⟨visited, htr, hv⟩ := ih harrives
    refine ⟨visited, (Site.commented_within _ (statements_admits.forNode _) ..).trans htr,
      hv.congr (fun path hc => Site.leads_of_initial hs hc) fun lines hl => ⟨?_, ?_⟩⟩
    · simp [Task.roots, ht]
    · exact Site.commented_ok (out.leave s) hl

def Emit.log (m : Emit α) (s : Progress) : List Visit :=
  ((m s).2.trail.take ((m s).2.trail.length - s.trail.length)).reverse

theorem Emit.log_eq {m : Emit α} {s : Progress} {new : List Visit}
    (h : (m s).2.trail = new ++ s.trail) : m.log s = new.reverse := by
  unfold log
  rw [h, List.length_append, Nat.add_sub_cancel, List.take_left]

/-- What a function visits. -/
theorem Compilation.entry_visits {c : Compilation} (hg : Loaded c.graph) (entry : Key) (level : Int)
    (s : Progress) : (Task.chain entry level []).Visits c.graph entry [] (c.entry entry level s).1
      (statements ((c.entry entry level).log s)).reverse := by
  obtain ⟨out, run, hentry⟩ := c.entry_runs hg.toRepresented entry level s
  have harrives : Arrives c.graph entry entry [] [] := fun _ => ⟨.start rfl, .head _⟩
  obtain ⟨visited, ht, hv⟩ := run.visits hg harrives
  obtain ⟨new, hnew⟩ := (run.extends hg.toRepresented).trail
  have hlog : (c.entry entry level).log s = new.reverse := by
    refine Emit.log_eq ?_
    rw [hentry]
    exact hnew.symm
  have hvisited : new.filterMap Visit.statement? = visited := by
    rw [← hnew, statements, List.filterMap_append] at ht
    exact List.append_cancel_right ht
  rw [hlog, statements, List.filterMap_reverse, List.reverse_reverse, hentry, hvisited]
  exact hv

/-- A function that is emitted visits the exec tree below its entry node in preorder: the nodes that
exec connections reach, each once. -/
theorem entry_preorder {document : Value} {g : Graph}
    (hload : Graph.load document Library.catalogue = .ok g) {c : Compilation} (hc : c.graph = g)
    {entry : Key} {level : Int} {s s' : Progress} {lines : List String}
    (hrun : c.entry entry level s = (.ok lines, s')) :
    let order := statements ((c.entry entry level).log s)
    Preorder g.execSuccessors [entry] order ∧ (order.map Key.canonical).Nodup ∧
      ∀ k, k ∈ order.map Key.canonical ↔ Relation.ReflTransGen g.ExecStep entry.canonical k := by
  subst hc
  have hg := Loaded.of_load hload
  have hv := c.entry_visits hg entry level s
  have hpre := hv.preorder lines (by rw [hrun])
  rw [List.reverse_reverse] at hpre
  refine ⟨hpre, ?_, fun k => ?_⟩
  · have hn := hv.distinct [] (fun _ hm => nomatch hm) List.nodup_nil
    rw [List.append_nil, List.map_reverse] at hn
    exact List.nodup_reverse.mp hn
  · rw [← hg.reaches_iff, List.mem_map]
    constructor
    · rintro ⟨m, hm, hk⟩
      obtain ⟨r, hr, hreach⟩ := (hpre.mem_iff m).mp hm
      rw [List.mem_singleton.mp hr] at hreach
      exact ⟨m, hk, hreach⟩
    · rintro ⟨m, hk, hreach⟩
      exact ⟨m, (hpre.mem_iff m).mpr ⟨entry, .head _, hreach⟩, hk⟩

/-- A sequence whose first branch has a condition with a loop in it. -/
def nestedDocument : Value := Graph.outline
  [("start", "event_start", []), ("seq", "sequence", []), ("cond", "if", []),
    ("loop", "for_loop", []), ("inner", "print", []), ("last", "print", []), ("after", "print", [])]
  [("start", "exec_out", "seq", "exec_in"), ("seq", "c", "after", "exec_in"),
    ("loop", "completed", "last", "exec_in"), ("loop", "loop", "inner", "exec_in"),
    ("cond", "else", "loop", "exec_in"), ("seq", "a", "cond", "exec_in")]

theorem entry_preorder_nested : ∃ g lines s',
    Graph.load nestedDocument Library.catalogue = .ok g ∧
    Compilation.entry { graph := g } "start" 1 {} = (.ok lines, s') ∧
    statements ((Compilation.entry { graph := g } "start" 1).log {}) =
      ["start", "seq", "cond", "loop", "inner", "last", "after"] ∧
    Preorder g.execSuccessors ["start"]
      (statements ((Compilation.entry { graph := g } "start" 1).log {})) := by
  have heval : ((Graph.load nestedDocument Library.catalogue).toOption.any fun g =>
      (Compilation.entry { graph := g } "start" 1 {}).1.isOk &&
        statements ((Compilation.entry { graph := g } "start" 1).log {}) ==
          ["start", "seq", "cond", "loop", "inner", "last", "after"]) = true := by
    decide +kernel
  obtain ⟨g, hload, heval⟩ := exists_ok_of_any heval
  obtain ⟨hok, horder⟩ := Bool.and_eq_true_iff.mp heval
  rcases hrun : Compilation.entry { graph := g } "start" 1 {} with ⟨e | lines, s'⟩
  · rw [hrun] at hok; cases hok
  · exact ⟨g, lines, s', hload, hrun, eq_of_beq horder, (entry_preorder hload rfl hrun).1⟩

end CartGraph
