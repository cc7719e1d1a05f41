import CartGraph.Proofs.Emit.Failures
import CartGraph.Proofs.Emit.Order

/-! # Cycles of exec connections

The walk refuses a node that it has come by already. An exec input has one predecessor, so the first
node that a way comes back to is the one that it started from: a cycle that is reported goes through
the entry node and is told of it, and a function whose entry node lies on a cycle is never
emitted. -/
namespace CartGraph

namespace Graph

variable {g : Graph} {entry n : Key} {path : List Key} {ws : List Connection}

def OnExecCycle (g : Graph) (n : Key) : Prop :=
  Relation.TransGen g.ExecStep n.canonical n.canonical

theorem ExecPath.reaches (h : g.ExecPath entry n ws) :
    Relation.ReflTransGen g.ExecStep entry.canonical n.canonical := by
  induction h with
  | start hn => rw [hn]
  | step _ hw hx hs ht _ ih => exact ih.tail ⟨_, hw, hx, hs, ht⟩

/-- How the walk came to a node, which ends the path: every node on the way is the entry, or was
entered by a connection of the way. -/
structure Tracks (g : Graph) (entry n : Key) (path : List Key) (ws : List Connection) : Prop where
  way : g.ExecPath entry n ws
  entry_mem : entry.canonical ∈ path
  entered : ∀ k ∈ path, k = entry.canonical ∨ ∃ w ∈ ws, w.targetNode.canonical = k

/-- The walk is about to enter a node, after the nodes of a path: for the first time, or the entry
again. -/
structure Comes (g : Graph) (entry n : Key) (path : List Key) : Prop where
  again : n.canonical ∈ path → n.canonical = entry.canonical ∧ g.OnExecCycle entry
  first : n.canonical ∉ path → ∃ ws, g.Tracks entry n (n.canonical :: path) ws

theorem Comes.start (g : Graph) (entry : Key) : g.Comes entry entry [] where
  again h := nomatch h
  first _ := ⟨[], .start rfl, .head _, fun _ hk => .inl (List.mem_singleton.mp hk)⟩

theorem Tracks.comes (hg : Loaded g) (h : g.Tracks entry n path ws) {pin target : Key}
    (ht : target ∈ g.execTargets n pin) : g.Comes entry target path := by
  obtain ⟨w, hw, hx, hs, rfl⟩ := hg.mem_execTargets.mp ht
  have hsource : w.sourceNode.canonical = n.canonical := congrArg Prod.fst hs
  constructor
  · intro hagain
    rcases h.entered _ hagain with hentry | ⟨v, hv, hvt⟩
    · refine ⟨hentry, .tail' h.way.reaches ?_⟩
      exact ⟨w, hw, hx, hsource, hentry⟩
    · -- the connection that entered the node before is the one that leaves the end of the way
      obtain ⟨hvm, hvx⟩ := h.way.mem hv
      cases hg.exec_unique hvm hw hvx hx hvt
      exact absurd hsource (h.way.not_leaving hg hv)
  · intro hnew
    have hne : w.targetNode.canonical ≠ entry.canonical := fun he => hnew (he ▸ h.entry_mem)
    refine ⟨ws ++ [w], .step h.way hw hx hsource rfl hne, .tail _ h.entry_mem, fun k hk => ?_⟩
    rcases List.mem_cons.mp hk with rfl | hk
    · exact .inr ⟨w, by simp, rfl⟩
    · rcases h.entered k hk with hk | ⟨v, hv, hvt⟩
      · exact .inl hk
      · exact .inr ⟨v, by simp [hv], hvt⟩

end Graph

/-! ## Failures of chains -/

section

variable {c : Compilation} {P : Error → Prop} (hline : ∀ e, c.settings.Unusable e → P e)
include hline

theorem Site.lineAt_raises (s : Site) (level : Int) (text : String) :
    (s.lineAt c level text).Raises P := by
  refine (Emit.Raises.lift fun e he => ?_).bind fun _ => (Emit.Raises.record _).bind fun _ => .pure _
  exact hline e (Settings.width_error (map_error (map_error he)))

theorem Opening.perform_raises (opening : Opening) (s : Site) : (opening.perform c s).Raises P := by
  have parameters (ps : List Parameter) : (s.bindParameters ps).Raises P := by
    induction ps with
    | nil => exact .pure _
    | cons p ps ih => exact (Emit.Raises.bindOutput _ _ _).bind fun _ => ih
  cases opening with
  | silent parts => exact .pure _
  | parameters ps => exact (parameters ps).bind fun _ => .pure _
  | line text parts => exact (s.lineAt_raises hline _ _).bind fun _ => .pure _
  | resume call =>
    exact (Emit.Raises.withSymbols _).bind fun _ => (Emit.Raises.bindOutput _ _ _).bind fun _ =>
      (Emit.Raises.withSymbols _).bind fun _ => (Emit.Raises.bindOutput _ _ _).bind fun _ =>
      (s.lineAt_raises hline _ _).bind fun _ => .pure _

variable (hr : Represented c.graph) {chain : Chain}
  (hruns : ∀ node level path s, Runs c (.chain node level path) s (chain node level path s))
  {s : Site}
  (hchain : ∀ (pin target : Key) (level : Int), target ∈ c.graph.execTargets s.node pin →
    (chain target level s.path).Raises P)
include hr hruns hchain

omit hline in
theorem Site.branchAt_raises (pin : Key) (level : Int) :
    (s.branchAt c chain pin level s.path).Raises P := by
  unfold branchAt
  rcases hr.execTargets_cases s.node pin with ht | ⟨target, ht⟩
  · rw [ht]
    exact .pure _
  · have htarget := hchain pin target level (by rw [ht]; exact .head _)
    have hall : chain.all level s.path [target] = chain target level s.path := by simp [Chain.all]
    rw [ht]
    dsimp only
    rw [hall]
    split
    · exact htarget.inBlock fun p => (hruns target level s.path p).extends hr
    · exact htarget

theorem Site.body_raises (pin comment : String) : (s.body c chain pin comment).Raises P := by
  refine (s.branchAt_raises hr hruns hchain pin _).bind fun lines => ?_
  split
  · exact (s.lineAt_raises hline _ _).bind fun _ => .pure _
  · exact .pure _

theorem Part.emit_raises (part : Part) : (part.emit c chain s).Raises P := by
  cases part with
  | line text => exact (s.lineAt_raises hline _ _).bind fun _ => .pure _
  | follow pin => exact s.branchAt_raises hr hruns hchain pin _
  | block pin comment => exact s.body_raises hline hr hruns hchain pin comment
  | loop index =>
    refine Emit.Raises.inBlock ?_ ?_
    · exact (Emit.Raises.bindOutput _ _ _).bind fun _ => s.body_raises hline hr hruns hchain _ _
    · exact Emit.bind_within (Progress.Extends.follows.toAdmits.forNode s.node)
        (Emit.bindOutput_within (Progress.Extends.follows.toAdmits.forNode _) _ _) fun _ p =>
          (s.body_runs hr hruns _ _ p).extends hr

theorem Part.emitAll_raises (parts : List Part) : (Part.emitAll c chain s parts).Raises P := by
  induction parts with
  | nil => exact .pure _
  | cons part rest ih =>
    exact (Part.emit_raises hline hr hruns hchain part).bind fun _ => ih.bind fun _ => .pure _

end

inductive Compilation.WalkFaults (c : Compilation) (entry : Key) : Error → Prop
  | read {e : Error} {node : Key} (h : c.SiteFaults node e) : WalkFaults c entry e
  | cycle {node : Key} (hn : node.canonical = entry.canonical) (hc : c.graph.OnExecCycle entry) :
    WalkFaults c entry (.compile (.cycle node "exec"))

theorem Compilation.WalkFaults.fault {c : Compilation} {entry : Key} {e : Error} (h : c.Faults e) :
    c.WalkFaults entry e := @read c entry e entry (.read h)

theorem Compilation.chainWithin_raises {c : Compilation} (hg : Loaded c.graph) {entry node : Key}
    {steps : Nat} {path : List Key} (h : c.Suffices steps path)
    (hn : c.graph.hasNode node = true) (hcomes : c.graph.Comes entry node path) (level : Int) :
    (c.chainWithin steps node level path).Raises (c.WalkFaults entry) := by
  have hr := hg.toRepresented
  induction steps generalizing node path level with
  | zero => exact h.ne_zero.elim
  | succ steps ih =>
    rw [chainWithin_succ]
    unfold chainStep chainCall
    by_cases hp : path.contains node.canonical = true
    · rw [if_pos hp]
      obtain ⟨hentry, hcycle⟩ := hcomes.again (by simpa using hp)
      exact .fail_bind (.cycle hentry hcycle) _
    rw [if_neg hp]
    have hnew : node.canonical ∉ path := by simpa using hp
    obtain ⟨ws, htracks⟩ := hcomes.first hnew
    refine ((checkDepth_raises _ hn).mono fun _ h => .fault h).bind fun _ =>
      ((tick_raises hn).mono fun _ h => .fault h).bind fun _ =>
      (Emit.Raises.lift fun _ he => .fault (typeOf_error hn he)).bind_of fun _ t _ ht => ?_
    have ht := (Emit.lift_ok ht).1
    cases hst : t.statement? with
    | none => exact .fail (.fault (.plain hn rfl fun _ _ h => by cases h))
    | some st =>
      have hst := (Graph.statement?_of_type ht).trans hst
      refine (Emit.Raises.record _).bind fun _ => ?_
      rw [Statement.emit_eq _ _ _ hr]
      refine ((st.gather_raises hr (c.evaluate_faults hr node) hst).mono fun _ => .read).bind
        fun opening => ?_
      refine (opening.perform_raises (fun _ he => .fault (.setting he)) _).bind fun _ => ?_
      refine Emit.Raises.bind ?_ fun _ => .pure _
      refine Part.emitAll_raises (fun _ he => .fault (.setting he)) hr
        (c.chainWithin_runs hr steps) (fun pin target level htarget => ?_) opening.parts
      have hhas : c.graph.hasNode target = true := by
        obtain ⟨w, hw, _, _, rfl⟩ := hg.mem_execTargets.mp htarget
        exact (hr.ends w hw).2.1
      exact ih (h.step hn hnew) hhas (htracks.comes hg htarget) level

theorem Compilation.entry_raises {c : Compilation} (hg : Loaded c.graph) {entry : Key}
    (hn : c.graph.hasNode entry = true) (level : Int) :
    (c.entry entry level).Raises (c.WalkFaults entry) :=
  (chainWithin_raises hg (.start c) hn (.start _ entry) level).inBlock fun s =>
    (c.chainWithin_runs hg.toRepresented c.reach entry level [] s).extends hg.toRepresented

/-! ## What is reported -/

def reportedCycle? {α : Type} : Except Error α → Option String
  | .ok _ => none
  | .error (.compile (.cycle _ relation)) => some relation
  | .error _ => none

theorem exists_of_reportedCycle? {α : Type} {r : Except Error α} {relation : String}
    (h : reportedCycle? r = some relation) : ∃ n, r = .error (.compile (.cycle n relation)) := by
  unfold reportedCycle? at h
  split at h
  · cases h
  · cases h
    exact ⟨_, rfl⟩
  · cases h

/-- A function that is emitted meets its entry node once, so nothing leads back to it. -/
theorem Compilation.not_onExecCycle {c : Compilation} (hg : Loaded c.graph) {entry : Key}
    {level : Int} {s : Progress} {lines : List String} (h : (c.entry entry level s).1 = .ok lines) :
    ¬ c.graph.OnExecCycle entry := by
  intro hcycle
  have hv := c.entry_visits hg entry level s
  have hpre := hv.preorder lines h
  have hnodup := hv.distinct [] (fun _ hm => nomatch hm) List.nodup_nil
  rw [List.append_nil, List.map_reverse, List.nodup_reverse] at hnodup
  rw [List.reverse_reverse] at hpre
  obtain ⟨b, ⟨w, hw, hx, hsource, rfl⟩, hback⟩ := Relation.TransGen.head'_iff.mp hcycle
  obtain ⟨m, hm, hreach⟩ := hg.reaches_iff.mpr hback
  have hnext : w.targetNode ∈ c.graph.execSuccessors entry :=
    hg.mem_execSuccessors.mpr ⟨w, hw, hx, hsource, rfl⟩
  generalize statements ((c.entry entry level).log s) = order at hpre hnodup
  cases hpre with
  | visit below beside =>
    have hinner := (below.mem_iff m).mpr ⟨_, hnext, hreach⟩
    rw [List.cons_append, List.map_cons, List.nodup_cons, ← hm] at hnodup
    exact hnodup.1 (List.mem_map_of_mem (List.mem_append_left _ hinner))

/-- The types of nodes that only start functions. -/
def Library.events : List NodeType := [eventStart, eventUpdate, eventDraw, customEvent]

theorem Library.events_inputs : ∀ t ∈ events, t.definition.inputs = [] := by
  simp [events, eventStart, eventUpdate, eventDraw, lifecycle, customEvent]

/-- Nothing leads to a node that has no inputs. -/
theorem Loaded.not_onExecCycle_of_inputs {g : Graph} (hg : Loaded g) {n : Key} {t : NodeType}
    (ht : g.typeOf n = .ok t) (hi : t.definition.inputs = []) : ¬ g.OnExecCycle n := by
  intro hcycle
  obtain ⟨_, _, w, hw, hx, _, htarget⟩ := Relation.TransGen.tail'_iff.mp hcycle
  obtain ⟨t', _, ht', p, hp, _⟩ := hg.exec_target hw hx
  cases ht.symm.trans ((Graph.typeOf_congr htarget).mp ht')
  rw [hi] at hp
  cases hp

/-- A cycle of exec connections that is reported is told of the entry node, which lies on one; a
function whose entry node lies on a cycle is not emitted; and for events no cycle is ever
reported. -/
theorem entry_exec_cycle {document : Value} {g : Graph}
    (hload : Graph.load document Library.catalogue = .ok g) {c : Compilation} (hc : c.graph = g)
    {entry : Key} (hentry : g.hasNode entry = true) (level : Int) (s : Progress) :
    (∀ n, (c.entry entry level s).1 = .error (.compile (.cycle n "exec")) →
      (∃ k : Key, n = k ∧ k.alike entry = true) ∧ g.OnExecCycle entry) ∧
    (g.OnExecCycle entry → ∀ lines, (c.entry entry level s).1 ≠ .ok lines) ∧
    ∀ t ∈ Library.events, g.typeOf entry = .ok t →
      ∀ n, (c.entry entry level s).1 ≠ .error (.compile (.cycle n "exec")) := by
  subst hc
  have hg := Loaded.of_load hload
  have reported (n : Value) (h : (c.entry entry level s).1 = .error (.compile (.cycle n "exec"))) :
      (∃ k : Key, n = k ∧ k.alike entry = true) ∧ c.graph.OnExecCycle entry := by
    cases c.entry_raises hg hentry level s _ h with
    | read hsite =>
      cases hsite with
      | read hfault =>
        cases hfault with
        | node _ _ hx => exact absurd rfl (hx n)
        | setting hs => exact absurd rfl (hs.ne_compile _)
    | @cycle node hn hcycle => exact ⟨⟨node, rfl, by simpa using hn⟩, hcycle⟩
  refine ⟨reported, fun hcycle lines h => c.not_onExecCycle hg h hcycle, fun t ht htype n h => ?_⟩
  exact hg.not_onExecCycle_of_inputs htype (Library.events_inputs t ht) (reported n h).2

def mutualDocument : Value := Graph.outline
  [("a", "print", []), ("b", "if", [])]
  [("a", "exec_out", "b", "exec_in"), ("b", "else", "a", "exec_in")]

theorem entry_exec_cycle_mutual : ∃ g n,
    Graph.load mutualDocument Library.catalogue = .ok g ∧
    (Compilation.entry { graph := g } "a" 1 {}).1 = .error (.compile (.cycle n "exec")) ∧
    (∃ k : Key, n = k ∧ k.alike "a" = true) ∧ g.OnExecCycle "a" := by
  have heval : ((Graph.load mutualDocument Library.catalogue).toOption.any fun g =>
      g.hasNode "a" && match (Compilation.entry { graph := g } "a" 1 {}).1 with
        | .error (.compile (.cycle _ kind)) => kind == "exec"
        | _ => false) = true := by
    decide +kernel
  obtain ⟨g, hload, heval⟩ := exists_ok_of_any heval
  obtain ⟨hnode, heval⟩ := Bool.and_eq_true_iff.mp heval
  split at heval
  · rename_i n kind hrun
    cases eq_of_beq heval
    obtain ⟨hentry, hcycle⟩ := (entry_exec_cycle hload rfl hnode 1 {}).1 n hrun
    exact ⟨g, n, hload, hrun, hentry, hcycle⟩
  · cases heval

end CartGraph
