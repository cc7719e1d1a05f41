import CartGraph.Proofs.Graph.Loaded
import Mathlib.Logic.Relation

/-! # The exec tree below a node

Exec connections leave a node by its exec outputs, and at most one enters a node. So what lies below
a node is a tree, except that the node itself may be entered from below: a path that stops short of
that is unique. -/
namespace CartGraph

namespace Graph

theorem pinsOf_congr {g : Graph} {a b : Key} (h : a.canonical = b.canonical) {ps : PinSet}
    (hps : g.pinsOf a = .ok ps) : g.pinsOf b = .ok ps := by
  obtain ⟨t, ht, hps⟩ := bind_ok hps
  obtain ⟨n, hn, hps⟩ := bind_ok hps
  unfold pinsOf
  rw [(typeOf_congr h).mp ht, node_ok_iff.mpr (node?_congr h ▸ node_ok_iff.mp hn)]
  exact hps

/-- The exec outputs of a node in the order of its pins. A node whose pins can not be told has
none. -/
def execPins (g : Graph) (node : Key) : List Pin :=
  match g.pinsOf node with
  | .ok ps => ps.outputs.filter Pin.isExec
  | .error _ => []

def execSuccessors (g : Graph) (node : Key) : List Key :=
  (g.execPins node).flatMap fun p => g.execTargets node p.id

/-- An exec connection leads from one node to another. Nodes are in canonical form. -/
def ExecStep (g : Graph) (a b : Key) : Prop :=
  ∃ w ∈ g.connections, w.isExec = true ∧ w.sourceNode.canonical = a ∧ w.targetNode.canonical = b

/-- The exec connections on the way from an entry node to a node, without coming back to the
entry. -/
inductive ExecPath (g : Graph) (entry : Key) : Key → List Connection → Prop
  | start {n} (h : n.canonical = entry.canonical) : ExecPath g entry n []
  | step {m n ws w} (path : ExecPath g entry m ws) (hw : w ∈ g.connections)
      (hx : w.isExec = true) (hs : w.sourceNode.canonical = m.canonical)
      (ht : w.targetNode.canonical = n.canonical) (hne : n.canonical ≠ entry.canonical) :
      ExecPath g entry n (ws ++ [w])

def statement? (g : Graph) (node : Key) : Option Statement :=
  match g.typeOf node with
  | .ok t => t.statement?
  | .error _ => none

theorem statement?_congr {g : Graph} {a b : Key} (h : a.canonical = b.canonical) :
    g.statement? a = g.statement? b := by
  have hab := @typeOf_congr g a b h
  unfold statement?
  cases ha : g.typeOf a with
  | ok t => rw [hab.mp ha]
  | error e =>
    cases hb : g.typeOf b with
    | ok t => cases ha.symm.trans (hab.mpr hb)
    | error e => rfl

theorem statement?_of_type {g : Graph} {node : Key} {t : NodeType} (h : g.typeOf node = .ok t) :
    g.statement? node = t.statement? := by
  unfold statement?
  rw [h]

/-- Whether what lies behind a connection stands in a block of its own: a branch of a condition or
the body of a loop. -/
def opensBody (g : Graph) (w : Connection) : Bool :=
  match g.statement? w.sourceNode with
  | some .branch => true
  | some .loop => w.sourcePin.alike "loop"
  | _ => false

end Graph

/-- The nodes of a forest in the order in which a walk from the roots meets them first. -/
inductive Preorder (next : Key → List Key) : List Key → List Key → Prop
  | nil : Preorder next [] []
  | visit {n inner rest after} (below : Preorder next (next n) inner)
      (beside : Preorder next rest after) : Preorder next (n :: rest) (n :: inner ++ after)

namespace Preorder

variable {next : Key → List Key}

theorem append {a b xs ys : List Key} (ha : Preorder next a xs) (hb : Preorder next b ys) :
    Preorder next (a ++ b) (xs ++ ys) := by
  induction ha with
  | nil => exact hb
  | visit below _ _ ih =>
    rw [List.cons_append, List.append_assoc]
    exact .visit below ih

theorem mem_iff {roots order : List Key} (h : Preorder next roots order) (k : Key) :
    k ∈ order ↔ ∃ r ∈ roots, Relation.ReflTransGen (fun a b => b ∈ next a) r k := by
  induction h with
  | nil => simp
  | @visit n inner rest after _ _ ihb ihr =>
    rw [List.cons_append, List.mem_cons, List.mem_append, ihb, ihr]
    constructor
    · rintro (rfl | ⟨r, hr, hk⟩ | ⟨r, hr, hk⟩)
      · exact ⟨_, .head _, .refl⟩
      · exact ⟨n, .head _, .head hr hk⟩
      · exact ⟨r, .tail _ hr, hk⟩
    · rintro ⟨r, hr, hk⟩
      rcases List.mem_cons.mp hr with rfl | hr
      · rcases hk.cases_head with rfl | ⟨m, hm, hk⟩
        · exact .inl rfl
        · exact .inr (.inl ⟨m, hm, hk⟩)
      · exact .inr (.inr ⟨r, hr, hk⟩)

end Preorder

theorem Association.distinctBy_nodup [DecidableEq κ] (key : α → κ) (seen : List κ) (l : List α) :
    ((distinctBy key seen l).map key).Nodup ∧ ∀ a ∈ distinctBy key seen l, key a ∉ seen := by
  induction l generalizing seen with
  | nil => simp [distinctBy]
  | cons a rest ih =>
    unfold distinctBy
    split
    · exact ih seen
    · rename_i ha
      obtain ⟨hn, hs⟩ := ih (key a :: seen)
      constructor
      · refine List.nodup_cons.mpr ⟨fun hm => ?_, hn⟩
        obtain ⟨b, hb, hk⟩ := List.mem_map.mp hm
        exact hs b hb (hk ▸ .head _)
      · intro b hb
        rcases List.mem_cons.mp hb with rfl | hb
        · exact ha
        · exact fun hm => hs b hb (.tail _ hm)

theorem Node.branchIds_nodup (n : Node) : n.branchIds.Nodup := by
  have hnodup (items : List Value) :
      (Association.distinctBy (fun s => s) [] (items.filterMap branchId?)).Nodup := by
    simpa using (Association.distinctBy_nodup (fun s : String => s) [] (items.filterMap branchId?)).1
  unfold branchIds
  dsimp only
  split
  · split
    · decide
    · exact hnodup _
  · decide

/-- The type of a statement. -/
theorem Represented.statement_mem {g : Graph} (h : Represented g) {node : Key} {st : Statement}
    (hst : g.statement? node = some st) :
    ∃ t ∈ Library.types, g.typeOf node = .ok t ∧ t.statement? = some st := by
  unfold Graph.statement? at hst
  split at hst
  · exact ⟨_, h.type_mem ‹_›, ‹_›, hst⟩
  · cases hst

namespace Loaded

open CartGraph.Graph

variable {g : Graph} {entry : Key}

theorem mem_execSuccessors (h : Loaded g) {n t : Key} :
    t ∈ g.execSuccessors n ↔ ∃ w ∈ g.connections, w.isExec = true ∧
      w.sourceNode.canonical = n.canonical ∧ w.targetNode = t := by
  unfold execSuccessors
  simp only [List.mem_flatMap, h.mem_execTargets]
  constructor
  · rintro ⟨p, _, w, hw, hx, hs, ht⟩
    exact ⟨w, hw, hx, congrArg Prod.fst hs, ht⟩
  · rintro ⟨w, hw, hx, hs, ht⟩
    obtain ⟨source, target, hj⟩ := h.joins w hw
    obtain ⟨⟨ps, hps, hm⟩, _⟩ := h.listed hj
    refine ⟨source, ?_, w, hw, hx, ?_, ht⟩
    · unfold execPins
      rw [pinsOf_congr hs hps]
      exact List.mem_filter.mpr ⟨hm, hj.isExec_source ▸ hx⟩
    · unfold Connection.source placeOf
      rw [hs, hj.sourcePin]

/-- What a walk over exec successors reaches, in canonical form, is what exec connections reach. -/
theorem reaches_iff (h : Loaded g) {n k : Key} :
    (∃ m, m.canonical = k ∧ Relation.ReflTransGen (fun a b => b ∈ g.execSuccessors a) n m) ↔
      Relation.ReflTransGen g.ExecStep n.canonical k := by
  constructor
  · rintro ⟨m, rfl, hm⟩
    induction hm with
    | refl => exact .refl
    | tail _ hstep ih =>
      obtain ⟨w, hw, hx, hs, rfl⟩ := h.mem_execSuccessors.mp hstep
      exact ih.tail ⟨w, hw, hx, hs, rfl⟩
  · intro hk
    induction hk with
    | refl => exact ⟨n, rfl, .refl⟩
    | tail _ hstep ih =>
      obtain ⟨m, hm, hn⟩ := ih
      obtain ⟨w, hw, hx, hs, rfl⟩ := hstep
      exact ⟨w.targetNode, rfl,
        hn.tail (h.mem_execSuccessors.mpr ⟨w, hw, hx, hs.trans hm.symm, rfl⟩)⟩

/-! ## The exec outputs of a statement -/

/-- No exec connection leaves a node whose pins can not be told. -/
theorem execTargets_of_error (h : Loaded g) {n : Key} {e : Error} (he : g.pinsOf n = .error e)
    (pin : Key) : g.execTargets n pin = [] := by
  refine List.eq_nil_iff_forall_not_mem.mpr fun t ht => ?_
  obtain ⟨w, hw, _, hs, _⟩ := h.mem_execTargets.mp ht
  obtain ⟨source, target, hj⟩ := h.joins w hw
  obtain ⟨⟨ps, hps, _⟩, _⟩ := h.listed hj
  cases he.symm.trans (pinsOf_congr (congrArg Prod.fst hs) hps)

theorem execSuccessors_eq (h : Loaded g) {n : Key} {st : Statement}
    (hst : g.statement? n = some st) (hseq : st ≠ .sequence) :
    g.execSuccessors n = st.execOutputs.flatMap fun (pin : String) => g.execTargets n pin := by
  obtain ⟨t, ht, htype, hst⟩ := h.statement_mem hst
  have hids := Library.statement_execOutputs t ht st hst
  have hd : t.definition.derivedPins ≠ .branches := fun hd =>
    hseq ((Library.sequence_iff t ht st hst).mp hd)
  unfold execSuccessors execPins
  cases hps : g.pinsOf n with
  | error e => simp [h.execTargets_of_error hps]
  | ok ps =>
    obtain ⟨t', node, derived, htype', _, hderived, _, houtputs⟩ := pinsOf_ok hps
    cases htype.symm.trans htype'
    have hnone : (derived.filter fun p => p.direction == .output).filter Pin.isExec = [] := by
      refine List.filter_eq_nil_iff.mpr fun p hp hx => ?_
      obtain ⟨hp, ho⟩ := List.mem_filter.mp hp
      rcases derivedPins_output hderived hp (by simpa using ho) with ⟨hb, _⟩ | ⟨_, hx', _⟩
      · exact hd hb
      · cases hx.symm.trans hx'
    dsimp only
    rw [houtputs, List.filter_append, hnone, List.append_nil, ← hids, List.flatMap_map]

/-- A sequence follows all its outputs, and they have different ids. -/
theorem sequence_outputs (h : Loaded g) {n : Key} {ps : PinSet}
    (hst : g.statement? n = some .sequence) (hps : g.pinsOf n = .ok ps) :
    g.execPins n = ps.outputs ∧ (ps.outputs.map Pin.id).Nodup := by
  obtain ⟨t, ht, htype, hst⟩ := h.statement_mem hst
  have hd := (Library.sequence_iff t ht _ hst).mpr rfl
  obtain ⟨t', node, derived, htype', _, hderived, _, houtputs⟩ := pinsOf_ok hps
  cases htype.symm.trans htype'
  rw [Library.sequence_outputs t ht hd, List.nil_append] at houtputs
  unfold derivedPins at hderived
  rw [hd] at hderived
  cases hderived
  have hout : ps.outputs = node.branchIds.map fun id => .branchOut id (Text.upper id) := by
    rw [houtputs]
    refine List.filter_eq_self.mpr fun p hp => ?_
    obtain ⟨id, _, rfl⟩ := List.mem_map.mp hp
    rfl
  constructor
  · unfold execPins
    rw [hps]
    refine List.filter_eq_self.mpr fun p hp => ?_
    rw [hout] at hp
    obtain ⟨id, _, rfl⟩ := List.mem_map.mp hp
    rfl
  · rw [hout, List.map_map]
    exact (List.map_id _).symm ▸ node.branchIds_nodup

end Loaded

namespace Graph.ExecPath

variable {g : Graph} {entry n : Key} {ws vs : List Connection}

theorem congr (h : g.ExecPath entry n ws) {n' : Key} (hn : n.canonical = n'.canonical) :
    g.ExecPath entry n' ws := by
  cases h with
  | start h => exact .start (hn ▸ h)
  | step path hw hx hs ht hne => exact .step path hw hx hs (ht.trans hn) (hn ▸ hne)

theorem unique (hg : Loaded g) (h : g.ExecPath entry n ws) (h' : g.ExecPath entry n vs) :
    ws = vs := by
  induction h generalizing vs with
  | start hn =>
    cases h' with
    | start => rfl
    | step _ _ _ _ _ hne => exact absurd hn hne
  | step path hw hx hs ht hne ih =>
    cases h' with
    | start hn => exact absurd hn hne
    | step path' hw' hx' hs' ht' _ =>
      -- at most one exec connection enters the node, so both paths end with it
      cases hg.exec_unique hw hw' hx hx' (ht.trans ht'.symm)
      rw [ih (path'.congr (hs'.symm.trans hs))]

/-- An event can only be the start of a path. -/
theorem of_event (hg : Loaded g) (h : g.ExecPath entry n ws)
    (hst : g.statement? n = some .openEvent) : n.canonical = entry.canonical := by
  cases h with
  | start h => exact h
  | @step _ _ _ w _ hw hx _ ht _ =>
    obtain ⟨t, hm, htype, p, hp, hpx, _⟩ := hg.exec_target hw hx
    rw [statement?_of_type ((typeOf_congr ht).mp htype)] at hst
    cases hpx.symm.trans (Library.openEvent_inputs t hm hst p hp)

/-- A path runs through the nodes that its connections leave. -/
theorem before (h : g.ExecPath entry n ws) {us : List Connection} {w : Connection}
    (hws : ws = us ++ w :: vs) : g.ExecPath entry w.sourceNode us := by
  induction h generalizing vs with
  | start => cases us <;> cases hws
  | step path _ _ hs _ _ ih =>
    rcases List.eq_nil_or_concat vs with rfl | ⟨vs', v, rfl⟩
    · obtain ⟨rfl, hw⟩ := List.append_inj' hws rfl
      cases hw
      exact path.congr hs.symm
    · rw [List.concat_eq_append, ← List.cons_append, ← List.append_assoc] at hws
      exact ih (List.append_inj' hws rfl).1

theorem mem (h : g.ExecPath entry n ws) {w : Connection} (hw : w ∈ ws) :
    w ∈ g.connections ∧ w.isExec = true := by
  induction h with
  | start => cases hw
  | step _ hw' hx _ _ _ ih =>
    rcases List.mem_append.mp hw with hw | hw
    · exact ih hw
    · cases List.mem_singleton.mp hw
      exact ⟨hw', hx⟩

/-- No connection on the path to a node leaves the node. -/
theorem not_leaving (hg : Loaded g) (h : g.ExecPath entry n ws) {w : Connection} (hw : w ∈ ws) :
    w.sourceNode.canonical ≠ n.canonical := by
  intro hn
  obtain ⟨us, vs, rfl⟩ := List.append_of_mem hw
  have hus := unique hg h ((h.before rfl).congr hn)
  have := congrArg List.length hus
  simp at this

end Graph.ExecPath

end CartGraph
