import CartGraph.Graph.Edit
import CartGraph.Proofs.Library
import Mathlib.Data.List.Basic

/-! # The list of connections and its two indices agree

A graph keeps its connections three times: in a list, by the input that they enter and by the
output that they leave. Every change updates all three, and `Represented` says what they have to
do with each other. First what each change does when it is run, then that each keeps the
invariant, and from that what holds after any sequence of calls. The pins of a node are computed
from properties that may be written at any time, so the invariant says of a connection's kind only
what the type of its source node fixes (`Definition.execOutput`). -/
namespace CartGraph

namespace Association

variable {κ α : Type} [DecidableEq κ] [BEq κ] [LawfulBEq κ]

theorem lookup_cons_ite (k k' : κ) (a : α) (rest : List (κ × α)) :
    ((k, a) :: rest).lookup k' = if k' = k then some a else rest.lookup k' := by
  rw [List.lookup_cons]
  by_cases h : k' = k
  · simp [h]
  · rw [beq_false_of_ne h, if_neg h]

theorem lookup_assign (k k' : κ) (a : α) (entries : List (κ × α)) :
    (assign k a entries).lookup k' = if k' = k then some a else entries.lookup k' := by
  induction entries with
  | nil => simp [assign, lookup_cons_ite]
  | cons entry rest ih =>
    obtain ⟨k₁, a₁⟩ := entry
    by_cases h₁ : k₁ = k
    · subst h₁
      have he : assign k₁ a ((k₁, a₁) :: rest) = (k₁, a) :: rest := by simp [assign]
      rw [he, lookup_cons_ite, lookup_cons_ite]
      split <;> rfl
    · simp only [assign, if_neg h₁, lookup_cons_ite, ih]
      by_cases h : k' = k₁
      · rw [if_pos h, if_neg (h ▸ h₁), if_pos h]
      · rw [if_neg h, if_neg h]

theorem lookup_erase (k k' : κ) (entries : List (κ × α)) :
    (erase k entries).lookup k' = if k' = k then none else entries.lookup k' := by
  induction entries with
  | nil => simp [erase]
  | cons entry rest ih =>
    obtain ⟨k₁, a₁⟩ := entry
    by_cases h₁ : k₁ = k
    · subst h₁
      have he : erase k₁ ((k₁, a₁) :: rest) = erase k₁ rest := by simp [erase]
      rw [he, ih, lookup_cons_ite]
      split <;> rfl
    · have he : erase k ((k₁, a₁) :: rest) = (k₁, a₁) :: erase k rest := by simp [erase, h₁]
      rw [he, lookup_cons_ite, ih, lookup_cons_ite]
      by_cases h : k' = k₁
      · rw [if_pos h, if_neg (h ▸ h₁), if_pos h]
      · rw [if_neg h, if_neg h]

omit [BEq κ] [LawfulBEq κ] in
theorem mem_assign {k : κ} {a : α} {entries : List (κ × α)} {e : κ × α}
    (h : e ∈ assign k a entries) : e = (k, a) ∨ e ∈ entries := by
  induction entries with
  | nil => exact .inl (List.mem_singleton.mp h)
  | cons entry rest ih =>
    unfold assign at h
    split at h
    · rename_i hk
      rcases List.mem_cons.mp h with rfl | h
      · exact .inl (by rw [hk])
      · exact .inr (.tail _ h)
    · rcases List.mem_cons.mp h with rfl | h
      · exact .inr (.head _)
      · exact (ih h).imp_right (.tail _)

end Association

/-! ## What the changes do -/

namespace Edit

theorem outcome_bind (edit : Edit α) (f : α → Edit β) (g : Graph) :
    outcome (edit >>= f) g = match outcome edit g with
      | (.ok a, g') => outcome (f a) g'
      | (.error e, g') => (.error e, g') := by
  simp only [outcome, ExceptT.run_bind, StateT.run_bind]
  rcases edit.run.run g with ⟨_ | _, _⟩ <;> rfl

@[simp] theorem outcome_pure (a : α) (g : Graph) : outcome (pure a) g = (.ok a, g) := rfl

@[simp] theorem outcome_get_bind (f : Graph → Edit α) (g : Graph) :
    outcome (get >>= f) g = outcome (f g) g := rfl

@[simp] theorem outcome_modify (f : Graph → Graph) (g : Graph) :
    outcome (modify f) g = (.ok (), f g) := rfl

@[simp] theorem outcome_modify_bind (f : Graph → Graph) (k : Unit → Edit α) (g : Graph) :
    outcome (modify f >>= k) g = outcome (k ()) (f g) := rfl

@[simp] theorem outcome_throw (e : Error) (g : Graph) :
    outcome (throw e : Edit α) g = (.error e, g) := rfl

theorem outcome_lift_bind (r : Except Error α) (f : α → Edit β) (g : Graph) :
    outcome (liftExcept r >>= f) g = match r with
      | .ok a => outcome (f a) g
      | .error e => (.error e, g) := by
  cases r <;> rfl

theorem outcome_addNode (d : Draft) (g : Graph) :
    (∃ e, outcome (addNode d) g = (.error e, g)) ∨
    ∃ t id, g.catalogue.require d.definitionId d.id = .ok t ∧ d.id.key = .ok id ∧
      g.hasNode id = false ∧
      outcome (addNode d) g = (.ok (), { g with nodes := g.nodes ++ [.ofDraft id t.id d] }) := by
  simp only [addNode, outcome_get_bind, outcome_lift_bind]
  cases ht : g.catalogue.require d.definitionId d.id with
  | error e => exact .inl ⟨e, rfl⟩
  | ok t =>
    cases hk : d.id.key with
    | error e => exact .inl ⟨e, rfl⟩
    | ok id =>
      cases hn : g.hasNode id with
      | true => exact .inl ⟨.duplicateNode id, by simp [hn]⟩
      | false => exact .inr ⟨t, id, rfl, rfl, hn, by simp [hn]⟩

theorem outcome_createNode (definition id : Value) (properties : Table) (g : Graph) :
    (∃ e, outcome (createNode definition id properties) g = (.error e, g)) ∨
    ∃ d, outcome (createNode definition id properties) g = outcome (addNode d) g := by
  unfold createNode
  split
  · exact .inl ⟨_, outcome_throw _ g⟩
  · simp only [outcome_get_bind, outcome_lift_bind]
    cases hd : g.catalogue.create definition id (.table properties) with
    | error e => exact .inl ⟨e, rfl⟩
    | ok d => exact .inr ⟨d, rfl⟩

/-- The graph with a connection more, in the list and in both indices. -/
def joined (c : Connection) (g : Graph) : Graph := indexSource c (indexTarget c (list c g))

def parted (c : Connection) (g : Graph) : Graph := unindexSource c (unindexTarget c (unlist c g))

theorem outcome_connect (sourceNode sourcePin targetNode targetPin : Value) (g : Graph) :
    (∃ e, outcome (connect sourceNode sourcePin targetNode targetPin) g = (.error e, g)) ∨
    ∃ c, g.wire sourceNode sourcePin targetNode targetPin = .ok c ∧
      outcome (connect sourceNode sourcePin targetNode targetPin) g = (.ok (), joined c g) := by
  simp only [connect, outcome_get_bind, outcome_lift_bind]
  cases hw : g.wire sourceNode sourcePin targetNode targetPin with
  | error e => exact .inl ⟨e, rfl⟩
  | ok c => exact .inr ⟨c, rfl, rfl⟩

theorem outcome_disconnect (c : Connection) (g : Graph) :
    outcome (disconnect c) g =
      if g.connections.any c.alike then (.ok (), parted c g) else (.error .noSuchConnection, g) := by
  simp only [disconnect, outcome_get_bind]
  cases h : g.connections.any c.alike
  · simp
  · simp [parted]

theorem outcome_write (id : Key) (change : Table → Table) (g : Graph) :
    outcome (write id change) g =
      if g.hasNode id then (.ok (), { g with nodes := g.nodes.map (Node.rewrite id change) })
      else (.error (.unknownNode id), g) := by
  simp only [write, outcome_get_bind]
  cases h : g.hasNode id
  · simp
  · simp

end Edit

/-! ## The invariant -/

structure Represented (g : Graph) : Prop where
  catalogue : g.catalogue = Library.catalogue
  incoming : ∀ place c,
    g.incomingIndex.lookup place = some c ↔ c ∈ g.connections ∧ c.target = place
  outgoing : ∀ place, (g.outgoingIndex.lookup place).getD [] =
    g.connections.filter fun c => c.source = place
  targets : g.connections.Pairwise fun c d => c.target ≠ d.target
  ends : ∀ c ∈ g.connections, g.hasNode c.sourceNode = true ∧ g.hasNode c.targetNode = true ∧
    c.sourceNode.canonical ≠ c.targetNode.canonical
  /-- Whether a connection is exec is fixed by the type of its source node. -/
  kinds : ∀ c ∈ g.connections, ∃ t, g.typeOf c.sourceNode = .ok t ∧
    c.isExec = t.definition.execOutput c.sourcePin
  alone : ∀ c ∈ g.connections, c.isExec = true → ∀ d ∈ g.connections, d.source = c.source → d = c

namespace Represented

theorem empty : Represented (.empty Library.catalogue) where
  catalogue := rfl
  incoming := by simp [Graph.empty]
  outgoing := by simp [Graph.empty]
  targets := .nil
  ends := by simp [Graph.empty]
  kinds := by simp [Graph.empty]
  alone := by simp [Graph.empty]

variable {g : Graph}

theorem type_mem (h : Represented g) {id : Key} {t : NodeType} (ht : g.typeOf id = .ok t) :
    t ∈ Library.types := by
  obtain ⟨n, _, ht⟩ := Graph.typeOf_ok_iff.mp ht
  exact Library.types_of_find? (h.catalogue ▸ ht)

theorem eq_of_target (h : Represented g) {c d : Connection} (hc : c ∈ g.connections)
    (hd : d ∈ g.connections) (ht : c.target = d.target) : c = d := by
  have h₁ := (h.incoming c.target c).mpr ⟨hc, rfl⟩
  have h₂ := (h.incoming c.target d).mpr ⟨hd, ht.symm⟩
  exact Option.some.inj (h₁.symm.trans h₂)

theorem mem_outgoing (h : Represented g) {node pin : Key} {c : Connection} :
    c ∈ g.outgoing node pin ↔ c ∈ g.connections ∧ c.source = placeOf node pin := by
  rw [show g.outgoing node pin = _ from h.outgoing (placeOf node pin), List.mem_filter,
    decide_eq_true_iff]

/-- A change that leaves the connections alone and keeps the nodes that they join, with their
types, keeps the invariant. -/
theorem of_nodes (h : Represented g) (nodes : List Node)
    (hn : ∀ c ∈ g.connections, ∀ id, id = c.sourceNode ∨ id = c.targetNode → ∀ n,
      g.node? id = some n →
        ∃ n', ({ g with nodes } : Graph).node? id = some n' ∧ n'.definitionId = n.definitionId) :
    Represented { g with nodes } where
  catalogue := h.catalogue
  incoming := h.incoming
  outgoing := h.outgoing
  targets := h.targets
  ends c hc := by
    obtain ⟨hs, ht, hne⟩ := h.ends c hc
    obtain ⟨n, hs⟩ := Option.isSome_iff_exists.mp hs
    obtain ⟨m, ht⟩ := Option.isSome_iff_exists.mp ht
    obtain ⟨n', hs', _⟩ := hn c hc _ (.inl rfl) n hs
    obtain ⟨m', ht', _⟩ := hn c hc _ (.inr rfl) m ht
    exact ⟨Option.isSome_iff_exists.mpr ⟨n', hs'⟩, Option.isSome_iff_exists.mpr ⟨m', ht'⟩, hne⟩
  kinds c hc := by
    obtain ⟨t, ht, hk⟩ := h.kinds c hc
    obtain ⟨n, hs, ht⟩ := Graph.typeOf_ok_iff.mp ht
    obtain ⟨n', hs', hd⟩ := hn c hc _ (.inl rfl) n hs
    exact ⟨t, Graph.typeOf_ok_iff.mpr ⟨n', hs', hd ▸ ht⟩, hk⟩
  alone := h.alone

theorem addNode (h : Represented g) (n : Node) :
    Represented { g with nodes := g.nodes ++ [n] } := by
  refine h.of_nodes _ fun c _ id _ m hm => ⟨m, ?_, rfl⟩
  simp only [Graph.node?] at hm ⊢
  rw [List.find?_append, hm, Option.some_or]

theorem write (h : Represented g) (id : Key) (change : Table → Table) :
    Represented { g with nodes := g.nodes.map (Node.rewrite id change) } := by
  have hid : ∀ n : Node, (n.rewrite id change).id = n.id := by
    intro n
    unfold Node.rewrite
    split <;> rfl
  refine h.of_nodes _ fun c _ k _ m hm => ⟨m.rewrite id change, ?_, ?_⟩
  · simp only [Graph.node?] at hm ⊢
    rw [List.find?_map]
    simp only [Function.comp_def, hid]
    rw [hm, Option.map_some]
  · unfold Node.rewrite
    split <;> rfl

/-- Two connections that leave one output are both exec or both not. -/
theorem isExec_of_source (h : Represented g) {c d : Connection} {t : NodeType}
    (ht : g.typeOf c.sourceNode = .ok t) (hc : c.isExec = t.definition.execOutput c.sourcePin)
    (hd : d ∈ g.connections) (hs : d.source = c.source) : d.isExec = c.isExec := by
  obtain ⟨t', ht', hk⟩ := h.kinds d hd
  obtain ⟨hnode, hpin⟩ := Prod.mk.inj hs
  cases ((Graph.typeOf_congr hnode).mp ht').symm.trans ht
  rw [hk, hc]
  exact Definition.execOutput_congr _ hpin

/-- Nothing enters an input for which no connection is found. -/
theorem target_ne (h : Represented g) {node pin : Key} (hfree : g.incoming? node pin = none) :
    ∀ d ∈ g.connections, d.target ≠ placeOf node pin := by
  intro d hd ht
  cases hfree.symm.trans ((h.incoming _ d).mpr ⟨hd, ht⟩)

/-- Nothing leaves an output for which no connections are found. -/
theorem source_ne (h : Represented g) {node pin : Key} (hunused : g.outgoing node pin = []) :
    ∀ d ∈ g.connections, d.source ≠ placeOf node pin := by
  intro d hd hs
  have hm := h.mem_outgoing.mpr ⟨hd, hs⟩
  rw [hunused] at hm
  cases hm

theorem incoming_joined (h : Represented g) {c : Connection}
    (hfree : ∀ d ∈ g.connections, d.target ≠ c.target) (place : Place) (d : Connection) :
    (Edit.joined c g).incomingIndex.lookup place = some d ↔
      d ∈ g.connections ++ [c] ∧ d.target = place := by
  change (Association.assign c.target c g.incomingIndex).lookup place = some d ↔ _
  rw [Association.lookup_assign, List.mem_append, List.mem_singleton]
  by_cases hp : place = c.target
  · subst hp
    rw [if_pos rfl]
    constructor
    · intro he
      cases he
      exact ⟨.inr rfl, rfl⟩
    · rintro ⟨hd | hd, ht⟩
      · exact absurd ht (hfree d hd)
      · rw [hd]
  · rw [if_neg hp, h.incoming]
    constructor
    · exact fun ⟨hd, ht⟩ => ⟨.inl hd, ht⟩
    · rintro ⟨hd | rfl, ht⟩
      · exact ⟨hd, ht⟩
      · exact absurd ht.symm hp

theorem outgoing_joined (h : Represented g) (c : Connection) (place : Place) :
    ((Edit.joined c g).outgoingIndex.lookup place).getD [] =
      (g.connections ++ [c]).filter fun d => d.source = place := by
  change ((Association.assign c.source ((g.outgoingIndex.lookup c.source).getD [] ++ [c])
    g.outgoingIndex).lookup place).getD [] = _
  rw [Association.lookup_assign, List.filter_append, ← h.outgoing]
  by_cases hp : place = c.source
  · simp [hp]
  · rw [if_neg hp, List.filter_cons_of_neg (by simpa using Ne.symm hp)]
    simp

/-- The type of a node that a connection leaves fixes whether it is exec. -/
theorem exec_of_joins (h : Represented g) {c : Connection} {source target : Pin}
    (hj : g.Joins c source target) : ∃ t, g.typeOf c.sourceNode = .ok t ∧
      c.isExec = t.definition.execOutput c.sourcePin := by
  obtain ⟨ps, hps, _⟩ := bind_ok hj.foundSource
  obtain ⟨t, _, _, ht, _⟩ := Graph.pinsOf_ok hps
  refine ⟨t, ht, ?_⟩
  rw [hj.isExec_source, hj.sourcePin]
  exact Graph.findPin?_isExec hj.foundSource hj.output ht (Library.steady (h.type_mem ht))

theorem joined (h : Represented g) {sourceNode sourcePin targetNode targetPin : Value}
    {c : Connection} (hw : g.wire sourceNode sourcePin targetNode targetPin = .ok c) :
    Represented (Edit.joined c g) := by
  obtain ⟨source, target, hj, hsn, htn, hne, hfree, hexec⟩ := Graph.wire_ok hw
  have hfree : ∀ d ∈ g.connections, d.target ≠ c.target := h.target_ne hfree
  have hsole : c.isExec = true → ∀ d ∈ g.connections, d.source ≠ c.source := fun hx =>
    h.source_ne (hexec (hj.isExec_source ▸ hx))
  obtain ⟨t, htype, hkind⟩ := h.exec_of_joins hj
  refine ⟨h.catalogue, h.incoming_joined hfree, h.outgoing_joined c, ?_, ?_, ?_, ?_⟩
  · exact List.pairwise_append.mpr ⟨h.targets, List.pairwise_singleton _ _,
      fun d hd d' hd' => List.mem_singleton.mp hd' ▸ hfree d hd⟩
  · intro d hd
    rcases List.mem_append.mp hd with hd | hd
    · exact h.ends d hd
    · cases List.mem_singleton.mp hd
      exact ⟨hsn, htn, hne⟩
  · intro d hd
    rcases List.mem_append.mp hd with hd | hd
    · exact h.kinds d hd
    · cases List.mem_singleton.mp hd
      exact ⟨t, htype, hkind⟩
  · intro d hd hx d' hd' hs
    rcases List.mem_append.mp hd with hd | hd <;> rcases List.mem_append.mp hd' with hd' | hd'
    · exact h.alone d hd hx d' hd' hs
    · cases List.mem_singleton.mp hd'
      exact absurd hs.symm (hsole (h.isExec_of_source htype hkind hd hs.symm ▸ hx) d hd)
    · cases List.mem_singleton.mp hd
      exact absurd hs (hsole hx d' hd')
    · rw [List.mem_singleton.mp hd, List.mem_singleton.mp hd']

end Represented

/-- Where no two connections enter one input, removing the first that is alike removes the one that
enters the same input. -/
theorem eraseP_alike {c : Connection} {connections : List Connection}
    (ht : connections.Pairwise fun c d => c.target ≠ d.target)
    (hc : connections.any c.alike = true) :
    connections.eraseP c.alike = connections.filter fun d => d.target ≠ c.target := by
  induction connections with
  | nil => cases hc
  | cons d rest ih =>
    obtain ⟨hd, hrest⟩ := List.pairwise_cons.mp ht
    by_cases ha : c.alike d = true
    · obtain ⟨_, htarget, _⟩ := Connection.alike_iff.mp ha
      rw [List.eraseP_cons_of_pos ha, List.filter_cons_of_neg (by simpa using htarget.symm)]
      refine (List.filter_eq_self.mpr fun d' hd' => ?_).symm
      simpa [htarget] using (hd d' hd').symm
    · obtain ⟨d', hd', ha'⟩ : ∃ d' ∈ rest, c.alike d' = true := by simpa [ha] using hc
      obtain ⟨_, htarget, _⟩ := Connection.alike_iff.mp ha'
      rw [List.eraseP_cons_of_neg ha,
        List.filter_cons_of_pos (by simpa [htarget] using hd d' hd'),
        ih hrest (List.any_eq_true.mpr ⟨d', hd', ha'⟩)]

namespace Represented

variable {g : Graph}

theorem connections_parted (h : Represented g) {c : Connection}
    (hc : g.connections.any c.alike = true) :
    (Edit.parted c g).connections = g.connections.filter fun d => d.target ≠ c.target := by
  have hp : (Edit.parted c g).connections = g.connections.eraseP c.alike := by
    unfold Edit.parted Edit.unindexSource
    dsimp only
    split <;> rfl
  rw [hp, eraseP_alike h.targets hc]

theorem incomingIndex_parted (c : Connection) :
    (Edit.parted c g).incomingIndex = Association.erase c.target g.incomingIndex := by
  unfold Edit.parted Edit.unindexSource
  dsimp only
  split <;> rfl

theorem outgoing_parted (h : Represented g) {c : Connection}
    (hc : g.connections.any c.alike = true) (place : Place) :
    ((Edit.parted c g).outgoingIndex.lookup place).getD [] =
      (g.connections.filter fun d => d.target ≠ c.target).filter fun d => d.source = place := by
  obtain ⟨d, hd, ha⟩ := List.any_eq_true.mp hc
  obtain ⟨hsource, htarget, _⟩ := Connection.alike_iff.mp ha
  have hleaving : (g.outgoing c.sourceNode c.sourcePin) =
      g.connections.filter fun d => d.source = c.source := h.outgoing c.source
  have hany : (g.outgoing c.sourceNode c.sourcePin).any c.alike = true := by
    rw [hleaving]
    exact List.any_eq_true.mpr ⟨d, List.mem_filter.mpr ⟨hd, by simpa using hsource.symm⟩, ha⟩
  have hindex : (Edit.parted c g).outgoingIndex = Association.assign c.source
      ((g.outgoing c.sourceNode c.sourcePin).eraseP c.alike) g.outgoingIndex := by
    unfold Edit.parted Edit.unindexSource
    exact congrArg Graph.outgoingIndex (if_pos hany)
  rw [hindex, Association.lookup_assign, List.filter_comm]
  by_cases hp : place = c.source
  · rw [if_pos hp, hp, Option.getD_some, hleaving,
      eraseP_alike (h.targets.sublist List.filter_sublist) (hleaving ▸ hany)]
  · rw [if_neg hp, h.outgoing]
    refine (List.filter_eq_self.mpr fun d' hd' => ?_).symm
    obtain ⟨hd', hs⟩ := List.mem_filter.mp hd'
    have hne : d'.target ≠ c.target := by
      intro ht
      have := h.eq_of_target hd' hd (ht.trans htarget)
      subst this
      exact hp ((of_decide_eq_true hs).symm.trans hsource.symm)
    simpa using hne

theorem parted (h : Represented g) {c : Connection} (hc : g.connections.any c.alike = true) :
    Represented (Edit.parted c g) := by
  have hnodes : (Edit.parted c g).nodes = g.nodes ∧
      (Edit.parted c g).catalogue = g.catalogue := by
    unfold Edit.parted Edit.unindexSource
    dsimp only
    split <;> exact ⟨rfl, rfl⟩
  have hnode : ∀ id, (Edit.parted c g).node? id = g.node? id := fun id => by
    rw [Graph.node?, Graph.node?, hnodes.1]
  have hconn := h.connections_parted hc
  have hmem : ∀ d ∈ (Edit.parted c g).connections, d ∈ g.connections := fun d hd =>
    (List.mem_filter.mp (hconn ▸ hd)).1
  refine ⟨hnodes.2.trans h.catalogue, ?_, ?_, ?_, ?_, ?_, ?_⟩
  · intro place d
    rw [incomingIndex_parted, Association.lookup_erase, hconn, List.mem_filter]
    by_cases hp : place = c.target
    · rw [if_pos hp]
      constructor
      · intro he; cases he
      · rintro ⟨⟨_, hd⟩, ht⟩
        exact absurd (ht.trans hp) (by simpa using hd)
    · rw [if_neg hp, h.incoming]
      constructor
      · exact fun ⟨hd, ht⟩ => ⟨⟨hd, by simpa [ht] using hp⟩, ht⟩
      · exact fun ⟨⟨hd, _⟩, ht⟩ => ⟨hd, ht⟩
  · intro place
    rw [h.outgoing_parted hc, hconn]
  · rw [hconn]
    exact h.targets.sublist List.filter_sublist
  · intro d hd
    have := h.ends d (hmem d hd)
    simpa only [Graph.hasNode, hnode] using this
  · intro d hd
    obtain ⟨t, ht, hk⟩ := h.kinds d (hmem d hd)
    refine ⟨t, ?_, hk⟩
    rwa [Graph.typeOf_ok_iff, hnode, hnodes.2, ← Graph.typeOf_ok_iff]
  · intro d hd hx d' hd' hs
    exact h.alone d (hmem d hd) hx d' (hmem d' hd') hs

/-- Removing connections that are all there, no two of which enter one input, succeeds and removes
nothing else. -/
theorem disconnectAll (h : Represented g) {removed : List Connection}
    (hr : ∀ c ∈ removed, c ∈ g.connections)
    (hd : removed.Pairwise fun c d => c.target ≠ d.target) :
    ∃ g', Edit.outcome (Edit.disconnectAll removed) g = (.ok (), g') ∧ Represented g' ∧
      g'.nodes = g.nodes ∧
      g'.connections = g.connections.filter fun d => removed.all fun c => d.target ≠ c.target := by
  induction removed generalizing g with
  | nil => exact ⟨g, rfl, h, rfl, by simp⟩
  | cons c rest ih =>
    obtain ⟨hc, hrest⟩ := List.pairwise_cons.mp hd
    have hany : g.connections.any c.alike = true :=
      List.any_eq_true.mpr ⟨c, hr c (.head _), Connection.alike_iff.mpr ⟨rfl, rfl, rfl⟩⟩
    have hconn := h.connections_parted hany
    have hstill : ∀ d ∈ rest, d ∈ (Edit.parted c g).connections := by
      intro d hd
      rw [hconn]
      exact List.mem_filter.mpr ⟨hr d (.tail _ hd), by simpa using (hc d hd).symm⟩
    obtain ⟨g', hrun, hrep, hnodes, hleft⟩ := ih (h.parted hany) hstill hrest
    refine ⟨g', ?_, hrep, ?_, ?_⟩
    · rw [Edit.disconnectAll, Edit.outcome_bind, Edit.outcome_disconnect, if_pos hany]
      exact hrun
    · rw [hnodes]
      unfold Edit.parted Edit.unindexSource
      dsimp only
      split <;> rfl
    · rw [hleft, hconn, List.filter_filter]
      simp only [List.all_cons, Bool.and_comm]

/-- Removing a node removes it with the connections that touch it, and can not break off halfway. -/
theorem outcome_removeNode (h : Represented g) (id : Key) :
    (∃ e, Edit.outcome (Edit.removeNode id) g = (.error e, g)) ∨
    ∃ g', Edit.outcome (Edit.removeNode id) g = (.ok (), g') ∧ Represented g' := by
  simp only [Edit.removeNode, Edit.outcome_get_bind]
  cases hn : g.hasNode id with
  | false => exact .inl ⟨.absentNode id, by simp⟩
  | true =>
    right
    obtain ⟨g', hrun, hrep, hnodes, hleft⟩ := h.disconnectAll
      (fun c hc => (List.mem_filter.mp hc).1)
      (h.targets.sublist (List.filter_sublist (p := fun c : Connection => c.touches id)))
    refine ⟨{ g' with nodes := g'.nodes.filter fun n => !n.id.alike id },
      by simp [Edit.outcome_bind, hrun], ?_⟩
    refine hrep.of_nodes _ fun c hc k hk n hkn => ⟨n, ?_, rfl⟩
    -- a connection that is left does not touch the node, so its ends are found as before
    have huntouched : c.touches id = false := by
      rw [hleft] at hc
      obtain ⟨hc, hall⟩ := List.mem_filter.mp hc
      by_contra ht
      have htouch : c ∈ g.connections.filter fun c => c.touches id :=
        List.mem_filter.mpr ⟨hc, by simpa using ht⟩
      exact absurd rfl (of_decide_eq_true (List.all_eq_true.mp hall c htouch))
    have hne : k.canonical ≠ id.canonical := by
      intro he
      rw [Bool.eq_false_iff, Ne, Connection.touches_iff, not_or] at huntouched
      rcases hk with rfl | rfl
      · exact huntouched.1 he
      · exact huntouched.2 he
    simp only [Graph.node?, List.find?_filter]
    rw [← hkn, Graph.node?]
    congr 1
    funext m
    by_cases hm : m.id.canonical = k.canonical
    · have : m.id.canonical ≠ id.canonical := hm ▸ hne
      simp [Key.alike, hm, hne]
    · simp [Key.alike, hm]

end Represented

/-! ## Calls -/

/-- The calls that change a graph, and writes to the properties of its nodes. -/
inductive Call where
  | add (d : Draft)
  | create (definition id : Value) (properties : Table)
  | remove (id : Key)
  | connect (sourceNode sourcePin targetNode targetPin : Value)
  | disconnect (c : Connection)
  | write (id : Key) (change : Table → Table)

def Call.edit : Call → Edit Unit
  | .add d => Edit.addNode d
  | .create definition id properties => Edit.createNode definition id properties
  | .remove id => Edit.removeNode id
  | .connect sourceNode sourcePin targetNode targetPin =>
    Edit.connect sourceNode sourcePin targetNode targetPin
  | .disconnect c => Edit.disconnect c
  | .write id change => Edit.write id change

def Graph.after (g : Graph) (calls : List Call) : Graph :=
  calls.foldl (fun g call => (call.edit.outcome g).2) g

/-- A call fails and changes nothing, or succeeds and keeps the invariant. -/
theorem Represented.call {g : Graph} (h : Represented g) (call : Call) :
    (∃ e, call.edit.outcome g = (.error e, g)) ∨
    ∃ g', call.edit.outcome g = (.ok (), g') ∧ Represented g' := by
  cases call with
  | add d =>
    rcases Edit.outcome_addNode d g with he | ⟨t, id, _, _, _, ho⟩
    · exact .inl he
    · exact .inr ⟨_, ho, h.addNode _⟩
  | create definition id properties =>
    rcases Edit.outcome_createNode definition id properties g with he | ⟨d, hd⟩
    · exact .inl he
    · simp only [Call.edit, hd]
      rcases Edit.outcome_addNode d g with he | ⟨t, id, _, _, _, ho⟩
      · exact .inl he
      · exact .inr ⟨_, ho, h.addNode _⟩
  | remove id => exact h.outcome_removeNode id
  | connect a p b q =>
    rcases Edit.outcome_connect a p b q g with he | ⟨c, hw, ho⟩
    · exact .inl he
    · exact .inr ⟨_, ho, h.joined hw⟩
  | disconnect c =>
    simp only [Call.edit, Edit.outcome_disconnect]
    split
    · exact .inr ⟨_, rfl, h.parted ‹_›⟩
    · exact .inl ⟨_, rfl⟩
  | write id change =>
    simp only [Call.edit, Edit.outcome_write]
    split
    · exact .inr ⟨_, rfl, h.write id change⟩
    · exact .inl ⟨_, rfl⟩

theorem Represented.after {g : Graph} (h : Represented g) (calls : List Call) :
    Represented (g.after calls) := by
  induction calls generalizing g with
  | nil => exact h
  | cons call rest ih =>
    have hstep : Represented (call.edit.outcome g).2 := by
      rcases h.call call with ⟨e, he⟩ | ⟨g', ho, h'⟩
      · rw [he]; exact h
      · rw [ho]; exact h'
    exact ih hstep

/-- What the lookups of a graph answer is what its list of connections holds. -/
structure Graph.Consistent (g : Graph) : Prop where
  /-- The connection that enters an input is the only one in the list. -/
  incoming : ∀ node pin,
    g.connections.filter (fun c => c.enters node pin) = (g.incoming? node pin).toList
  /-- The connections that leave an output are those of the list, in its order. -/
  outgoing : ∀ node pin, g.outgoing node pin = g.connections.filter fun c => c.leaves node pin
  ends : ∀ c ∈ g.connections, g.hasNode c.sourceNode = true ∧ g.hasNode c.targetNode = true ∧
    c.sourceNode.alike c.targetNode = false
  targets : g.connections.Pairwise fun c d => c.enters d.targetNode d.targetPin = false
  execAlone : ∀ c ∈ g.connections, c.isExec = true →
    g.connections.filter (fun d => d.leaves c.sourceNode c.sourcePin) = [c]

theorem Represented.filter_enters {g : Graph} (h : Represented g) (node pin : Key) :
    g.connections.filter (fun c => c.enters node pin) = (g.incoming? node pin).toList := by
  have hmem : ∀ c, c ∈ g.connections.filter (fun c => c.enters node pin) ↔
      g.incoming? node pin = some c := by
    intro c
    rw [List.mem_filter, Connection.enters_iff]
    exact (h.incoming (placeOf node pin) c).symm
  have hdistinct : (g.connections.filter fun c => c.enters node pin).Pairwise
      fun c d => c.target ≠ d.target := h.targets.sublist List.filter_sublist
  cases hl : g.connections.filter (fun c => c.enters node pin) with
  | nil =>
    cases hi : g.incoming? node pin with
    | none => rfl
    | some c =>
      have := (hmem c).mpr hi
      rw [hl] at this
      cases this
  | cons c rest =>
    rw [hl] at hmem hdistinct
    have hi := (hmem c).mp (.head _)
    cases rest with
    | nil => rw [hi]; rfl
    | cons d more =>
      have hd := (hmem d).mp (.tail _ (.head _))
      cases hi.symm.trans hd
      exact absurd rfl ((List.pairwise_cons.mp hdistinct).1 c (.head _))

theorem Represented.execAlone {g : Graph} (h : Represented g) {c : Connection}
    (hc : c ∈ g.connections) (hx : c.isExec = true) :
    g.connections.filter (fun d => d.leaves c.sourceNode c.sourcePin) = [c] := by
  have hdistinct : (g.connections.filter fun d => d.leaves c.sourceNode c.sourcePin).Pairwise
      fun c d => c.target ≠ d.target := h.targets.sublist List.filter_sublist
  have hall : ∀ d ∈ g.connections.filter (fun d => d.leaves c.sourceNode c.sourcePin), d = c := by
    intro d hd
    obtain ⟨hd, hl⟩ := List.mem_filter.mp hd
    exact h.alone c hc hx d hd (Connection.leaves_iff.mp hl)
  have hself : c ∈ g.connections.filter fun d => d.leaves c.sourceNode c.sourcePin :=
    List.mem_filter.mpr ⟨hc, Connection.leaves_iff.mpr rfl⟩
  cases hl : g.connections.filter (fun d => d.leaves c.sourceNode c.sourcePin) with
  | nil => rw [hl] at hself; cases hself
  | cons d rest =>
    rw [hl] at hall hdistinct
    cases rest with
    | nil => rw [hall d (.head _)]
    | cons d' more =>
      have hd := (hall d (.head _)).trans (hall d' (.tail _ (.head _))).symm
      exact absurd (congrArg Connection.target hd)
        ((List.pairwise_cons.mp hdistinct).1 d' (.head _))

/-- An exec output leads to at most one node. -/
theorem Represented.execTargets_cases {g : Graph} (h : Represented g) (n pin : Key) :
    g.execTargets n pin = [] ∨ ∃ t, g.execTargets n pin = [t] := by
  have hout : g.outgoing n pin = g.connections.filter fun c => c.source = placeOf n pin :=
    h.outgoing (placeOf n pin)
  unfold Graph.execTargets Graph.execOutgoing
  cases hl : (g.outgoing n pin).filter Connection.isExec with
  | nil => exact .inl rfl
  | cons c rest =>
    have hc : c ∈ (g.outgoing n pin).filter Connection.isExec := by rw [hl]; exact .head _
    obtain ⟨hc, hx⟩ := List.mem_filter.mp hc
    obtain ⟨hc, hsource⟩ := h.mem_outgoing.mp hc
    have halone := h.execAlone hc hx
    have hsame : g.outgoing n pin = [c] := by
      rw [hout, ← halone]
      refine List.filter_congr fun d _ => ?_
      rw [Bool.eq_iff_iff, decide_eq_true_iff, Connection.leaves_iff, ← hsource]
      rfl
    rw [hsame, List.filter_cons_of_pos hx] at hl
    cases hl
    exact .inr ⟨_, rfl⟩

theorem Represented.consistent {g : Graph} (h : Represented g) : g.Consistent where
  incoming := h.filter_enters
  outgoing node pin := by
    refine (h.outgoing (placeOf node pin)).trans (List.filter_congr fun c _ => ?_)
    rw [Bool.eq_iff_iff, decide_eq_true_iff, Connection.leaves_iff]
  ends c hc := by
    obtain ⟨hs, ht, hne⟩ := h.ends c hc
    refine ⟨hs, ht, ?_⟩
    rw [Bool.eq_false_iff, Ne, Key.alike_iff]
    exact hne
  targets := h.targets.imp fun {c d} hne => by
    rw [Bool.eq_false_iff, Ne, Connection.enters_iff]
    exact hne
  execAlone _ hc hx := h.execAlone hc hx

/-- After any calls on an empty graph, whether they succeeded or failed, the lookups agree with the
list of connections, and a call that fails leaves the graph as it was. -/
theorem consistent_after_calls (calls : List Call) :
    let g := (Graph.empty Library.catalogue).after calls
    g.Consistent ∧ ∀ (call : Call) (e : Error),
      (call.edit.outcome g).1 = .error e → (call.edit.outcome g).2 = g := by
  intro g
  have h : Represented g := Represented.empty.after calls
  refine ⟨h.consistent, fun call e he => ?_⟩
  rcases h.call call with ⟨e', ho⟩ | ⟨g', ho, _⟩
  · rw [ho]
  · rw [ho] at he
    cases he

end CartGraph
