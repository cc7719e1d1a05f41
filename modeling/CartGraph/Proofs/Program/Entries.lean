import CartGraph.Program
import CartGraph.Proofs.Faults
import CartGraph.Proofs.Graph.Loaded

/-! # Entry nodes of a program

The nodes of a graph are gone through once. An entry node that answers to an event is listed under
the event, one that answers to none is a custom event, and all others are passed by. -/
namespace CartGraph

/-- A fold fails where one of its steps fails. -/
theorem foldlM_error {f : β → α → Except ε β} {l : List α} {b : β} {e : ε}
    (h : l.foldlM f b = .error e) : ∃ a ∈ l, ∃ b, f b a = .error e := by
  induction l generalizing b with
  | nil => cases h
  | cons a rest ih =>
    rw [List.foldlM_cons] at h
    rcases bind_error h with h | ⟨b₁, _, h⟩
    · exact ⟨a, .head _, b, h⟩
    · obtain ⟨a', ha, hf⟩ := ih h
      exact ⟨a', .tail _ ha, hf⟩

/-- An entry node that answers to no event. -/
def Graph.OpensCustomEvent (g : Graph) (n : Node) : Prop :=
  ∃ entry event, g.entryInfo n = .ok (entry, event) ∧ entry.truthy = true ∧ event.truthy = false

def Graph.Answers (g : Graph) (n : Node) (event : Key) : Prop :=
  ∃ entry v, g.entryInfo n = .ok (entry, v) ∧ entry.truthy = true ∧ v.truthy = true ∧
    v.key = .ok event

instance (g : Graph) (n : Node) : Decidable (g.OpensCustomEvent n) :=
  match h : g.entryInfo n with
  | .ok (entry, event) => decidable_of_iff (entry.truthy = true ∧ event.truthy = false)
      ⟨fun hinfo => ⟨entry, event, h, hinfo⟩, fun ⟨_, _, hinfo, hopens⟩ => by
        cases h.symm.trans hinfo
        exact hopens⟩
  | .error _ => isFalse fun ⟨_, _, hinfo, _⟩ => by cases h.symm.trans hinfo

namespace Graph

variable {g : Graph} {n : Node} {event : Key}

def event? (g : Graph) (n : Node) : Option Key :=
  (g.entryInfo n).toOption.bind fun info =>
    if info.1.truthy && info.2.truthy then info.2.key.toOption else none

theorem event?_eq_some : g.event? n = some event ↔ g.Answers n event := by
  unfold event? Answers
  rcases g.entryInfo n with e | ⟨entry, v⟩
  · simp [Except.toOption]
  · rcases hkey : v.key with e | k <;> simp [Except.toOption, hkey, and_assoc]

theorem Answers.unique {event' : Key} (h : g.Answers n event) (h' : g.Answers n event') :
    event' = event :=
  Option.some.inj ((event?_eq_some.mpr h').symm.trans (event?_eq_some.mpr h))

end Graph

namespace Program.Entries

variable {g : Graph} {settings : Settings} {entries entries' : Entries} {n : Node}

/-- What a node adds does not depend on what was added before. -/
theorem add_eq (entries : Entries) (n : Node) : add g settings entries n =
    (add g settings {} n).map fun e => ⟨entries.named ++ e.named, entries.custom ++ e.custom⟩ := by
  unfold add
  cases g.entryInfo n with
  | error e => rfl
  | ok info =>
    simp only [bind, Except.bind]
    split
    · simp [pure, Except.pure, Except.map]
    split
    · simp [pure, Except.pure, Except.map]
    · cases info.2.key <;> simp [pure, Except.pure, Except.map]

/-- The entries of a list of nodes are those of each, one after the other. -/
theorem foldlM_add_iff {nodes : List Node} : nodes.foldlM (add g settings) entries = .ok entries' ↔
    ∃ parts, List.Forall₂ (fun n part => add g settings {} n = .ok part) nodes parts ∧ entries' =
      ⟨entries.named ++ parts.flatMap named, entries.custom ++ parts.flatMap custom⟩ := by
  induction nodes generalizing entries with
  | nil =>
    constructor
    · intro h
      cases h
      exact ⟨[], .nil, by simp⟩
    · rintro ⟨parts, hparts, rfl⟩
      cases hparts
      simp [pure, Except.pure]
  | cons n nodes ih =>
    rw [List.foldlM_cons, add_eq]
    constructor
    · intro h
      obtain ⟨e, hadd, h⟩ := bind_ok h
      cases hpart : add g settings {} n with
      | error e =>
        rw [hpart] at hadd
        cases hadd
      | ok part =>
        rw [hpart] at hadd
        cases hadd
        obtain ⟨parts, hparts, rfl⟩ := ih.mp h
        exact ⟨part :: parts, .cons hpart hparts, by simp⟩
    · rintro ⟨parts, hparts, rfl⟩
      cases hparts with
      | cons hpart hparts =>
        rw [hpart]
        refine ih.mpr ⟨_, hparts, by simp⟩

/-- What one node adds. -/
theorem add_eq_ok {part : Entries} (h : add g settings {} n = .ok part) : part =
    ⟨((g.event? n).map fun event => (remap settings event, n.id)).toList,
      [n].filter (g.OpensCustomEvent ·)⟩ := by
  obtain ⟨⟨entry, event⟩, hinfo, h⟩ := bind_ok h
  have hopens : g.OpensCustomEvent n ↔ entry.truthy = true ∧ event.truthy = false := by
    unfold Graph.OpensCustomEvent
    simp [hinfo]
  dsimp only at h
  split at h
  · rename_i hentry
    cases h
    simp_all [Graph.event?, Except.toOption]
  split at h
  · rename_i hentry hevent
    cases h
    simp_all [Graph.event?, Except.toOption]
  · rename_i hentry hevent
    obtain ⟨k, hk, h⟩ := bind_ok h
    cases h
    simp_all [Graph.event?, Except.toOption]

/-- The entries of a graph in the order of its nodes. -/
theorem ofGraph_eq (h : ofGraph g settings = .ok entries) : entries =
    ⟨g.nodes.filterMap fun n => (g.event? n).map fun event => (remap settings event, n.id),
      g.nodes.filter (g.OpensCustomEvent ·)⟩ := by
  obtain ⟨parts, hparts, rfl⟩ := foldlM_add_iff.mp h
  clear h
  generalize g.nodes = nodes at hparts
  induction hparts with
  | nil => rfl
  | @cons n part nodes parts hadd _ ih =>
    obtain ⟨hnamed, hcustom⟩ := Entries.mk.inj ih
    rw [List.nil_append] at hnamed hcustom
    rw [add_eq_ok hadd, List.flatMap_cons, List.flatMap_cons, hnamed, hcustom]
    refine congrArg₂ Entries.mk ?_ ?_
    · rw [List.filterMap_cons]
      cases g.event? n <;> rfl
    · dsimp only
      rw [List.nil_append, ← List.filter_append, List.singleton_append]

theorem mem_named (h : ofGraph g settings = .ok entries) {entry : Key × Key} :
    entry ∈ entries.named ↔ ∃ n ∈ g.nodes, ∃ event, g.Answers n event ∧
      entry = (remap settings event, n.id) := by
  rw [ofGraph_eq h]
  simp only [List.mem_filterMap, Option.map_eq_some_iff, Graph.event?_eq_some, eq_comm (a := entry)]

theorem mem_custom (h : ofGraph g settings = .ok entries) :
    n ∈ entries.custom ↔ n ∈ g.nodes ∧ g.OpensCustomEvent n := by
  rw [ofGraph_eq h]
  simp

structure Lists (g : Graph) (settings : Settings) (entries : Entries) : Prop where
  custom : ∀ n ∈ entries.custom, n ∈ g.nodes ∧ g.OpensCustomEvent n
  named : ∀ entry ∈ entries.named, ∃ n ∈ g.nodes, entry.2 = n.id ∧
    ∃ event, g.Answers n event ∧ entry.1 = remap settings event

theorem lists_of_graph (h : ofGraph g settings = .ok entries) : Lists g settings entries where
  custom _ hn := (mem_custom h).mp hn
  named entry he := by
    obtain ⟨n, hn, event, hanswers, rfl⟩ := (mem_named h).mp he
    exact ⟨n, hn, rfl, event, hanswers, rfl⟩

theorem custom_sublist (h : ofGraph g settings = .ok entries) : entries.custom.Sublist g.nodes := by
  rw [ofGraph_eq h]
  exact List.filter_sublist

end Program.Entries

end CartGraph
