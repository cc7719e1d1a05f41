import CartGraph.Proofs.Emit.Reports
import CartGraph.Proofs.Program.Shape

/-! # Events that several nodes answer to

Two nodes that answer to one event are refused before anything is declared or emitted. If nodes and
events are named by texts, nothing else can be reported in the place of it: the report names the
first such event and all nodes that answer to it (`Program.assemble_shared_iff`). -/
namespace CartGraph

namespace Graph

variable {g : Graph} {settings : Settings} {n : Node} {event : String}

/-- Nodes are of types of the catalogue and have different ids, and nodes and events are named by
texts. -/
structure NamedByText (g : Graph) : Prop where
  ids : g.ids.Nodup
  nodes : ∀ n ∈ g.nodes, n.Plain
  types : ∀ n ∈ g.nodes, ∃ t, g.typeOf n.id = .ok t ∧ t.eventName.isReference = true

def Claims (g : Graph) (settings : Settings) (n : Node) (event : String) : Prop :=
  ∃ s, g.Answers n (.text s) ∧ Program.atRate settings.use60fps.truthy s = event

def Shared (g : Graph) (settings : Settings) (event : String) : Prop :=
  ∃ n ∈ g.nodes, ∃ m ∈ g.nodes, n ≠ m ∧ g.Claims settings n event ∧ g.Claims settings m event

theorem claims_iff : g.Claims settings n event ↔
    (g.event? n).map (Program.Entries.remap settings) = some (.text event) := by
  simp only [Claims, Option.map_eq_some_iff, event?_eq_some]
  constructor
  · rintro ⟨s, hs, rfl⟩
    exact ⟨.text s, hs, Program.remap_text settings s⟩
  · rintro ⟨k, hk, hremap⟩
    obtain ⟨s, rfl⟩ : ∃ s, k = .text s := by
      unfold Program.Entries.remap at hremap
      split at hremap
      · rename_i halike
        have halike := (Key.alike_iff _ _).mp (Bool.and_eq_true_iff.mp halike).1
        exact ⟨_, Key.canonical_eq_text halike⟩
      · exact ⟨_, hremap⟩
    rw [Program.remap_text] at hremap
    exact ⟨s, hk, Key.text.inj hremap⟩

instance (g : Graph) (settings : Settings) (n : Node) (event : String) :
    Decidable (g.Claims settings n event) := decidable_of_iff' _ claims_iff

end Graph

theorem one_lt_length_iff {l : List α} (h : l.Nodup) : 1 < l.length ↔ ∃ a ∈ l, ∃ b ∈ l, a ≠ b := by
  constructor
  · intro hl
    match l, hl with
    | a :: b :: rest, _ =>
      exact ⟨a, .head _, b, .tail _ (.head _), fun hab => (List.nodup_cons.mp h).1 (hab ▸ .head _)⟩
  · rintro ⟨a, ha, b, hb, hne⟩
    have hpair : [a, b].Nodup := by simp [hne]
    exact (hpair.subperm (by simp [ha, hb])).length_le

/-- The first element that has a property comes before all others that have it. -/
theorem rel_of_find? {R : α → α → Prop} {l : List α} {p : α → Bool} {a : α} (hl : l.Pairwise R)
    (h : l.find? p = some a) {b : α} (hb : b ∈ l) (hp : p b = true) : b = a ∨ R a b := by
  obtain ⟨_, before, after, rfl, hbefore⟩ := List.find?_eq_some_iff_append.mp h
  rcases List.mem_append.mp hb with hb | hb
  · have hnot := hbefore b hb
    rw [hp] at hnot
    cases hnot
  · rcases List.mem_cons.mp hb with rfl | hb
    · exact .inl rfl
    · exact .inr ((List.pairwise_cons.mp (List.pairwise_append.mp hl).2.1).1 b hb)

namespace Program

variable {g : Graph} {settings : Settings} {globals : List Variable} {entries : Entries}

namespace Entries

theorem nodesOf_text (h : ofGraph g settings = .ok entries) (event : String) :
    entries.nodesOf (.text event) = (g.nodes.filter (g.Claims settings · event)).map Node.id := by
  rw [ofGraph_eq h, nodesOf, List.filter_filterMap, List.map_filterMap, ← List.filterMap_eq_filter,
    List.map_filterMap]
  congr 1
  funext n
  have hclaims := @Graph.claims_iff g settings n event
  cases hevent : g.event? n with
  | none =>
    have hno : ¬ g.Claims settings n event := by simp [hclaims, hevent]
    simp [Option.guard, hno]
  | some k =>
    rw [hevent, Option.map_some, Option.some.injEq] at hclaims
    by_cases hk : remap settings k = .text event
    · simp [Option.guard, hclaims.mpr hk, hk]
    · have hne : (remap settings k).canonical ≠ .text event :=
        fun h => hk (Key.canonical_eq_text h)
      simp [Option.guard, mt hclaims.mp hk, hne]

section

variable (hg : g.NamedByText)
include hg

theorem entryInfo_of_namedByText {n : Node} (hn : n ∈ g.nodes) : ∃ entry event,
    g.entryInfo n = .ok (entry, event) ∧ event.isReference = true := by
  obtain ⟨t, ht, htype⟩ := hg.types n hn
  rcases hinfo : g.entryInfo n with e | ⟨entry, event⟩
  · rw [Graph.entryInfo, ht] at hinfo
    cases hinfo
  · refine ⟨entry, event, rfl, ?_⟩
    refine Graph.entryInfo_isReference (hg.nodes n hn).eventName (fun t' ht' => ?_) hinfo
    cases ht.symm.trans ht'
    exact htype

theorem exists_ofGraph (settings : Settings) : ∃ entries, ofGraph g settings = .ok entries := by
  cases h : ofGraph g settings with
  | ok entries => exact ⟨entries, rfl⟩
  | error e =>
    obtain ⟨n, hn, entries, h⟩ := foldlM_error h
    obtain ⟨entry, event, hinfo, hevent⟩ := entryInfo_of_namedByText hg hn
    obtain ⟨_, hadd⟩ := add_of_isReference hinfo hevent
    cases hadd.symm.trans h

theorem plain_of_namedByText (h : ofGraph g settings = .ok entries) : entries.Plain := by
  refine plain_of_references (fun n hn => (hg.nodes n hn).id) (fun n hn entry event hinfo => ?_) h
  obtain ⟨_, _, hinfo', hevent⟩ := entryInfo_of_namedByText hg hn
  cases hinfo'.symm.trans hinfo
  exact hevent

theorem shared_iff (h : ofGraph g settings = .ok entries) {event : String} :
    g.Shared settings event ↔
      Key.text event ∈ entries.events ∧ 1 < (entries.nodesOf (.text event)).length := by
  have hnodes : (g.nodes.filter (g.Claims settings · event)).Nodup := hg.ids.of_map.filter _
  rw [nodesOf_text h, List.length_map, one_lt_length_iff hnodes]
  simp only [List.mem_filter, decide_eq_true_eq]
  constructor
  · rintro ⟨n, hn, m, hm, hne, hclaims, hclaims'⟩
    refine ⟨?_, n, ⟨hn, hclaims⟩, m, ⟨hm, hclaims'⟩, hne⟩
    obtain ⟨s, hanswers, hevent⟩ := hclaims
    have hmem := (mem_named h).mpr ⟨n, hn, .text s, hanswers, rfl⟩
    rw [remap_text, hevent] at hmem
    have hevent : Key.text event ∈ entries.named.map Prod.fst := List.mem_map.mpr ⟨_, hmem, rfl⟩
    obtain ⟨k, hk, hcanonical⟩ := exists_distinctBy Key.canonical [] hevent (by simp)
    rwa [Key.canonical_eq_text hcanonical] at hk
  · rintro ⟨_, n, ⟨hn, hclaims⟩, m, ⟨hm, hclaims'⟩, hne⟩
    exact ⟨n, hn, m, hm, hne, hclaims, hclaims'⟩

theorem not_shared_of_none (h : ofGraph g settings = .ok entries)
    (hd : entries.duplicate? = none) (event : String) : ¬ g.Shared settings event := by
  intro hshared
  obtain ⟨hevent, hlength⟩ := (shared_iff hg h).mp hshared
  have hall := List.find?_eq_none.mp (Option.map_eq_none_iff.mp hd) (.text event)
    ((Order.sortBy_perm _ _).mem_iff.mpr hevent)
  exact hall (decide_eq_true hlength)

/-- What is found is the first event by name that nodes share, with all nodes that do. -/
theorem shared_of_some (h : ofGraph g settings = .ok entries) {event : Key} {nodes : List Key}
    (hd : entries.duplicate? = some (event, nodes)) :
    g.Shared settings event.display ∧
      (∀ other, g.Shared settings other → event.display ≤ other) ∧
      nodes = (g.nodes.filter (g.Claims settings · event.display)).map Node.id := by
  have hplain := plain_of_namedByText hg h
  have htext : ∀ k ∈ entries.events, k.isText = true := by
    intro k hk
    obtain ⟨entry, he, rfl⟩ := List.mem_map.mp (mem_of_mem_distinctBy hk)
    exact (hplain entry he).1
  have hsorted : (Order.sortBy Key.nameLE entries.events).Pairwise fun a b =>
      a.display ≤ b.display := by
    refine Order.sortBy_pairwise fun a ha b hb => ?_
    rw [Key.eq_text (htext a ha), Key.eq_text (htext b hb)]
    exact Order.textLE_iff
  have hmem {k : Key} : k ∈ Order.sortBy Key.nameLE entries.events ↔ k ∈ entries.events :=
    (Order.sortBy_perm _ _).mem_iff
  obtain ⟨k, hfind, hpair⟩ := Option.map_eq_some_iff.mp hd
  cases hpair
  have hk := hmem.mp (List.mem_of_find?_eq_some hfind)
  have hlength : 1 < (entries.nodesOf event).length := by simpa using List.find?_some hfind
  have hevent := Key.eq_text (htext event hk)
  refine ⟨(shared_iff hg h).mpr ?_, fun other hother => ?_, ?_⟩
  · rw [← hevent]
    exact ⟨hk, hlength⟩
  · obtain ⟨hother, hlength⟩ := (shared_iff hg h).mp hother
    rcases rel_of_find? hsorted hfind (hmem.mpr hother) (decide_eq_true hlength) with rfl | hle
    · exact le_refl _
    · exact hle
  · rw [← nodesOf_text h, ← hevent]

end

end Entries

theorem Entries.add_unreported (entries : Entries) (n : Node) :
    Unreported (add g settings entries n) := by
  refine .bind ((g.typeOf_unreported n.id).bind fun _ => .ok _) fun info => ?_
  dsimp only
  split
  · exact .ok _
  split
  · exact .ok _
  · exact (Value.key_unreported _).bind fun _ => .ok _

/-- An event that is reported would be so within any room. -/
theorem assemble_of_shared {room : Room} {e : Error}
    (h : assemble g settings globals room = .error e) (he : ¬ e.Unshared) :
    assemble g settings globals = .error e := by
  cases room with
  | endless => exact h
  | frames left =>
    have heases : (Room.frames left).Eases Error.Unshared .endless := by
      refine .endless left (fun e' he' => ?_) (by simp [Error.Unshared])
      rintro event nodes rfl
      cases he'
    refine (assemble_eased g settings globals heases fun e' he' => ?_).trans h
    cases h.symm.trans he'
    exact he

/-- Only the check of the entries reports an event. -/
theorem reported_by_check {room : Room} {e : Error}
    (h : assemble g settings globals room = .error e) (he : ¬ e.Unshared) :
    ∃ entries, Entries.ofGraph g settings = .ok entries ∧ entries.check = .error e := by
  have h := assemble_of_shared h he
  rcases assemble_error_cases h with h | ⟨entries, hentries, h | ⟨ce, hdeclare, rfl⟩ | ⟨_, f, _, s, h⟩⟩
  · obtain ⟨n, _, entries, h⟩ := foldlM_error h
    exact absurd (entries.add_unreported n e h) he
  · exact ⟨entries, hentries, h⟩
  · obtain ⟨_, _, _, rfl⟩ := Variable.declare_error hdeclare
    exact absurd (by simp [Error.Unshared]) he
  · exact absurd (Compilation.entry_unshared _ _ _ s e h) he

/-- What the check refuses is refused before anything is emitted. -/
theorem assembleLogged_of_check {e : Error} (hentries : Entries.ofGraph g settings = .ok entries)
    (hcheck : entries.check = .error e) (room : Room) :
    assembleLogged g settings globals room = (.error e, {}) := by
  have hsome : entries.isEmpty = false := by
    rw [← Bool.not_eq_true]
    intro hempty
    have hnamed : entries.named = [] := by
      simpa using (Bool.and_eq_true_iff.mp hempty).1
    have hevents : entries.events = [] := by simp [Entries.events, hnamed, Association.distinctBy]
    rw [Entries.check_of_none (by simp [Entries.comparable, hevents])
      (by simp [Entries.duplicate?, hevents, Order.sortBy])] at hcheck
    cases hcheck
  unfold assembleLogged
  rw [hentries]
  simp only [hsome, hcheck]
  rfl

/-- Two nodes that answer to one event are reported, whatever else is wrong with the graph or the
variables and whatever room is left, and nothing but that is reported so. Nothing is emitted before,
the event is the first by name, and all nodes that answer to it are told in their order. -/
theorem assemble_shared_iff (hg : g.NamedByText) (settings : Settings) (globals : List Variable)
    (room : Room) :
    ((∃ event nodes, assemble g settings globals room =
        .error (.compile (.duplicateEntry event nodes))) ↔ ∃ event, g.Shared settings event) ∧
    ∀ event nodes,
      assemble g settings globals room = .error (.compile (.duplicateEntry event nodes)) →
      assembleLogged g settings globals room =
        (.error (.compile (.duplicateEntry event nodes)), {}) ∧
      g.Shared settings event ∧ (∀ other, g.Shared settings other → event ≤ other) ∧
      nodes.map Key.text = (g.nodes.filter (g.Claims settings · event)).map Node.id := by
  obtain ⟨entries, hentries⟩ := Entries.exists_ofGraph hg settings
  have hplain := Entries.plain_of_namedByText hg hentries
  have hrefused {event : Key} {nodes : List Key} (hd : entries.duplicate? = some (event, nodes)) :=
    Entries.check_of_some hplain.comparable (fun entry he => (hplain entry he).2) hd
  have hreported {event : String} {nodes : List String}
      (h : assemble g settings globals room = .error (.compile (.duplicateEntry event nodes))) :
      entries.check = .error (.compile (.duplicateEntry event nodes)) := by
    obtain ⟨_, hentries', hcheck⟩ := reported_by_check h (by simp [Error.Unshared])
    cases hentries.symm.trans hentries'
    exact hcheck
  cases hd : entries.duplicate? with
  | none =>
    have hnone {event : String} {nodes : List String} :
        assemble g settings globals room ≠ .error (.compile (.duplicateEntry event nodes)) :=
      fun h => by cases (Entries.check_of_none hplain.comparable hd).symm.trans (hreported h)
    refine ⟨⟨?_, ?_⟩, fun _ _ h => absurd h hnone⟩
    · rintro ⟨_, _, h⟩
      exact absurd h hnone
    · rintro ⟨event, hshared⟩
      exact absurd hshared (Entries.not_shared_of_none hg hentries hd event)
  | some found =>
    obtain ⟨hshared, hleast, hnodes⟩ := Entries.shared_of_some hg hentries hd
    have hlogged :=
      @assembleLogged_of_check g settings globals entries _ hentries (hrefused hd) room
    refine ⟨⟨fun _ => ⟨_, hshared⟩, fun _ => ⟨_, _, congrArg Prod.fst hlogged⟩⟩,
      fun event nodes h => ?_⟩
    cases (hrefused hd).symm.trans (hreported h)
    refine ⟨hlogged, hshared, hleast, ?_⟩
    rw [List.map_map, hnodes, List.map_map]
    exact List.map_congr_left fun n hn =>
      (Key.eq_text (hg.nodes n (List.mem_filter.mp hn).1).id).symm

def reportedEvent? {α : Type} : Except Error α → Option (String × List String)
  | .ok _ => none
  | .error (.compile (.duplicateEntry event nodes)) => some (event, nodes)
  | .error _ => none

theorem eq_of_reportedEvent? {r : Except Error α} {event : String} {nodes : List String}
    (h : reportedEvent? r = some (event, nodes)) :
    r = .error (.compile (.duplicateEntry event nodes)) := by
  unfold reportedEvent? at h
  split at h
  · cases h
  · cases h
    rfl
  · cases h

/-- A node of a document that has no wires, with the event that it is said to answer to. -/
def entryNode (id : Key) (definition : String) (event : Value) : Value := .object [("id", id),
  ("definitionId", .text definition), ("isEntryPoint", .bool true), ("eventName", event)]

/-- Two pairs of nodes that answer to one event each. The first pair does so at the higher rate
only. -/
def crowded : Value := .object [("nodes", .list [entryNode "x" "graphics_cls" (.text "tick"),
  entryNode "u" "event_update" .null, entryNode "y" "graphics_cls" (.text "tick"),
  entryNode "v" "graphics_cls" (.text "_update60")])]

theorem assemble_shared_iff_crowded : ∃ g, Graph.load crowded Library.catalogue = .ok g ∧
    g.NamedByText ∧
    let settings : Settings := { use60fps := .bool true, maxSteps := .int 0 }
    let globals : List Variable := [⟨"s", "Score", .number, .text "high"⟩]
    (∃ e, Variable.declare globals = .error e) ∧
    assembleLogged g settings globals (.frames 0) =
      (.error (.compile (.duplicateEntry "_update60" ["u", "v"])), {}) ∧
    ∀ other, g.Shared settings other → "_update60" ≤ other := by
  have heval : ((Graph.load crowded Library.catalogue).toOption.any fun g =>
      (g.nodes.all fun n => n.id.isText && n.eventName.isReference &&
        (g.typeOf n.id).toOption.any fun t => t.eventName.isReference) &&
      reportedEvent? (assemble g { use60fps := .bool true, maxSteps := .int 0 }
        [⟨"s", "Score", .number, .text "high"⟩] (.frames 0)) ==
          some ("_update60", ["u", "v"])) = true := by
    decide +kernel
  obtain ⟨g, hload, heval⟩ := exists_ok_of_any heval
  obtain ⟨hnodes, hreported⟩ := Bool.and_eq_true_iff.mp heval
  have hg : g.NamedByText := by
    have hnode {n : Node} (hn : n ∈ g.nodes) := List.all_eq_true.mp hnodes n hn
    simp only [Bool.and_eq_true] at hnode
    refine ⟨(Loaded.of_load hload).ids, fun n hn => ⟨(hnode hn).1.1, (hnode hn).1.2⟩,
      fun n hn => exists_ok_of_any (hnode hn).2⟩
  obtain ⟨hlogged, _, hleast, _⟩ := (assemble_shared_iff hg _ _ _).2 _ _
    (eq_of_reportedEvent? (eq_of_beq hreported))
  exact ⟨g, hload, hg, ⟨_, rfl⟩, hlogged, hleast⟩

end Program

end CartGraph
