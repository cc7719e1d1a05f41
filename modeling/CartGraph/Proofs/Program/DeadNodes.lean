import CartGraph.Proofs.Emit.Mirror
import CartGraph.Proofs.Graph.RoundTrip

/-! # Dead nodes

A graph may be given more nodes that start no function, and connections that only lead to them. Of
what it says about the nodes that were there, this changes one thing: a call that was waiting for
its event may find a node to take inputs from. No signature belongs to this node, so the call is
still one of a missing event, and its inputs are not read. A walk from the old entries never leaves
the old nodes, and the program stays as it was. What does change is the room: the stack grows with
the nodes of a graph, and so more of them may help out a program that ran out of it
(`compile_dead_nodes`). -/
namespace CartGraph

/-- A document lists all that another lists, in the same order, and more in between. -/
structure Document.Extends (document extended : Table) : Prop where
  nodes : ∃ old all, Graph.listField document "nodes" = .ok old ∧
    Graph.listField extended "nodes" = .ok all ∧ old.Sublist all
  connections : ∃ old all, Graph.listField document "connections" = .ok old ∧
    Graph.listField extended "connections" = .ok all ∧ old.Sublist all

/-- What a graph has more than another is dead: new nodes start no function, and new connections
lead to new nodes, those that leave old nodes as values. -/
structure Graph.AddsDead (g g' : Graph) : Prop where
  entries : ∀ n ∈ g'.nodes, g.hasNode n.id = false →
    ∀ entry event, g'.entryInfo n = .ok (entry, event) → entry.truthy = false
  connections : ∀ c ∈ g'.connections, c.wire ∉ g.connections.map Connection.wire →
    g.hasNode c.targetNode = false ∧ (g.hasNode c.sourceNode = false ∨ c.isExec = false)

/-! ## What is listed in part -/

/-- What entries stand for is listed in part if the entries are. -/
theorem sublist_of_forall₂ {R : α → β → Prop} {l l' : List α} {m m' : List β}
    (h : List.Forall₂ R l m) (h' : List.Forall₂ R l' m') (hl : l.Sublist l')
    (hR : ∀ {a b b'}, R a b → R a b' → b' = b) : m.Sublist m' := by
  induction hl generalizing m m' with
  | slnil =>
    cases h
    cases h'
    exact .slnil
  | cons a _ ih =>
    cases h' with
    | cons _ h' => exact (ih h h').cons _
  | cons_cons a _ ih =>
    cases h with
    | cons hb h =>
      cases h' with
      | cons hb' h' =>
        cases hR hb hb'
        exact (ih h h').cons_cons _

/-- A fold over a list is one over a part of it, if the steps in between do nothing. -/
theorem foldlM_sublist {f f' : β → α → Except ε β} {l l' : List α} (hl : l.Sublist l')
    (hdistinct : l'.Nodup) (hsame : ∀ a ∈ l, ∀ b, f' b a = f b a)
    (hskip : ∀ a ∈ l', a ∉ l → ∀ b, f' b a = .ok b) (b : β) : l'.foldlM f' b = l.foldlM f b := by
  induction hl generalizing b with
  | slnil => rfl
  | cons a hl ih =>
    obtain ⟨hnew, hdistinct⟩ := List.nodup_cons.mp hdistinct
    rw [List.foldlM_cons, hskip a (.head _) fun ha => hnew (hl.subset ha)]
    exact ih hdistinct hsame (fun x hx => hskip x (.tail _ hx)) b
  | cons_cons a hl ih =>
    obtain ⟨hnew, hdistinct⟩ := List.nodup_cons.mp hdistinct
    rw [List.foldlM_cons, List.foldlM_cons, hsame a (.head _)]
    refine bind_congr_of fun b' _ =>
      ih hdistinct (fun x hx => hsame x (.tail _ hx)) (fun x hx hout => ?_) b'
    refine hskip x (.tail _ hx) fun hx' => ?_
    rcases List.mem_cons.mp hx' with rfl | hx'
    · exact hnew hx
    · exact hout hx'

structure Graph.Enlarged (g g' : Graph) : Prop where
  nodes : g.nodes.Sublist g'.nodes
  wires : (g.connections.map Connection.wire).Sublist (g'.connections.map Connection.wire)

theorem Document.Extends.enlarged {document extended : Table} {g g' : Graph}
    (h : Extends document extended)
    (hload : Graph.load (.table document) Library.catalogue = .ok g)
    (hload' : Graph.load (.table extended) Library.catalogue = .ok g') : g.Enlarged g' := by
  obtain ⟨values, raws, hvalues, hraws, hnodes, hwires⟩ := Graph.load_reads hload
  obtain ⟨values', raws', hvalues', hraws', hnodes', hwires'⟩ := Graph.load_reads hload'
  constructor
  · obtain ⟨old, all, hold, hall, hsub⟩ := h.nodes
    cases hvalues.symm.trans hold
    cases hvalues'.symm.trans hall
    exact sublist_of_forall₂ hnodes hnodes' hsub Graph.Describes.unique
  · obtain ⟨old, all, hold, hall, hsub⟩ := h.connections
    cases hraws.symm.trans hold
    cases hraws'.symm.trans hall
    obtain ⟨part, hsub, hpart⟩ := List.sublist_map_iff.mp hsub
    cases List.map_injective_iff.mpr (fun _ _ h => Value.table.inj h) hpart
    exact sublist_of_forall₂ hwires hwires' hsub Graph.Names.unique

/-! ## Old nodes -/

section

variable {g g' : Graph} (hg : Loaded g) (hg' : Loaded g') (h : g.Enlarged g')
include hg hg' h

namespace Graph

theorem Enlarged.grows : g.Grows g' := .of_nodes hg hg' fun _ hn => h.nodes.subset hn

/-- A connection is kept with its kind. -/
theorem Enlarged.connection {c : Connection} (hc : c ∈ g.connections) : c ∈ g'.connections := by
  obtain ⟨d, hd, hw⟩ := List.mem_map.mp (h.wires.subset (List.mem_map_of_mem hc))
  obtain ⟨source, target, hj⟩ := hg.joins c hc
  obtain ⟨source', target', hj'⟩ := hg'.joins d hd
  have hkept := (h.grows hg hg').joins hg.toRepresented hj
  exact hkept.eq_of_wire hj' hw ▸ hd

variable (hdead : g.AddsDead g')
include hdead

/-- A connection that is there is an old one, unless it is a dead one. -/
theorem AddsDead.old {c : Connection} (hc : c ∈ g'.connections)
    (halive : g.hasNode c.targetNode = true ∨ c.isExec = true ∧ g.hasNode c.sourceNode = true) :
    c ∈ g.connections := by
  by_cases hw : c.wire ∈ g.connections.map Connection.wire
  · obtain ⟨d, hd, hw⟩ := List.mem_map.mp hw
    obtain ⟨source, target, hj⟩ := hg'.joins d (h.connection hg hg' hd)
    obtain ⟨source', target', hj'⟩ := hg'.joins c hc
    exact hj.eq_of_wire hj' hw.symm ▸ hd
  · obtain ⟨htarget, hsource⟩ := hdead.connections c hc hw
    rcases halive with halive | ⟨hexec, halive⟩
    · rw [halive] at htarget
      cases htarget
    · rcases hsource with hsource | hsource
      · rw [halive] at hsource
        cases hsource
      · rw [hexec] at hsource
        cases hsource

/-- Old nodes are what they were, and connections lead from them to old nodes. -/
theorem AddsDead.agrees : g.Agrees (fun n => g.hasNode n = true) g' := by
  have hold {a n : Key} (hn : g.hasNode n = true) (ha : a.canonical = n.canonical) :
      g.hasNode a = true := by
    rw [Loaded.hasNode_iff] at hn ⊢
    rwa [ha]
  refine {
    typeOf := fun hn => (h.grows hg hg').typeOf hn
    node := fun hn => congrArg _ ((h.grows hg hg').node hn)
    incoming := fun hn => hg.incoming?_eq hg' fun c ht =>
      ⟨fun hc => hdead.old hg hg' h hc (.inl (hold hn ht)), h.connection hg hg'⟩
    source := fun _ _ _ hw => (hg.ends _ ((hg.incoming _ _).mp hw).1).1
    execTargets := fun hn => hg.execTargets_eq hg' fun c hx hs =>
      ⟨fun hc => hdead.old hg hg' h hc (.inr ⟨hx, hold hn hs⟩), h.connection hg hg'⟩
    target := fun _ _ _ hm => ?_ }
  obtain ⟨c, hc, _, _, rfl⟩ := hg.mem_execTargets.mp hm
  exact (hg.ends c hc).2.1

end Graph

/-- An old call that has other inputs than before was waiting for its event, and no signature is
found for what it refers to. -/
theorem Graph.Enlarged.missing {settings : Settings} {entries : Program.Entries}
    (hentries : Program.Entries.ofGraph g settings = .ok entries) (names : List (String × String))
    {node : Key} (hn : g.hasNode node = true) :
    g'.pinsOf node = g.pinsOf node ∨
      (Program.compilation g settings entries names).Missing node := by
  refine ((h.grows hg hg').pinsOf hn).imp id fun ⟨t, m, ht, hm, hd, id, hid, hnone⟩ => ?_
  have hmem := hg.type_mem ht
  have hst := (Library.arguments_iff t hmem).mp hd
  refine ⟨⟨t, ht, Library.arguments_expression t hmem hd, hst⟩, fun target htarget => ?_⟩
  cases Library.callEvent_type hmem hst
  cases hfound : (Program.compilation g settings entries names).event? target with
  | none => rfl
  | some signature =>
    unfold Compilation.event? at hfound
    split at hfound
    · rename_i id'
      have hkey := Compilation.key_of_property
        (c := Program.compilation g settings entries names) ht hm htarget
      cases hid.symm.trans hkey
      obtain ⟨event, hevent, hcanonical, _⟩ := Signature.ofNodes_ofNode hfound
      have hevent := ((Program.Entries.lists_of_graph hentries).custom event hevent).1
      have hfound : g.node? (.text id') = some event := hg.node?_of_mem hevent hcanonical
      rw [hfound] at hnone
      cases hnone
    · cases hfound

/-- New nodes that start no function are passed by. -/
theorem Graph.AddsDead.ofGraph (hdead : g.AddsDead g') (htyped : ∀ n ∈ g'.nodes, n.Typed)
    (settings : Settings) :
    Program.Entries.ofGraph g' settings = Program.Entries.ofGraph g settings := by
  have hdistinct : g'.nodes.Nodup := hg'.ids.of_map
  have hold {n : Node} (hn : n ∈ g.nodes) : g.hasNode n.id = true :=
    Loaded.hasNode_iff.mpr (List.mem_map_of_mem hn)
  refine foldlM_sublist h.nodes hdistinct (fun n hn entries => ?_) (fun n hn hnew entries => ?_) _
  · have hinfo : g'.entryInfo n = g.entryInfo n := by
      rw [Graph.entryInfo, Graph.entryInfo, (h.grows hg hg').typeOf (hold hn)]
    rw [Program.Entries.add, Program.Entries.add, hinfo]
  · have hfree : g.hasNode n.id = false := by
      rw [Bool.eq_false_iff, Ne, Loaded.hasNode_iff]
      intro hid
      obtain ⟨m, hm, hid⟩ := List.mem_map.mp hid
      have hsame := List.inj_on_of_nodup_map hg'.ids (h.nodes.subset hm) hn hid
      exact hnew (hsame ▸ hm)
    obtain ⟨t, _, hfind, _⟩ := htyped n hn
    have htype : g'.typeOf n.id = .ok t :=
      Graph.typeOf_ok_iff.mpr ⟨n, hg'.node?_of_mem hn rfl, hg'.catalogue ▸ hfind⟩
    cases hinfo : g'.entryInfo n with
    | error e =>
      rw [Graph.entryInfo, htype] at hinfo
      cases hinfo
    | ok info =>
      have hentry := hdead.entries n hn hfree info.1 info.2 hinfo
      rw [Program.Entries.add, hinfo]
      simp [hentry, bind, Except.bind, pure, Except.pure]

end

/-- Nodes that start no function, and connections that only lead to them, change nothing within the
same room: the program is the same, and so is the error if there is none. But each of them adds
frames to the stack. So the larger graph is compiled as the smaller one would be with as many frames
more, and both are compiled alike unless the stack does not suffice for the smaller one. -/
theorem compile_dead_nodes {document extended : Table} {g g' : Graph}
    (hload : Graph.load (.table document) Library.catalogue = .ok g)
    (hload' : Graph.load (.table extended) Library.catalogue = .ok g')
    (hextends : Document.Extends document extended) (hdead : g.AddsDead g') (settings : Settings)
    (globals : List Variable) :
    (∀ room, Program.assemble g' settings globals room =
      Program.assemble g settings globals room) ∧
    (∀ left, Program.compile g' settings globals left = Program.compile g settings globals
      (left + Program.framesPerNode * (g'.nodes.length - g.nodes.length))) ∧
    ∀ left, Program.compile g settings globals left ≠ .error (Program.outOfRoom settings) →
      Program.compile g' settings globals left = Program.compile g settings globals left := by
  have hg := Loaded.of_load hload
  have hg' := Loaded.of_load hload'
  have h := hextends.enlarged hload hload'
  have hsame (room : Room) : Program.assemble g' settings globals room =
      Program.assemble g settings globals room := by
    refine Program.assemble_mirrors (P := fun _ => False) (S := fun n => g.hasNode n = true)
      (hdead.ofGraph hg hg' h (Built.of_load hload') settings) (fun entries names hentries => ?_)
      (fun n hn => Loaded.hasNode_iff.mpr (List.mem_map_of_mem hn)) (.same room)
      fun _ _ hfalse => hfalse
    exact (hdead.agrees hg hg' h).resembles (h.missing hg hg' hentries names) (fun _ => rfl) rfl rfl
  have hmore (left : Nat) : Program.compile g' settings globals left =
      Program.compile g settings globals
        (left + Program.framesPerNode * (g'.nodes.length - g.nodes.length)) := by
    have hroom : Program.roomFor g' left = Program.roomFor g
        (left + Program.framesPerNode * (g'.nodes.length - g.nodes.length)) := by
      rw [Program.roomFor, Program.roomFor, Nat.add_assoc, ← Nat.mul_add,
        Nat.sub_add_cancel h.nodes.length_le]
    rw [Program.compile_eq, Program.compile_eq, hroom, hsame]
  refine ⟨hsame, hmore, fun left hfits => ?_⟩
  rw [hmore]
  exact Program.compile_eased (Nat.le_add_right _ _) hfits

/-- That a graph adds nothing but what is dead, as a test. -/
def Graph.addsDead (g g' : Graph) : Bool :=
  (g'.nodes.all fun n => g.hasNode n.id ||
    (g'.entryInfo n).toOption.all fun info => !info.1.truthy) &&
  g'.connections.all fun c => (g.connections.map Connection.wire).contains c.wire ||
    !g.hasNode c.targetNode && (!g.hasNode c.sourceNode || !c.isExec)

theorem Graph.addsDead_of_test {g g' : Graph} (h : g.addsDead g' = true) : g.AddsDead g' := by
  obtain ⟨hentries, hconnections⟩ := Bool.and_eq_true_iff.mp h
  constructor
  · intro n hn hnew entry event hinfo
    have hentry := List.all_eq_true.mp hentries n hn
    rw [hnew, hinfo] at hentry
    simpa [Except.toOption] using hentry
  · intro c hc hnew
    have hwire := List.all_eq_true.mp hconnections c hc
    simpa [hnew] using hwire

/-- A call that waits for its event, with other nodes and connections in between. -/
def waitingCall (nodes connections : List Value) : Table :=
  let node (id type : String) (properties : List (String × Value)) : Value := .object
    [("id", .text id), ("definitionId", .text type), ("properties", .object properties)]
  [(.text "nodes", .list (node "start" "event_start" [] :: nodes ++
      [node "call" "call_custom_event" [("eventId", .text "later")], node "score" "get_var" []])),
    (.text "connections", .list (connections ++ [.object [("fromNode", .text "start"),
      ("fromPin", .text "exec_out"), ("toNode", .text "call"), ("toPin", .text "exec_in")]]))]

/-- The event that the call waits for, made no entry, and what follows it. -/
def deadEvent : List Value := [
  .object [("id", .text "later"), ("definitionId", .text "custom_event"),
    ("isEntryPoint", .bool false), ("properties", .object
      [("parameters", .list [.object [("id", .text "n"), ("name", .text "n")]])])],
  .object [("id", .text "set"), ("definitionId", .text "set_var")]]

def deadWires : List Value := [
  .object [("fromNode", .text "later"), ("fromPin", .text "exec_out"), ("toNode", .text "set"),
    ("toPin", .text "exec_in")],
  .object [("fromNode", .text "score"), ("fromPin", .text "value"), ("toNode", .text "set"),
    ("toPin", .text "value")]]

theorem compile_dead_nodes_waitingCall : ∃ g g' text,
    Graph.load (.table (waitingCall [] [])) Library.catalogue = .ok g ∧
    Graph.load (.table (waitingCall deadEvent deadWires)) Library.catalogue = .ok g' ∧
    Document.Extends (waitingCall [] []) (waitingCall deadEvent deadWires) ∧ g.AddsDead g' ∧
    g.findPin? "call" (.text "arg_n") = .ok none ∧ g'.findPin? "call" (.text "arg_n") ≠ .ok none ∧
    Program.compile g {} [] = .ok text ∧ Program.compile g' {} [] = .ok text := by
  have heval : ((Graph.load (.table (waitingCall [] [])) Library.catalogue).toOption.any fun g =>
      (Graph.load (.table (waitingCall deadEvent deadWires))
          Library.catalogue).toOption.any fun g' => g.addsDead g' &&
        (g.findPin? "call" (.text "arg_n")).toOption.any Option.isNone &&
        (g'.findPin? "call" (.text "arg_n")).toOption.any Option.isSome &&
        (Program.compile g {} []).isOk) = true := by
    decide +kernel
  obtain ⟨g, hload, heval⟩ := exists_ok_of_any heval
  obtain ⟨g', hload', heval⟩ := exists_ok_of_any heval
  simp only [Bool.and_eq_true] at heval
  obtain ⟨⟨⟨hdead, hpin⟩, hpin'⟩, hmade⟩ := heval
  have hextends : Document.Extends (waitingCall [] []) (waitingCall deadEvent deadWires) :=
    ⟨⟨_, _, rfl, rfl, .cons_cons _ (List.sublist_append_right ..)⟩,
      ⟨_, _, rfl, rfl, List.sublist_append_right ..⟩⟩
  have hdead := Graph.addsDead_of_test hdead
  obtain ⟨pin, hpin, hnone⟩ := exists_ok_of_any hpin
  obtain ⟨pin', hpin', hsome⟩ := exists_ok_of_any hpin'
  cases hmade' : Program.compile g {} [] with
  | error e =>
    rw [hmade'] at hmade
    cases hmade
  | ok text =>
    have hsame := (compile_dead_nodes hload hload' hextends hdead {} []).2.2 Room.start fun he => by
      cases hmade'.symm.trans he
    refine ⟨g, g', text, hload, hload', hextends, hdead, ?_, fun h => ?_, hmade',
      hsame.trans hmade'⟩
    · rw [hpin, Option.isNone_iff_eq_none.mp hnone]
    · rw [hpin'] at h
      cases h
      cases hsome

/-- A variable that is set to a list in a list, and so on, with other nodes behind. -/
def deepValue (nodes : List Value) : Table :=
  [(.text "nodes", .list ([.object [("id", .text "boot"), ("definitionId", .text "event_start")],
      .object [("id", .text "keep"), ("definitionId", .text "set_var"),
        ("properties", .object [("name", .text "t"), ("pin:value", Lua.nested 344)])]] ++ nodes)),
    (.text "connections", .list [.object [("fromNode", .text "boot"),
      ("fromPin", .text "exec_out"), ("toNode", .text "keep"), ("toPin", .text "exec_in")]])]

def unread (count : Nat) : List Value := (List.range count).map fun i => .object
  [("id", .text ("dead" ++ toString i)), ("definitionId", .text "get_var")]

/-- The stack does not suffice for a value that is nested deep, but it does when the graph has more
nodes, although nothing leads to them. -/
theorem deepValue_outOfRoom : ∃ g g' text,
    Graph.load (.table (deepValue [])) Library.catalogue = .ok g ∧
    Graph.load (.table (deepValue (unread 20))) Library.catalogue = .ok g' ∧
    Document.Extends (deepValue []) (deepValue (unread 20)) ∧ g.AddsDead g' ∧
    Program.compile g {} [] = .error (Program.outOfRoom {}) ∧
    Program.compile g' {} [] = .ok text := by
  have heval : ((Graph.load (.table (deepValue [])) Library.catalogue).toOption.any fun g =>
      (Graph.load (.table (deepValue (unread 20))) Library.catalogue).toOption.any fun g' =>
        g.addsDead g' && !(Program.compile g {} []).isOk &&
        (Program.compile g {} [] (2 * Room.start)).isOk && (Program.compile g' {} []).isOk) =
      true := by
    decide +kernel
  obtain ⟨g, hload, heval⟩ := exists_ok_of_any heval
  obtain ⟨g', hload', heval⟩ := exists_ok_of_any heval
  simp only [Bool.and_eq_true, Bool.not_eq_true'] at heval
  obtain ⟨⟨⟨hdead, hfails⟩, heased⟩, hmade⟩ := heval
  have hextends : Document.Extends (deepValue []) (deepValue (unread 20)) :=
    ⟨⟨_, _, rfl, rfl, List.sublist_append_left ..⟩, ⟨_, _, rfl, rfl, .refl _⟩⟩
  have hroom : Program.compile g {} [] = .error (Program.outOfRoom {}) := by
    by_contra hother
    have hle : Room.start ≤ 2 * Room.start := by decide
    rw [Program.compile_eased hle hother, hfails] at heased
    cases heased
  cases hmade' : Program.compile g' {} [] with
  | error e =>
    rw [hmade'] at hmade
    cases hmade
  | ok text =>
    exact ⟨g, g', text, hload, hload', hextends, Graph.addsDead_of_test hdead, hroom, hmade'⟩

end CartGraph
