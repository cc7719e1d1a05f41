import CartGraph.Proofs.Emit.ExecCycles
import CartGraph.Proofs.Program.CallPins
import CartGraph.Proofs.Program.Functions

/-! # How a compile fails

A document that passes the check names its nodes and their events by texts, so entry nodes can be
sorted and told by name. If custom events are of the type of custom events, calls have all their
pins. What is left are faults of the graph, each told of a node where a function is emitted, and
settings that are of no use. -/
namespace CartGraph

/-! ## Nodes of documents that pass the check -/

/-- A node that is named by a text, and answers to an event that is named by a text, if it says so
itself. -/
structure Node.Plain (n : Node) : Prop where
  id : n.id.isText = true
  eventName : n.eventName.isReference = true

theorem Document.Accepted.plain {document : Table} {g : Graph} (h : Accepted document)
    (hload : Graph.load (.table document) Library.catalogue = .ok g) : ∀ n ∈ g.nodes, n.Plain := by
  intro n hn
  obtain ⟨v, hv, d, t, hread, _, hid, hn⟩ := Graph.describes_of_load h.nodes hload n hn
  obtain ⟨raw, hraw, rfl⟩ := List.mem_map.mp hv
  have hentry := h.entries raw hraw
  obtain ⟨_, htable, hread⟩ := bind_ok hread
  cases htable
  obtain ⟨_, _, hread⟩ := bind_ok hread
  obtain ⟨_, _, hread⟩ := bind_ok hread
  obtain ⟨_, hfield, hread⟩ := bind_ok hread
  cases (Graph.requireField_of_get? hentry.id).symm.trans hfield
  obtain ⟨_, _, hread⟩ := bind_ok hread
  obtain ⟨_, _, hread⟩ := bind_ok hread
  cases hread
  refine ⟨?_, hn ▸ hentry.eventName⟩
  rw [← Except.ok.inj hid]
  rfl

theorem Key.eq_of_isText {a b : Key} (ha : a.isText = true) (h : b.canonical = a.canonical) :
    b = a := by
  cases a with
  | text s => exact canonical_eq_text h
  | null | bool | int | float => cases ha

theorem Key.eq_text {k : Key} (h : k.isText = true) : k = .text k.display := by
  cases k with
  | text s => rfl
  | null | bool | int | float => cases h

/-- The node that an id names, among nodes that are named by texts. -/
theorem Graph.exists_id {g : Graph} (hplain : ∀ n ∈ g.nodes, n.Plain) {id : Key}
    (h : g.hasNode id = true) : ∃ n ∈ g.nodes, id = n.id := by
  obtain ⟨n, hn, hid⟩ := List.mem_map.mp (Loaded.hasNode_iff.mp h)
  exact ⟨n, hn, Key.eq_of_isText (hplain n hn).id hid.symm⟩

/-! ## Entry nodes -/

theorem Library.eventName_isReference : ∀ t ∈ types, t.eventName.isReference = true := by
  decide

theorem Value.isReference_key {v : Value} (h : v.isReference = true) (ht : v.truthy = true) :
    ∃ s, v.key = .ok (.text s) := by
  cases v with
  | null => cases ht
  | text s => exact ⟨s, rfl⟩
  | omitted | bool | int | float | list | table => cases h

theorem Graph.entryInfo_error {g : Graph} {n : Node} {e : Error} (hn : n ∈ g.nodes)
    (h : g.entryInfo n = .error e) : ∃ ce, e = .compile ce := by
  rcases bind_error h with h | ⟨t, _, h⟩
  · obtain ⟨_, _, _, he⟩ :=
      typeOf_error (Loaded.hasNode_iff.mpr (List.mem_map_of_mem hn)) h
    exact ⟨_, he⟩
  · cases h

theorem Graph.entryInfo_isReference {g : Graph} {n : Node} (hn : n.eventName.isReference = true)
    (htype : ∀ t, g.typeOf n.id = .ok t → t.eventName.isReference = true)
    {entry event : Value} (h : g.entryInfo n = .ok (entry, event)) : event.isReference = true := by
  obtain ⟨t, ht, h⟩ := bind_ok h
  cases h
  unfold Value.orElse
  split
  · exact hn
  · exact htype t ht

theorem Graph.entryInfo_event {g : Graph} (hr : Represented g) {n : Node} (hn : n.Plain)
    {entry event : Value} (h : g.entryInfo n = .ok (entry, event)) : event.isReference = true :=
  entryInfo_isReference hn.eventName
    (fun t ht => Library.eventName_isReference t (hr.type_mem ht)) h

namespace Program.Entries

variable {g : Graph} {settings : Settings} {entries : Entries} {e : Error}

theorem add_of_isReference {n : Node} {entry event : Value}
    (hinfo : g.entryInfo n = .ok (entry, event)) (hevent : event.isReference = true) :
    ∃ entries', add g settings entries n = .ok entries' := by
  rw [add, hinfo]
  simp only [bind, Except.bind]
  split
  · exact ⟨_, rfl⟩
  split
  · exact ⟨_, rfl⟩
  · rename_i htruthy
    obtain ⟨s, hs⟩ := Value.isReference_key hevent (by simpa using htruthy)
    rw [hs]
    exact ⟨_, rfl⟩

theorem add_error (hr : Represented g) {n : Node} (hn : n ∈ g.nodes) (hplain : n.Plain)
    (h : add g settings entries n = .error e) : ∃ ce, e = .compile ce := by
  rcases hinfo : g.entryInfo n with e' | ⟨entry, event⟩
  · rw [add, hinfo] at h
    cases h
    exact Graph.entryInfo_error hn hinfo
  · obtain ⟨_, hadd⟩ := add_of_isReference hinfo (Graph.entryInfo_event hr hplain hinfo)
    cases hadd.symm.trans h

theorem ofGraph_error (hr : Represented g) (hplain : ∀ n ∈ g.nodes, n.Plain)
    (h : ofGraph g settings = .error e) : ∃ ce, e = .compile ce := by
  obtain ⟨n, hn, entries, h⟩ := foldlM_error h
  exact add_error hr hn (hplain n hn) h

def Plain (entries : Entries) : Prop :=
  ∀ entry ∈ entries.named, entry.1.isText = true ∧ entry.2.isText = true

theorem plain_of_references (hids : ∀ n ∈ g.nodes, n.id.isText = true)
    (hevents : ∀ n ∈ g.nodes, ∀ entry event, g.entryInfo n = .ok (entry, event) →
      event.isReference = true)
    (h : ofGraph g settings = .ok entries) : entries.Plain := by
  intro entry he
  obtain ⟨n, hn, event, ⟨_, v, hinfo, _, htruthy, hkey⟩, rfl⟩ := (mem_named h).mp he
  obtain ⟨s, hs⟩ := Value.isReference_key (hevents n hn _ _ hinfo) htruthy
  cases hs.symm.trans hkey
  refine ⟨?_, hids n hn⟩
  unfold remap
  split <;> rfl

theorem plain_of_graph (hr : Represented g) (hplain : ∀ n ∈ g.nodes, n.Plain)
    (h : ofGraph g settings = .ok entries) : entries.Plain :=
  plain_of_references (fun n hn => (hplain n hn).id)
    (fun n hn _ _ hinfo => Graph.entryInfo_event hr (hplain n hn) hinfo) h

theorem mem_of_mem_distinctBy [DecidableEq κ] {key : α → κ} {seen : List κ} {l : List α} {a : α}
    (h : a ∈ Association.distinctBy key seen l) : a ∈ l := by
  induction l generalizing seen with
  | nil => cases h
  | cons b rest ih =>
    unfold Association.distinctBy at h
    split at h
    · exact .tail _ (ih h)
    · rcases List.mem_cons.mp h with rfl | h
      · exact .head _
      · exact .tail _ (ih h)

theorem Plain.comparable (h : entries.Plain) : entries.comparable = true := by
  have hall : entries.events.all Key.isText = true := by
    refine List.all_eq_true.mpr fun event hevent => ?_
    obtain ⟨entry, he, rfl⟩ := List.mem_map.mp (mem_of_mem_distinctBy hevent)
    exact (h entry he).1
  simp [Entries.comparable, hall]

theorem mapM_idText {ids : List Key} (h : ∀ id ∈ ids, id.isText = true) :
    ids.mapM idText = .ok (ids.map Key.display) := by
  induction ids with
  | nil => rfl
  | cons id rest ih =>
    obtain ⟨hid, hrest⟩ := List.forall_mem_cons.mp h
    rw [List.mapM_cons, ih hrest, Key.eq_text hid]
    rfl

theorem check_of_none (hc : entries.comparable = true) (hd : entries.duplicate? = none) :
    entries.check = .ok () := by
  rw [check, hc, hd]
  rfl

/-- Two nodes that answer to one event are refused by name. -/
theorem check_of_some (hc : entries.comparable = true)
    (hids : ∀ entry ∈ entries.named, entry.2.isText = true) {event : Key} {nodes : List Key}
    (hd : entries.duplicate? = some (event, nodes)) : entries.check =
      .error (.compile (.duplicateEntry event.display (nodes.map Key.display))) := by
  have hnodes : ∀ id ∈ nodes, id.isText = true := by
    obtain ⟨event', _, hpair⟩ := Option.map_eq_some_iff.mp hd
    cases hpair
    intro id hid
    obtain ⟨entry, hentry, rfl⟩ := List.mem_map.mp hid
    exact hids entry (List.mem_filter.mp hentry).1
  rw [check, hc, hd]
  change (nodes.mapM idText >>= fun names => _) = _
  rw [mapM_idText hnodes]
  rfl

/-- Only two nodes that answer to one event are refused. -/
theorem Plain.check_error (h : entries.Plain) (he : entries.check = .error e) :
    ∃ ce, e = .compile ce := by
  cases hd : entries.duplicate? with
  | none => cases (check_of_none h.comparable hd).symm.trans he
  | some found =>
    cases (check_of_some h.comparable (fun entry hentry => (h entry hentry).2) hd).symm.trans he
    exact ⟨_, rfl⟩

end Program.Entries

/-! ## Functions -/

/-- A call of a custom event lacks no pin, so what can not be read is a fault. -/
theorem Compilation.SiteFaults.faults {c : Compilation} (hg : Loaded c.graph)
    {settings : Settings} {entries : Program.Entries}
    (hentries : Program.Entries.ofGraph c.graph settings = .ok entries)
    (hevents : c.events = Signature.ofNodes entries.custom)
    (hcustom : ∀ n ∈ c.graph.nodes, c.graph.OpensCustomEvent n →
      n.definitionId = Library.customEventId)
    {node : Key} {e : Error} (h : c.SiteFaults node e) : c.Faults e := by
  cases h with
  | read h => exact h
  | lacking hst hn ht he hp hpin =>
    have hcall := Calls.of_statement hg.toRepresented hst ht he
    obtain ⟨event, hmem, hrefers⟩ := hcall.refers hevents
    obtain ⟨hmem, hopens⟩ := (Program.Entries.lists_of_graph hentries).custom event hmem
    obtain ⟨pin, hfound⟩ :=
      hcall.findPin?_isSome hg hrefers hmem (hcustom event hmem hopens) hp
    cases hfound.symm.trans hpin

/-- Settings of which each number is an integer. -/
structure Settings.Integral (s : Settings) : Prop where
  maxDepth : ∃ n, s.maxDepth = .int n
  maxSteps : ∃ n, s.maxSteps = .int n
  indentWidth : ∃ n, s.indentWidth = .int n

/-- What remains of unusable settings is an indentation that there is no room for. -/
theorem Settings.Integral.unusable {s : Settings} (hs : s.Integral) {e : Error}
    (h : s.Unusable e) : ∃ n, e = .indentOutOfRange n ∨ e = .indentTooWide n := by
  cases h with
  | depth h =>
    obtain ⟨n, hn⟩ := hs.maxDepth
    exact absurd hn (h n)
  | steps h =>
    obtain ⟨n, hn⟩ := hs.maxSteps
    exact absurd hn (h n)
  | indent h =>
    obtain ⟨n, hn⟩ := hs.indentWidth
    exact absurd hn (h n)
  | range => exact ⟨_, .inl rfl⟩
  | room => exact ⟨_, .inr rfl⟩

theorem Compilation.entry_error {c : Compilation} (hg : Loaded c.graph)
    (hplain : ∀ n ∈ c.graph.nodes, n.Plain)
    {settings : Settings} {entries : Program.Entries}
    (hentries : Program.Entries.ofGraph c.graph settings = .ok entries)
    (hevents : c.events = Signature.ofNodes entries.custom)
    (hcustom : ∀ n ∈ c.graph.nodes, c.graph.OpensCustomEvent n →
      n.definitionId = Library.customEventId)
    {n : Node} (hn : n ∈ c.graph.nodes) {level : Int} {s : Progress} {e : Error}
    (h : (c.entry n.id level s).1 = .error e) :
    (∃ ce, e = .compile ce ∧ ∃ m ∈ c.graph.nodes, ce.nodeId = m.id) ∨ c.settings.Unusable e := by
  have hid := Loaded.hasNode_iff.mpr (List.mem_map_of_mem hn)
  cases c.entry_raises hg hid level s e h with
  | read hsite =>
    cases hsite.faults hg hentries hevents hcustom with
    | node hnode he _ =>
      obtain ⟨m, hm, rfl⟩ := Graph.exists_id hplain hnode
      exact .inl ⟨_, rfl, m, hm, he⟩
    | setting h => exact .inr h
  | cycle hnode _ =>
    refine .inl ⟨_, rfl, n, hn, ?_⟩
    rw [Key.eq_of_isText (hplain n hn).id hnode]
    rfl

/-- A compile answers a text or is refused by a compile error, and an error of a function is told of
a node of the graph. All else is a setting of no use: if these are integers, an indentation that
there is no room for. -/
theorem compile_refuses {catalogue : Option Catalogue} {strict : Bool} {document : Table}
    (hchecked : (Document.check catalogue strict (.table document)).fault = none) {g : Graph}
    (hload : Graph.load (.table document) Library.catalogue = .ok g)
    (hcustom : ∀ n ∈ g.nodes, g.OpensCustomEvent n → n.definitionId = Library.customEventId)
    (settings : Settings) (globals : List Variable) :
    (∀ e, Program.assemble g settings globals = .error e →
      (∃ ce, e = .compile ce) ∨ settings.Unusable e) ∧
    (∀ entries names, Program.Entries.ofGraph g settings = .ok entries →
      ∀ n ∈ g.nodes, ∀ level s e,
        ((Program.compilation g settings entries names).entry n.id level s).1 = .error e →
          (∃ ce, e = .compile ce ∧ ∃ m ∈ g.nodes, ce.nodeId = m.id) ∨ settings.Unusable e) ∧
    (settings.Integral → ∀ e, settings.Unusable e →
      ∃ n, e = .indentOutOfRange n ∨ e = .indentTooWide n) := by
  have hg := Loaded.of_load hload
  have hplain := (Document.accepted_of_check hchecked).plain hload
  have hfunction : ∀ entries names, Program.Entries.ofGraph g settings = .ok entries →
      ∀ n ∈ g.nodes, ∀ level s e,
        ((Program.compilation g settings entries names).entry n.id level s).1 = .error e →
          (∃ ce, e = .compile ce ∧ ∃ m ∈ g.nodes, ce.nodeId = m.id) ∨ settings.Unusable e := by
    intro entries names hentries n hn level s e h
    exact Compilation.entry_error hg hplain hentries rfl hcustom hn h
  refine ⟨fun e h => ?_, hfunction, fun hs e h => hs.unusable h⟩
  rcases Program.assemble_error h with h | ⟨entries, hentries, h | h | ⟨names, f, hf, s, h⟩⟩
  · exact .inl (Program.Entries.ofGraph_error hg.toRepresented hplain h)
  · exact .inl ((Program.Entries.plain_of_graph hg.toRepresented hplain hentries).check_error h)
  · exact .inl h
  · obtain ⟨n, hn, hnode⟩ := Program.functions_node hentries hf
    rw [hnode] at h
    rcases hfunction entries names hentries n hn 1 s e h with ⟨ce, he, _⟩ | h
    · exact .inl ⟨ce, he⟩
    · exact .inr h

def oneStep : Settings := { maxSteps := .int 1 }

theorem compile_refuses_forwardCall : ∃ g,
    (Document.check none true (.table Document.forwardCall)).fault = none ∧
    Graph.load (.table Document.forwardCall) Library.catalogue = .ok g ∧
    (∀ n ∈ g.nodes, g.OpensCustomEvent n → n.definitionId = Library.customEventId) ∧
    ∃ ce, Program.assemble g oneStep [] = .error (.compile ce) := by
  have haccepted : (Document.check none true (.table Document.forwardCall)).fault = none := by
    decide +kernel
  have heval : ((Graph.load (.table Document.forwardCall) Library.catalogue).toOption.any fun g =>
      !(Program.assemble g oneStep []).isOk && g.nodes.all fun n =>
        n.definitionId == Library.customEventId || (g.entryInfo n).toOption.all fun info =>
          !info.1.truthy || info.2.truthy) = true := by
    decide +kernel
  obtain ⟨g, hload, heval⟩ := exists_ok_of_any heval
  obtain ⟨hfails, hnodes⟩ := Bool.and_eq_true_iff.mp heval
  have hcustom : ∀ n ∈ g.nodes, g.OpensCustomEvent n → n.definitionId = Library.customEventId := by
    rintro n hn ⟨entry, event, hinfo, hentry, hevent⟩
    have hn := List.all_eq_true.mp hnodes n hn
    rw [hinfo] at hn
    simpa [Except.toOption, hentry, hevent] using hn
  refine ⟨g, haccepted, hload, hcustom, ?_⟩
  cases h : Program.assemble g oneStep [] with
  | ok text =>
    rw [h] at hfails
    cases hfails
  | error e =>
    rcases (compile_refuses haccepted hload hcustom oneStep []).1 e h with ⟨ce, rfl⟩ | hs
    · exact ⟨ce, rfl⟩
    · cases hs with
      | depth hs | steps hs | indent hs => exact absurd rfl (hs _)
      | range hs hn | room hs hn =>
        cases hs
        exact absurd hn (by decide)

end CartGraph
