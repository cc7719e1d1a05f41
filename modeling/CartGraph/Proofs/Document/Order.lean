import CartGraph.Document.Compile
import CartGraph.Proofs.Emit.Mirror
import CartGraph.Proofs.Graph.Growth
import CartGraph.Proofs.Program.Sorting

/-! # The order of a document

A document may list its nodes and its connections in any order. Whether connections can be made
together does not depend on the order that they are made in, and neither does what is found at a
pin: an input takes one connection, and so does an exec output. Only names can tell the order of
the nodes, since of two custom events with one name the second is numbered. -/
namespace CartGraph

/-- The same items stand in a list of two tables, in some order. -/
def Table.Shuffled (t t' : Table) (name : String) : Prop :=
  ∃ items items', t.get? name = some (.list items) ∧ t'.get? name = some (.list items') ∧
    items.Perm items'

/-- The order of nodes and of connections is all that two documents differ in. -/
structure Document.Reordered (document document' : Table) : Prop where
  nodes : document.Shuffled document' "nodes"
  connections : document.Shuffled document' "connections"
  rest : ∀ name, name ≠ "nodes" → name ≠ "connections" →
    document'.get? name = document.get? name

/-- No two custom events want the same name. -/
def Graph.DistinctEvents (g : Graph) : Prop :=
  ∀ n ∈ g.nodes, ∀ m ∈ g.nodes, g.OpensCustomEvent n → g.OpensCustomEvent m →
    Signature.baseName (Signature.displayNameOf n) =
      Signature.baseName (Signature.displayNameOf m) → n = m

namespace Graph

/-! ## Graphs -/

/-- Wires that can be made together can be made in any order. -/
theorem WellWired.perm {g : Graph} {wires wires' : List Wire} (h : g.WellWired wires)
    (hperm : wires.Perm wires') : g.WellWired wires' where
  fits w hw := h.fits w (hperm.mem_iff.mpr hw)
  inputs := h.inputs.perm hperm fun hne => Ne.symm hne
  execs := by
    have hexecs : wires.Pairwise fun w v => w.source = v.source → ∀ p,
        g.findPin? w.sourceNode w.sourcePin = .ok (some p) ∨
          g.findPin? v.sourceNode v.sourcePin = .ok (some p) → p.isExec = false := by
      refine h.execs.imp_of_mem fun {w v} hw hv hx hs p hp => ?_
      obtain ⟨_, _, hw⟩ := h.fits w hw
      obtain ⟨_, _, hv⟩ := h.fits v hv
      cases hw.source_eq hv hs.symm
      rcases hp with hp | hp
      · exact hx hs p hp
      · cases hv.foundSource.symm.trans hp
        exact hx hs _ hw.foundSource
    have hsymm := hexecs.perm hperm fun hx hs p hp => hx hs.symm p hp.symm
    exact hsymm.imp fun hx hs p hp => hx hs p (.inl hp)

structure Reordered (g g' : Graph) : Prop where
  nodes : g.nodes.Perm g'.nodes
  wires : (g.connections.map Connection.wire).Perm (g'.connections.map Connection.wire)

theorem Reordered.symm {g g' : Graph} (h : g.Reordered g') : g'.Reordered g :=
  ⟨h.nodes.symm, h.wires.symm⟩

section

variable {g g' : Graph} (hg : Loaded g) (hg' : Loaded g')
include hg hg'

theorem node?_of_perm (h : g.nodes.Perm g'.nodes) (id : Key) : g'.node? id = g.node? id :=
  Option.ext fun _ => ⟨(Grows.of_nodes hg' hg fun _ => h.mem_iff.mpr).node?,
    (Grows.of_nodes hg hg' fun _ => h.mem_iff.mp).node?⟩

theorem pinsOf_of_perm (h : g.nodes.Perm g'.nodes) (id : Key) : g'.pinsOf id = g.pinsOf id :=
  pinsOf_of_node? (node?_of_perm hg hg' h) (hg'.catalogue.trans hg.catalogue.symm) id

theorem findPin?_of_perm (h : g.nodes.Perm g'.nodes) (node : Key) (pin : Value) :
    g'.findPin? node pin = g.findPin? node pin := by
  rw [findPin?, findPin?, pinsOf_of_perm hg hg' h]

theorem typeOf_of_perm (h : g.nodes.Perm g'.nodes) (id : Key) : g'.typeOf id = g.typeOf id := by
  rw [typeOf, typeOf, Graph.node, Graph.node, node?_of_perm hg hg' h, hg'.catalogue, hg.catalogue]

theorem entryInfo_of_perm (h : g.nodes.Perm g'.nodes) (n : Node) :
    g'.entryInfo n = g.entryInfo n := by
  rw [entryInfo, entryInfo, typeOf_of_perm hg hg' h]

theorem DistinctEvents.of_perm (h : g.nodes.Perm g'.nodes) (hdistinct : g.DistinctEvents) :
    g'.DistinctEvents := by
  have hopens {n : Node} (hn : g'.OpensCustomEvent n) : g.OpensCustomEvent n := by
    rwa [OpensCustomEvent, entryInfo_of_perm hg hg' h] at hn
  intro n hn m hm hn' hm'
  exact hdistinct n (h.mem_iff.mpr hn) m (h.mem_iff.mpr hm) (hopens hn') (hopens hm')

theorem Reordered.connection (h : g.Reordered g') {c : Connection} (hc : c ∈ g.connections) :
    c ∈ g'.connections := by
  obtain ⟨d, hd, hw⟩ := List.mem_map.mp (h.wires.mem_iff.mp (List.mem_map_of_mem hc))
  obtain ⟨source, target, hj⟩ := hg.joins c hc
  obtain ⟨source', target', hj'⟩ := hg'.joins d hd
  exact (hj.of_pins (findPin?_of_perm hg hg' h.nodes)).eq_of_wire hj' hw ▸ hd

theorem Reordered.agrees (h : g.Reordered g') : g.Agrees (fun _ => True) g' where
  typeOf _ := typeOf_of_perm hg hg' h.nodes _
  node _ := by rw [Graph.node, Graph.node, node?_of_perm hg hg' h.nodes]
  incoming _ := hg.incoming?_eq hg' fun _ _ =>
    ⟨h.symm.connection hg' hg, h.connection hg hg'⟩
  source _ _ _ _ := trivial
  execTargets _ := hg.execTargets_eq hg' fun _ _ _ =>
    ⟨h.symm.connection hg' hg, h.connection hg hg'⟩
  target _ _ _ _ := trivial

end

theorem Reordered.resembles {c c' : Compilation} (hg : Loaded c.graph) (hg' : Loaded c'.graph)
    (h : c.graph.Reordered c'.graph) (hevent : ∀ v, c'.event? v = c.event? v)
    (hglobals : c'.globals = c.globals) (hsettings : c'.settings = c.settings) :
    c.Resembles (fun _ => False) (fun _ => True) c' :=
  (h.agrees hg hg').resembles (fun _ => .inl (pinsOf_of_perm hg hg' h.nodes _)) hevent hglobals
    hsettings

end Graph

/-! ## Programs -/

namespace Program

variable {g g' : Graph} {settings : Settings} {globals : List Variable} {room : Room}

/-- The order of connections does not matter, not even to a program that fails. -/
theorem assemble_reordered_wires (hg : Loaded g) (hg' : Loaded g') (h : g.Reordered g')
    (hnodes : g'.nodes = g.nodes) :
    assemble g' settings globals room = assemble g settings globals room := by
  have hadd : Entries.add g' settings = Entries.add g settings := by
    funext e n
    rw [Entries.add, Entries.add, Graph.entryInfo_of_perm hg hg' h.nodes]
  have hentries : Entries.ofGraph g' settings = Entries.ofGraph g settings := by
    rw [Entries.ofGraph, Entries.ofGraph, hnodes, hadd]
  exact assemble_mirrors hentries
    (fun entries names _ => Graph.Reordered.resembles hg hg' h (fun _ => rfl) rfl rfl)
    (fun _ _ => trivial) (.same room) fun _ _ hfalse => hfalse

/-- The order of nodes does not matter either, if no two custom events want the same name. -/
theorem assemble_reordered (hg : Loaded g) (hg' : Loaded g') (h : g.Reordered g')
    (hplain : ∀ n ∈ g.nodes, n.Plain) (hdistinct : g.DistinctEvents) {text : String}
    (hmade : assemble g settings globals room = .ok text) :
    assemble g' settings globals room = .ok text := by
  rw [assemble_eq] at hmade ⊢
  obtain ⟨entries, hentries, hmade⟩ := bind_ok hmade
  obtain ⟨entries', hentries', hnamed, hcustom⟩ :=
    Entries.ofGraph_perm h.nodes (Graph.typeOf_of_perm hg hg' h.nodes) hentries
  have hplain := Entries.plain_of_graph hg.toRepresented hplain hentries
  have hplain' : entries'.Plain := fun entry he => hplain entry (hnamed.mem_iff.mpr he)
  have hids : (entries.custom.map fun n => n.id.canonical).Nodup :=
    ((Entries.custom_sublist hentries).map _).nodup hg.ids
  have hnames : (entries.custom.map fun n =>
      Signature.baseName (Signature.displayNameOf n)).Nodup := by
    have hlists := Entries.lists_of_graph hentries
    refine List.Nodup.map_on (fun n hn m hm => ?_) hids.of_map
    exact hdistinct n (hlists.custom n hn).1 m (hlists.custom m hm).1 (hlists.custom n hn).2
      (hlists.custom m hm).2
  rw [hentries']
  show entries'.text g' settings globals room = .ok text
  unfold Entries.text at hmade ⊢
  have hempty : entries'.isEmpty = entries.isEmpty := by
    rw [Entries.isEmpty, Entries.isEmpty, hnamed.isEmpty_eq, hcustom.isEmpty_eq]
  rw [hempty]
  split at hmade
  · rename_i he
    rw [if_pos he]
    exact hmade
  rename_i he
  rw [if_neg he]
  obtain ⟨_, hcheck, hmade⟩ := bind_ok hmade
  obtain ⟨declarations, hdeclare, hmade⟩ := bind_ok hmade
  have hevents := (Entries.check_ok_iff hplain.comparable).mp hcheck
  have hcheck' : entries'.check = .ok () :=
    (Entries.check_ok_iff hplain'.comparable).mpr ((hnamed.map _).nodup_iff.mp hevents)
  have hresembles : (compilation g settings entries declarations.names).Resembles
      (fun _ => False) (fun _ => True) (compilation g' settings entries' declarations.names) := by
    refine Graph.Reordered.resembles hg hg' h (fun v => ?_) rfl rfl
    unfold Compilation.event?
    split
    · exact Signature.ofNodes_lookup_perm hcustom hids hnames _
    · rfl
  have hsame (fs : List Function) :
      emitAllOn (compilation g' settings entries' declarations.names) (room.less entryFrames) fs {} =
        emitAllOn (compilation g settings entries declarations.names) (room.less entryFrames) fs {} :=
    (emitAllOn_mirrors hresembles (.same _) fun _ _ => trivial).same {} fun _ _ hfalse => hfalse
  simp only [hcheck', hdeclare, bind, Except.bind, hsame,
    functions_perm hnamed hcustom hplain hevents hids hnames]
  exact hmade

end Program

/-! ## Documents -/

namespace Document

variable {document document' : Table} {g : Graph}

theorem Reordered.symm (h : Reordered document document') : Reordered document' document where
  nodes := by
    obtain ⟨items, items', hitems, hitems', hperm⟩ := h.nodes
    exact ⟨items', items, hitems', hitems, hperm.symm⟩
  connections := by
    obtain ⟨items, items', hitems, hitems', hperm⟩ := h.connections
    exact ⟨items', items, hitems', hitems, hperm.symm⟩
  rest name hn hc := (h.rest name hn hc).symm

/-- A document that is reordered loads if the first one does, as the same graph in another order. -/
theorem Reordered.load (h : Reordered document document')
    (hconnections : document'.get? "connections" =
      some (.list ((document'.tables "connections").map .table)))
    (hload : Graph.load (.table document) Library.catalogue = .ok g) :
    ∃ g', Graph.load (.table document') Library.catalogue = .ok g' ∧ g.Reordered g' ∧
      (document'.get? "nodes" = document.get? "nodes" → g'.nodes = g.nodes) := by
  have hg := Loaded.of_load hload
  obtain ⟨values, raws, hvalues, hraws, hdescribed, hnamed⟩ := Graph.load_reads hload
  obtain ⟨_, values', hitems, hvalues', hperm⟩ := h.nodes
  cases (Graph.listField_of_list hitems).symm.trans hvalues
  obtain ⟨nodes, hdescribed', hnodes, hsame⟩ : ∃ nodes,
      List.Forall₂ (Graph.Describes Library.catalogue) values' nodes ∧ g.nodes.Perm nodes ∧
        (document'.get? "nodes" = document.get? "nodes" → nodes = g.nodes) := by
    by_cases heq : document'.get? "nodes" = document.get? "nodes"
    · rw [hitems, hvalues'] at heq
      cases heq
      exact ⟨g.nodes, hdescribed, .refl _, fun _ => rfl⟩
    · obtain ⟨nodes, hdescribed', hnodes⟩ := List.perm_comp_forall₂ hperm.symm hdescribed
      exact ⟨nodes, hdescribed', hnodes.symm, fun h => absurd h heq⟩
  obtain ⟨_, _, hitems, hitems', hperm'⟩ := h.connections
  cases (Graph.listField_of_list hitems).symm.trans hraws
  cases hconnections.symm.trans hitems'
  have hperm' : raws.Perm (document'.tables "connections") :=
    (List.map_perm_map_iff fun _ _ h => Value.table.inj h).mp hperm'
  obtain ⟨wires, hnamed', hwires⟩ := List.perm_comp_forall₂ hperm'.symm hnamed
  have hdistinct : (nodes.map fun n => n.id.canonical).Nodup :=
    (hnodes.map _).nodup_iff.mp hg.ids
  have hstart := Graph.Wired.start hdistinct
  obtain ⟨g', hg', hwired⟩ := hstart.joinAll rfl ((hg.wellWired.perm hwires.symm).of_pins
    (Graph.findPin?_of_perm hg hstart.toLoaded hnodes))
  refine ⟨g', ?_, ⟨?_, ?_⟩, ?_⟩
  · rw [Graph.load_eq hvalues' hconnections hdescribed' hdistinct hnamed', hg']
  · rw [hwired.same]
    exact hnodes
  · rw [hwired.made]
    exact hwires.symm
  · rw [hwired.same]
    exact hsame

theorem compile_eq {strict : Bool} {settings : Settings}
    (h : (check (some Library.catalogue) strict (.table document)).fault = none) :
    compile (.table document) Library.catalogue settings strict = (do
      let g ← Graph.load (.table document) Library.catalogue
      let globals ← globals document
      Program.compile g (settingsFor document settings) globals) := by
  have hcatalogue : catalogueFor Library.catalogue = Library.catalogue := rfl
  simp only [compile, compileLogged, hcatalogue, h, compileChecked]
  cases Graph.load (.table document) Library.catalogue with
  | error e => rfl
  | ok g => cases globals document <;> rfl

theorem Reordered.compile (h : Reordered document document')
    {strict : Bool} {settings : Settings} {text : String}
    (hchecked : (check (some Library.catalogue) strict (.table document)).fault = none)
    (hchecked' : (check (some Library.catalogue) strict (.table document')).fault = none)
    (hnames : document'.get? "nodes" = document.get? "nodes" ∨
      ∀ g, Graph.load (.table document) Library.catalogue = .ok g → g.DistinctEvents)
    (hmade : Document.compile (.table document) Library.catalogue settings strict = .ok text) :
    Document.compile (.table document') Library.catalogue settings strict = .ok text := by
  rw [compile_eq hchecked] at hmade
  obtain ⟨g, hload, hmade⟩ := bind_ok hmade
  obtain ⟨workspace, hworkspace, hmade⟩ := bind_ok hmade
  obtain ⟨g', hload', hreordered, hsame⟩ :=
    h.load (accepted_of_check hchecked').connections hload
  have hg := Loaded.of_load hload
  have hg' := Loaded.of_load hload'
  have hmade' : Program.compile g' (settingsFor document settings) workspace = .ok text := by
    rw [Program.compile_ok_iff] at hmade ⊢
    have hroom : Program.roomFor g' Room.start = Program.roomFor g Room.start := by
      rw [Program.roomFor, Program.roomFor, hreordered.nodes.length_eq]
    rw [hroom]
    rcases hnames with heq | hdistinct
    · rw [Program.assemble_reordered_wires hg hg' hreordered (hsame heq), hmade]
    · exact Program.assemble_reordered hg hg' hreordered
        ((accepted_of_check hchecked).plain hload) (hdistinct g hload) hmade
  have hrest (name : String) (hn : name ≠ "nodes") (hc : name ≠ "connections") :
      document'.get name = document.get name := by
    rw [Table.get, Table.get, h.rest name hn hc]
  have hglobals : globals document' = globals document := by
    rw [globals, globals, hrest "variables" (by decide) (by decide)]
  have hsettings : settingsFor document' settings = settingsFor document settings := by
    rw [settingsFor, settingsFor, hrest "settings" (by decide) (by decide)]
  simp only [compile_eq hchecked', hload', hglobals, hworkspace, hsettings, hmade', bind,
    Except.bind]

/-- The order of a document does not matter: if two documents that pass a check, of known types,
differ only in the order of their connections, they compile to the same text or neither compiles. If
no two custom events want the same name, they may differ in the order of their nodes as well. -/
theorem compile_iff_of_reordered {catalogue : Option Catalogue} {checked : Bool}
    (h : Reordered document document')
    (haccepted : (check catalogue checked (.table document)).fault = none)
    (haccepted' : (check catalogue checked (.table document')).fault = none)
    (hknown : ∀ raw ∈ document.tables "nodes",
      Library.catalogue.contains (raw.text "definitionId") = true)
    (hnames : document'.get? "nodes" = document.get? "nodes" ∨
      ∀ g, Graph.load (.table document) Library.catalogue = .ok g → g.DistinctEvents)
    (settings : Settings) (strict : Bool) (text : String) :
    Document.compile (.table document) Library.catalogue settings strict = .ok text ↔
      Document.compile (.table document') Library.catalogue settings strict = .ok text := by
  have hknown' : ∀ raw ∈ document'.tables "nodes",
      Library.catalogue.contains (raw.text "definitionId") = true := by
    obtain ⟨items, items', hitems, hitems', hperm⟩ := h.nodes
    cases (accepted_of_check haccepted).nodes.symm.trans hitems
    cases (accepted_of_check haccepted').nodes.symm.trans hitems'
    have hperm := (List.map_perm_map_iff fun _ _ h => Value.table.inj h).mp hperm
    exact fun raw hraw => hknown raw (hperm.mem_iff.mpr hraw)
  have hchecked := check_known haccepted hknown strict
  have hchecked' := check_known haccepted' hknown' strict
  refine ⟨h.compile hchecked hchecked' hnames, h.symm.compile hchecked' hchecked ?_⟩
  refine hnames.imp Eq.symm fun hdistinct g' hload' => ?_
  obtain ⟨g, hload, hreordered, _⟩ :=
    h.symm.load (accepted_of_check hchecked).connections hload'
  exact (hdistinct g hload).of_perm (Loaded.of_load hload) (Loaded.of_load hload')
    hreordered.nodes.symm

/-- A start that calls two custom events in turn, with everything listed as it is arranged. -/
def arranged (arrange : List Value → List Value) : Table :=
  let node (id type : String) (properties : List (String × Value)) : Value := .object
    [("id", .text id), ("definitionId", .text type), ("properties", .object properties)]
  let wire (source output target input : String) : Value := .object
    [("fromNode", .text source), ("fromPin", .text output), ("toNode", .text target),
      ("toPin", .text input)]
  [(.text "nodes", .list (arrange [node "start" "event_start" [],
      node "first" "call_custom_event" [("eventId", .text "b")],
      node "second" "call_custom_event" [("eventId", .text "a")],
      node "a" "custom_event" [("name", .text "Win")],
      node "b" "custom_event" [("name", .text "Lose")]])),
    (.text "connections", .list (arrange [wire "start" "exec_out" "first" "exec_in",
      wire "first" "exec_out" "second" "exec_in"]))]

theorem compile_iff_of_reordered_arranged :
    Reordered (arranged id) (arranged List.reverse) ∧
    (((arranged List.reverse).tables "nodes").map fun raw => raw.text "id") ≠
      ((arranged id).tables "nodes").map (fun raw => raw.text "id") ∧
    ∃ text, Document.compile (.table (arranged id)) Library.catalogue {} false = .ok text ∧
      Document.compile (.table (arranged List.reverse)) Library.catalogue {} false = .ok text := by
  have hreordered : Reordered (arranged id) (arranged List.reverse) := by
    refine ⟨⟨_, _, rfl, rfl, (List.reverse_perm _).symm⟩, ⟨_, _, rfl, rfl,
      (List.reverse_perm _).symm⟩, fun name hn hc => ?_⟩
    simp [Table.get?, Table.find?, arranged, Ne.symm hn, Ne.symm hc]
  have hloads : ((Graph.load (.table (arranged id)) Library.catalogue).toOption.all fun g =>
      g.nodes.all fun n => g.nodes.all fun m => n.id == m.id ||
        Signature.baseName (Signature.displayNameOf n) !=
          Signature.baseName (Signature.displayNameOf m) ||
        (g.entryInfo n).toOption.all fun info => !info.1.truthy || info.2.truthy) = true := by
    decide +kernel
  have hdistinct : ∀ g, Graph.load (.table (arranged id)) Library.catalogue = .ok g →
      g.DistinctEvents := by
    rintro g hload n hn m hm ⟨entry, event, hinfo, hentry, hevent⟩ _ hbase
    rw [hload] at hloads
    have hnodes := List.all_eq_true.mp (List.all_eq_true.mp hloads n hn) m hm
    have hid : n.id = m.id := by
      simpa [hinfo, hentry, hevent, hbase, Except.toOption] using hnodes
    exact List.inj_on_of_nodup_map (Loaded.of_load hload).ids hn hm (congrArg Key.canonical hid)
  have hmade :
      (Document.compile (.table (arranged id)) Library.catalogue {} false).isOk = true := by
    decide +kernel
  have haccepted : (check none true (.table (arranged id))).fault = none := by decide +kernel
  have haccepted' : (check none true (.table (arranged List.reverse))).fault = none := by
    decide +kernel
  refine ⟨hreordered, by decide +kernel, ?_⟩
  cases hcompiled : Document.compile (.table (arranged id)) Library.catalogue {} false with
  | error e =>
    rw [hcompiled] at hmade
    cases hmade
  | ok text =>
    refine ⟨text, rfl, ?_⟩
    exact (compile_iff_of_reordered hreordered haccepted haccepted' (by decide +kernel)
      (.inr hdistinct) {} false text).mp hcompiled

end Document

end CartGraph
