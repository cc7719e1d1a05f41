import CartGraph.Document.Check
import CartGraph.Proofs.Graph.Reading
import CartGraph.Proofs.Table

/-! # Documents that pass the check

A document that passes the check lists nodes under different ids and connections between them
(`Document.Accepted`), so its nodes and wires can be read off (`Document.nodes`, `Document.wires`).
It loads if and only if these wires fit the pins of these nodes, all together: what was loaded
before a connection does not matter. -/
namespace CartGraph

def Value.table? : Value → Option Table
  | .table entries => some entries
  | _ => none

/-- What can refer to an event: a text, or nothing. -/
def Value.isReference : Value → Bool
  | .null | .text _ => true
  | _ => false

namespace Table

def text (t : Table) (name : String) : String :=
  match t.get name with
  | .text s => s
  | _ => ""

def tables (t : Table) (name : String) : List Table :=
  match t.get name with
  | .list items => items.filterMap Value.table?
  | _ => []

theorem get?_of_get {t : Table} {name : String} {v : Value} (h : t.get name = v) (hv : v ≠ .null) :
    t.get? name = some v := by
  unfold get at h
  cases hn : t.get? name with
  | none =>
    rw [hn] at h
    exact absurd h.symm hv
  | some v' =>
    rw [hn] at h
    exact congrArg some h

theorem get?_text {t : Table} {name s : String} (h : t.get name = .text s) :
    t.text name = s ∧ t.get? name = some (.text (t.text name)) := by
  have ht : t.text name = s := by rw [text, h]
  exact ⟨ht, ht.symm ▸ get?_of_get h nofun⟩

theorem get?_tables {t : Table} {name : String} {raws : List Table}
    (h : t.get name = .list (raws.map .table)) :
    t.tables name = raws ∧ t.get? name = some (.list ((t.tables name).map .table)) := by
  have ht : t.tables name = raws := by
    rw [tables, h]
    show (raws.map Value.table).filterMap Value.table? = raws
    rw [List.filterMap_map]
    exact List.filterMap_some
  exact ⟨ht, ht.symm ▸ get?_of_get h nofun⟩

end Table

def Node.savedProperties (raw : Table) : Table :=
  match raw.get "properties" with
  | .table entries => entries
  | _ => []

/-- The node that a saved entry describes, with the defaults of its type under its properties. -/
def Node.ofSaved (catalogue : Catalogue) (raw : Table) : Node where
  id := raw.text "id"
  definitionId := raw.text "definitionId"
  properties := match catalogue.find? (raw.text "definitionId") with
    | some t => t.definition.defaults.update (savedProperties raw)
    | none => savedProperties raw
  position := (positionOf (raw.get "position")).toOption.getD (.zero, .zero)
  isEntryPoint := raw.get "isEntryPoint"
  eventName := raw.get "eventName"

def Wire.ofSaved (raw : Table) : Wire :=
  ⟨raw.text "fromNode", raw.text "fromPin", raw.text "toNode", raw.text "toPin"⟩

namespace Document

def nodes (catalogue : Catalogue) (document : Table) : List Node :=
  (document.tables "nodes").map (Node.ofSaved catalogue)

def wires (document : Table) : List Wire := (document.tables "connections").map Wire.ofSaved

/-! ## What the check ensures -/

structure NodeEntry (raw : Table) : Prop where
  id : raw.get? "id" = some (.text (raw.text "id"))
  definitionId : raw.get? "definitionId" = some (.text (raw.text "definitionId"))
  properties : (raw.get "properties").entries = .ok (Node.savedProperties raw)
  /-- The event that a node answers to is a text, or left to its type. -/
  eventName : (raw.get "eventName").isReference = true

structure Accepted (document : Table) : Prop where
  nodes : document.get? "nodes" = some (.list ((document.tables "nodes").map .table))
  connections :
    document.get? "connections" = some (.list ((document.tables "connections").map .table))
  entries : ∀ raw ∈ document.tables "nodes", NodeEntry raw
  ids : ((document.tables "nodes").map fun raw => raw.text "id").Nodup
  names : ∀ raw ∈ document.tables "connections", Graph.Names raw (Wire.ofSaved raw)
  ends : ∀ raw ∈ document.tables "connections",
    raw.text "fromNode" ∈ (document.tables "nodes").map (fun raw => raw.text "id") ∧
      raw.text "toNode" ∈ (document.tables "nodes").map fun raw => raw.text "id"

theorem requireText_ok {place : Place} {t : Table} {name s : String}
    (h : requireText place t name = .ok s) : t.get name = .text s := by
  unfold requireText at h
  split at h
  · cases h
    assumption
  · cases h

theorem checkNode_ok {place : Place} {seen : List String} {v : Value} {id definition : String}
    (h : checkNode place seen v = .ok (id, definition)) :
    ∃ raw : Table, v = .table raw ∧ NodeEntry raw ∧ raw.text "id" = id ∧ id ∉ seen ∧
      raw.text "definitionId" = definition := by
  cases v with
  | table raw =>
    obtain ⟨_, _, h⟩ := bind_ok h
    obtain ⟨id', hid, h⟩ := bind_ok h
    obtain ⟨definition', hdefinition, h⟩ := bind_ok h
    dsimp only at h
    split at h
    · cases h
    split at h
    · cases h
    rename_i hnew
    have hproperties : (Table.get raw "properties").entries = .ok (Node.savedProperties raw) := by
      unfold Node.savedProperties
      split at h
      · rename_i hp
        rw [hp]
        rfl
      · rename_i hp
        rw [hp]
        rfl
      · cases h
    have hanswer : (id', definition') = (id, definition) ∧
        (Table.get raw "eventName").isReference = true := by
      -- what is not refused answers the same, whatever it was
      split at h <;> try cases h
      all_goals
        split at h <;> try cases h
        all_goals
          split at h <;> cases h
          · exact ⟨rfl, congrArg Value.isReference ‹Table.get raw "eventName" = .null›⟩
          · exact ⟨rfl, congrArg Value.isReference ‹Table.get raw "eventName" = .text _›⟩
    obtain ⟨hanswer, heventName⟩ := hanswer
    cases hanswer
    obtain ⟨hid, hid'⟩ := Table.get?_text (requireText_ok hid)
    obtain ⟨hdefinition, hdefinition'⟩ := Table.get?_text (requireText_ok hdefinition)
    exact ⟨raw, rfl, ⟨hid', hdefinition', hproperties, heventName⟩, hid, by simpa using hnew,
      hdefinition⟩
  | null | omitted | bool | int | float | text | list => cases h

theorem checkNodes_ok {catalogue : Option Catalogue} {strict : Bool} {items : List Value}
    {index : Nat} {seen ids : List String} {warnings : List Fault}
    (h : checkNodes catalogue strict index seen items = (warnings, .ok ids)) (hs : seen.Nodup) :
    ∃ raws : List Table, items = raws.map .table ∧ (∀ raw ∈ raws, NodeEntry raw) ∧ ids.Nodup ∧
      ids = (raws.map fun raw => raw.text "id").reverse ++ seen := by
  induction items generalizing index seen warnings with
  | nil =>
    cases h
    exact ⟨[], rfl, by simp, hs, rfl⟩
  | cons v rest ih =>
    rw [checkNodes] at h
    split at h
    · cases h
    rename_i id definition hv
    obtain ⟨raw, rfl, hentry, hid, hnew, _⟩ := checkNode_ok hv
    dsimp only at h
    split at h
    · cases h
    obtain ⟨_, h⟩ := Prod.mk.inj h
    obtain ⟨raws, rfl, hentries, hids, heq⟩ :=
      ih (Prod.ext rfl h) (List.nodup_cons.mpr ⟨hnew, hs⟩)
    refine ⟨raw :: raws, rfl, ?_, hids, ?_⟩
    · intro r hr
      rcases List.mem_cons.mp hr with rfl | hr
      · exact hentry
      · exact hentries r hr
    · rw [heq, List.map_cons, List.reverse_cons, hid, List.append_assoc, List.singleton_append]

theorem checkConnection_ok {place : Place} {ids : List String} {v : Value}
    (h : checkConnection place ids v = .ok ()) :
    ∃ raw : Table, v = .table raw ∧ Graph.Names raw (Wire.ofSaved raw) ∧ raw.text "fromNode" ∈ ids ∧
      raw.text "toNode" ∈ ids := by
  cases v with
  | table raw =>
    obtain ⟨_, _, h⟩ := bind_ok h
    obtain ⟨source, hsource, h⟩ := bind_ok h
    obtain ⟨_, hsourcePin, h⟩ := bind_ok h
    obtain ⟨target, htarget, h⟩ := bind_ok h
    obtain ⟨_, htargetPin, h⟩ := bind_ok h
    dsimp only at h
    split at h
    · cases h
    rename_i hs
    split at h
    · cases h
    rename_i ht
    obtain ⟨hsource, hsource'⟩ := Table.get?_text (requireText_ok hsource)
    obtain ⟨htarget, htarget'⟩ := Table.get?_text (requireText_ok htarget)
    obtain ⟨_, hsourcePin⟩ := Table.get?_text (requireText_ok hsourcePin)
    obtain ⟨_, htargetPin⟩ := Table.get?_text (requireText_ok htargetPin)
    refine ⟨raw, rfl, ⟨hsource', hsourcePin, htarget', htargetPin⟩, ?_, ?_⟩
    · simpa [hsource] using hs
    · simpa [htarget] using ht
  | null | omitted | bool | int | float | text | list => cases h

theorem checkConnections_ok {ids : List String} {items : List Value} {index : Nat}
    (h : checkConnections ids index items = .ok ()) :
    ∃ raws : List Table, items = raws.map .table ∧
      ∀ raw ∈ raws, Graph.Names raw (Wire.ofSaved raw) ∧ raw.text "fromNode" ∈ ids ∧
        raw.text "toNode" ∈ ids := by
  induction items generalizing index with
  | nil => exact ⟨[], rfl, by simp⟩
  | cons v rest ih =>
    obtain ⟨_, hv, hrest⟩ := bind_ok h
    obtain ⟨raw, rfl, hraw⟩ := checkConnection_ok hv
    obtain ⟨raws, rfl, hraws⟩ := ih hrest
    refine ⟨raw :: raws, rfl, fun r hr => ?_⟩
    rcases List.mem_cons.mp hr with rfl | hr
    · exact hraw
    · exact hraws r hr

theorem accepted_of_check {catalogue : Option Catalogue} {strict : Bool} {document : Table}
    (h : (check catalogue strict (.table document)).fault = none) : Accepted document := by
  unfold check at h
  split at h
  · cases h
  rename_i t nodes connections hlists
  split at h
  · cases h
  rename_i warnings ids hchecked
  have hrest : (do checkConnections ids 0 connections; checkExtras t) = .ok () := by
    revert h
    dsimp only [faultOf]
    split
    · intro _
      assumption
    · intro h
      cases h
  obtain ⟨_, hconnections, _⟩ := bind_ok hrest
  obtain ⟨_, _, hlists⟩ := bind_ok hlists
  split at hlists
  · rename_i hn hc
    cases hlists
    obtain ⟨raws, rfl, hentries, hids, heq⟩ := checkNodes_ok hchecked .nil
    obtain ⟨raws', rfl, hnames⟩ := checkConnections_ok hconnections
    obtain ⟨hraws, hnodes⟩ := Table.get?_tables hn
    obtain ⟨hraws', hconns⟩ := Table.get?_tables hc
    rw [List.append_nil] at heq
    subst heq
    rw [List.nodup_reverse] at hids
    rw [← hraws] at hentries hids hnames
    rw [← hraws'] at hnames
    refine ⟨hnodes, hconns, hentries, hids, fun r hr => (hnames r hr).1, fun r hr => ?_⟩
    obtain ⟨_, hs, ht⟩ := hnames r hr
    exact ⟨List.mem_reverse.mp hs, List.mem_reverse.mp ht⟩
  · cases hlists
  · cases hlists

/-- Nodes of known types pass whether or not the check is strict. -/
theorem checkNodes_known {catalogue : Option Catalogue} {known : Catalogue} {strict : Bool}
    {raws : List Table}
    (hknown : ∀ raw ∈ raws, known.contains (raw.text "definitionId") = true) {index : Nat}
    {seen ids : List String}
    (h : (checkNodes catalogue strict index seen (raws.map .table)).2 = .ok ids) (strict' : Bool) :
    (checkNodes (some known) strict' index seen (raws.map .table)).2 = .ok ids := by
  induction raws generalizing index seen with
  | nil => exact h
  | cons raw rest ih =>
    rw [List.map_cons, checkNodes] at h ⊢
    split at h
    · cases h
    rename_i id definition hv
    obtain ⟨_, htable, _, _, _, hdefinition⟩ := checkNode_ok hv
    cases htable
    have hfound : known.contains definition = true := hdefinition ▸ hknown raw (.head _)
    dsimp only at h
    split at h
    · cases h
    simp only [Option.any_some, hfound, Bool.not_true, Bool.false_and, Bool.false_eq_true, if_false]
    exact ih (fun raw hraw => hknown raw (.tail _ hraw)) h

/-- A document of known types that passes one check passes the others. -/
theorem check_known {catalogue : Option Catalogue} {known : Catalogue} {strict : Bool}
    {document : Table} (h : (check catalogue strict (.table document)).fault = none)
    (hknown : ∀ raw ∈ document.tables "nodes", known.contains (raw.text "definitionId") = true)
    (strict' : Bool) : (check (some known) strict' (.table document)).fault = none := by
  have hnodes := (accepted_of_check h).nodes
  unfold check at h ⊢
  split at h
  · cases h
  rename_i t nodes connections hlists
  split at h
  · cases h
  rename_i warnings ids hchecked
  have hitems : nodes = (document.tables "nodes").map .table := by
    obtain ⟨_, _, hlists⟩ := bind_ok hlists
    split at hlists
    · rename_i hn _
      cases hlists
      exact Value.list.inj (Option.some.inj ((Table.get?_of_get hn nofun).symm.trans hnodes))
    · cases hlists
    · cases hlists
  have hpassed : (checkNodes (some known) strict' 0 [] nodes).2 = .ok ids := by
    rw [hitems] at hchecked ⊢
    exact checkNodes_known hknown (congrArg Prod.snd hchecked) strict'
  generalize checkNodes (some known) strict' 0 [] nodes = found at hpassed
  obtain ⟨warnings', result⟩ := found
  cases hpassed
  exact h

/-! ## Loading what was accepted -/

end Document

/-- A number that a coordinate can be: a double, or an integer that has a nearest one. -/
def Value.isCoordinate : Value → Bool
  | .float _ => true
  | .int n => (Binary64.ofInt? n).isSome
  | _ => false

/-- Whether a position holds numbers only. A coordinate of a table may be missing. -/
def Node.plainPosition : Value → Bool
  | .table entries => ["x", "y"].all fun name =>
    let v := Table.get entries name
    v.isNull || v.isCoordinate
  | .list items => items.all Value.isCoordinate
  | _ => true

theorem Node.coordinate_ok {v : Value} (h : v.isCoordinate = true) :
    ∃ x, coordinate v = .ok x := by
  cases v with
  | float x => exact ⟨x, rfl⟩
  | int n =>
    obtain ⟨x, hx⟩ := Option.isSome_iff_exists.mp h
    exact ⟨x, by rw [coordinate, hx]⟩
  | null | omitted | bool | text | list | table => cases h

theorem Node.coordinate_orElse_ok {v : Value} (h : (v.isNull || v.isCoordinate) = true) :
    ∃ x, coordinate (v.orElse (.int 0)) = .ok x := by
  unfold Value.orElse
  split
  · cases v with
    | null => contradiction
    | omitted | bool | int | float | text | list | table => exact coordinate_ok h
  · exact coordinate_ok (by decide)

theorem Node.positionOf_ok {v : Value} (h : plainPosition v = true) :
    ∃ p, positionOf v = .ok p := by
  cases v with
  | table entries =>
    obtain ⟨hx, hy⟩ : _ ∧ _ := by simpa only [plainPosition, List.all_cons, List.all_nil,
      Bool.and_true, Bool.and_eq_true] using h
    obtain ⟨x, hx⟩ := coordinate_orElse_ok hx
    obtain ⟨y, hy⟩ := coordinate_orElse_ok hy
    exact ⟨(x, y), by simp only [positionOf, hx, hy, bind, Except.bind]; rfl⟩
  | list items =>
    match items with
    | [] => exact ⟨_, rfl⟩
    | [_] => exact ⟨_, rfl⟩
    | a :: b :: rest =>
      have hall := List.all_eq_true.mp h
      obtain ⟨x, hx⟩ := coordinate_ok (hall a (.head _))
      obtain ⟨y, hy⟩ := coordinate_ok (hall b (.tail _ (.head _)))
      exact ⟨(x, y), by simp only [positionOf, hx, hy, bind, Except.bind]; rfl⟩
  | null | omitted | bool | int | float | text => exact ⟨_, rfl⟩

namespace Document

theorem NodeEntry.describes {catalogue : Catalogue} {raw : Table} (h : NodeEntry raw)
    (hknown : catalogue.contains (raw.text "definitionId") = true)
    (hposition : Node.plainPosition (raw.get "position") = true) :
    Graph.Describes catalogue (.table raw) (Node.ofSaved catalogue raw) := by
  obtain ⟨t, ht⟩ := Option.isSome_iff_exists.mp hknown
  obtain ⟨p, hp⟩ := Node.positionOf_ok hposition
  have hid : t.id = raw.text "definitionId" := by simpa using List.find?_some ht
  have hrequire (v : Value) :
      catalogue.require (.text (raw.text "definitionId")) v = .ok t := Graph.require_text_iff.mpr ht
  refine ⟨{
    id := .text (raw.text "id"), definitionId := .text (raw.text "definitionId"), position := p
    properties := t.definition.defaults.update (Node.savedProperties raw)
    isEntryPoint := raw.get "isEntryPoint", eventName := raw.get "eventName" }, t, ?_,
    hrequire _, rfl, ?_⟩
  · simp only [Graph.readNode, Graph.asTable, h.definitionId, Option.getD_some, hrequire,
      h.properties, Graph.requireField_of_get? h.id, Graph.requireField_of_get? h.definitionId, hp,
      bind, Except.bind]
    rfl
  · rw [Node.ofDraft, Node.ofSaved, ht, hp, hid]
    rfl

end Document

namespace Graph

theorem calledEvent?_ok {g : Graph} {n : Node}
    (h : (n.properties.get "eventId").isReference = true) : ∃ r, g.calledEvent? n = .ok r := by
  unfold calledEvent? Value.orElse
  cases hv : n.properties.get "eventId" with
  | null => exact ⟨_, rfl⟩
  | text s =>
    split
    · exact ⟨_, rfl⟩
    · exact ⟨_, rfl⟩
  | omitted | bool | int | float | list | table =>
    rw [hv] at h
    cases h

theorem pinsOf_of_calledEvent? {g : Graph} {id : Key} {n : Node} {t : NodeType}
    (hn : g.node? id = some n) (ht : g.catalogue.find? n.definitionId = some t)
    (he : ∃ r, g.calledEvent? n = .ok r) : ∃ ps, g.pinsOf id = .ok ps := by
  obtain ⟨r, he⟩ := he
  have hderived : ∃ derived, g.derivedPins t.definition n = .ok derived := by
    unfold derivedPins
    split
    · exact ⟨_, rfl⟩
    · exact ⟨_, rfl⟩
    · exact ⟨_, rfl⟩
    · rw [he]
      cases r <;> exact ⟨_, rfl⟩
  obtain ⟨derived, hd⟩ := hderived
  simp only [pinsOf, typeOf_ok_iff.mpr ⟨n, hn, ht⟩, node_ok_iff.mpr hn, hd, bind, Except.bind]
  exact ⟨_, rfl⟩

end Graph

namespace Document

def unwired (document : Table) : Graph where
  catalogue := Library.catalogue
  nodes := nodes Library.catalogue document

theorem unwired_ids (document : Table) : (unwired document).ids =
    ((document.tables "nodes").map fun raw => raw.text "id").map Key.text := by
  simp only [Graph.ids, unwired, nodes, List.map_map]
  rfl

namespace Accepted

variable {document : Table}

theorem unwired_nodup (h : Accepted document) : (unwired document).ids.Nodup := by
  rw [unwired_ids]
  exact h.ids.map fun _ _ he => Key.text.inj he

theorem load_eq (h : Accepted document)
    (hknown : ∀ raw ∈ document.tables "nodes",
      Library.catalogue.contains (raw.text "definitionId") = true)
    (hpositions : ∀ raw ∈ document.tables "nodes",
      Node.plainPosition (raw.get "position") = true) :
    Graph.load (.table document) Library.catalogue =
      (wires document).foldlM Graph.join (unwired document) := by
  have hdescribed : List.Forall₂ (Graph.Describes Library.catalogue)
      ((document.tables "nodes").map .table) (unwired document).nodes := by
    refine List.forall₂_map_left_iff.mpr (List.forall₂_map_right_iff.mpr ?_)
    exact List.forall₂_same.mpr fun raw hraw =>
      (h.entries raw hraw).describes (hknown raw hraw) (hpositions raw hraw)
  have hnamed : List.Forall₂ Graph.Names (document.tables "connections") (wires document) :=
    List.forall₂_map_right_iff.mpr (List.forall₂_same.mpr h.names)
  exact Graph.load_eq h.nodes h.connections hdescribed h.unwired_nodup hnamed

end Accepted

/-- A call that stands before the event that gives it its argument. -/
def forwardCall : Table := ((Graph.outline
  [("start", "event_start", []), ("call", "call_custom_event", [("eventId", .text "event")]),
    ("sum", "add_number", []), ("event", "custom_event",
      [("parameters", .list [.object [("id", .text "n"), ("name", .text "Count")]])])]
  [("sum", "sum", "call", "arg_n"), ("start", "exec_out", "call", "exec_in")]).table?).getD []

end Document

end CartGraph
