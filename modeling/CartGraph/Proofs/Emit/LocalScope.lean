import CartGraph.Program
import CartGraph.Proofs.Emit.Visibility
import CartGraph.Proofs.GivenNames

/-! # Locals are read where they are in scope

A lookup finds a name exactly where the blocks of the program make the local readable: a temporary
after its node inside all blocks of the node, the index of a loop in the body of the loop, a parameter
in the function of its event. The name is the one that the line of the node, or the parameter list of
the event, declares. -/
namespace CartGraph

/-- The exec tree puts the locals of a node in scope at the end of a path, after the nodes that were
emitted. -/
inductive InScope (g : Graph) (customs : List Node) (entry : Key) (emitted : List Key)
    (ws : List Connection) (n : Key) : Prop
  | resume {path : List Connection} (hst : g.statement? n = some .resume) (hn : n.Among emitted)
    (hpath : g.ExecPath entry n path) (hbodies : g.bodies path ⊆ g.bodies ws)
  | loop (hst : g.statement? n = some .loop) (hw : ∃ w ∈ ws, w.source = placeOf n "loop")
  | event (id : String) (hst : g.statement? n = some .openEvent)
    (hn : n.canonical = entry.canonical) (hid : entry = .text id)
    (hcustom : ∃ m ∈ customs, m.id = .text id)

/-- The line of a node, or the parameter list of an event, declares a name for an output. -/
inductive Declares (g : Graph) (entry : Key) (log : List Visit) (n : Key) : Key → String → Prop
  | success {a b : String} (hst : g.statement? n = some .resume)
    (hline : Written log n (.declares [a, b])) : Declares g entry log n (.text "success") a
  | result {a b : String} (hst : g.statement? n = some .resume)
    (hline : Written log n (.declares [a, b])) : Declares g entry log n (.text "result") b
  | index {name : String} (hst : g.statement? n = some .loop)
    (hline : Written log n (.opens [name])) : Declares g entry log n (.text "index") name
  | parameter {pin : Key} {m : Node} {name : String} (hst : g.statement? n = some .openEvent)
    (hn : n.canonical = entry.canonical) (hm : g.node? entry = some m)
    (hname : Parameter.nameOf pin m.parameters = some name) : Declares g entry log n pin name

theorem InScope.imp {g : Graph} {customs : List Node} {entry : Key} {emitted emitted' : List Key}
    {ws : List Connection} {n : Key} (h : InScope g customs entry emitted ws n)
    (himp : ∀ m : Key, m.Among emitted → m.Among emitted') : InScope g customs entry emitted' ws n := by
  cases h with
  | resume hst hn hpath hbodies => exact .resume hst (himp n hn) hpath hbodies
  | loop hst hw => exact .loop hst hw
  | event id hst hn hid hcustom => exact .event id hst hn hid hcustom

theorem Declares.imp {g : Graph} {entry : Key} {log log' : List Visit} {n p : Key} {name : String}
    (h : Declares g entry log n p name) (himp : ∀ v ∈ log, v ∈ log') :
    Declares g entry log' n p name := by
  cases h with
  | success hst hline => exact .success hst (hline.mono himp rfl)
  | result hst hline => exact .result hst (hline.mono himp rfl)
  | index hst hline => exact .index hst (hline.mono himp rfl)
  | parameter hst hn hm hname => exact .parameter hst hn hm hname

/-! ## Custom events -/

theorem filterM_subset {α ε : Type} {f : α → Except ε Bool} {l r : List α}
    (h : l.filterM f = .ok r) : ∀ a ∈ r, a ∈ l := by
  have aux : ∀ (l acc r : List α), l.filterAuxM f acc = .ok r → ∀ a ∈ r, a ∈ l ∨ a ∈ acc := by
    intro l
    induction l with
    | nil =>
      intro acc r h a ha
      cases h
      exact .inr ha
    | cons b rest ih =>
      intro acc r h a ha
      obtain ⟨keep, _, h⟩ := bind_ok h
      rcases ih _ r h a ha with ha | ha
      · exact .inl (.tail _ ha)
      · cases keep with
        | false => exact .inr ha
        | true =>
          rcases List.mem_cons.mp ha with rfl | ha
          · exact .inl (.head _)
          · exact .inr ha
  obtain ⟨r', hr', h⟩ := bind_ok h
  cases h
  intro a ha
  exact (aux l [] r' hr' a (List.mem_reverse.mp ha)).resolve_right fun h => nomatch h

section

variable {c : Compilation} {customs : List Node} {entry : Key}

theorem Compilation.event?_some (hc : c.events = Signature.ofNodes customs) {v : Value}
    {signature : Signature} (h : c.event? v = some signature) : ∃ id, v = .text id ∧
      ∃ m ∈ customs, m.id = .text id ∧ signature.parameters = m.parameters := by
  unfold event? at h
  split at h
  · rename_i id
    rw [hc] at h
    obtain ⟨m, hm, hk, hs, _⟩ := Signature.ofNodes_lookup h
    exact ⟨id, rfl, m, hm, Key.canonical_eq_text hk, hs⟩
  · cases h

theorem Compilation.event?_custom (hc : c.events = Signature.ofNodes customs) {id : String}
    {m : Node} (hm : m ∈ customs) (hid : m.id = .text id) :
    ∃ signature, c.event? (.text id) = some signature := by
  obtain ⟨signature, hs⟩ := Signature.ofNodes_found hm
  rw [hid] at hs
  exact ⟨signature, by rw [event?, hc]; exact hs⟩

theorem Compilation.namesParameters (hc : c.events = Signature.ofNodes customs) :
    c.NamesParameters := by
  intro v signature h q hq
  obtain ⟨_, _, m, _, _, hs⟩ := c.event?_some hc h
  exact m.parameters_isName q (hs ▸ hq)

theorem Parameter.nameOf_mem {ps : List Parameter} {q : Parameter} (h : q ∈ ps) :
    ∃ name, nameOf (.text q.outputPin) ps = some name := by
  induction ps with
  | nil => cases h
  | cons p rest ih =>
    unfold nameOf
    rcases List.mem_cons.mp h with rfl | h
    · cases nameOf (.text q.outputPin) rest with
      | none => exact ⟨_, if_pos rfl⟩
      | some name => exact ⟨name, rfl⟩
    · obtain ⟨name, hn⟩ := ih h
      exact ⟨name, by rw [hn]; rfl⟩

/-- A path to another node leaves the entry node. -/
theorem Graph.ExecPath.leaves_entry {g : Graph} {r : Key} {ws : List Connection}
    (h : g.ExecPath entry r ws) (hr : r.canonical ≠ entry.canonical) :
    ∃ w ∈ ws, w.sourceNode.canonical = entry.canonical := by
  induction h with
  | start h => exact absurd h hr
  | @step m n ws w path _ _ hs _ _ ih =>
    by_cases hm : m.canonical = entry.canonical
    · exact ⟨w, by simp, hs.trans hm⟩
    · obtain ⟨v, hv, hk⟩ := ih hm
      exact ⟨v, List.mem_append_left _ hv, hk⟩

/-! ## Lookups -/

variable {before : List Visit} {r n p : Key} {found : Option String} {ws : List Connection}
  {issued : List (Output × String)}

/-- A loop that the path runs through was emitted. -/
theorem Lookup.loop_emitted (h : Lookup c entry before r n p found ws issued)
    (hw : ∃ w ∈ ws, w.source = placeOf n "loop") : n.Among (statements before) := by
  obtain ⟨w, hw, hs⟩ := hw
  exact (h.above w hw).congr (congrArg Prod.fst hs)

theorem Visible.inScope (hc : c.events = Signature.ofNodes customs) {name : String}
    (h : Visible c entry issued (statements before) (c.graph.bodies ws) n p name) :
    InScope c.graph customs entry (statements before) ws n := by
  cases h with
  | temporary hst hseen hpath hbs => exact .resume hst hseen hpath hbs
  | index hst hbs =>
    obtain ⟨w, hw, _, hs⟩ := Graph.mem_bodies.mp hbs
    exact .loop hst ⟨w, hw, hs⟩
  | parameter hst _ hn hevent =>
    obtain ⟨id, hid, m, hm, hmid, _⟩ := c.event?_some hc hevent
    have hentry : entry = .text id := by
      cases entry <;> cases hid
      rfl
    exact .event id hst hn hentry ⟨m, hm, hmid⟩

/-- What the exec tree puts in scope is visible. -/
theorem Lookup.visible (hg : Loaded c.graph) (hc : c.events = Signature.ofNodes customs)
    (hcustoms : ∀ m ∈ customs, m ∈ c.graph.nodes) (h : Lookup c entry before r n p found ws issued)
    (hscope : InScope c.graph customs entry (statements before) ws n) :
    ∃ name, Visible c entry issued (statements before) (c.graph.bodies ws) n p name := by
  have hlocal := h.isLocal
  unfold Graph.IsLocal at hlocal
  cases hscope with
  | resume hst hn hpath hbodies =>
    rw [hst] at hlocal
    obtain ⟨label, hlabel⟩ : ∃ pin label, p = .text pin ∧ (pin, label) ∈ resumeLabels := by
      rcases hlocal with rfl | rfl
      · exact ⟨"success", "co_success", rfl, .head _⟩
      · exact ⟨"result", "co_result", rfl, .tail _ (.head _)⟩
    obtain ⟨label, rfl, hlabel⟩ := hlabel
    obtain ⟨a, ha⟩ := h.settled.lookup hn hst hlabel
    exact ⟨a, .temporary hst hn hpath hbodies hlabel ha⟩
  | loop hst hw =>
    rw [hst] at hlocal
    obtain ⟨index, hindex, _⟩ := h.settled.loop (h.loop_emitted hw) hst
    obtain ⟨w, hw, hs⟩ := hw
    have hbody := Graph.mem_bodies.mpr ⟨w, hw, (Graph.opensBody_iff hs).mpr (.inr ⟨hst, rfl⟩), hs⟩
    rw [hlocal]
    exact ⟨index, .index hst hbody hindex⟩
  | event id hst hn hid hcustom =>
    rw [hst] at hlocal
    obtain ⟨m, hm, q, hq, hp⟩ := hlocal
    obtain ⟨m₀, hm₀, hmid⟩ := hcustom
    obtain ⟨signature, hs⟩ := c.event?_custom hc hm₀ hmid
    obtain ⟨_, hid', m', hm', hmid', hparams⟩ := c.event?_some hc hs
    cases hid'
    -- the node that has the signature is the one whose outputs are read
    have hsame : m = m' := by
      have hk : m'.id.canonical = n.canonical := by rw [hmid', hn, hid]
      exact Option.some.inj (hm.symm.trans (hg.node?_of_mem (hcustoms m' hm') hk))
    have hemitted : n.Among (statements before) := by
      have hr : r.canonical ≠ entry.canonical := fun hr =>
        h.asks ((Graph.statement?_congr (hr.trans hn.symm)).trans hst)
      obtain ⟨w, hw, hk⟩ := h.path.leaves_entry hr
      exact (h.above w hw).congr (hk.trans hn.symm)
    obtain ⟨name, hname⟩ := Parameter.nameOf_mem hq
    rw [hsame, ← hparams] at hname
    rw [hp]
    exact ⟨name, .parameter hst hemitted hn (hid ▸ hs) hname⟩

/-- What is found is what is declared. -/
theorem Lookup.declares (hg : Loaded c.graph) (hc : c.events = Signature.ofNodes customs)
    (hcustoms : ∀ m ∈ customs, m ∈ c.graph.nodes) (h : Lookup c entry before r n p found ws issued)
    {name : String} (hname : found = some name) : Declares c.graph entry before n p name := by
  cases (h.found name).mp hname with
  | temporary hst hseen _ _ hlabel hissued =>
    obtain ⟨a, b, ha, hb, hline⟩ := h.settled.resume hseen hst
    rcases List.mem_pair.mp hlabel with hl | hl <;> cases hl
    · cases ha.symm.trans hissued
      exact .success hst hline
    · cases hb.symm.trans hissued
      exact .result hst hline
  | index hst hbs hindex =>
    obtain ⟨w, hw, _, hs⟩ := Graph.mem_bodies.mp hbs
    obtain ⟨index, hindex', hline⟩ := h.settled.loop (h.loop_emitted ⟨w, hw, hs⟩) hst
    cases Except.ok.inj (hindex.symm.trans hindex')
    exact .index hst hline
  | parameter hst _ hn hevent hparam =>
    obtain ⟨id, hid, m, hm, hmid, hs⟩ := c.event?_some hc hevent
    have hk : m.id.canonical = entry.canonical := by
      cases entry <;> cases hid
      rw [hmid]
    exact .parameter hst hn (hg.node?_of_mem (hcustoms m hm) hk) (hs ▸ hparam)

end

/-- A lookup for a statement of a function finds a name exactly if the local is in scope at the
statement, the name is the one that is declared for the local, and a lookup that finds nothing fails
the function. -/
theorem lookup_isSome_iff_inScope {document : Value} {g : Graph}
    (hload : Graph.load document Library.catalogue = .ok g) {customs : List Node}
    (hcustoms : g.customEvents = .ok customs) {c : Compilation} (hgraph : c.graph = g)
    (hevents : c.events = Signature.ofNodes customs) {s : Progress} (hs : Idle c s)
    {entry r n p reader : Key} {level depth : Int} {found : Option String}
    {before mid after : List Visit}
    (hlog : (c.entry entry level).log s =
      before ++ .statement r depth :: (mid ++ .read n p reader found :: after))
    (hmid : statements mid = []) :
    ∃ ws, g.ExecPath entry r ws ∧
      (found.isSome = true ↔ InScope g customs entry (statements before) ws n) ∧
      (∀ name, found = some name → Declares g entry before n p name) ∧
      (found = none →
        (c.entry entry level s).1 = .error (.compile (.danglingValue n p reader))) := by
  subst hgraph
  have hg := Loaded.of_load hload
  have hsub : ∀ m ∈ customs, m ∈ c.graph.nodes := filterM_subset hcustoms
  obtain ⟨new, hnew, hsound, hdangling⟩ :=
    c.entry_reads hg (c.namesParameters hevents) hs entry level
  have hlist : new = after.reverse ++ .read n p reader found ::
      (mid.reverse ++ .statement r depth :: before.reverse) := by
    have := congrArg List.reverse (hnew.symm.trans hlog)
    simpa using this
  obtain ⟨mid', r', depth', before', hpre, hmid', ws, issued, hl⟩ :=
    hsound n p reader found _ ⟨after.reverse, hlist.symm⟩
  have hmidr : statements mid.reverse = [] := by
    rw [statements, List.filterMap_reverse]
    exact List.reverse_eq_nil_iff.mpr hmid
  obtain ⟨rfl, rfl⟩ := statement_split_unique hmidr hmid' hpre
  have hemitted (m : Key) : m.Among (statements before.reverse) ↔ m.Among (statements before) := by
    unfold Key.Among statements
    rw [List.filterMap_reverse, List.map_reverse, List.mem_reverse]
  refine ⟨ws, hl.path, ⟨fun hfound => ?_, fun hscope => ?_⟩, fun name hname => ?_, fun hnone => ?_⟩
  · obtain ⟨name, hname⟩ := Option.isSome_iff_exists.mp hfound
    exact (((hl.found name).mp hname).inScope hevents).imp fun m => (hemitted m).mp
  · obtain ⟨name, hv⟩ := hl.visible hg hevents hsub (hscope.imp fun m => (hemitted m).mpr)
    rw [(hl.found name).mpr hv]
    rfl
  · exact (hl.declares hg hevents hsub hname).imp fun v hv => List.mem_reverse.mp hv
  · subst hnone
    refine hdangling n p reader ?_
    rw [hlist]
    simp

/-- A coroutine that is resumed in the body of a loop, and whose result is read there and after the
loop. -/
def resumedDocument : Value := Graph.outline
  [("event", "custom_event",
      [("parameters", .list [.object [("id", .text "n"), ("name", .text "Count")]])]),
    ("loop", "for_loop", []), ("co", "lua_coroutine_resume", []), ("inner", "print", []),
    ("last", "print", [])]
  [("event", "exec_out", "loop", "exec_in"), ("loop", "loop", "co", "exec_in"),
    ("co", "exec_out", "inner", "exec_in"), ("loop", "completed", "last", "exec_in"),
    ("event", "param_n", "co", "coroutine"), ("co", "result", "inner", "msg"),
    ("loop", "index", "inner", "x"), ("co", "result", "last", "msg")]

/-- The result is in scope in the body, and the read after the loop fails the function. -/
theorem lookup_isSome_iff_inScope_resumed : ∃ g customs,
    Graph.load resumedDocument Library.catalogue = .ok g ∧ g.customEvents = .ok customs ∧
    let c : Compilation := { graph := g, events := Signature.ofNodes customs }
    let log := (c.entry "event" 1).log {}
    log = log.take 7 ++ .statement "inner" 2 :: ([.value "co" "result"] ++
      .read "co" "result" "inner" (some "__pg_co_co_result") :: log.drop 10) ∧
    (∃ ws, g.ExecPath "event" "inner" ws ∧
      InScope g customs "event" (statements (log.take 7)) ws "co") ∧
    log = log.take 14 ++ .statement "last" 1 :: ([.value "co" "result"] ++
      .read "co" "result" "last" none :: []) ∧
    (∃ ws, g.ExecPath "event" "last" ws ∧
      ¬ InScope g customs "event" (statements (log.take 14)) ws "co") ∧
    (c.entry "event" 1 {}).1 =
      .error (.compile (.danglingValue (.text "co") (.text "result") (.text "last"))) := by
  have heval : ((Graph.load resumedDocument Library.catalogue).toOption.any fun g =>
      g.customEvents.toOption.any fun customs =>
        let c : Compilation := { graph := g, events := Signature.ofNodes customs }
        let log := (c.entry "event" 1).log {}
        log == log.take 7 ++ .statement "inner" 2 :: ([.value "co" "result"] ++
            .read "co" "result" "inner" (some "__pg_co_co_result") :: log.drop 10) &&
          log == log.take 14 ++ .statement "last" 1 :: ([.value "co" "result"] ++
            .read "co" "result" "last" none :: [])) = true := by
    decide +kernel
  obtain ⟨g, hload, heval⟩ := exists_ok_of_any heval
  obtain ⟨customs, hcustoms, heval⟩ := exists_ok_of_any heval
  obtain ⟨hinner, hlast⟩ := Bool.and_eq_true_iff.mp heval
  have hinner := eq_of_beq hinner
  have hlast := eq_of_beq hlast
  refine ⟨g, customs, hload, hcustoms, hinner, ?_, hlast, ?_, ?_⟩
  · obtain ⟨ws, hpath, hscope, _⟩ :=
      lookup_isSome_iff_inScope hload hcustoms rfl rfl .start hinner rfl
    exact ⟨ws, hpath, hscope.mp rfl⟩
  · obtain ⟨ws, hpath, hscope, _⟩ :=
      lookup_isSome_iff_inScope hload hcustoms rfl rfl .start hlast rfl
    exact ⟨ws, hpath, fun h => nomatch hscope.mpr h⟩
  · obtain ⟨_, _, _, _, hnone⟩ :=
      lookup_isSome_iff_inScope hload hcustoms rfl rfl .start hlast rfl
    exact hnone rfl

/-- An event whose id is a number, and whose parameter is printed. -/
def numberedDocument : Value := Graph.outline
  [(.int 5, "custom_event",
      [("parameters", .list [.object [("id", .text "n"), ("name", .text "Count")]])]),
    ("last", "print", [])]
  [(.int 5, "exec_out", "last", "exec_in"), (.int 5, "param_n", "last", "msg")]

/-- The parameters of an event that has no text for an id are not found in its own function, although
it answers to no event of the console. -/
theorem numbered_event_dangling : ∃ g m,
    Graph.load numberedDocument Library.catalogue = .ok g ∧ g.customEvents = .ok [m] ∧
    m.id = .int 5 ∧ g.statement? (.int 5) = some .openEvent ∧
    .read (.int 5) "param_n" "last" none ∈
      (Compilation.entry { graph := g, events := Signature.ofNodes [m] } (.int 5) 1).log {} := by
  have heval : ((Graph.load numberedDocument Library.catalogue).toOption.any fun g =>
      g.customEvents.toOption.any fun customs => customs.map (·.id) == [.int 5] &&
        g.statement? (.int 5) == some .openEvent &&
        ((Compilation.entry { graph := g, events := Signature.ofNodes customs } (.int 5) 1).log
          {}).contains (.read (.int 5) "param_n" "last" none)) = true := by
    decide +kernel
  obtain ⟨g, hload, heval⟩ := exists_ok_of_any heval
  obtain ⟨customs, hcustoms, heval⟩ := exists_ok_of_any heval
  obtain ⟨hids, hread⟩ := Bool.and_eq_true_iff.mp heval
  obtain ⟨hids, hst⟩ := Bool.and_eq_true_iff.mp hids
  obtain ⟨m, rfl, hid⟩ := List.map_eq_singleton_iff.mp (eq_of_beq hids)
  exact ⟨g, m, hload, hcustoms, hid, eq_of_beq hst, List.contains_iff_mem.mp hread⟩

end CartGraph
