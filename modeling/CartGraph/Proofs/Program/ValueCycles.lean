import CartGraph.Proofs.Emit.ExecCycles
import CartGraph.Proofs.Emit.Mirror

/-! # Cycles of values

A value is evaluated along the connections that bring it, and a node that is needed for itself is
refused. What is reported is a cycle, since the path holds just the nodes that the value is on its
way to. Nothing is missed either: a pure node that is evaluated has all its inputs evaluated after
it, so whatever can be followed back from it was met on the way. -/
namespace CartGraph

namespace Graph

def ValueStep (g : Graph) (a b : Key) : Prop :=
  ∃ w ∈ g.connections, w.isExec = false ∧ w.sourceNode.canonical = a ∧ w.targetNode.canonical = b

def OnValueCycle (g : Graph) (n : Key) : Prop :=
  Relation.TransGen g.ValueStep n.canonical n.canonical

/-- A node that is evaluated where it is read: it has values, and no exec pins. -/
def IsPure (g : Graph) (n : Key) : Prop :=
  ∃ t, g.typeOf n = .ok t ∧ t.expression?.isSome = true ∧ t.definition.hasExecPins = false

/-- A pure node takes a value of another, both in canonical form. -/
def Draws (g : Graph) (reader source : Key) : Prop := g.IsPure reader ∧ g.ValueStep source reader

/-- No chain of values that is followed back from a node comes by a node twice. -/
def Unwinds (g : Graph) (n : Key) : Prop :=
  ∀ chain, List.IsChain g.Draws (n.canonical :: chain) → (n.canonical :: chain).Nodup

end Graph

theorem Key.canonical_canonical (k : Key) : k.canonical.canonical = k.canonical := by
  cases k with
  | float x =>
    by_cases h : x.isInteger = true
    · simp [canonical, h]
    · simp [canonical, h]
  | null | bool | int | text => rfl

namespace Loaded

variable {g : Graph} (hg : Loaded g)
include hg

theorem valueStep_of_supplies {a b : Key} (h : g.Supplies a b) : g.ValueStep a b := by
  obtain ⟨w, hw, hpin, hs, ht⟩ := h
  refine ⟨w, hw, ?_, hs, ht⟩
  rw [← Bool.not_eq_true]
  intro hx
  rw [hg.exec_in hw hx] at hpin
  exact hpin rfl

/-- What leads to a pure node leads to an input that its expression reads. -/
theorem incoming_of_pure {node : Key} {t : NodeType} {e : Expression}
    (ht : g.typeOf node = .ok t) (he : t.expression? = some e)
    (hpure : t.definition.hasExecPins = false) {w : Connection} (hw : w ∈ g.connections)
    (htarget : w.targetNode.canonical = node.canonical) :
    ∃ pin ∈ e.inputs, g.incoming? node (.text pin) = some w := by
  obtain ⟨hnone, hinputs⟩ := Library.pure_inputs t (hg.type_mem ht) e he hpure
  obtain ⟨source, target, hj⟩ := hg.joins w hw
  obtain ⟨_, ps, hps, hmem⟩ := hg.listed hj
  obtain ⟨t', n, derived, ht', _, hderived, hlist, _⟩ := Graph.pinsOf_ok hps
  cases ht.symm.trans ((Graph.typeOf_congr htarget).mp ht')
  have hmem : target ∈ t.definition.inputs := by
    simp only [Graph.derivedPins, hnone] at hderived
    cases hderived
    simpa [hlist] using hmem
  refine ⟨target.id, hinputs target hmem, (hg.incoming _ _).mpr ⟨hw, ?_⟩⟩
  rw [Connection.target, placeOf, hj.targetPin, htarget]
  rfl

end Loaded

/-! ## What was evaluated -/

section

variable {c : Compilation} {eval : Evaluate} {node : Key} {s s' : Progress}

namespace Compilation

theorem input_ok {pin : Key} {w : Connection} {text : Option String}
    (hw : c.graph.incoming? node pin = some w) (h : (c.input eval node pin) s = (.ok text, s')) :
    ∃ value, eval w.sourceNode w.sourcePin s = (.ok value, s') := by
  unfold input at h
  rw [hw] at h
  obtain ⟨value, s₁, hvalue, h⟩ := Emit.bind_ok h
  cases h
  exact ⟨value, hvalue⟩

theorem inputs_ok {pins : List Key} {texts : List (Option String)}
    (h : (c.inputs eval node pins) s = (.ok texts, s')) {pin : Key} (hp : pin ∈ pins)
    {w : Connection} (hw : c.graph.incoming? node pin = some w) :
    ∃ s₁ value s₂, eval w.sourceNode w.sourcePin s₁ = (.ok value, s₂) := by
  induction pins generalizing s s' texts with
  | nil => cases hp
  | cons pin' rest ih =>
    obtain ⟨_, s₁, hfirst, h⟩ := Emit.bind_ok h
    obtain ⟨_, s₂, hrest, _⟩ := Emit.bind_ok h
    rcases List.mem_cons.mp hp with rfl | hp
    · obtain ⟨value, hvalue⟩ := input_ok hw hfirst
      exact ⟨s, value, s₁, hvalue⟩
    · exact ih hrest hp

end Compilation

/-- All that an expression reads is evaluated. -/
theorem Expression.emit_ok {e : Expression} {pin reader : Key} {text : String}
    (h : (e.emit c eval node pin reader) s = (.ok text, s')) {read : String} (hp : read ∈ e.inputs)
    {w : Connection} (hw : c.graph.incoming? node (.text read) = some w) :
    ∃ s₁ value s₂, eval w.sourceNode w.sourcePin s₁ = (.ok value, s₂) := by
  -- two operands are two inputs
  have operands {fallback : String} {f : String → String → String} {s : Progress}
      (hp : read ∈ ["a", "b"]) (h : (do
        let a ← c.inputOr eval node "a" fallback
        let b ← c.inputOr eval node "b" fallback
        return f a b : Emit String) s = (.ok text, s')) :
      ∃ s₁ value s₂, eval w.sourceNode w.sourcePin s₁ = (.ok value, s₂) := by
    obtain ⟨_, s₁, ha, h⟩ := Emit.bind_ok h
    obtain ⟨_, s₂, hb, _⟩ := Emit.bind_ok h
    obtain ⟨_, _, ha, _⟩ := Emit.bind_ok ha
    obtain ⟨_, _, hb, _⟩ := Emit.bind_ok hb
    rcases List.mem_pair.mp hp with rfl | rfl
    · obtain ⟨value, hvalue⟩ := Compilation.input_ok hw ha
      exact ⟨_, value, _, hvalue⟩
    · obtain ⟨value, hvalue⟩ := Compilation.input_ok hw hb
      exact ⟨_, value, _, hvalue⟩
  cases e with
  | globalName | localName | literal | bound => cases hp
  | binary operator identity => exact operands hp h
  | compare =>
    obtain ⟨_, _, _, h⟩ := Emit.bind_ok h
    obtain ⟨_, _, _, h⟩ := Emit.bind_ok h
    exact operands hp h
  | apply function argument fallback =>
    cases List.mem_singleton.mp hp
    obtain ⟨_, _, h, _⟩ := Emit.bind_ok h
    obtain ⟨_, _, h, _⟩ := Emit.bind_ok h
    obtain ⟨value, hvalue⟩ := Compilation.input_ok hw h
    exact ⟨_, value, _, hvalue⟩
  | call function slots =>
    obtain ⟨_, _, h, _⟩ := Emit.bind_ok h
    obtain ⟨_, _, h, _⟩ := Emit.bind_ok h
    refine Compilation.inputs_ok h ?_ hw
    obtain ⟨slot, hslot, rfl⟩ := List.mem_map.mp hp
    exact List.mem_map_of_mem hslot

/-- A chain that is followed back from an output that was evaluated comes by no node twice, and by
no node of the path. -/
theorem Compilation.evaluateWithin_chain (hg : Loaded c.graph) {steps : Nat} {reader pin : Key}
    {path : List Key} {text : String}
    (h : c.evaluateWithin steps reader path node pin s = (.ok text, s')) {chain : List Key}
    (hchain : List.IsChain c.graph.Draws (node.canonical :: chain)) :
    (node.canonical :: chain).Nodup ∧ (node.canonical :: chain).Disjoint path := by
  induction steps generalizing node reader pin path text s s' chain with
  | zero => cases h
  | succ steps ih =>
    obtain ⟨hnew, t, s₁, ht, _, hemit, _⟩ := evaluateWithin_ok h
    cases chain with
    | nil => simpa using hnew
    | cons source rest =>
      obtain ⟨⟨⟨t', ht', hsome, hpure⟩, w, hw, _, hsource, htarget⟩, hrest⟩ :=
        List.isChain_cons_cons.mp hchain
      cases ht.symm.trans ((Graph.typeOf_congr (Key.canonical_canonical node)).mp ht')
      obtain ⟨e, he⟩ := Option.isSome_iff_exists.mp hsome
      obtain ⟨read, hread, hin⟩ := hg.incoming_of_pure ht he hpure hw htarget
      obtain ⟨_, _, _, hvalue⟩ := Expression.emit_ok (hemit e he) hread hin
      subst hsource
      obtain ⟨hnodup, hdisjoint⟩ := ih hvalue hrest
      rw [List.disjoint_cons_right] at hdisjoint
      exact ⟨List.nodup_cons.mpr ⟨hdisjoint.1, hnodup⟩,
        List.disjoint_cons_left.mpr ⟨hnew, hdisjoint.2⟩⟩

end

/-! ## What was asked for -/

def Progress.Asked (V : Key → Prop) (s s' : Progress) : Prop :=
  ∀ node pin, .value node pin ∈ s'.trail → .value node pin ∈ s.trail ∨ V node

/-- If the step answers, it has asked only for outputs of nodes with a property. -/
def Emit.Asked (V : Key → Prop) (m : Emit α) : Prop :=
  ∀ s a s', m s = (.ok a, s') → s.Asked V s'

section

variable {V : Key → Prop}

namespace Progress.Asked

theorem of_trail {s s' : Progress} (h : s'.trail = s.trail) : s.Asked V s' := by
  intro node pin hv
  exact .inl (h ▸ hv)

theorem note {s s' : Progress} {v : Visit} (h : s'.trail = v :: s.trail)
    (hv : ∀ node pin, v = .value node pin → V node) : s.Asked V s' := by
  intro node pin hmem
  rw [h] at hmem
  rcases List.mem_cons.mp hmem with heq | hmem
  · exact .inr (hv node pin heq.symm)
  · exact .inl hmem

theorem trans {s₁ s₂ s₃ : Progress} (h : s₁.Asked V s₂) (h' : s₂.Asked V s₃) : s₁.Asked V s₃ := by
  intro node pin hv
  rcases h' node pin hv with hv | hv
  · exact h node pin hv
  · exact .inr hv

theorem admits : Progress.Admits (Progress.Asked V) where
  refl _ := of_trail rfl
  trans := trans
  line _ _ _ := note rfl fun _ _ h => by cases h
  bound _ _ _ _ := of_trail rfl
  temp _ _ _ := of_trail rfl

end Progress.Asked

theorem Emit.Asked.closed : Emit.Closed fun {_} m => m.Asked V where
  pure a s b s' h := by
    cases h
    exact .of_trail rfl
  lift r s a s' h := .of_trail (by rw [(Emit.lift_ok h).2])
  bind hm hf s b s' h := by
    obtain ⟨a, s₁, ha, hb⟩ := Emit.bind_ok h
    exact (hm s a s₁ ha).trans (hf a s₁ b s' hb)

theorem Emit.Asked.boundOutput (node pin reader : Key) :
    (Emit.boundOutput node pin reader).Asked V := by
  intro s a s' h
  refine .note (v := .read node pin reader (s.symbols.lookup node pin)) ?_ fun _ _ h => by cases h
  unfold Emit.boundOutput at h
  dsimp only at h
  split at h <;> cases h
  rfl

end

section

variable {c : Compilation} (hg : Loaded c.graph)
include hg

/-- Every output that is asked for in the course of an evaluation is evaluated. -/
theorem Compilation.evaluateWithin_asked (steps : Nat) (reader : Key) (path : List Key)
    (node pin : Key) : (c.evaluateWithin steps reader path node pin).Asked c.graph.Unwinds := by
  induction steps generalizing reader path node pin with
  | zero =>
    intro s a s' h
    cases h
  | succ steps ih =>
    intro s text s' h
    have hunwinds : c.graph.Unwinds node := fun chain hchain =>
      (evaluateWithin_chain hg h hchain).1
    obtain ⟨_, t, s₁, ht, htrail, hemit, hbound⟩ := evaluateWithin_ok h
    have hnoted : s.Asked c.graph.Unwinds s₁ := .note htrail fun _ _ heq => by
      cases heq
      exact hunwinds
    cases he : t.expression? with
    | none => exact hnoted.trans (Emit.Asked.boundOutput _ _ _ s₁ text s' (hbound he))
    | some e =>
      have hpins := Library.expression_pins t (hg.type_mem ht) e he
      have hasked : (e.emit c (c.evaluateWithin steps node (node.canonical :: path)) node pin
          reader).Asked c.graph.Unwinds :=
        e.emit_closed Emit.Asked.closed (fun _ _ _ _ => ih _ _ _ _) hpins
          fun _ _ => .boundOutput _ _ _
      exact hnoted.trans (hasked s₁ text s' (hemit e he))

theorem Runs.asked {task : Task} {s : Progress} {out : Outcome} (run : Runs c task s out)
    {lines : List String} (hok : out.1 = .ok lines) : s.Asked c.graph.Unwinds out.2 := by
  induction run generalizing lines with
  | refused | unread | unopened | stop => cases hok
  | @entered node level path st s s₁ s₂ s₃ opening first out enters hgather hperform _ ih =>
    obtain ⟨more, hmore⟩ := Outcome.after_ok hok
    obtain ⟨t, hmem, _, hst⟩ := hg.statement_mem enters.statement
    have hentered : s.Asked c.graph.Unwinds s₁ := .note enters.trail fun _ _ h => by cases h
    have hgathered := st.gather_closed Emit.Asked.closed
      (fun _ w _ _ => c.evaluateWithin_asked hg c.reach node [] w.sourceNode w.sourcePin)
      (Library.statement_pins t hmem st hst) s₁ opening s₂ hgather
    have hopened : s₂.Asked c.graph.Unwinds s₃ :=
      Opening.perform_related Progress.Asked.admits hperform
    exact hentered.trans (hgathered.trans (hopened.trans (ih hmore)))
  | done => exact .of_trail rfl
  | next _ _ ihfirst ih =>
    obtain ⟨more, hmore⟩ := Outcome.after_ok hok
    exact (ihfirst rfl).trans (ih hmore)
  | line => exact Site.written_within _ (Progress.Asked.admits.forNode _) _ _ _ _
  | idle => exact .of_trail rfl
  | follow _ _ ih => exact ih hok
  | block _ ih => exact ih hok
  | loop _ _ ih => exact ih hok
  | blank => exact Site.commented_within _ (Progress.Asked.admits.forNode _) _ _ _ _
  | filled _ _ ih =>
    obtain ⟨more, hmore⟩ := Site.commented_ok _ hok
    exact Progress.Asked.trans (ih hmore)
      (Site.commented_within _ (Progress.Asked.admits.forNode _) _ _ _ _)

end

/-! ## Programs -/

/-- A cycle of values that is met in a function is one. -/
theorem Compilation.WalkFaults.suppliesItself {c : Compilation} {entry : Key} {v : Value}
    (h : c.WalkFaults entry (.compile (.cycle v "value"))) :
    ∃ k : Key, v = k ∧ c.graph.SuppliesItself k := by
  generalize he : Error.compile (.cycle v "value") = e at h
  cases h with
  | read hsite =>
    subst he
    cases hsite with
    | read hfault =>
      cases hfault with
      | node _ hnode _ hv => exact ⟨_, hnode, hv v rfl⟩
      | setting hs => exact absurd rfl (hs.ne_compile _)
  | cycle =>
    -- the other relation
    simp at he

namespace Program

variable {g : Graph} {settings : Settings} {globals : List Variable} {v : Value}
  {relation : String}

theorem Entries.ofGraph_ne_cycle :
    ofGraph g settings ≠ .error (.compile (.cycle v relation)) := by
  intro h
  obtain ⟨n, hn, entries, h⟩ := foldlM_error h
  rcases bind_error h with h | ⟨info, _, h⟩
  · rcases bind_error h with h | ⟨t, _, h⟩
    · obtain ⟨_, _, _, h⟩ :=
        Graph.typeOf_error (Loaded.hasNode_iff.mpr (List.mem_map_of_mem hn)) h
      cases h
    · cases h
  · dsimp only at h
    split at h
    · cases h
    split at h
    · cases h
    rcases bind_error h with h | ⟨_, _, h⟩
    · unfold Value.key at h
      split at h <;> cases h
    · cases h

theorem Entries.mapM_idText_error {ids : List Key} {e : Error} (h : ids.mapM idText = .error e) :
    ∃ id, e = .idNotText id := by
  induction ids with
  | nil => cases h
  | cons id rest ih =>
    rw [List.mapM_cons] at h
    rcases bind_error h with h | ⟨_, _, h⟩
    · cases id with
      | text s => cases h
      | null | bool | int | float => exact ⟨_, (Except.error.inj h).symm⟩
    · rcases bind_error h with h | ⟨_, _, h⟩
      · exact ih h
      · cases h

theorem Entries.check_ne_cycle (entries : Entries) :
    entries.check ≠ .error (.compile (.cycle v relation)) := by
  intro h
  unfold check at h
  cases hc : entries.comparable with
  | false =>
    rw [hc] at h
    cases h
  | true =>
    rw [hc] at h
    cases hd : entries.duplicate? with
    | none =>
      rw [hd] at h
      cases h
    | some found =>
      rw [hd] at h
      change (found.2.mapM idText >>= fun names => _) = .error _ at h
      rcases bind_error h with h | ⟨_, _, h⟩
      · obtain ⟨_, h⟩ := mapM_idText_error h
        cases h
      · cases h

/-- A cycle is met in a function, and nowhere else. -/
theorem assemble_cycle
    (h : assemble g settings globals = .error (.compile (.cycle v relation))) :
    ∃ entries names, Entries.ofGraph g settings = .ok entries ∧
      ∃ f ∈ functions entries ((Signature.ofNodes entries.custom).map (·.2)), ∃ s,
        ((compilation g settings entries names).entry f.node 1 s).1 =
          .error (.compile (.cycle v relation)) := by
  rcases assemble_error_cases h with h | ⟨entries, hentries, h | ⟨ce, hdeclare, h⟩ | ⟨names, h⟩⟩
  · exact absurd h Entries.ofGraph_ne_cycle
  · exact absurd h entries.check_ne_cycle
  · obtain ⟨_, _, _, rfl⟩ := Variable.declare_error hdeclare
    cases h
  · exact ⟨entries, names, hentries, h⟩

theorem emitAll_asked {c : Compilation} (hg : Loaded c.graph) {fs : List Function}
    {s s' : Progress} {lines : List String} (h : emitAll c fs s = (.ok lines, s')) :
    s.Asked c.graph.Unwinds s' := by
  induction fs generalizing s lines with
  | nil =>
    cases h
    exact .of_trail rfl
  | cons f rest ih =>
    obtain ⟨body, more, s₁, hbody, hmore, _⟩ := emitAll_cons h
    obtain ⟨out, run, hout⟩ := c.entry_runs hg.toRepresented f.node 1 s
    rw [hbody] at hout
    obtain ⟨hok, rfl⟩ := Prod.mk.inj hout
    have hleft : out.2.Asked c.graph.Unwinds (out.2.leave s) := .of_trail rfl
    exact Progress.Asked.trans (run.asked hg hok.symm) (hleft.trans (ih hmore))

end Program

/-- A cycle of values that is reported is one, and the node that is named lies on it. And none is
missed: if the program is made, no chain of values that is followed back, through pure nodes, from
an output that was asked for comes by a node twice. -/
theorem assemble_value_cycle {document : Value} {g : Graph}
    (hload : Graph.load document Library.catalogue = .ok g) (settings : Settings)
    (globals : List Variable) :
    (∀ n, Program.assemble g settings globals = .error (.compile (.cycle n "value")) →
      ∃ k : Key, n = k ∧ g.OnValueCycle k) ∧
    ∀ text progress, Program.assembleLogged g settings globals = (.ok text, progress) →
      ∀ n pin, .value n pin ∈ progress.trail → g.Unwinds n := by
  have hg := Loaded.of_load hload
  refine ⟨fun n h => ?_, fun text progress h n pin hread => ?_⟩
  · obtain ⟨entries, names, hentries, f, hf, s, h⟩ := Program.assemble_cycle h
    obtain ⟨m, hm, hnode⟩ := Program.functions_node hentries hf
    have hentry : g.hasNode f.node = true :=
      hnode ▸ Loaded.hasNode_iff.mpr (List.mem_map_of_mem hm)
    obtain ⟨k, rfl, hcycle⟩ := (Compilation.entry_raises hg hentry 1 s _ h).suppliesItself
    exact ⟨k, rfl, Relation.TransGen.mono (fun _ _ => hg.valueStep_of_supplies) _ _ hcycle⟩
  · cases hentries : Program.Entries.ofGraph g settings with
    | error e =>
      unfold Program.assembleLogged at h
      rw [hentries] at h
      cases h
    | ok entries =>
      rcases Program.assembleLogged_ok h hentries with ⟨_, rfl⟩ | ⟨declarations, lines, _, hrun, _⟩
      · cases hread
      · exact (Program.emitAll_asked hg hrun n pin hread).resolve_left fun h => by cases h

/-- Two sums that take each other's value, one of them given to a variable. -/
def circularSum : Value := Graph.outline
  [("start", "event_start", []), ("set", "set_var", [("name", .text "x")]),
    ("left", "add_number", []), ("right", "add_number", [])]
  [("start", "exec_out", "set", "exec_in"), ("left", "sum", "set", "value"),
    ("right", "sum", "left", "a"), ("left", "sum", "right", "b")]

/-- A sum of two sums that share an operand, given to a variable. -/
def sharedOperand : Value := Graph.outline
  [("start", "event_start", []), ("set", "set_var", [("name", .text "x")]),
    ("top", "add_number", []), ("left", "add_number", []), ("right", "add_number", []),
    ("shared", "add_number", [("pin:a", .int 1)])]
  [("start", "exec_out", "set", "exec_in"), ("top", "sum", "set", "value"),
    ("left", "sum", "top", "a"), ("right", "sum", "top", "b"), ("shared", "sum", "left", "a"),
    ("shared", "sum", "right", "a")]

theorem assemble_value_cycle_sums :
    (∃ g n, Graph.load circularSum Library.catalogue = .ok g ∧
      Program.assemble g {} [] = .error (.compile (.cycle n "value")) ∧
      ∃ k : Key, n = k ∧ g.OnValueCycle k) ∧
    ∃ g text progress, Graph.load sharedOperand Library.catalogue = .ok g ∧
      Program.assembleLogged g {} [] = (.ok text, progress) ∧
      progress.trail.count (.value "shared" "sum") = 2 ∧
      .value "top" "sum" ∈ progress.trail ∧ g.Unwinds "top" := by
  constructor
  · have heval : ((Graph.load circularSum Library.catalogue).toOption.any fun g =>
        reportedCycle? (Program.assemble g {} []) == some "value") = true := by
      decide +kernel
    obtain ⟨g, hload, heval⟩ := exists_ok_of_any heval
    obtain ⟨n, hrun⟩ := exists_of_reportedCycle? (eq_of_beq heval)
    exact ⟨g, n, hload, hrun, (assemble_value_cycle hload {} []).1 n hrun⟩
  · have heval : ((Graph.load sharedOperand Library.catalogue).toOption.any fun g =>
        let made := Program.assembleLogged g {} []
        made.1.isOk && made.2.trail.count (.value "shared" "sum") == 2 &&
          made.2.trail.contains (.value "top" "sum")) = true := by
      decide +kernel
    obtain ⟨g, hload, heval⟩ := exists_ok_of_any heval
    rcases hrun : Program.assembleLogged g {} [] with ⟨e | text, progress⟩
    · rw [hrun] at heval
      cases heval
    · rw [hrun] at heval
      simp only [Bool.and_eq_true, beq_iff_eq, List.contains_iff_mem] at heval
      exact ⟨g, text, progress, hload, hrun, heval.1.2, heval.2,
        (assemble_value_cycle hload {} []).2 text progress hrun _ _ heval.2⟩

end CartGraph
