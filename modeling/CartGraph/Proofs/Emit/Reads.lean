import CartGraph.Proofs.Emit.Opening
import CartGraph.Emit.Walk

/-! # Reading values

Gathering inputs changes no name in scope: it only counts visits, and notes which outputs are asked
for and which locals are looked up. A lookup that finds nothing ends the walk at once. -/
namespace CartGraph

/-! ## Inputs -/

/-- What holds of steps that only answer, and of one step after the other. -/
structure Emit.Closed (Φ : ∀ {α : Type}, Emit α → Prop) : Prop where
  pure : ∀ {α : Type} (a : α), Φ (Pure.pure a : Emit α)
  lift : ∀ {α : Type} (r : Except Error α), Φ (Emit.lift r)
  bind : ∀ {α β : Type} {m : Emit α} {f : α → Emit β}, Φ m → (∀ a, Φ (f a)) → Φ (m >>= f)

/-- It holds of evaluating what the wires of a node bring. -/
def Compilation.Wires (c : Compilation) (Φ : ∀ {α : Type}, Emit α → Prop) (eval : Evaluate)
    (node : Key) : Prop :=
  ∀ pin w, pin ≠ .text "exec_in" → c.graph.incoming? node pin = some w →
    Φ (eval w.sourceNode w.sourcePin)

section

variable {Φ : ∀ {α : Type}, Emit α → Prop} (hΦ : Emit.Closed Φ) {c : Compilation} {eval : Evaluate}
include hΦ

namespace Compilation

variable {node : Key} (hw : c.Wires Φ eval node)
include hw

theorem input_closed {pin : Key} (hp : pin ≠ .text "exec_in") : Φ (c.input eval node pin) := by
  unfold input
  split
  · exact hΦ.bind (hw _ _ hp ‹_›) fun _ => hΦ.pure _
  · exact hΦ.lift _

theorem inputOr_closed {pin : Key} (hp : pin ≠ .text "exec_in") (fallback : String) :
    Φ (c.inputOr eval node pin fallback) :=
  hΦ.bind (input_closed hΦ hw hp) fun _ => hΦ.pure _

theorem inputs_closed {pins : List Key} (hp : ∀ pin ∈ pins, pin ≠ .text "exec_in") :
    Φ (c.inputs eval node pins) := by
  induction pins with
  | nil => exact hΦ.pure _
  | cons pin rest ih =>
    obtain ⟨hpin, hrest⟩ := List.forall_mem_cons.mp hp
    exact hΦ.bind (input_closed hΦ hw hpin) fun _ => hΦ.bind (ih hrest) fun _ => hΦ.pure _

theorem callArguments_closed {pins : List Key} (hp : ∀ pin ∈ pins, pin ≠ .text "exec_in")
    (placeholders : List (Option String)) : Φ (c.callArguments eval node pins placeholders) :=
  hΦ.bind (inputs_closed hΦ hw hp) fun _ => hΦ.lift _

theorem slotArguments_closed {slots : List Slot} (hs : "exec_in" ∉ slots.map Slot.pin) :
    Φ (c.slotArguments eval node slots) := by
  refine callArguments_closed hΦ hw (fun pin hp => ?_) _
  obtain ⟨slot, hslot, rfl⟩ := List.mem_map.mp hp
  exact fun h => hs (List.mem_map.mpr ⟨slot, hslot, Key.text.inj h⟩)

end Compilation

theorem Expression.emit_closed {node pin reader : Key} (hw : c.Wires Φ eval node) {e : Expression}
    (hpins : "exec_in" ∉ e.inputs)
    (hbound : ∀ output, e = .bound output →
      Φ (Emit.boundOutput node ((output.map Key.text).getD pin) reader)) :
    Φ (e.emit c eval node pin reader) := by
  have input {pin : Key} (hp : pin ≠ .text "exec_in") (fallback : String) :
      Φ (c.inputOr eval node pin fallback) := c.inputOr_closed hΦ hw hp fallback
  cases e with
  | globalName => exact hΦ.lift _
  | localName => exact hΦ.lift _
  | literal kind => exact hΦ.lift _
  | binary operator identity =>
    exact hΦ.bind (input (by decide) _) fun _ => hΦ.bind (input (by decide) _) fun _ => hΦ.pure _
  | compare =>
    exact hΦ.bind (hΦ.lift _) fun _ => hΦ.bind (hΦ.lift _) fun _ =>
      hΦ.bind (input (by decide) _) fun _ => hΦ.bind (input (by decide) _) fun _ => hΦ.pure _
  | apply function argument fallback =>
    have hp : Key.text argument ≠ .text "exec_in" := fun h =>
      hpins (List.mem_singleton.mpr (Key.text.inj h).symm)
    exact hΦ.bind (input hp _) fun _ => hΦ.pure _
  | call function slots =>
    exact hΦ.bind (c.slotArguments_closed hΦ hw hpins) fun _ => hΦ.pure _
  | bound output =>
    cases output with
    | none => exact hbound none rfl
    | some output => exact hbound (some output) rfl

variable {s : Site} (hw : c.Wires Φ eval s.node)
include hw

theorem Site.eventSlots_closed (ps : List Parameter) : Φ (s.eventSlots c eval ps) := by
  induction ps with
  | nil => exact hΦ.pure _
  | cons p rest ih =>
    have hp : Key.text p.inputPin ≠ .text "exec_in" := by
      intro h
      have hl := congrArg String.toList (Key.text.inj h)
      simp [Parameter.inputPin] at hl
    exact hΦ.bind (c.input_closed hΦ hw hp) fun _ => hΦ.bind ih fun _ => hΦ.pure _

theorem Site.localValue_closed (kind : Kind) : Φ (s.localValue c eval kind) := by
  unfold localValue
  split
  · rename_i w hwire
    have hp : Key.text "value" ≠ .text "exec_in" := by decide
    exact hw _ _ hp hwire
  · exact hΦ.lift _

theorem Statement.gather_closed {st : Statement} (hpins : "exec_in" ∉ st.pins) :
    Φ (st.gather c eval s) := by
  have input {pin : Key} (hp : pin ≠ .text "exec_in") (fallback : String) :
      Φ (c.inputOr eval s.node pin fallback) := c.inputOr_closed hΦ hw hp fallback
  cases st with
  | follow => exact hΦ.pure _
  | openEvent =>
    cases hev : c.event? s.node <;> simp only [gather, hev] <;> exact hΦ.pure _
  | callEvent =>
    refine hΦ.bind (hΦ.lift _) fun target => ?_
    split
    · exact hΦ.pure _
    · exact hΦ.bind (s.eventSlots_closed hΦ hw _) fun _ => hΦ.bind (hΦ.lift _) fun _ => hΦ.pure _
  | branch => exact hΦ.bind (input (by decide) _) fun _ => hΦ.pure _
  | loop =>
    exact hΦ.bind (hΦ.lift _) fun _ => hΦ.bind (input (by decide) _) fun _ =>
      hΦ.bind (input (by decide) _) fun _ => hΦ.bind (input (by decide) _) fun _ => hΦ.pure _
  | sequence => exact hΦ.bind (hΦ.lift _) fun _ => hΦ.pure _
  | assign => exact hΦ.bind (input (by decide) _) fun _ => hΦ.bind (hΦ.lift _) fun _ => hΦ.pure _
  | declare =>
    exact hΦ.bind (hΦ.lift _) fun _ => hΦ.bind (hΦ.lift _) fun _ =>
      hΦ.bind (s.localValue_closed hΦ hw _) fun _ => hΦ.pure _
  | call function slots =>
    exact hΦ.bind (c.slotArguments_closed hΦ hw hpins) fun _ => hΦ.pure _
  | resume =>
    exact hΦ.bind (c.input_closed hΦ hw (by decide)) fun _ =>
      hΦ.bind (c.callArguments_closed hΦ hw (by decide) _) fun _ => hΦ.pure _

end

/-! ## Steps that only read -/

/-- What a step that only reads may note: a lookup, of an output that may be looked up, finds what
the table says. -/
def Visit.Asks (R : Key → Key → Prop) (table : SymbolTable) : Visit → Prop
  | .value _ _ => True
  | .read node pin _ found => R node pin ∧ found = table.lookup node pin
  | _ => False

def Emit.Quiet (R : Key → Key → Prop) (m : Emit α) : Prop :=
  ∀ s, ∃ asked, (m s).2.trail = asked ++ s.trail ∧ (m s).2.symbols = s.symbols ∧
    (∀ v ∈ asked, v.Asks R s.symbols) ∧
    ∀ node pin reader : Key, .read node pin reader none ∈ asked →
      (m s).1 = .error (.compile (.danglingValue node pin reader))

namespace Emit.Quiet

variable {R : Key → Key → Prop}

/-- A step that notes nothing and leaves the names alone. -/
theorem of_silent {m : Emit α} (ht : ∀ s, (m s).2.trail = s.trail)
    (hs : ∀ s, (m s).2.symbols = s.symbols) : Quiet R m := fun s =>
  ⟨[], ht s, hs s, fun _ hv => (nomatch hv), fun _ _ _ hv => (nomatch hv)⟩

theorem pure (a : α) : Quiet R (Pure.pure a : Emit α) := of_silent (fun _ => rfl) fun _ => rfl

theorem lift (r : Except Error α) : Quiet R (Emit.lift r) := of_silent (fun _ => rfl) fun _ => rfl

theorem fail (e : Error) : Quiet R (Emit.fail e : Emit α) := of_silent (fun _ => rfl) fun _ => rfl

theorem tick (c : Compilation) (node : Key) : Quiet R (c.tick node) :=
  of_silent (fun _ => rfl) fun _ => rfl

theorem checkDepth (c : Compilation) (depth : Int) (node : Key) : Quiet R (c.checkDepth depth node) :=
  lift _

theorem record_value (node pin : Key) : Quiet R (Emit.record (.value node pin)) := fun s =>
  ⟨[.value node pin], rfl, rfl, fun v hv => by cases List.mem_singleton.mp hv; trivial,
    fun _ _ _ hv => by cases List.mem_singleton.mp hv⟩

theorem boundOutput {node pin : Key} (h : R node pin) (reader : Key) :
    Quiet R (Emit.boundOutput node pin reader) := fun s => by
  unfold Emit.boundOutput
  cases hl : s.symbols.lookup node pin with
  | some name =>
    refine ⟨[.read node pin reader (some name)], rfl, rfl, fun v hv => ?_, fun _ _ _ hv => ?_⟩
    · cases List.mem_singleton.mp hv
      exact ⟨h, hl.symm⟩
    · cases List.mem_singleton.mp hv
  | none =>
    refine ⟨[.read node pin reader none], rfl, rfl, fun v hv => ?_, fun _ _ _ hv => ?_⟩
    · cases List.mem_singleton.mp hv
      exact ⟨h, hl.symm⟩
    · cases List.mem_singleton.mp hv
      rfl

theorem bind {m : Emit α} {f : α → Emit β} (hm : Quiet R m) (hf : ∀ a, Quiet R (f a)) :
    Quiet R (m >>= f) := fun s => by
  obtain ⟨asked, ht, hs, hv, hd⟩ := hm s
  change ∃ asked, (Emit.bind m f s).2.trail = asked ++ s.trail ∧ (Emit.bind m f s).2.symbols = s.symbols ∧
    (∀ v ∈ asked, v.Asks R s.symbols) ∧ ∀ node pin reader : Key, .read node pin reader none ∈ asked →
      (Emit.bind m f s).1 = .error (.compile (.danglingValue node pin reader))
  unfold Emit.bind
  rcases hms : m s with ⟨a | a, s₁⟩ <;> rw [hms] at ht hs hd
  · exact ⟨asked, ht, hs, hv, fun _ _ _ h => congrArg _ (Except.error.inj (hd _ _ _ h))⟩
  · obtain ⟨more, ht', hs', hv', hd'⟩ := hf a s₁
    refine ⟨more ++ asked, ?_, hs'.trans hs, fun v h => ?_, fun _ _ _ h => ?_⟩
    · rw [List.append_assoc]
      exact ht'.trans (congrArg (more ++ ·) ht)
    · rcases List.mem_append.mp h with h | h
      · exact hs ▸ hv' v h
      · exact hv v h
    · rcases List.mem_append.mp h with h | h
      · exact hd' _ _ _ h
      -- a lookup that found nothing would have ended the first step
      · cases hd _ _ _ h

theorem bind_lift {r : Except Error α} {f : α → Emit β} (hf : ∀ a, r = .ok a → Quiet R (f a)) :
    Quiet R (Emit.lift r >>= f) := by
  cases r with
  | ok a => exact hf a rfl
  | error e => exact of_silent (fun _ => rfl) fun _ => rfl

theorem ite {p : Prop} [Decidable p] {m m' : Emit α} (h : Quiet R m) (h' : Quiet R m') :
    Quiet R (if p then m else m') := by
  split
  · exact h
  · exact h'

theorem closed : Emit.Closed fun {_} m => m.Quiet R := ⟨pure, lift, bind⟩

end Emit.Quiet

/-- Which outputs the wires of a graph bring (`E`), and which locals are looked up for them
(`R`). -/
structure Compilation.Asks (c : Compilation) (E R : Key → Key → Prop) : Prop where
  wire : ∀ {node pin w}, pin ≠ .text "exec_in" → c.graph.incoming? node pin = some w →
    E w.sourceNode w.sourcePin
  bound : ∀ {node pin t output}, E node pin → c.graph.typeOf node = .ok t →
    t.expression? = some (.bound output) → R node ((output.map Key.text).getD pin)
  unbound : ∀ {node pin t}, E node pin → c.graph.typeOf node = .ok t → t.expression? = none →
    t.definition.hasExecPins = true → R node pin

section

variable {c : Compilation} {E R : Key → Key → Prop} {eval : Evaluate}

def Evaluate.Quiet (E R : Key → Key → Prop) (eval : Evaluate) : Prop :=
  ∀ node pin, E node pin → (eval node pin).Quiet R

theorem Evaluate.Quiet.wires (he : eval.Quiet E R) (hc : c.Asks E R) (node : Key) :
    c.Wires (fun {_} m => m.Quiet R) eval node := fun _ _ hp hw => he _ _ (hc.wire hp hw)

theorem Statement.gather_quiet (hc : c.Asks E R) (he : eval.Quiet E R) (s : Site) {st : Statement}
    (hpins : "exec_in" ∉ st.pins) : (st.gather c eval s).Quiet R :=
  st.gather_closed Emit.Quiet.closed (he.wires hc s.node) hpins

theorem Compilation.evaluateWithin_quiet (h : Represented c.graph) (hc : c.Asks E R) (steps : Nat)
    (reader : Key) (path : List Key) : (c.evaluateWithin steps reader path).Quiet E R := by
  induction steps generalizing reader path with
  | zero => exact fun _ _ _ => .fail _
  | succ steps ih =>
    intro node pin hE
    rw [evaluateWithin_succ]
    unfold evaluateStep evaluateCall
    refine .ite (.of_silent (fun _ => rfl) fun _ => rfl) ?_
    refine (Emit.Quiet.checkDepth c _ node).bind fun _ => (Emit.Quiet.tick c node).bind fun _ =>
      .bind_lift fun t ht => (Emit.Quiet.record_value node pin).bind fun _ => ?_
    cases hexp : t.expression? with
    | some e =>
      have hpins := Library.expression_pins t (h.type_mem ht) e hexp
      refine e.emit_closed Emit.Quiet.closed (Evaluate.Quiet.wires (ih node _) hc node) hpins ?_
      rintro output rfl
      exact .boundOutput (hc.bound hE ht hexp) reader
    | none =>
      dsimp only
      split
      · exact .boundOutput (hc.unbound hE ht hexp ‹_›) reader
      · exact .fail _

/-- What it takes to evaluate an output: the node is not on the path, its visit is noted, and its
expression is emitted, or the local that holds the output is found. -/
theorem Compilation.evaluateWithin_ok {steps : Nat} {reader : Key} {path : List Key}
    {node pin : Key} {s s' : Progress} {text : String}
    (h : c.evaluateWithin (steps + 1) reader path node pin s = (.ok text, s')) :
    node.canonical ∉ path ∧ ∃ t s₁, c.graph.typeOf node = .ok t ∧
      s₁.trail = .value node pin :: s.trail ∧
      (∀ e, t.expression? = some e →
        (e.emit c (c.evaluateWithin steps node (node.canonical :: path)) node pin reader) s₁ =
          (.ok text, s')) ∧
      (t.expression? = none → Emit.boundOutput node pin reader s₁ = (.ok text, s')) := by
  rw [evaluateWithin_succ] at h
  unfold evaluateStep evaluateCall at h
  dsimp only at h
  split at h
  · obtain ⟨_, _, hfail, _⟩ := Emit.bind_ok h
    cases hfail
  rename_i hnew
  obtain ⟨_, s₁, hdepth, hrest⟩ := Emit.bind_ok h
  obtain ⟨_, s₂, htick, hrest⟩ := Emit.bind_ok hrest
  obtain ⟨t, s₃, ht, hrest⟩ := Emit.bind_ok hrest
  obtain ⟨_, s₄, hrecord, hemit⟩ := Emit.bind_ok hrest
  obtain ⟨ht, hthird⟩ := Emit.lift_ok ht
  have htrail : s₄.trail = .value node pin :: s.trail := by
    have hfirst : s₁ = s := (Emit.lift_ok hdepth).2
    have hsecond : s₂.trail = s₁.trail := congrArg (fun r => r.2.trail) htick.symm
    have hfourth : s₄.trail = .value node pin :: s₃.trail :=
      congrArg (fun r => r.2.trail) hrecord.symm
    rw [hfourth, hthird, hsecond, hfirst]
  refine ⟨by simpa using hnew, t, s₄, ht, htrail, fun e he => ?_, fun he => ?_⟩
  · rw [he] at hemit
    exact hemit
  · rw [he] at hemit
    dsimp only at hemit
    split at hemit
    · exact hemit
    · cases hemit

end

end CartGraph
