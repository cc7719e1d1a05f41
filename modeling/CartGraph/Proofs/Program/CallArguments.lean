import CartGraph.Proofs.Emit.Emitted
import CartGraph.Proofs.Program.CallPins
import CartGraph.Proofs.Program.Functions

/-! # Calls and the functions that they call

A call that was emitted names a function of the program. Its arguments stand in the places of the
parameters: what was provided as it was, what was left empty by a default or by `nil`. Only optional
parameters at the end may lack an argument. -/
namespace CartGraph

/-! ## Arguments -/

/-- The argument for a parameter, given the text of the input of the call. -/
def Parameter.argument (p : Parameter) : Option String → String
  | some text => text
  | none => if p.optional then "nil" else Lua.defaultLiteral p.kind

def Parameter.slot (p : Parameter) (input : Option String) : Option String :=
  if input.isNone && !p.optional then some (Lua.defaultLiteral p.kind) else input

theorem Parameter.slot_getD (p : Parameter) (input : Option String) :
    (p.slot input).getD "nil" = p.argument input := by
  unfold slot argument
  cases input with
  | some text => rfl
  | none => cases p.optional <;> rfl

theorem Parameter.slot_eq_none {p : Parameter} {input : Option String} (h : p.slot input = none) :
    p.optional = true ∧ input = none := by
  unfold slot at h
  cases input with
  | some text => cases h
  | none =>
    cases ho : p.optional with
    | true => exact ⟨rfl, rfl⟩
    | false =>
      rw [ho] at h
      cases h

structure ArgumentsAgree (parameters : List Parameter) (inputs : List (Option String))
    (arguments : List String) : Prop where
  length : arguments.length ≤ parameters.length
  given : ∀ (i : Nat) (p : Parameter), i < arguments.length → parameters[i]? = some p →
    ∃ input, inputs[i]? = some input ∧ arguments[i]? = some (p.argument input)
  omitted : ∀ (i : Nat) (p : Parameter), arguments.length ≤ i → parameters[i]? = some p →
    p.optional = true ∧ inputs[i]? = some none

theorem argumentsAgree {parameters : List Parameter} {inputs : List (Option String)}
    (hlength : inputs.length = parameters.length) :
    ∃ arguments, ArgumentsAgree parameters inputs arguments ∧
      let slots := List.zipWith Parameter.slot parameters inputs
      Lua.arguments slots (slots.map fun _ => some "nil") = .ok arguments := by
  have hslot {i : Nat} {p : Parameter} (hp : parameters[i]? = some p) :
      ∃ input, inputs[i]? = some input ∧
        (List.zipWith Parameter.slot parameters inputs)[i]? = some (p.slot input) := by
    obtain ⟨hi, _⟩ := List.getElem?_eq_some_iff.mp hp
    have hinput := List.getElem?_eq_getElem (hlength ▸ hi)
    exact ⟨_, hinput, by rw [List.getElem?_zipWith, hp, hinput]⟩
  generalize hs : List.zipWith Parameter.slot parameters inputs = slots at hslot
  have hslots : slots.length = parameters.length := by
    rw [← hs, List.length_zipWith, hlength, Nat.min_self]
  refine ⟨_, ⟨?_, fun i p hi hp => ?_, fun i p hi hp => ?_⟩,
    Lua.arguments_same (a := "nil") (by simp) (by simp)⟩
  · rw [List.length_map, ← hslots]
    exact Lua.providedSlots_length_le slots
  · obtain ⟨input, hinput, hslot⟩ := hslot hp
    rw [List.length_map] at hi
    refine ⟨input, hinput, ?_⟩
    rw [List.getElem?_map, Lua.providedSlots_getElem? hi, hslot, Option.map_some, p.slot_getD]
  · obtain ⟨input, hinput, hslot⟩ := hslot hp
    rw [List.length_map] at hi
    obtain ⟨hoptional, rfl⟩ := Parameter.slot_eq_none (Lua.eq_none_of_dropped hi hslot)
    exact ⟨hoptional, hinput⟩

/-! ## Calls that were emitted -/

variable {c : Compilation}

/-- The slots of a call are those of its inputs. -/
theorem Site.eventSlots_eq (s : Site) (eval : Evaluate) (parameters : List Parameter) :
    s.eventSlots c eval parameters = (do
      let inputs ← c.inputs eval s.node (parameters.map fun p => p.inputPin)
      return List.zipWith Parameter.slot parameters inputs) := by
  induction parameters with
  | nil => rfl
  | cons p rest ih =>
    unfold eventSlots
    rw [ih, List.map_cons, Compilation.inputs]
    simp only [bind_assoc, pure_bind, List.zipWith_cons_cons]
    rfl

/-- A call that was emitted: what was read for it, and the line that was written. -/
structure Compilation.Wrote (c : Compilation) (call : Key) (level : Int) (signature : Signature)
    (before : List Visit) (inputs : List (Option String)) (arguments : List String) (line : String)
    (log : List Visit) : Prop where
  read : ∃ s s', s.trail.reverse = before ++ [.statement call level] ∧
    (c.inputs (c.evaluate call) call (signature.parameters.map fun p => p.inputPin)) s =
      (.ok inputs, s') ∧
    s'.trail.reverse ++ [.line call line] <+: log
  line : c.line level (Lua.call signature.functionName arguments) = .ok line
  agree : ArgumentsAgree signature.parameters inputs arguments

/-- What a call gathers is the line of the call. -/
theorem Compilation.Calls.gather_ok {call : Key} {signature : Signature}
    (h : c.Calls call signature) {level : Int} {path : List Key} {s s' : Progress}
    {opening : Opening}
    (hg : Statement.callEvent.gather c (c.evaluate call) (.enter call level path) s =
      (.ok opening, s')) :
    ∃ inputs arguments, (c.inputs (c.evaluate call) call
        (signature.parameters.map fun p => p.inputPin)) s = (.ok inputs, s') ∧
      ArgumentsAgree signature.parameters inputs arguments ∧
      opening = .line (Lua.call signature.functionName arguments) [.follow "exec_out"] := by
  obtain ⟨target, hproperty, hevent⟩ := h.resolves
  obtain ⟨target', s₁, htarget, hread⟩ := Emit.bind_ok hg
  obtain ⟨htarget', hs₁⟩ := Emit.lift_ok htarget
  subst hs₁
  cases hproperty.symm.trans htarget'
  rw [hevent] at hread
  obtain ⟨slots, s₂, hslots, hfill⟩ := Emit.bind_ok hread
  rw [Site.eventSlots_eq] at hslots
  obtain ⟨inputs, s₃, hinputs, hslots⟩ := Emit.bind_ok hslots
  cases hslots
  obtain ⟨arguments, s₄, hfilled, hopening⟩ := Emit.bind_ok hfill
  obtain ⟨harguments, hs₄⟩ := Emit.lift_ok hfilled
  subst hs₄
  cases hopening
  have hlength := (Compilation.inputs_none hinputs).length_eq
  rw [List.length_map] at hlength
  obtain ⟨arguments', hagree, hsame⟩ := argumentsAgree hlength.symm
  cases hsame.symm.trans harguments
  exact ⟨inputs, arguments, hinputs, hagree, rfl⟩

theorem Opened.call {call : Key} {level : Int} {before : List Visit} {lines : List String}
    {s' : Progress} (h : Opened c call level before.reverse lines s') {signature : Signature}
    (hcall : c.Calls call signature) :
    ∃ inputs arguments line,
      c.Wrote call level signature before inputs arguments line s'.trail.reverse ∧
        line ∈ lines := by
  obtain ⟨hst, htrail, hgather, hperform, hstands, hnoted⟩ := h
  cases (Graph.statement?_of_type hcall.type).symm.trans hst
  obtain ⟨inputs, arguments, hinputs, hagree, rfl⟩ := hcall.gather_ok hgather
  obtain ⟨line, s₃, hline, hperform⟩ := Emit.bind_ok hperform
  cases hperform
  obtain ⟨_, s₄, htext, hnote⟩ := Emit.bind_ok hline
  obtain ⟨hindented, hs₄⟩ := Emit.lift_ok htext
  subst hs₄
  cases hnote
  refine ⟨inputs, arguments, line, ⟨⟨_, _, ?_, hinputs, ?_⟩, hindented, hagree⟩,
    hstands.subset (.head _)⟩
  · rw [htrail, List.reverse_cons, List.reverse_reverse]
  · have hprefix := List.reverse_prefix.mpr hnoted
    rwa [List.reverse_cons] at hprefix

/-! ## Programs -/

namespace Program

end Program

end CartGraph
