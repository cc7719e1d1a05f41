import CartGraph.Library.Standard
import CartGraph.Proofs.Graph.Wire
import Mathlib.Data.List.Nodup

/-! # What holds of every type of the standard catalogue

The catalogue is a list of types that are given once and for all, so these are checked on the
list. -/
namespace CartGraph

def Expression.pins : Expression → List String
  | .apply _ pin _ => [pin]
  | .call _ slots => slots.map Slot.pin
  | _ => []

def Statement.pins : Statement → List String
  | .call _ slots => slots.map Slot.pin
  | _ => []

def Expression.inputs : Expression → List String
  | .binary .. | .compare => ["a", "b"]
  | e => e.pins

/-- The inputs that a statement reads, the arguments of an event aside. -/
def Statement.inputs : Statement → List String
  | .branch => ["condition"]
  | .loop => ["start", "end", "step"]
  | .assign => ["value"]
  | .resume => ["coroutine", "arg1", "arg2"]
  | st => st.pins

def Expression.slots : Expression → List Slot
  | .call _ slots => slots
  | _ => []

def Statement.slots : Statement → List Slot
  | .call _ slots => slots
  | _ => []

/-- A slot of a type can be left empty before another: it has a placeholder, or its pin a
default. -/
def Definition.Fills (d : Definition) (slot : Slot) : Prop :=
  slot.placeholder = none → ∀ p ∈ d.inputs, p.id = slot.pin → p.default.isNull = false

instance (d : Definition) (slot : Slot) : Decidable (d.Fills slot) :=
  inferInstanceAs (Decidable (_ → _))

/-- The output that an expression reads back, the one that is asked for unless it is given. -/
def Expression.output? : Expression → Option (Option String)
  | .bound output => some output
  | _ => none

/-- The exec outputs that a statement follows, unless they are derived. -/
def Statement.execOutputs : Statement → List String
  | .branch => ["then", "else"]
  | .loop => ["loop", "completed"]
  | .sequence => []
  | _ => ["exec_out"]

namespace Library

theorem types_of_find? {id : String} {t : NodeType} (h : catalogue.find? id = some t) : t ∈ types :=
  Graph.find?_mem h

theorem inputs_direction : ∀ t ∈ types, ∀ p ∈ t.definition.inputs, p.direction = .input := by
  decide

theorem outputs_direction : ∀ t ∈ types, ∀ p ∈ t.definition.outputs, p.direction = .output := by
  decide

theorem steady {t : NodeType} (h : t ∈ types) : t.definition.Steady where
  inputs := inputs_direction t h
  sides := outputs_direction t h
  outputs := by
    have : ∀ t ∈ types, ∀ p ∈ t.definition.outputs, ∀ q ∈ t.definition.outputs,
        p.id = q.id → p.isExec = q.isExec := by decide
    exact this t h
  branches := by
    have : ∀ t ∈ types, t.definition.derivedPins = .branches →
        ∀ p ∈ t.definition.outputs, p.isExec = true := by decide
    exact this t h
  parameters := by
    have : ∀ t ∈ types, t.definition.derivedPins = .parameters →
        ∀ p ∈ t.definition.outputs, p.isExec = true → p.id = "exec_out" := by decide
    exact this t h

theorem execInput_id : ∀ t ∈ types, ∀ p ∈ t.definition.inputs, p.isExec = true →
    p.id = "exec_in" := by
  decide

/-- No expression reads the exec input of its node. -/
theorem expression_pins : ∀ t ∈ types, ∀ e ∈ t.expression?, "exec_in" ∉ e.inputs := by
  decide

/-- No statement reads the exec input of its node. -/
theorem statement_pins : ∀ t ∈ types, ∀ st ∈ t.statement?, "exec_in" ∉ st.pins := by
  decide

/-- Statements follow the exec outputs that their types list, in order. -/
theorem statement_execOutputs : ∀ t ∈ types, ∀ st ∈ t.statement?,
    (t.definition.outputs.filter Pin.isExec).map Pin.id = st.execOutputs := by
  decide

theorem sequence_iff : ∀ t ∈ types, ∀ st ∈ t.statement?,
    t.definition.derivedPins = .branches ↔ st = .sequence := by
  decide

theorem sequence_outputs : ∀ t ∈ types, t.definition.derivedPins = .branches →
    t.definition.outputs = [] := by
  decide

/-- What is read back was bound by a resumed coroutine or by a loop. -/
theorem expression_output : ∀ t ∈ types, ∀ e ∈ t.expression?, ∀ output ∈ e.output?,
    (output = none ∧ t.statement? = some .resume ∧ t.definition.derivedPins = .none ∧
      ∀ p ∈ t.definition.outputs, p.isExec = false → p.id = "success" ∨ p.id = "result") ∨
    (output = some "index" ∧ t.statement? = some .loop) := by
  decide

/-- Of what has no expression, only the parameters of an event are values. -/
theorem unbound_outputs : ∀ t ∈ types, t.expression? = none →
    (∀ p ∈ t.definition.outputs, p.isExec = true) ∧
      (t.definition.derivedPins = .parameters → t.statement? = some .openEvent) := by
  decide

/-- Nothing leads to an event. -/
theorem openEvent_inputs : ∀ t ∈ types, t.statement? = some .openEvent →
    ∀ p ∈ t.definition.inputs, p.isExec = false := by
  decide

/-! ## What is read is there to be read -/

theorem expression_inputs : ∀ t ∈ types, ∀ e ∈ t.expression?, ∀ pin ∈ e.inputs,
    ∃ p ∈ t.definition.inputs, p.id = pin := by
  decide

/-- A pure type reads all its inputs, and its nodes have no others. -/
theorem pure_inputs : ∀ t ∈ types, ∀ e ∈ t.expression?, t.definition.hasExecPins = false →
    t.definition.derivedPins = .none ∧ ∀ p ∈ t.definition.inputs, p.id ∈ e.inputs := by
  decide

theorem statement_inputs : ∀ t ∈ types, ∀ st ∈ t.statement?, ∀ pin ∈ st.inputs,
    ∃ p ∈ t.definition.inputs, p.id = pin := by
  decide

theorem expression_slots : ∀ t ∈ types, ∀ e ∈ t.expression?, ∀ slot ∈ e.slots.dropLast,
    t.definition.Fills slot := by
  decide

theorem statement_slots : ∀ t ∈ types, ∀ st ∈ t.statement?, ∀ slot ∈ st.slots.dropLast,
    t.definition.Fills slot := by
  decide

/-- Only calls of events have an input for each parameter. -/
theorem arguments_iff : ∀ t ∈ types, t.definition.derivedPins = .arguments ↔
    t.statement? = some .callEvent := by
  decide

theorem callEvent_type {t : NodeType} (h : t ∈ types) (hst : t.statement? = some .callEvent) :
    t = callCustomEvent := by
  have hid : ∀ t ∈ types, t.statement? = some .callEvent → t.id = callCustomEvent.id := by decide
  have hmem : callCustomEvent ∈ types := by simp [types, control]
  exact List.inj_on_of_nodup_map catalogue.distinct h hmem (hid t h hst)

theorem arguments_expression : ∀ t ∈ types, t.definition.derivedPins = .arguments →
    t.expression? = none := by
  decide

/-- The options of properties are texts. -/
theorem optionTexts_isSome : ∀ t ∈ types, ∀ p ∈ t.definition.properties,
    p.optionTexts.toOption.isSome = true := by
  decide

end Library

end CartGraph
