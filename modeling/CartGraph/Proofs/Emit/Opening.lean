import CartGraph.Emit.Statement
import CartGraph.Proofs.Graph.Loaded

/-! # Statements in two phases

A statement first gathers the texts of its inputs, then opens: it binds what it makes readable and
writes its first line. Only then it hands over to the chains that leave it. Every statement has this
form, so what the walk does is told by what an opening does and by the parts that come after it. -/
namespace CartGraph

instance : LawfulMonad Emit := LawfulMonad.mk' Emit
  (fun m => by
    funext s
    show Emit.bind m _ s = m s
    unfold Emit.bind
    split <;> rename_i h <;> exact h.symm)
  (fun _ _ => rfl)
  (fun m f k => by
    funext s
    show Emit.bind (Emit.bind m f) k s = Emit.bind m (fun a => Emit.bind (f a) k) s
    unfold Emit.bind
    split <;> split at * <;> simp_all)

namespace Emit

theorem bind_ok {m : Emit α} {f : α → Emit β} {s s' : Progress} {b : β}
    (h : (m >>= f) s = (.ok b, s')) : ∃ a s₁, m s = (.ok a, s₁) ∧ f a s₁ = (.ok b, s') := by
  change Emit.bind m f s = _ at h
  unfold Emit.bind at h
  split at h
  · exact ⟨_, _, ‹_›, h⟩
  · cases h

theorem lift_ok {r : Except Error α} {s s' : Progress} {a : α} (h : lift r s = (.ok a, s')) :
    r = .ok a ∧ s' = s := by
  cases h
  exact ⟨rfl, rfl⟩

end Emit

/-- A piece of a statement that comes after its opening. -/
inductive Part where
  /-- A line of the statement itself. -/
  | line (text : String)
  /-- The chain of an exec output in the block of the statement. -/
  | follow (pin : String)
  /-- The chain of an exec output in a block of its own. -/
  | block (pin comment : String)
  /-- The body of a loop, in which the index is readable. -/
  | loop (index : String)

namespace Part

def emit (c : Compilation) (chain : Chain) (s : Site) : Part → Emit (List String)
  | .line text => do return [← s.line c text]
  | .follow pin => s.branchAt c chain pin s.level s.path
  | .block pin comment => s.body c chain pin comment
  | .loop index => .inBlock do
    let _ ← Emit.bindOutput s.node "index" (some index)
    s.body c chain "loop" "-- loop body"

def emitAll (c : Compilation) (chain : Chain) (s : Site) : List Part → Emit (List String)
  | [] => pure []
  | part :: rest => do
    let lines ← part.emit c chain s
    let more ← emitAll c chain s rest
    return lines ++ more

end Part

/-- How a statement opens, once its inputs are known, and the parts that follow. -/
inductive Opening where
  | silent (parts : List Part)
  | parameters (ps : List Parameter)
  | line (text : String) (parts : List Part)
  | resume (call : String)

def Opening.parts : Opening → List Part
  | .silent parts => parts
  | .parameters _ => [.follow "exec_out"]
  | .line _ parts => parts
  | .resume _ => [.follow "exec_out"]

def Opening.perform (c : Compilation) (s : Site) : Opening → Emit (List String)
  | .silent _ => pure []
  | .parameters ps => do
    s.bindParameters ps
    return []
  | .line text _ => do return [← s.line c text]
  | .resume call => do
    let success ← Emit.temp s.node "co_success"
    let success ← Emit.bindOutput s.node "success" (some success)
    let result ← Emit.temp s.node "co_result"
    let result ← Emit.bindOutput s.node "result" (some result)
    return [← s.line c ("local " ++ success ++ ", " ++ result ++ " = " ++ call)]

/-- The branches of a condition. One that leads nowhere is left out if it is the second. -/
def Site.branchParts (s : Site) (c : Compilation) : List Part :=
  .block "then" "-- then branch" ::
    (if (c.graph.execTargets s.node "else").isEmpty then []
      else [.line "else", .block "else" "-- else branch"]) ++ [.line "end"]

def Site.sequenceParts (pins : List Pin) : List Part :=
  pins.flatMap fun pin => [.line ("-- sequence " ++ Text.lower pin.label), .follow pin.id]

def Statement.gather (c : Compilation) (eval : Evaluate) (s : Site) : Statement → Emit Opening
  | .follow => pure (.silent [.follow "exec_out"])
  | .openEvent =>
    match c.event? s.node with
    | some signature => pure (.parameters signature.parameters)
    | none => pure (.silent [.follow "exec_out"])
  | .callEvent => do
    let target ← .lift (c.property s.node "eventId" .null)
    match c.event? target with
    | none => return .line "-- missing custom event target" [.follow "exec_out"]
    | some signature =>
      let slots ← s.eventSlots c eval signature.parameters
      let arguments ← .lift (Lua.arguments slots (slots.map fun _ => some "nil"))
      return .line (Lua.call signature.functionName arguments) [.follow "exec_out"]
  | .branch => do
    let condition ← c.inputOr eval s.node "condition" "false"
    return .line ("if " ++ condition ++ " then") (s.branchParts c)
  | .loop => do
    let index ← .lift (c.nameProperty s.node "index" "i")
    let first ← c.inputOr eval s.node "start" "0"
    let last ← c.inputOr eval s.node "end" "0"
    let step ← c.inputOr eval s.node "step" "1"
    return .line ("for " ++ index ++ " = " ++ first ++ ", " ++ last ++ ", " ++ step ++ " do")
      [.loop index, .line "end", .follow "completed"]
  | .sequence => do
    let pins ← .lift (c.graph.pinsOf s.node)
    return .silent (Site.sequenceParts pins.outputs)
  | .assign => do
    let value ← c.inputOr eval s.node "value" "nil"
    let name ← .lift (c.variableName s.node)
    return .line (name ++ " = " ++ value) [.follow "exec_out"]
  | .declare => do
    let name ← .lift (c.nameProperty s.node "name" "localVar")
    let kind ← .lift (c.property s.node "variableType" (.text "number"))
    let value ← s.localValue c eval (.ofValue kind)
    return .line ("local " ++ name ++ " = " ++ value) [.follow "exec_out"]
  | .call function slots => do
    let arguments ← c.slotArguments eval s.node slots
    return .line (Lua.call function arguments) [.follow "exec_out"]
  | .resume => do
    let coroutine ← c.input eval s.node "coroutine"
    let rest ← c.callArguments eval s.node ["arg1", "arg2"] [some "nil", some "nil"]
    return .resume (Lua.call "coroutine.resume" (coroutine.toList ++ rest))

inductive Opens (c : Compilation) (s : Site) : Statement → Opening → Prop
  | follow : Opens c s .follow (.silent [.follow "exec_out"])
  | noEvent (h : c.event? s.node = none) : Opens c s .openEvent (.silent [.follow "exec_out"])
  | event {signature} (h : c.event? s.node = some signature) :
    Opens c s .openEvent (.parameters signature.parameters)
  | noTarget : Opens c s .callEvent (.line "-- missing custom event target" [.follow "exec_out"])
  | callEvent {target signature arguments} (h : c.event? target = some signature) :
    Opens c s .callEvent (.line (Lua.call signature.functionName arguments) [.follow "exec_out"])
  | branch {condition} : Opens c s .branch (.line ("if " ++ condition ++ " then") (s.branchParts c))
  | loop {index first last step} (h : c.nameProperty s.node "index" "i" = .ok index) :
    Opens c s .loop (.line
      ("for " ++ index ++ " = " ++ first ++ ", " ++ last ++ ", " ++ step ++ " do")
      [.loop index, .line "end", .follow "completed"])
  | sequence {pins} (h : c.graph.pinsOf s.node = .ok pins) :
    Opens c s .sequence (.silent (Site.sequenceParts pins.outputs))
  | assign {name value} (h : c.variableName s.node = .ok name) :
    Opens c s .assign (.line (name ++ " = " ++ value) [.follow "exec_out"])
  | declare {name value} (h : c.nameProperty s.node "name" "localVar" = .ok name) :
    Opens c s .declare (.line ("local " ++ name ++ " = " ++ value) [.follow "exec_out"])
  | call {function slots arguments} :
    Opens c s (.call function slots) (.line (Lua.call function arguments) [.follow "exec_out"])
  | resume {call} : Opens c s .resume (.resume call)

theorem Statement.gather_ok {c : Compilation} {eval : Evaluate} {s : Site} {st : Statement}
    {p p' : Progress} {opening : Opening} (h : st.gather c eval s p = (.ok opening, p')) :
    Opens c s st opening := by
  cases st with
  | follow => cases h; exact .follow
  | openEvent =>
    cases he : c.event? s.node <;> simp only [gather, he] at h <;> cases h
    · exact .noEvent he
    · exact .event he
  | callEvent =>
    obtain ⟨target, _, _, h⟩ := Emit.bind_ok h
    cases he : c.event? target <;> simp only [he] at h
    · cases h
      exact .noTarget
    · obtain ⟨_, _, _, h⟩ := Emit.bind_ok h
      obtain ⟨_, _, _, h⟩ := Emit.bind_ok h
      cases h
      exact .callEvent he
  | branch =>
    obtain ⟨_, _, _, h⟩ := Emit.bind_ok h
    cases h
    exact .branch
  | loop =>
    obtain ⟨_, _, hi, h⟩ := Emit.bind_ok h
    obtain ⟨_, _, _, h⟩ := Emit.bind_ok h
    obtain ⟨_, _, _, h⟩ := Emit.bind_ok h
    obtain ⟨_, _, _, h⟩ := Emit.bind_ok h
    cases h
    exact .loop (Emit.lift_ok hi).1
  | sequence =>
    obtain ⟨_, _, hp, h⟩ := Emit.bind_ok h
    cases h
    exact .sequence (Emit.lift_ok hp).1
  | assign =>
    obtain ⟨_, _, _, h⟩ := Emit.bind_ok h
    obtain ⟨_, _, hn, h⟩ := Emit.bind_ok h
    cases h
    exact .assign (Emit.lift_ok hn).1
  | declare =>
    obtain ⟨_, _, hn, h⟩ := Emit.bind_ok h
    obtain ⟨_, _, _, h⟩ := Emit.bind_ok h
    obtain ⟨_, _, _, h⟩ := Emit.bind_ok h
    cases h
    exact .declare (Emit.lift_ok hn).1
  | call function slots =>
    obtain ⟨_, _, _, h⟩ := Emit.bind_ok h
    cases h
    exact .call
  | resume =>
    obtain ⟨_, _, _, h⟩ := Emit.bind_ok h
    obtain ⟨_, _, _, h⟩ := Emit.bind_ok h
    cases h
    exact .resume

/-! ## Every statement gathers, opens and goes on -/

section

variable {c : Compilation} (eval : Evaluate) (chain : Chain) (s : Site)

theorem Site.next_eq (h : Represented c.graph) (pin : Key) :
    s.next c chain pin = s.branchAt c chain pin s.level s.path := by
  unfold next branchAt
  rcases h.execTargets_cases s.node pin with ht | ⟨t, ht⟩ <;> rw [ht]
  simp [Chain.all]

theorem Site.lineThenNext_eq (h : Represented c.graph) (text : String) :
    s.lineThenNext c chain text = do
      let line ← s.line c text
      let more ← Part.emitAll c chain s [.follow "exec_out"]
      return [line] ++ more := by
  unfold lineThenNext
  simp [s.next_eq chain h, Part.emitAll, Part.emit]

theorem Site.sequenceLines_eq (pins : List Pin) :
    s.sequenceLines c chain pins = Part.emitAll c chain s (Site.sequenceParts pins) := by
  induction pins with
  | nil => rfl
  | cons pin rest ih =>
    simp only [sequenceParts, List.flatMap_cons] at ih ⊢
    simp [sequenceLines, Part.emitAll, Part.emit, ih]

theorem Statement.emit_eq (h : Represented c.graph) (st : Statement) :
    st.emit c eval chain s = do
      let opening ← st.gather c eval s
      let lines ← opening.perform c s
      let more ← Part.emitAll c chain s opening.parts
      return lines ++ more := by
  cases st with
  | follow => simp [emit, gather, Opening.perform, Opening.parts, Part.emitAll, Part.emit, s.next_eq chain h]
  | openEvent =>
    cases he : c.event? s.node <;>
      simp [emit, gather, Opening.perform, Opening.parts, Part.emitAll, Part.emit, s.next_eq chain h, he]
  | callEvent =>
    simp only [emit, gather, bind_assoc]
    congr 1
    funext target
    cases c.event? target <;> simp [Opening.perform, Opening.parts, s.lineThenNext_eq chain h]
  | branch =>
    simp only [emit, gather, bind_assoc, Site.branchParts]
    split <;> simp [Opening.perform, Opening.parts, Part.emitAll, Part.emit]
  | loop => simp [emit, gather, Opening.perform, Opening.parts, Part.emitAll, Part.emit]
  | sequence => simp [emit, gather, Opening.perform, Opening.parts, s.sequenceLines_eq chain]
  | assign => simp [emit, gather, Opening.perform, Opening.parts, s.lineThenNext_eq chain h]
  | declare => simp [emit, gather, Opening.perform, Opening.parts, s.lineThenNext_eq chain h]
  | call function slots => simp [emit, gather, Opening.perform, Opening.parts, s.lineThenNext_eq chain h]
  | resume => simp [emit, gather, Opening.perform, Opening.parts, s.lineThenNext_eq chain h]

end

end CartGraph
