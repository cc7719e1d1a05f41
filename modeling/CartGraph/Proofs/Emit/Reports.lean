import CartGraph.Proofs.Emit.Failures

/-! # What emitting never reports

That several nodes answer to one event is told before anything is emitted, and only then. No step of
the walk reports it, whatever graph, settings and names the walk is given
(`Compilation.entry_unshared`). -/
namespace CartGraph

/-- An error that does not report an event that several nodes answer to. -/
def Error.Unshared (e : Error) : Prop := ∀ event nodes, e ≠ .compile (.duplicateEntry event nodes)

def Unreported (r : Except Error α) : Prop := ∀ e, r = .error e → e.Unshared

namespace Unreported

theorem ok (a : α) : Unreported (.ok a : Except Error α) := by
  intro e h
  cases h

theorem error {e : Error} (h : e.Unshared) : Unreported (.error e : Except Error α) := by
  intro e' he
  cases he
  exact h

theorem bind {x : Except Error α} {f : α → Except Error β} (hx : Unreported x)
    (hf : ∀ a, Unreported (f a)) : Unreported (x >>= f) := by
  intro e h
  rcases bind_error h with h | ⟨a, _, h⟩
  · exact hx e h
  · exact hf a e h

theorem map {x : Except Error α} (hx : Unreported x) (f : α → β) : Unreported (x.map f) :=
  fun e h => hx e (map_error h)

theorem mapM {f : α → Except Error β} (hf : ∀ a, Unreported (f a)) (l : List α) :
    Unreported (l.mapM f) := by
  induction l with
  | nil => exact .ok _
  | cons a rest ih =>
    rw [List.mapM_cons]
    exact (hf a).bind fun _ => ih.bind fun _ => .ok _

end Unreported

/-! ## Questions about one node -/

theorem Value.key_unreported (v : Value) : Unreported v.key := by
  unfold key
  split
  · exact .ok _
  · exact .error (by simp [Error.Unshared])

namespace Graph

variable (g : Graph) (node : Key)

theorem node_unreported : Unreported (g.node node) := by
  unfold Graph.node
  split
  · exact .ok _
  · exact .error (by simp [Error.Unshared])

theorem typeOf_unreported : Unreported (g.typeOf node) := by
  refine (g.node_unreported node).bind fun n => .bind ?_ fun t => ?_
  · refine (Value.key_unreported _).bind fun k => ?_
    split <;> exact .ok _
  · split
    · exact .ok _
    · exact .error (by simp [Error.Unshared])

theorem pinsOf_unreported : Unreported (g.pinsOf node) := by
  refine (g.typeOf_unreported node).bind fun t => (g.node_unreported node).bind fun n =>
    .bind ?_ fun _ => .ok _
  unfold derivedPins
  split
  · exact .ok _
  · exact .ok _
  · exact .ok _
  · refine .bind ((Value.key_unreported _).bind fun _ => .ok _) fun event => ?_
    split <;> exact .ok _

end Graph

theorem Property.check_unreported (p : Property) (v node : Value) :
    Unreported (p.check v node) := by
  unfold check
  split
  · exact .ok _
  refine .bind ?_ fun misfit => ?_
  · unfold misfit?
    split
    · split
      · exact .ok _
      · refine (Unreported.mapM (fun option => ?_) p.options).map _
        split
        · exact .ok _
        · exact .error (by simp [Error.Unshared])
    all_goals exact .ok _
  · split
    · exact .ok _
    · exact .error (by simp [Error.Unshared])

theorem Lua.arguments_unreported (slots placeholders : List (Option α)) :
    Unreported (arguments slots placeholders) := by
  have hfill (index : Nat) (slots placeholders : List (Option α)) :
      Unreported (fillSlots index slots placeholders) := by
    fun_induction fillSlots index slots placeholders with
    | case1 => exact .ok _
    | case2 _ _ _ _ ih => exact ih.map _
    | case3 _ _ _ _ ih => exact ih.map _
    | case4 => exact .error (by simp [Error.Unshared])
  unfold arguments
  split
  · exact .error (by simp [Error.Unshared])
  · exact hfill _ _ _

namespace Compilation

variable (c : Compilation) (node : Key)

theorem checkLimit_unreported (name : String) (limit : Value) (count : Int) :
    Unreported (checkLimit name limit count node) := by
  refine .bind ?_ fun passed => ?_
  · unfold Settings.passes
    split
    · split
      · exact .ok _
      · exact .error (by simp [Error.Unshared])
    · exact .error (by simp [Error.Unshared])
  · split
    · exact .error (by simp [Error.Unshared])
    · exact .ok _

theorem line_unreported (level : Int) (text : String) : Unreported (c.line level text) := by
  refine .map (.map ?_ _) _
  unfold Settings.width
  split
  · unfold Settings.widthOf
    split
    · exact .error (by simp [Error.Unshared])
    · split
      · exact .error (by simp [Error.Unshared])
      · exact .ok _
  · exact .ok _
  · exact .error (by simp [Error.Unshared])

theorem property_unreported (key : Key) (fallback : Value) :
    Unreported (c.property node key fallback) := by
  refine (c.graph.typeOf_unreported node).bind fun t => (c.graph.node_unreported node).bind
    fun n => ?_
  dsimp only
  split
  · exact .ok _
  · exact (Property.check_unreported _ _ _).bind fun _ => .ok _

theorem nameProperty_unreported (key fallback : String) :
    Unreported (c.nameProperty node key fallback) :=
  (c.property_unreported node key _).bind fun _ => .ok _

theorem literal_unreported (kind : Kind) (v : Value) (key : String) :
    Unreported (c.literal node kind v key) := by
  unfold literal
  split
  · exact .ok _
  · exact .error (by simp [Error.Unshared])
  · rename_i e _ he
    obtain ⟨key', v', reason, rfl⟩ := Lua.literal_error he
    exact .error (by simp [Error.Unshared])

theorem comparison_unreported (v : Value) : Unreported (c.comparison node v) := by
  unfold comparison Lua.comparison
  generalize Text.strip _ = operator
  dsimp only
  split
  · exact .ok _
  · exact .error (by simp [Error.Unshared])

theorem variableName_unreported : Unreported (c.variableName node) := by
  refine (c.graph.node_unreported node).bind fun n => ?_
  dsimp only
  split <;> exact .ok _

theorem unwired_unreported (pin : Key) : Unreported (c.unwired node pin) := by
  refine .bind ((c.graph.pinsOf_unreported node).bind fun _ => .ok _) fun p =>
    (c.graph.node_unreported node).bind fun n => ?_
  split
  · exact .error (by simp [Error.Unshared])
  dsimp only
  split
  · exact (c.literal_unreported node _ _ _).bind fun _ => .ok _
  split
  · exact (c.literal_unreported node _ _ _).bind fun _ => .ok _
  split
  · exact .error (by simp [Error.Unshared])
  · exact .ok _

end Compilation

/-! ## Steps -/

/-- Closing a block that was opened fails at the root only. -/
theorem Emit.Raises.inBlock_of_root {P : Error → Prop} {m : Emit α} (hroot : P .rootScope)
    (hm : m.Raises P) : m.inBlock.Raises P := by
  intro s e h
  unfold Emit.inBlock SymbolTable.pop at h
  dsimp only at h
  split at h
  · exact hm _ e h
  · rename_i hpop
    split at hpop <;> cases hpop
    cases h
    exact hroot

namespace Compilation

variable (c : Compilation) {eval : Evaluate} (node : Key)

theorem checkDepth_unshared (depth : Int) : (c.checkDepth depth node).Raises Error.Unshared :=
  .lift (checkLimit_unreported node _ _ _)

theorem tick_unshared : (c.tick node).Raises Error.Unshared :=
  fun _ e h => checkLimit_unreported node _ _ _ e h

theorem boundOutput_unshared (pin reader : Key) :
    (Emit.boundOutput node pin reader).Raises Error.Unshared := by
  intro s e h
  unfold Emit.boundOutput at h
  dsimp only at h
  split at h <;> cases h
  simp [Error.Unshared]

variable (heval : ∀ node pin, (eval node pin).Raises Error.Unshared)
include heval

theorem input_unshared (pin : Key) : (c.input eval node pin).Raises Error.Unshared := by
  unfold input
  split
  · exact (heval _ _).bind fun _ => .pure _
  · exact .lift (c.unwired_unreported node pin)

theorem inputOr_unshared (pin : Key) (fallback : String) :
    (c.inputOr eval node pin fallback).Raises Error.Unshared :=
  (c.input_unshared node heval pin).bind fun _ => .pure _

theorem callArguments_unshared (pins : List Key) (placeholders : List (Option String)) :
    (c.callArguments eval node pins placeholders).Raises Error.Unshared := by
  refine Emit.Raises.bind ?_ fun slots => .lift (Lua.arguments_unreported _ _)
  induction pins with
  | nil => exact .pure _
  | cons pin rest ih =>
    exact (c.input_unshared node heval pin).bind fun _ => ih.bind fun _ => .pure _

end Compilation

section

variable {c : Compilation} {eval : Evaluate}
  (heval : ∀ node pin, (eval node pin).Raises Error.Unshared)
include heval

theorem Expression.emit_unshared (e : Expression) (node pin reader : Key) :
    (e.emit c eval node pin reader).Raises Error.Unshared := by
  have input (pin : Key) (fallback : String) := c.inputOr_unshared node heval pin fallback
  cases e with
  | globalName => exact .lift (c.variableName_unreported node)
  | localName => exact .lift (c.nameProperty_unreported node _ _)
  | literal kind =>
    exact .lift ((c.property_unreported node _ _).bind fun _ => c.literal_unreported node _ _ _)
  | binary operator identity =>
    exact (input _ _).bind fun _ => (input _ _).bind fun _ => .pure _
  | compare =>
    exact (Emit.Raises.lift (c.property_unreported node _ _)).bind fun _ =>
      (Emit.Raises.lift (c.comparison_unreported node _)).bind fun _ =>
      (input _ _).bind fun _ => (input _ _).bind fun _ => .pure _
  | apply function argument fallback => exact (input _ _).bind fun _ => .pure _
  | call function slots => exact (c.callArguments_unshared node heval _ _).bind fun _ => .pure _
  | bound output =>
    cases output with
    | none => exact Compilation.boundOutput_unshared node pin reader
    | some output => exact Compilation.boundOutput_unshared node output reader

namespace Site

variable (s : Site) {chain : Chain}

omit heval in
theorem lineAt_unshared (level : Int) (text : String) :
    (s.lineAt c level text).Raises Error.Unshared :=
  (Emit.Raises.lift (c.line_unreported level text)).bind fun _ =>
    (Emit.Raises.record _).bind fun _ => .pure _

omit heval in
theorem bindParameters_unshared (ps : List Parameter) :
    (s.bindParameters ps).Raises Error.Unshared := by
  induction ps with
  | nil => exact .pure _
  | cons p rest ih => exact (Emit.Raises.bindOutput _ _ _).bind fun _ => ih

theorem eventSlots_unshared (ps : List Parameter) :
    (s.eventSlots c eval ps).Raises Error.Unshared := by
  induction ps with
  | nil => exact .pure _
  | cons p rest ih =>
    exact (c.input_unshared s.node heval _).bind fun _ => ih.bind fun _ => .pure _

theorem localValue_unshared (kind : Kind) : (s.localValue c eval kind).Raises Error.Unshared := by
  unfold localValue
  split
  · exact heval _ _
  · refine .lift ((c.property_unreported s.node _ _).bind fun v => ?_)
    split
    · exact .ok _
    · exact c.literal_unreported s.node _ _ _

variable (hchain : ∀ node level path, (chain node level path).Raises Error.Unshared)
include hchain

omit heval

theorem next_unshared (pin : Key) : (s.next c chain pin).Raises Error.Unshared := by
  unfold next
  split
  · exact .pure _
  · exact hchain _ _ _

theorem branchAt_unshared (pin : Key) (level : Int) (path : List Key) :
    (s.branchAt c chain pin level path).Raises Error.Unshared := by
  have hall (targets : List Key) : (chain.all level path targets).Raises Error.Unshared := by
    induction targets with
    | nil => exact .pure _
    | cons target rest ih => exact (hchain _ _ _).bind fun _ => ih.bind fun _ => .pure _
  unfold branchAt
  split
  · exact .pure _
  dsimp only
  split
  · exact (hall _).inBlock_of_root (by simp [Error.Unshared])
  · exact hall _

theorem body_unshared (pin comment : String) :
    (s.body c chain pin comment).Raises Error.Unshared := by
  refine (s.branchAt_unshared hchain _ _ _).bind fun lines => ?_
  split
  · exact (s.lineAt_unshared _ _).bind fun _ => .pure _
  · exact .pure _

theorem lineThenNext_unshared (text : String) :
    (s.lineThenNext c chain text).Raises Error.Unshared :=
  (s.lineAt_unshared _ _).bind fun _ => (s.next_unshared hchain _).bind fun _ => .pure _

theorem sequenceLines_unshared (pins : List Pin) :
    (s.sequenceLines c chain pins).Raises Error.Unshared := by
  induction pins with
  | nil => exact .pure _
  | cons pin rest ih =>
    exact (s.lineAt_unshared _ _).bind fun _ => (s.branchAt_unshared hchain _ _ _).bind fun _ =>
      ih.bind fun _ => .pure _

end Site

theorem Statement.emit_unshared {chain : Chain}
    (hchain : ∀ node level path, (chain node level path).Raises Error.Unshared) (s : Site)
    (st : Statement) : (st.emit c eval chain s).Raises Error.Unshared := by
  have input (pin : Key) (fallback : String) := c.inputOr_unshared s.node heval pin fallback
  have line (text : String) : (s.line c text).Raises Error.Unshared := s.lineAt_unshared _ _
  have goOn (text : String) := s.lineThenNext_unshared (c := c) hchain text
  cases st with
  | follow => exact s.next_unshared hchain _
  | openEvent =>
    unfold emit
    dsimp only
    split
    · exact (s.bindParameters_unshared _).bind fun _ => s.next_unshared hchain _
    · exact s.next_unshared hchain _
  | callEvent =>
    refine (Emit.Raises.lift (c.property_unreported s.node _ _)).bind fun target => ?_
    split
    · exact goOn _
    · exact (s.eventSlots_unshared heval _).bind fun _ =>
        (Emit.Raises.lift (Lua.arguments_unreported _ _)).bind fun _ => goOn _
  | branch =>
    refine (input _ _).bind fun _ => (line _).bind fun _ =>
      (s.body_unshared hchain _ _).bind fun _ => ?_
    dsimp only
    split
    · exact (Emit.Raises.pure _).bind fun _ => (line _).bind fun _ => .pure _
    · exact (line _).bind fun _ => (s.body_unshared hchain _ _).bind fun _ =>
        (Emit.Raises.pure _).bind fun _ => (line _).bind fun _ => .pure _
  | loop =>
    refine (Emit.Raises.lift (c.nameProperty_unreported s.node _ _)).bind fun _ =>
      (input _ _).bind fun _ => (input _ _).bind fun _ => (input _ _).bind fun _ =>
      (line _).bind fun _ => Emit.Raises.bind ?_ fun _ => (line _).bind fun _ =>
      (s.branchAt_unshared hchain _ _ _).bind fun _ => .pure _
    refine Emit.Raises.inBlock_of_root (by simp [Error.Unshared]) ?_
    exact (Emit.Raises.bindOutput _ _ _).bind fun _ => s.body_unshared hchain _ _
  | sequence =>
    exact (Emit.Raises.lift (c.graph.pinsOf_unreported s.node)).bind fun _ =>
      s.sequenceLines_unshared hchain _
  | assign =>
    exact (input _ _).bind fun _ =>
      (Emit.Raises.lift (c.variableName_unreported s.node)).bind fun _ => goOn _
  | declare =>
    exact (Emit.Raises.lift (c.nameProperty_unreported s.node _ _)).bind fun _ =>
      (Emit.Raises.lift (c.property_unreported s.node _ _)).bind fun _ =>
      (s.localValue_unshared heval _).bind fun _ => goOn _
  | call function slots =>
    exact (c.callArguments_unshared s.node heval _ _).bind fun _ => goOn _
  | resume =>
    exact (c.input_unshared s.node heval _).bind fun _ =>
      (c.callArguments_unshared s.node heval _ _).bind fun _ =>
      (Emit.Raises.withSymbols _).bind fun _ => (Emit.Raises.bindOutput _ _ _).bind fun _ =>
      (Emit.Raises.withSymbols _).bind fun _ => (Emit.Raises.bindOutput _ _ _).bind fun _ =>
      goOn _

end

/-! ## The walk -/

namespace Compilation

variable (c : Compilation)

theorem evaluateWithin_unshared (steps : Nat) (reader : Key) (path : List Key) (node pin : Key) :
    (c.evaluateWithin steps reader path node pin).Raises Error.Unshared := by
  induction steps generalizing reader path node pin with
  | zero => exact .fail (by simp [Error.Unshared])
  | succ steps ih =>
    rw [evaluateWithin_succ]
    unfold evaluateStep evaluateCall
    by_cases hp : path.contains node.canonical = true
    · rw [if_pos hp]
      exact .fail_bind (by simp [Error.Unshared]) _
    rw [if_neg hp]
    refine (c.checkDepth_unshared node _).bind fun _ => (c.tick_unshared node).bind fun _ =>
      (Emit.Raises.lift (c.graph.typeOf_unreported node)).bind fun t =>
      (Emit.Raises.record _).bind fun _ => ?_
    split
    · exact Expression.emit_unshared (ih _ _) _ _ _ _
    · split
      · exact boundOutput_unshared node pin reader
      · exact .fail (by simp [Error.Unshared, CompileError.notAValue])

theorem chainWithin_unshared (steps : Nat) (node : Key) (level : Int) (path : List Key) :
    (c.chainWithin steps node level path).Raises Error.Unshared := by
  induction steps generalizing node level path with
  | zero => exact .fail (by simp [Error.Unshared])
  | succ steps ih =>
    rw [chainWithin_succ]
    unfold chainStep chainCall
    by_cases hp : path.contains node.canonical = true
    · rw [if_pos hp]
      exact .fail_bind (by simp [Error.Unshared]) _
    rw [if_neg hp]
    refine (c.checkDepth_unshared node _).bind fun _ => (c.tick_unshared node).bind fun _ =>
      (Emit.Raises.lift (c.graph.typeOf_unreported node)).bind fun t => ?_
    split
    · exact .fail (by simp [Error.Unshared, CompileError.notAStatement])
    · exact (Emit.Raises.record _).bind fun _ => Statement.emit_unshared
        (fun _ _ => c.evaluateWithin_unshared _ _ _ _ _) ih _ _

/-- Emitting a function never reports an event that several nodes answer to. -/
theorem entry_unshared (node : Key) (level : Int) : (c.entry node level).Raises Error.Unshared :=
  (c.chainWithin_unshared c.reach node level []).inBlock_of_root (by simp [Error.Unshared])

end Compilation

end CartGraph
