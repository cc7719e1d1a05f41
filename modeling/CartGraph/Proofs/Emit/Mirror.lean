import CartGraph.Proofs.Emit.Failures
import CartGraph.Proofs.Lua.Limits
import CartGraph.Proofs.Program.Functions

/-! # Walks that do the same

Two compilations can differ in what a walk does not notice: in nodes that it never comes to, in how
many steps or frames of the stack are at hand, in limits that it does not reach. What a node says of
itself and where its connections lead is then the same, and so are the results of the two walks and
the states that they leave, unless the first walk fails by an error that is set apart. -/
namespace CartGraph

/-- Another result is the same as this one, unless this one is an error that is set apart. -/
def SameUnless (P : Error → Prop) (r r' : Except Error α) : Prop :=
  (∀ e, r = .error e → ¬ P e) → r' = r

namespace SameUnless

variable {P : Error → Prop}

theorem refl (r : Except Error α) : SameUnless P r r := fun _ => rfl

/-- What follows a result may rely on it. -/
theorem bind {r r' : Except Error α} {f f' : α → Except Error β} (h : SameUnless P r r')
    (hf : ∀ a, r = .ok a → SameUnless P (f a) (f' a)) : SameUnless P (r >>= f) (r' >>= f') := by
  intro hP
  cases r with
  | error e => rw [h fun e' he => hP e' (by rw [he]; rfl)]; rfl
  | ok a =>
    rw [h fun e he => by cases he]
    exact hf a rfl hP

end SameUnless

/-- Another step does as this one does, unless this one fails by an error that is set apart. This
one leaves the enclosing blocks as they were. -/
structure Emit.Mirrors (P : Error → Prop) (m m' : Emit α) : Prop where
  within : m.Within Progress.Extends
  same : ∀ s, (∀ e, (m s).1 = .error e → ¬ P e) → m' s = m s

namespace Emit.Mirrors

variable {P : Error → Prop}

theorem refl {m : Emit α} (h : m.Within Progress.Extends) : Mirrors P m m :=
  ⟨h, fun _ _ => rfl⟩

theorem pure (a : α) : Mirrors P (Pure.pure a : Emit α) (Pure.pure a) := refl fun _ => .rfl

theorem lift_of {r r' : Except Error α} (h : SameUnless P r r') :
    Mirrors P (Emit.lift r) (Emit.lift r') :=
  ⟨fun _ => .rfl, fun _ hP => congrArg (·, _) (h hP)⟩

theorem lift {r r' : Except Error α} (h : r' = r) : Mirrors P (Emit.lift r) (Emit.lift r') :=
  lift_of fun _ => h

theorem fail (e : Error) : Mirrors P (Emit.fail e : Emit α) (Emit.fail e) := refl fun _ => .rfl

/-- A failure that is set apart says nothing of the other step. -/
theorem set_apart {e : Error} (hP : P e) (m' : Emit α) : Mirrors P (Emit.fail e) m' :=
  ⟨fun _ => .rfl, fun _ h => absurd hP (h e rfl)⟩

theorem record (v : Visit) : Mirrors P (Emit.record v) (Emit.record v) := refl fun s => .note s v

theorem temp (node label : Key) : Mirrors P (Emit.temp node label) (Emit.temp node label) :=
  refl fun s => Progress.Extends.follows.temp s node label

theorem bindOutput (node pin : Key) (name : Option String) :
    Mirrors P (Emit.bindOutput node pin name) (Emit.bindOutput node pin name) :=
  refl (Emit.bindOutput_within (Progress.Extends.follows.toAdmits.forNode node) pin name)

theorem boundOutput (node pin reader : Key) :
    Mirrors P (Emit.boundOutput node pin reader) (Emit.boundOutput node pin reader) := by
  refine refl fun s => ?_
  unfold Emit.boundOutput
  dsimp only
  split <;> exact .note s _

/-- What follows a step may rely on what the step answered. -/
theorem bind_of {m m' : Emit α} {f f' : α → Emit β} (hm : Mirrors P m m')
    (hf : ∀ s a s', m s = (.ok a, s') → Mirrors P (f a) (f' a)) :
    Mirrors P (m >>= f) (m' >>= f') := by
  constructor
  · intro s
    change s.Extends (Emit.bind m f s).2
    have hfirst := hm.within s
    unfold Emit.bind
    rcases hms : m s with ⟨e | a, s₁⟩ <;> rw [hms] at hfirst
    · exact hfirst
    · exact hfirst.trans ((hf s a s₁ hms).within s₁)
  · intro s hP
    change ∀ e, (Emit.bind m f s).1 = .error e → ¬ P e at hP
    change Emit.bind m' f' s = Emit.bind m f s
    unfold Emit.bind at hP ⊢
    rcases hms : m s with ⟨e | a, s₁⟩ <;> rw [hms] at hP
    · have hsame := hm.same s fun e' he' => by
        rw [hms] at he'
        cases he'
        exact hP e rfl
      rw [hsame, hms]
    · have hsame := hm.same s fun e' he' => by
        rw [hms] at he'
        cases he'
      rw [hsame, hms]
      exact (hf s a s₁ hms).same s₁ hP

theorem bind {m m' : Emit α} {f f' : α → Emit β} (hm : Mirrors P m m')
    (hf : ∀ a, Mirrors P (f a) (f' a)) : Mirrors P (m >>= f) (m' >>= f') :=
  hm.bind_of fun _ a _ _ => hf a

/-- What would follow a failure does not matter. -/
theorem fail_bind (e : Error) (f f' : α → Emit β) :
    Mirrors P (Emit.fail e >>= f) (Emit.fail e >>= f') :=
  ⟨fun _ => .rfl, fun _ _ => rfl⟩

/-- A block can be closed after either step, since the enclosing ones are as they were. -/
theorem inBlock {m m' : Emit α} (hm : Mirrors P m m') : Mirrors P m.inBlock m'.inBlock := by
  have heq (s : Progress) := Emit.inBlock_eq (hm.within s.opened)
  constructor
  · intro s
    rw [heq s]
    exact .leave (hm.within s.opened)
  · intro s hP
    rw [heq s] at hP
    have hsame := hm.same s.opened hP
    rw [heq s, Emit.inBlock_eq (hsame ▸ hm.within s.opened), hsame]

end Emit.Mirrors

/-! ## Room -/

/-- More room is no other room, unless an error shows that it lacked. -/
inductive Room.Eases (P : Error → Prop) : Room → Room → Prop
  | same (room : Room) : Eases P room room
  | more {left left' : Nat} (hle : left ≤ left') (hP : ∀ e : Error, e.isOverflow = true → P e) :
      Eases P (.frames left) (.frames left')
  | endless (left : Nat) (hP : ∀ e : Error, e.isOverflow = true → P e)
      (hlong : P .integerTooLong) : Eases P (.frames left) .endless

namespace Room.Eases

variable {P : Error → Prop} {room room' : Room}

theorem less (h : Eases P room room') (held : Nat) :
    Eases P (room.less held) (room'.less held) := by
  cases h with
  | same => exact .same _
  | more hle hP => exact .more (Nat.sub_le_sub_right hle held) hP
  | endless left hP hlong => exact .endless _ hP hlong

theorem lacks (h : Eases P room room') (held : Nat) {e : Error} (he : e.isOverflow = true) :
    room'.lacks held = room.lacks held ∨ room.lacks held = true ∧ P e := by
  cases h with
  | same => exact .inl rfl
  | more hle hP =>
    rename_i left left'
    by_cases hlacks : left < held
    · exact .inr ⟨decide_eq_true hlacks, hP e he⟩
    · exact .inl (by simp only [Room.lacks]; grind)
  | endless left hP hlong =>
    cases hlacks : (Room.frames left).lacks held with
    | true => exact .inr ⟨rfl, hP e he⟩
    | false => exact .inl rfl

theorem within (h : Eases P room room') {limit? : Nat → Option Error} (hlimit : IsLimit limit?)
    (r : Except Error α) : SameUnless P (room.within limit? r) (room'.within limit? r) := by
  intro hapart
  cases h with
  | same => rfl
  | more hle hP =>
    rename_i left left'
    have hfits : limit? left ≠ some .nestedTooDeep := fun he =>
      hapart _ (within_of_some he r) (hP _ rfl)
    simp only [Room.within, hlimit.eased hle hfits]
  | endless left hP hlong =>
    cases hfound : limit? left with
    | none => rw [within_of_none hfound]; rfl
    | some e =>
      refine absurd ?_ (hapart e (within_of_some hfound r))
      rcases hlimit.cause hfound with rfl | rfl
      · exact hlong
      · exact hP _ rfl

end Room.Eases

/-! ## Compilations that are alike -/

theorem bind_congr_of {r : Except ε α} {f f' : α → Except ε β}
    (h : ∀ a, r = .ok a → f a = f' a) : r >>= f = r >>= f' := by
  cases r with
  | error e => rfl
  | ok a => exact h a rfl

def Node.unplaced (n : Node) : Node := { n with position := (.zero, .zero) }

theorem Node.eq_of_unplaced {n n' : Node} (h : n'.unplaced = n.unplaced) :
    ∃ p, n' = { n with position := p } := by
  cases n
  cases n'
  simp only [unplaced, mk.injEq] at h
  obtain ⟨rfl, rfl, rfl, _, rfl, rfl⟩ := h
  exact ⟨_, rfl⟩

/-- What is made of a node is the same if it does not depend on the position. -/
theorem Node.bind_of_unplaced {r r' : Except Error Node} (h : r'.map unplaced = r.map unplaced)
    {f : Node → Except Error α} (hf : ∀ n p, f { n with position := p } = f n) :
    r' >>= f = r >>= f := by
  cases r with
  | error e =>
    cases r' with
    | error e' => exact congrArg (Except.error · >>= f) (Except.error.inj h)
    | ok n' => cases h
  | ok n =>
    cases r' with
    | error e' => cases h
    | ok n' =>
      obtain ⟨p, rfl⟩ := eq_of_unplaced (Except.ok.inj h)
      exact hf n p

/-- A call of an event that is not there. It reads none of its inputs. -/
structure Compilation.Missing (c : Compilation) (node : Key) : Prop where
  type : ∃ t, c.graph.typeOf node = .ok t ∧ t.expression? = none ∧ t.statement? = some .callEvent
  event : ∀ target, c.property node "eventId" .null = .ok target → c.event? target = none

/-- Another graph agrees with this one on some nodes: it says the same of each of them, and its
connections lead from them to the same nodes, which are again of these. -/
structure Graph.Agrees (S : Key → Prop) (g g' : Graph) : Prop where
  typeOf : ∀ {n}, S n → g'.typeOf n = g.typeOf n
  node : ∀ {n}, S n → (g'.node n).map Node.unplaced = (g.node n).map Node.unplaced
  incoming : ∀ {n}, S n → ∀ pin, g'.incoming? n pin = g.incoming? n pin
  source : ∀ {n}, S n → ∀ {pin w}, g.incoming? n pin = some w → S w.sourceNode
  execTargets : ∀ {n}, S n → ∀ pin, g'.execTargets n pin = g.execTargets n pin
  target : ∀ {n}, S n → ∀ {pin m}, m ∈ g.execTargets n pin → S m

theorem Graph.agrees_self (g : Graph) : g.Agrees (fun _ => True) g where
  typeOf _ := rfl
  node _ := rfl
  incoming _ _ := rfl
  source _ _ _ _ := trivial
  execTargets _ _ := rfl
  target _ _ _ _ := trivial

/-- Another compilation is like this one on some nodes. Only a call of a missing event may have
other pins there. -/
structure Compilation.Resembles (P : Error → Prop) (S : Key → Prop) (c c' : Compilation) :
    Prop extends Graph.Agrees S c.graph c'.graph where
  pins : ∀ {n}, S n → c'.graph.pinsOf n = c.graph.pinsOf n ∨ c.Missing n
  event : ∀ v, c'.event? v = c.event? v
  globals : c'.globals = c.globals
  line : ∀ level text, c'.line level text = c.line level text
  checkDepth : ∀ depth node, (c.checkDepth depth node).Mirrors P (c'.checkDepth depth node)
  tick : ∀ node, (c.tick node).Mirrors P (c'.tick node)

/-- The same settings and variables, with a graph that agrees. -/
theorem Graph.Agrees.resembles {P : Error → Prop} {S : Key → Prop} {c c' : Compilation}
    (h : c.graph.Agrees S c'.graph)
    (hpins : ∀ {n}, S n → c'.graph.pinsOf n = c.graph.pinsOf n ∨ c.Missing n)
    (hevent : ∀ v, c'.event? v = c.event? v) (hglobals : c'.globals = c.globals)
    (hsettings : c'.settings = c.settings) : c.Resembles P S c' where
  toAgrees := h
  pins := hpins
  event := hevent
  globals := hglobals
  line level text := by simp only [Compilation.line, hsettings]
  checkDepth depth node := by
    simp only [Compilation.checkDepth, hsettings]
    exact .lift rfl
  tick node := by
    have htick : c'.tick node = c.tick node := by
      unfold Compilation.tick
      rw [hsettings]
    rw [htick]
    exact .refl fun _ => ⟨rfl, List.suffix_rfl, List.prefix_rfl⟩

theorem Compilation.resembles_self {P : Error → Prop} (c : Compilation) :
    c.Resembles P (fun _ => True) c :=
  c.graph.agrees_self.resembles (fun _ => .inl rfl) (fun _ => rfl) rfl rfl

/-! ## Inputs -/

def Evaluate.Mirrors (P : Error → Prop) (S : Key → Prop) (eval eval' : Evaluate) : Prop :=
  ∀ node pin, S node → (eval node pin).Mirrors P (eval' node pin)

def Writer.Mirrors (P : Error → Prop) (write write' : Writer) : Prop :=
  ∀ node kind v key, SameUnless P (write node kind v key) (write' node kind v key)

theorem Compilation.literalOn_mirrors {P : Error → Prop} {room room' : Room}
    (h : room.Eases P room') (c c' : Compilation) :
    Writer.Mirrors P (c.literalOn room) (c'.literalOn room') := fun node kind v key =>
  h.within (Lua.limit?_isLimit kind v) (c.literal node kind v key)

section

variable {P : Error → Prop} {S : Key → Prop} {c c' : Compilation} (h : c.Resembles P S c')
include h

namespace Compilation.Resembles

variable {node : Key} (hn : S node)
include hn

theorem property (key : Key) (fallback : Value) :
    c'.property node key fallback = c.property node key fallback := by
  unfold Compilation.property
  rw [h.typeOf hn]
  exact bind_congr_of fun t _ => Node.bind_of_unplaced (h.node hn) fun _ _ => rfl

theorem nameProperty (key fallback : String) :
    c'.nameProperty node key fallback = c.nameProperty node key fallback := by
  simp only [Compilation.nameProperty, h.property hn]

theorem variableName : c'.variableName node = c.variableName node := by
  unfold Compilation.variableName
  rw [h.globals]
  exact Node.bind_of_unplaced (h.node hn) fun _ _ => rfl

theorem unwired (hpins : c'.graph.pinsOf node = c.graph.pinsOf node) {write write' : Writer}
    (hwrite : write.Mirrors P write') (pin : Key) :
    SameUnless P (c.unwired node pin write) (c'.unwired node pin write') := by
  have hsame : c'.unwired node pin write' = c.unwired node pin write' := by
    unfold Compilation.unwired Graph.findPin?
    rw [hpins]
    exact bind_congr_of fun p _ => Node.bind_of_unplaced (h.node hn) fun _ _ => rfl
  rw [hsame]
  unfold Compilation.unwired
  refine (SameUnless.refl _).bind fun p _ => (SameUnless.refl _).bind fun n _ => ?_
  cases p with
  | none => exact .refl _
  | some p =>
    dsimp only
    split
    · exact (hwrite _ _ _ _).bind fun _ _ => .refl _
    split
    · exact (hwrite _ _ _ _).bind fun _ _ => .refl _
    · exact .refl _

end Compilation.Resembles

namespace Compilation

variable {eval eval' : Evaluate} (heval : eval.Mirrors P S eval') {write write' : Writer}
  (hwrite : write.Mirrors P write') {node : Key} (hn : S node)
  (hpins : c'.graph.pinsOf node = c.graph.pinsOf node)
include heval hwrite hn hpins

theorem input_mirrors (pin : Key) :
    (c.input eval node pin write).Mirrors P (c'.input eval' node pin write') := by
  unfold input
  rw [h.incoming hn]
  cases hw : c.graph.incoming? node pin with
  | some w => exact (heval _ _ (h.source hn hw)).bind fun _ => .pure _
  | none => exact .lift_of (h.unwired hn hpins hwrite pin)

theorem inputOr_mirrors (pin : Key) (fallback : String) :
    (c.inputOr eval node pin fallback write).Mirrors P
      (c'.inputOr eval' node pin fallback write') :=
  (input_mirrors h heval hwrite hn hpins pin).bind fun _ => .pure _

theorem inputs_mirrors (pins : List Key) :
    (c.inputs eval node pins write).Mirrors P (c'.inputs eval' node pins write') := by
  induction pins with
  | nil => exact .pure _
  | cons pin pins ih =>
    exact (input_mirrors h heval hwrite hn hpins pin).bind fun _ => ih.bind fun _ => .pure _

theorem callArguments_mirrors (pins : List Key) (placeholders : List (Option String)) :
    (c.callArguments eval node pins placeholders write).Mirrors P
      (c'.callArguments eval' node pins placeholders write') :=
  (inputs_mirrors h heval hwrite hn hpins pins).bind fun _ => .lift rfl

theorem slotArguments_mirrors (slots : List Slot) :
    (c.slotArguments eval node slots write).Mirrors P (c'.slotArguments eval' node slots write') :=
  callArguments_mirrors h heval hwrite hn hpins _ _

end Compilation

theorem Expression.emit_mirrors {eval eval' : Evaluate} (heval : eval.Mirrors P S eval')
    {write write' : Writer} (hwrite : write.Mirrors P write') {node : Key} (hn : S node)
    (hpins : c'.graph.pinsOf node = c.graph.pinsOf node) (pin reader : Key) (e : Expression) :
    (e.emit c eval node pin reader write).Mirrors P
      (e.emit c' eval' node pin reader write') := by
  have input (pin fallback : String) :=
    c.inputOr_mirrors h heval hwrite hn hpins (.text pin) fallback
  cases e with
  | globalName => exact .lift (h.variableName hn)
  | localName => exact .lift (h.nameProperty hn _ _)
  | literal kind =>
    simp only [emit, h.property hn]
    exact .lift_of ((SameUnless.refl _).bind fun _ _ => hwrite _ _ _ _)
  | binary operator identity =>
    exact (input "a" identity).bind fun _ => (input "b" identity).bind fun _ => .pure _
  | compare =>
    exact (Emit.Mirrors.lift (h.property hn _ _)).bind fun _ =>
      (Emit.Mirrors.lift rfl).bind fun _ => (input "a" "0").bind fun _ =>
      (input "b" "0").bind fun _ => .pure _
  | apply function argument fallback => exact (input argument fallback).bind fun _ => .pure _
  | call function slots =>
    exact (c.slotArguments_mirrors h heval hwrite hn hpins slots).bind fun _ => .pure _
  | bound output =>
    cases output with
    | none => exact .boundOutput node pin reader
    | some output => exact .boundOutput node output reader

/-! ## Statements -/

namespace Site

variable {s : Site} (hn : S s.node)

section

variable {eval eval' : Evaluate} (heval : eval.Mirrors P S eval') {write write' : Writer}
  (hwrite : write.Mirrors P write')
include hn heval hwrite

theorem eventSlots_mirrors (hpins : c'.graph.pinsOf s.node = c.graph.pinsOf s.node)
    (ps : List Parameter) :
    (s.eventSlots c eval ps write).Mirrors P (s.eventSlots c' eval' ps write') := by
  induction ps with
  | nil => exact .pure _
  | cons p ps ih =>
    exact (c.input_mirrors h heval hwrite hn hpins p.inputPin).bind fun _ =>
      ih.bind fun _ => .pure _

theorem localValue_mirrors (kind : Kind) :
    (s.localValue c eval kind write).Mirrors P (s.localValue c' eval' kind write') := by
  unfold localValue
  rw [h.incoming hn, h.property hn]
  cases hw : c.graph.incoming? s.node "value" with
  | some w => exact heval _ _ (h.source hn hw)
  | none =>
    refine .lift_of ((SameUnless.refl _).bind fun v _ => ?_)
    split
    · exact .refl _
    · exact hwrite _ _ _ _

end

theorem lineAt_mirrors (s : Site) (level : Int) (text : String) :
    (s.lineAt c level text).Mirrors P (s.lineAt c' level text) :=
  (Emit.Mirrors.lift (h.line level text)).bind fun _ =>
    (Emit.Mirrors.record _).bind fun _ => .pure _

variable {chain chain' : Chain}
  (hchain : ∀ target level, S target →
    (chain target level s.path).Mirrors P (chain' target level s.path))
include hn hchain

theorem next_mirrors (pin : Key) : (s.next c chain pin).Mirrors P (s.next c' chain' pin) := by
  unfold next
  rw [h.execTargets hn]
  cases ht : c.graph.execTargets s.node pin with
  | nil => exact .pure _
  | cons target rest => exact hchain target _ (h.target hn (by rw [ht]; exact .head _))

omit h hn in
theorem all_mirrors (level : Int) {targets : List Key} (ht : ∀ target ∈ targets, S target) :
    (chain.all level s.path targets).Mirrors P (chain'.all level s.path targets) := by
  induction targets with
  | nil => exact .pure _
  | cons target rest ih =>
    obtain ⟨htarget, hrest⟩ := List.forall_mem_cons.mp ht
    exact (hchain target level htarget).bind fun _ => (ih hrest).bind fun _ => .pure _

theorem branchAt_mirrors (pin : Key) (level : Int) :
    (s.branchAt c chain pin level s.path).Mirrors P (s.branchAt c' chain' pin level s.path) := by
  have htargets : ∀ m ∈ c.graph.execTargets s.node pin, S m := fun _ hm => h.target hn hm
  have hall := all_mirrors hchain level htargets
  unfold branchAt
  rw [h.execTargets hn]
  generalize c.graph.execTargets s.node pin = targets at hall ⊢
  split
  · exact .pure _
  · dsimp only
    split
    · exact hall.inBlock
    · exact hall

theorem body_mirrors (pin comment : String) :
    (s.body c chain pin comment).Mirrors P (s.body c' chain' pin comment) := by
  refine (branchAt_mirrors h hn hchain pin _).bind fun lines => ?_
  split
  · exact (lineAt_mirrors h s _ _).bind fun _ => .pure _
  · exact .pure _

theorem lineThenNext_mirrors (text : String) :
    (s.lineThenNext c chain text).Mirrors P (s.lineThenNext c' chain' text) :=
  (lineAt_mirrors h s _ _).bind fun _ => (next_mirrors h hn hchain _).bind fun _ => .pure _

theorem sequenceLines_mirrors (pins : List Pin) :
    (s.sequenceLines c chain pins).Mirrors P (s.sequenceLines c' chain' pins) := by
  induction pins with
  | nil => exact .pure _
  | cons pin pins ih =>
    exact (lineAt_mirrors h s _ _).bind fun _ => (branchAt_mirrors h hn hchain _ _).bind fun _ =>
      ih.bind fun _ => .pure _

end Site

theorem Statement.emit_mirrors {eval eval' : Evaluate} (heval : eval.Mirrors P S eval')
    {write write' : Writer} (hwrite : write.Mirrors P write') {s : Site} (hn : S s.node)
    {chain chain' : Chain}
    (hchain : ∀ target level, S target →
      (chain target level s.path).Mirrors P (chain' target level s.path))
    {t : NodeType} {st : Statement} (ht : c.graph.typeOf s.node = .ok t)
    (hst : t.statement? = some st) :
    (st.emit c eval chain s write).Mirrors P (st.emit c' eval' chain' s write') := by
  have line (text : String) := Site.lineAt_mirrors h s s.level text
  have next := Site.lineThenNext_mirrors h hn hchain
  have body := Site.body_mirrors h hn hchain
  -- a call of a missing event is the one statement that says nothing of its pins
  have pins (hne : st ≠ .callEvent) : c'.graph.pinsOf s.node = c.graph.pinsOf s.node := by
    refine (h.pins hn).resolve_right fun hm => hne ?_
    obtain ⟨t', ht', _, hst'⟩ := hm.type
    cases ht.symm.trans ht'
    exact Option.some.inj (hst.symm.trans hst')
  have input (hne : st ≠ .callEvent) (pin fallback : String) :=
    c.inputOr_mirrors h heval hwrite hn (pins hne) (.text pin) fallback
  cases st with
  | follow => exact Site.next_mirrors h hn hchain _
  | openEvent =>
    simp only [emit, h.event]
    cases c.event? s.node with
    | none => exact Site.next_mirrors h hn hchain _
    | some signature =>
      exact (Emit.Mirrors.refl (s.bindParameters_within
        (Progress.Extends.follows.toAdmits.forNode _) _)).bind fun _ =>
          Site.next_mirrors h hn hchain _
  | callEvent =>
    refine (Emit.Mirrors.lift (h.property hn _ _)).bind_of fun _ target _ htarget => ?_
    rw [h.event]
    cases hevent : c.event? target with
    | none => exact next _
    | some signature =>
      have hpins := (h.pins hn).resolve_right fun hm => by
        rw [hm.event target (Emit.lift_ok htarget).1] at hevent
        cases hevent
      exact (Site.eventSlots_mirrors h hn heval hwrite hpins _).bind fun _ =>
        (Emit.Mirrors.lift rfl).bind fun _ => next _
  | branch =>
    simp only [emit, h.execTargets hn]
    refine (input (by simp) _ _).bind fun _ => (line _).bind fun _ => (body _ _).bind fun _ => ?_
    split
    · exact (Emit.Mirrors.pure _).bind fun _ => (line _).bind fun _ => .pure _
    · exact (line _).bind fun _ => (body _ _).bind fun _ => (Emit.Mirrors.pure _).bind fun _ =>
        (line _).bind fun _ => .pure _
  | loop =>
    exact (Emit.Mirrors.lift (h.nameProperty hn _ _)).bind fun _ =>
      (input (by simp) _ _).bind fun _ => (input (by simp) _ _).bind fun _ =>
      (input (by simp) _ _).bind fun _ => (line _).bind fun _ =>
      ((Emit.Mirrors.bindOutput _ _ _).bind fun _ => body _ _).inBlock.bind fun _ =>
      (line _).bind fun _ => (Site.branchAt_mirrors h hn hchain _ _).bind fun _ => .pure _
  | sequence =>
    exact (Emit.Mirrors.lift (pins (by simp))).bind fun _ =>
      Site.sequenceLines_mirrors h hn hchain _
  | assign =>
    exact (input (by simp) _ _).bind fun _ =>
      (Emit.Mirrors.lift (h.variableName hn)).bind fun _ => next _
  | declare =>
    exact (Emit.Mirrors.lift (h.nameProperty hn _ _)).bind fun _ =>
      (Emit.Mirrors.lift (h.property hn _ _)).bind fun _ =>
      (Site.localValue_mirrors h hn heval hwrite _).bind fun _ => next _
  | call function slots =>
    exact (c.slotArguments_mirrors h heval hwrite hn (pins (by simp)) slots).bind fun _ => next _
  | resume =>
    exact (c.input_mirrors h heval hwrite hn (pins (by simp)) _).bind fun _ =>
      (c.callArguments_mirrors h heval hwrite hn (pins (by simp)) _ _).bind fun _ =>
      (Emit.Mirrors.temp _ _).bind fun _ => (Emit.Mirrors.bindOutput _ _ _).bind fun _ =>
      (Emit.Mirrors.temp _ _).bind fun _ => (Emit.Mirrors.bindOutput _ _ _).bind fun _ => next _

/-! ## Walks -/

namespace Compilation

/-- A node that is found in one of the two graphs is found in the other. -/
theorem Resembles.hasNode {node : Key} (hn : S node) {t : NodeType}
    (ht : c.graph.typeOf node = .ok t) :
    c.graph.hasNode node = true ∧ c'.graph.hasNode node = true := by
  obtain ⟨n, hnode, _⟩ := Graph.typeOf_ok_iff.mp ht
  obtain ⟨n', hnode', _⟩ := Graph.typeOf_ok_iff.mp ((h.typeOf hn).trans ht)
  exact ⟨Option.isSome_of_eq_some hnode, Option.isSome_of_eq_some hnode'⟩

/-- Two calls that evaluate an output do the same if the calls that they make do, and if they write
the same literals. The calls are made for a node that is there and new on the path. -/
theorem evaluateCall_mirrors {write write' : Writer} (hwrite : write.Mirrors P write')
    {inner inner' : Key → List Key → Evaluate} {path : List Key} {node : Key} (hn : S node)
    (hinner : c.graph.hasNode node = true → c'.graph.hasNode node = true → node.canonical ∉ path →
      (inner node (node.canonical :: path)).Mirrors P S (inner' node (node.canonical :: path)))
    (reader pin : Key) :
    (c.evaluateCall write inner reader path node pin).Mirrors P
      (c'.evaluateCall write' inner' reader path node pin) := by
  unfold evaluateCall
  by_cases hp : path.contains node.canonical = true
  · rw [if_pos hp, if_pos hp]
    exact .fail_bind _ _ _
  rw [if_neg hp, if_neg hp, h.typeOf hn]
  have hnew : node.canonical ∉ path := by simpa using hp
  refine (h.checkDepth _ node).bind fun _ => (h.tick node).bind fun _ =>
    (Emit.Mirrors.lift rfl).bind_of fun _ t _ ht => (Emit.Mirrors.record _).bind fun _ => ?_
  have ht := (Emit.lift_ok ht).1
  obtain ⟨hnode, hnode'⟩ := h.hasNode hn ht
  cases he : t.expression? with
  | some e =>
    have hpins := (h.pins hn).resolve_right fun hm => by
      obtain ⟨t', ht', hnone, _⟩ := hm.type
      cases ht.symm.trans ht'
      rw [he] at hnone
      cases hnone
    exact e.emit_mirrors h (hinner hnode hnode' hnew) hwrite hn hpins pin reader
  | none =>
    dsimp only
    split
    · exact .boundOutput node pin reader
    · exact .fail _

/-- Two calls that emit a chain do the same if they read the same values, write the same literals
and the calls that they make do the same. -/
theorem chainCall_mirrors {write write' : Writer} (hwrite : write.Mirrors P write')
    {values values' : Key → Evaluate} {inner inner' : Chain} {path : List Key} {node : Key}
    (hn : S node) (hvalues : (values node).Mirrors P S (values' node))
    (hinner : c.graph.hasNode node = true → c'.graph.hasNode node = true →
      node.canonical ∉ path → ∀ target level, S target →
        (inner target level (node.canonical :: path)).Mirrors P
          (inner' target level (node.canonical :: path)))
    (level : Int) :
    (c.chainCall write values inner node level path).Mirrors P
      (c'.chainCall write' values' inner' node level path) := by
  unfold chainCall
  by_cases hp : path.contains node.canonical = true
  · rw [if_pos hp, if_pos hp]
    exact .fail_bind _ _ _
  rw [if_neg hp, if_neg hp, h.typeOf hn]
  have hnew : node.canonical ∉ path := by simpa using hp
  refine (h.checkDepth _ node).bind fun _ => (h.tick node).bind fun _ =>
    (Emit.Mirrors.lift rfl).bind_of fun _ t _ ht => ?_
  have ht := (Emit.lift_ok ht).1
  obtain ⟨hnode, hnode'⟩ := h.hasNode hn ht
  cases hst : t.statement? with
  | none => exact .fail _
  | some st =>
    exact (Emit.Mirrors.record _).bind fun _ =>
      Statement.emit_mirrors h hvalues hwrite hn (hinner hnode hnode' hnew) ht hst

omit h in
/-- A call that lacks room fails, which is set apart unless the other one lacks it as well. -/
theorem guard_mirrors {room room' : Room} (hroom : room.Eases P room') (node : Key)
    {m m' : Emit α} (hm : m.Mirrors P m') :
    (if room.lacks callFrames then Emit.fail (.walkTooDeep node) else m).Mirrors P
      (if room'.lacks callFrames then Emit.fail (.walkTooDeep node) else m') := by
  rcases hroom.lacks callFrames (e := .walkTooDeep node) rfl with hlacks | ⟨hlacks, hP⟩
  · rw [hlacks]
    split
    · exact .fail _
    · exact hm
  · rw [if_pos hlacks]
    exact .set_apart hP _

/-- Values are the same whenever the steps of each of the two walks suffice, and the second has the
room of the first or more. -/
theorem evaluateOn_mirrors {steps steps' : Nat} {room room' : Room} {path : List Key}
    (hs : c.Suffices steps path) (hs' : c'.Suffices steps' path) (hroom : room.Eases P room')
    (reader : Key) :
    (c.evaluateOn steps room reader path).Mirrors P S (c'.evaluateOn steps' room' reader path) := by
  induction steps generalizing steps' room room' reader path with
  | zero => exact hs.ne_zero.elim
  | succ steps ih =>
    cases steps' with
    | zero => exact hs'.ne_zero.elim
    | succ steps' =>
      intro node pin hn
      have hframes : c'.expressionFrames node = c.expressionFrames node := by
        unfold expressionFrames
        rw [h.typeOf hn]
      refine guard_mirrors hroom node ?_
      rw [hframes]
      have hleft := hroom.less (callFrames + c.expressionFrames node)
      exact evaluateCall_mirrors h (literalOn_mirrors (hleft.less literalFrames) c c') hn
        (fun hnode hnode' hnew => ih (hs.step hnode hnew) (hs'.step hnode' hnew)
          (hleft.less linkFrames) node) reader pin

theorem evaluateWithin_mirrors {steps steps' : Nat} {path : List Key} (hs : c.Suffices steps path)
    (hs' : c'.Suffices steps' path) (reader : Key) :
    (c.evaluateWithin steps reader path).Mirrors P S (c'.evaluateWithin steps' reader path) :=
  evaluateOn_mirrors h hs hs' (.same .endless) reader

theorem evaluate_mirrors (reader : Key) :
    (c.evaluate reader).Mirrors P S (c'.evaluate reader) :=
  evaluateWithin_mirrors h (.start c) (.start c') reader

theorem chainOn_mirrors {steps steps' : Nat} {room room' : Room} {path : List Key}
    (hs : c.Suffices steps path) (hs' : c'.Suffices steps' path) (hroom : room.Eases P room')
    {node : Key} (hn : S node) (level : Int) :
    (c.chainOn steps room node level path).Mirrors P
      (c'.chainOn steps' room' node level path) := by
  induction steps generalizing steps' room room' node level path with
  | zero => exact hs.ne_zero.elim
  | succ steps ih =>
    cases steps' with
    | zero => exact hs'.ne_zero.elim
    | succ steps' =>
      have hframes : c'.statementFrames node = c.statementFrames node := by
        unfold statementFrames
        rw [h.typeOf hn]
      refine guard_mirrors hroom node ?_
      rw [hframes]
      have hleft := hroom.less (callFrames + c.statementFrames node)
      exact chainCall_mirrors h (literalOn_mirrors (hleft.less literalFrames) c c') hn
        (evaluateOn_mirrors h (.start c) (.start c') (hleft.less linkFrames) node)
        (fun hnode hnode' hnew target level htarget => ih (hs.step hnode hnew)
          (hs'.step hnode' hnew) (hroom.less _) htarget level) level

theorem entryOn_mirrors {room room' : Room} (hroom : room.Eases P room') {node : Key} (hn : S node)
    (level : Int) : (c.entryOn room node level).Mirrors P (c'.entryOn room' node level) :=
  (chainOn_mirrors h (.start c) (.start c') hroom hn level).inBlock

end Compilation

theorem Program.emitAllOn_mirrors {room room' : Room} (hroom : room.Eases P room')
    {fs : List Program.Function} (hfs : ∀ f ∈ fs, S f.node) :
    (Program.emitAllOn c room fs).Mirrors P (Program.emitAllOn c' room' fs) := by
  induction fs with
  | nil => exact .pure _
  | cons f fs ih =>
    obtain ⟨hf, hfs⟩ := List.forall_mem_cons.mp hfs
    exact ((Compilation.entryOn_mirrors h hroom hf 1).bind fun _ => .pure _).bind fun _ =>
      (ih hfs).bind fun _ => .pure _

end

/-! ## Programs -/

namespace Program

variable {P : Error → Prop} {S : Key → Prop} {g g' : Graph} {settings settings' : Settings}
  {globals : List Variable} {room room' : Room}

/-- The text of the program that has these entries, within some room. -/
def Entries.text (entries : Entries) (g : Graph) (settings : Settings) (globals : List Variable)
    (room : Room := .endless) : Except Error String := do
  if entries.isEmpty then return "\n".intercalate [header, noEntry]
  entries.check
  let declarations ← Variable.declareOn (room.less declareFrames) globals
  let blocks := emitAllOn (compilation g settings entries declarations.names)
    (room.less entryFrames) (functions entries ((Signature.ofNodes entries.custom).map (·.2))) {}
  blocks.1.map fun lines => "\n".intercalate (header :: preamble declarations.lines ++ lines)

theorem assemble_eq (g : Graph) (settings : Settings) (globals : List Variable) (room : Room) :
    assemble g settings globals room =
      Entries.ofGraph g settings >>= fun entries => entries.text g settings globals room := by
  unfold assemble assembleLogged
  cases Entries.ofGraph g settings with
  | error e => rfl
  | ok entries =>
    unfold Entries.text
    simp only [bind, Except.bind]
    by_cases hempty : entries.isEmpty = true
    · rw [if_pos hempty, if_pos hempty]
      rfl
    rw [if_neg hempty, if_neg hempty]
    cases entries.check with
    | error e => rfl
    | ok _ =>
      cases Variable.declareOn (room.less declareFrames) globals with
      | error e => rfl
      | ok declarations => rfl

/-- Alike on all nodes of the first graph, two compilations with the same entries give the same text
or the same error, unless the first one gives an error that is set apart. -/
theorem Entries.text_mirrors {entries : Entries} (hentries : ofGraph g settings = .ok entries)
    (h : ∀ names, (compilation g settings entries names).Resembles P S
      (compilation g' settings' entries names))
    (hS : ∀ n ∈ g.nodes, S n.id) (hroom : room.Eases P room') :
    SameUnless P (entries.text g settings globals room)
      (entries.text g' settings' globals room') := by
  unfold text
  by_cases hempty : entries.isEmpty = true
  · rw [if_pos hempty, if_pos hempty]
    exact .refl _
  rw [if_neg hempty, if_neg hempty]
  refine (SameUnless.refl _).bind fun _ _ => SameUnless.bind
    ((hroom.less declareFrames).within (Variable.firstLimit?_isLimit globals) _)
    fun declarations _ hP => ?_
  have hmirrors := emitAllOn_mirrors (h declarations.names) (hroom.less entryFrames) fun f hf => by
    obtain ⟨n, hn, hid⟩ := functions_node hentries hf
    exact hid ▸ hS n hn
  have hsame := hmirrors.same {} fun e he => hP e (by simp only [he, Except.map])
  simp only [hsame]

/-- Two graphs with the same entries, and alike on all nodes of the first. -/
theorem assemble_mirrors (hentries : Entries.ofGraph g' settings' = Entries.ofGraph g settings)
    (h : ∀ entries names, Entries.ofGraph g settings = .ok entries →
      (compilation g settings entries names).Resembles P S (compilation g' settings' entries names))
    (hS : ∀ n ∈ g.nodes, S n.id) (hroom : room.Eases P room') :
    SameUnless P (assemble g settings globals room) (assemble g' settings' globals room') := by
  rw [assemble_eq, assemble_eq, hentries]
  exact (SameUnless.refl _).bind fun entries hfound =>
    Entries.text_mirrors hfound (fun names => h entries names hfound) hS hroom

/-! ## The stack that there is -/

theorem compile_eq (g : Graph) (settings : Settings) (globals : List Variable) (left : Nat) :
    compile g settings globals left =
      (assemble g settings globals (roomFor g left)).mapError (told settings) := rfl

theorem compile_ok_iff {left : Nat} {text : String} : compile g settings globals left = .ok text ↔
    assemble g settings globals (roomFor g left) = .ok text := by
  rw [compile_eq]
  refine ⟨mapError_ok, fun h => ?_⟩
  rw [h]
  rfl

theorem compile_error {left : Nat} {e : Error}
    (h : assemble g settings globals (roomFor g left) = .error e) :
    compile g settings globals left = .error (told settings e) := by
  rw [compile_eq, h]
  rfl

/-- More room changes nothing but that the stack suffices. -/
theorem assemble_eased (g : Graph) (settings : Settings) (globals : List Variable)
    (hroom : room.Eases P room') :
    SameUnless P (assemble g settings globals room) (assemble g settings globals room') :=
  assemble_mirrors rfl (fun _ _ _ => Compilation.resembles_self _) (fun _ _ => trivial) hroom

/-- With more frames at hand a program is compiled as with fewer, unless these do not suffice. -/
theorem compile_eased {left left' : Nat} (hle : left ≤ left')
    (h : compile g settings globals left ≠ .error (outOfRoom settings)) :
    compile g settings globals left' = compile g settings globals left := by
  rw [compile_eq, compile_eq]
  refine congrArg _ (assemble_eased (P := fun e => e.isOverflow = true) g settings globals
    (.more (Nat.add_le_add_right hle _) fun _ he => he) fun e he hoverflow => h ?_)
  exact (compile_error he).trans (congrArg _ (if_pos hoverflow))

/-- A program that is made on the stack that there is would be made in any case. -/
theorem assemble_of_compile {left : Nat} {text : String}
    (h : compile g settings globals left = .ok text) : assemble g settings globals = .ok text := by
  have hmade := compile_ok_iff.mp h
  refine (assemble_eased (P := fun _ => True) g settings globals
    (.endless _ (fun _ _ => trivial) trivial) fun e he => ?_).trans hmade
  cases hmade.symm.trans he

end Program

end CartGraph
