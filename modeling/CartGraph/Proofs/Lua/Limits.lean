import CartGraph.Proofs.Lua.LiteralGrammar
import CartGraph.Variable

/-! # Literals within limits

A value shows what its literal needs: that its doubles are finite, that its integers are not too
long, and as many frames of the stack as its lists and tables are nested deep. What hinders the
literal is that one of these is not so (`hindrance?_weighed`), and with more frames nothing else
changes than that the stack suffices. -/
namespace CartGraph

/-! ## What a literal needs -/

def Key.isPrintable : Key → Bool
  | .int n => Lua.isPrintable n
  | .null | .bool _ | .float _ | .text _ => true

namespace Value

/-- No integer has too many digits, be it an item, the value of a field or a key. -/
def isPrintable (v : Value) : Bool := v.every Key.isPrintable Lua.isPrintable fun _ => true

mutual

/-- The frames that the literal of the value holds where it is nested deepest. -/
def frames : Value → Nat
  | .null | .omitted | .bool _ | .int _ | .float _ | .text _ => Lua.scalarFrames
  | .list items => Lua.tableFrames + itemFrames items
  | .table entries => Lua.tableFrames + entryFrames entries

def itemFrames : List Value → Nat
  | [] => 0
  | v :: rest => max v.frames (itemFrames rest)

def entryFrames : List (Key × Value) → Nat
  | [] => 0
  | (_, v) :: rest => max Lua.keyFrames (max v.frames (entryFrames rest))

end

end Value

namespace Lua

/-! ## What hinders a literal -/

/-- What is found to hinder a part of a literal, depending on the frames that are left, is that a
double is not finite, that an integer is too long, or that the part needs more frames. -/
structure Weighed (finite printable : Bool) (frames : Nat) (found : Nat → Option Hindrance) :
    Prop where
  none_iff : ∀ left, found left = none ↔ finite = true ∧ printable = true ∧ frames ≤ left
  notFinite : ∀ left, found left = some .notFinite → finite = false
  integerTooLong : ∀ left, found left = some .integerTooLong → printable = false
  nestedTooDeep : ∀ left, found left = some .nestedTooDeep → left < frames
  eased : ∀ {left left'}, left ≤ left' → found left ≠ some .nestedTooDeep →
    found left' = found left

/-- Of two things that are found, the first counts. If either changes only where it is the one that
is set apart, so do both. -/
theorem or_eq_of_ne {a a' b b' : Option α} {apart : α} (ha : a ≠ some apart → a' = a)
    (hb : b ≠ some apart → b' = b) (h : a.or b ≠ some apart) : a'.or b' = a.or b := by
  cases a with
  | some x => rw [ha h, Option.some_or, Option.some_or]
  | none => rw [ha (by simp), Option.none_or, Option.none_or, hb h]

namespace Weighed

theorem clear : Weighed true true 0 fun _ => none where
  none_iff _ := by simp
  notFinite _ h := by cases h
  integerTooLong _ h := by cases h
  nestedTooDeep _ h := by cases h
  eased _ _ := rfl

theorem integer (n : Int) : Weighed true (isPrintable n) 0 fun _ => integerHindrance? n := by
  unfold integerHindrance?
  cases isPrintable n <;> constructor <;> simp

theorem double (x : Binary64) : Weighed x.isFinite true 0 fun _ => doubleHindrance? x := by
  unfold doubleHindrance?
  cases x.isFinite <;> constructor <;> simp

variable {finite finite' printable printable' : Bool} {frames frames' : Nat}
  {found found' : Nat → Option Hindrance}

/-- Of two parts the first is written first. -/
theorem or (h : Weighed finite printable frames found)
    (h' : Weighed finite' printable' frames' found') :
    Weighed (finite && finite') (printable && printable') (max frames frames')
      fun left => (found left).or (found' left) where
  none_iff left := by
    rw [Option.or_eq_none_iff, h.none_iff, h'.none_iff]
    simp only [Bool.and_eq_true, max_le_iff]
    tauto
  notFinite left he := by
    rcases Option.or_eq_some_iff.mp he with he | ⟨_, he⟩
    · rw [h.notFinite left he, Bool.false_and]
    · rw [h'.notFinite left he, Bool.and_false]
  integerTooLong left he := by
    rcases Option.or_eq_some_iff.mp he with he | ⟨_, he⟩
    · rw [h.integerTooLong left he, Bool.false_and]
    · rw [h'.integerTooLong left he, Bool.and_false]
  nestedTooDeep left he := by
    rcases Option.or_eq_some_iff.mp he with he | ⟨_, he⟩
    · exact lt_max_of_lt_left (h.nestedTooDeep left he)
    · exact lt_max_of_lt_right (h'.nestedTooDeep left he)
  eased hle hne := or_eq_of_ne (h.eased hle) (h'.eased hle) hne

/-- A part inside another one, which holds frames meanwhile. -/
theorem holding (h : Weighed finite printable frames found) (held : Nat) :
    Weighed finite printable (held + frames)
      fun left => Lua.holding held left (found (left - held)) := by
  unfold Lua.holding
  constructor
  · intro left
    split
    · simp
      omega
    · rw [h.none_iff]
      have : frames ≤ left - held ↔ held + frames ≤ left := by omega
      rw [this]
  · intro left he
    split at he
    · cases he
    · exact h.notFinite _ he
  · intro left he
    split at he
    · cases he
    · exact h.integerTooLong _ he
  · intro left he
    split at he
    · omega
    · have := h.nestedTooDeep _ he
      omega
  · intro left left' hle hne
    split at hne
    · exact absurd rfl hne
    · rename_i henough
      rw [if_neg henough, if_neg (by omega)]
      exact h.eased (Nat.sub_le_sub_right hle held) hne

end Weighed

theorem keyHindrance?_weighed (k : Key) :
    Weighed k.isFinite k.isPrintable keyFrames (keyHindrance? · k) := by
  cases k with
  | int n => exact (Weighed.integer n).holding keyFrames
  | float x => exact (Weighed.double x).holding keyFrames
  | _ => exact Weighed.clear.holding keyFrames

mutual

theorem hindrance?_weighed (v : Value) :
    Weighed v.isFinite v.isPrintable v.frames (hindrance? · v) := by
  cases v with
  | int n =>
    unfold Value.isPrintable Value.every
    exact (Weighed.integer n).holding scalarFrames
  | float x => exact (Weighed.double x).holding scalarFrames
  | list items => exact (itemsHindrance?_weighed items).holding tableFrames
  | table entries => exact (entriesHindrance?_weighed entries).holding tableFrames
  | _ => exact Weighed.clear.holding scalarFrames

theorem itemsHindrance?_weighed (items : List Value) :
    Weighed (Value.list items).isFinite (Value.list items).isPrintable (Value.itemFrames items)
      (itemsHindrance? · items) := by
  cases items with
  | nil => exact Weighed.clear
  | cons v rest => exact (hindrance?_weighed v).or (itemsHindrance?_weighed rest)

theorem entriesHindrance?_weighed (entries : List (Key × Value)) :
    Weighed (Value.table entries).isFinite (Value.table entries).isPrintable
      (Value.entryFrames entries) (entriesHindrance? · entries) := by
  cases entries with
  | nil => exact Weighed.clear
  | cons entry rest =>
    exact (keyHindrance?_weighed entry.1).or
      ((hindrance?_weighed entry.2).or (entriesHindrance?_weighed rest))

end

/-! ## Limits -/

end Lua

/-- A limit is that an integer is too long or that the stack runs out, and more frames only help
against the latter. -/
structure IsLimit (limit? : Nat → Option Error) : Prop where
  cause : ∀ {left e}, limit? left = some e → e = .integerTooLong ∨ e = .nestedTooDeep
  eased : ∀ {left left'}, left ≤ left' → limit? left ≠ some .nestedTooDeep →
    limit? left' = limit? left

namespace IsLimit

theorem none : IsLimit fun _ => none where
  cause h := by cases h
  eased _ _ := rfl

theorem or {limit? limit'? : Nat → Option Error} (h : IsLimit limit?) (h' : IsLimit limit'?) :
    IsLimit fun left => (limit? left).or (limit'? left) where
  cause he := by
    rcases Option.or_eq_some_iff.mp he with he | ⟨_, he⟩
    · exact h.cause he
    · exact h'.cause he
  eased hle hne := Lua.or_eq_of_ne (h.eased hle) (h'.eased hle) hne

end IsLimit

theorem Lua.limit?_isLimit (kind : Kind) (v : Value) : IsLimit (limit? kind v) := by
  unfold limit?
  split
  · exact .none
  constructor
  · intro left e he
    obtain ⟨hindrance, _, he⟩ := Option.bind_eq_some_iff.mp he
    cases hindrance with
    | notFinite => cases he
    | integerTooLong => exact .inl (Option.some.inj he).symm
    | nestedTooDeep => exact .inr (Option.some.inj he).symm
  · intro left left' hle hne
    rw [(hindrance?_weighed v).eased hle fun he => hne (by rw [he]; rfl)]

namespace Variable

theorem limit?_isLimit (v : Variable) : IsLimit v.limit? := by
  unfold limit?
  split
  · exact .none
  · exact Lua.limit?_isLimit _ _

theorem declareOn_ok {room : Room} {globals : List Variable} {declarations : Declarations}
    (h : declareOn room globals = .ok declarations) : declare globals = .ok declarations :=
  mapError_ok (Room.within_ok h)

theorem firstLimit?_isLimit (globals : List Variable) : IsLimit (firstLimit? · globals) := by
  induction globals with
  | nil => exact .none
  | cons v rest ih =>
    refine v.limit?_isLimit.or ?_
    split
    · exact ih
    · exact .none

end Variable

namespace Lua

/-! ## Literals -/

/-- The empty list inside so many others. -/
def nested : Nat → Value
  | 0 => .list []
  | n + 1 => .list [nested n]

end Lua

end CartGraph
