import CartGraph.Lua.Literal
import CartGraph.Number.Reading
import CartGraph.Room

/-!
# Limits of literals

An integer is written with a limited number of digits, and a list or a table holds frames of the
stack for what stands in it. The literal of a value is written from its start, and what hinders it
first ends it: one of these limits, or a double that has no literal.
-/
namespace CartGraph

def Value.hasParts : Value → Bool
  | .list _ | .table _ => true
  | _ => false

/-- Kinds whose literals are written part by part. A value with parts has no literal of another
kind. -/
def Kind.writesParts : Kind → Bool
  | .table | .any | .exec => true
  | .number | .boolean | .string => false

namespace Lua

inductive Hindrance where
  | notFinite
  | integerTooLong
  | nestedTooDeep
  deriving DecidableEq, Repr

/-- The limit that was met. A double without a literal is the fault of the value and no limit. -/
def Hindrance.limit? : Hindrance → Option Error
  | .notFinite => none
  | .integerTooLong => some .integerTooLong
  | .nestedTooDeep => some .nestedTooDeep

/-- The frames that a value holds which has no parts. -/
def scalarFrames : Nat := 1

/-- The frames that the key of a field holds. -/
def keyFrames : Nat := 2

/-- The frames that a list or a table holds while its parts are written. -/
def tableFrames : Nat := 3

/-- Whether an integer has no more digits than can be written. -/
def isPrintable (n : Int) : Bool := n.natAbs < Nat.pow 10 Number.maxDigits

def integerHindrance? (n : Int) : Option Hindrance :=
  if isPrintable n then none else some .integerTooLong

def doubleHindrance? (x : Binary64) : Option Hindrance :=
  if x.isFinite then none else some .notFinite

/-- What hinders something that holds frames, the stack before all else. -/
def holding (frames left : Nat) (found : Option Hindrance) : Option Hindrance :=
  if left < frames then some .nestedTooDeep else found

def keyHindrance? (left : Nat) (k : Key) : Option Hindrance :=
  holding keyFrames left <| match k with
    | .int n => integerHindrance? n
    | .float x => doubleHindrance? x
    | .null | .bool _ | .text _ => none

mutual

/-- What hinders the literal of a value first, if some frames are left. -/
def hindrance? (left : Nat) : Value → Option Hindrance
  | .null | .omitted | .bool _ | .text _ => holding scalarFrames left none
  | .int n => holding scalarFrames left (integerHindrance? n)
  | .float x => holding scalarFrames left (doubleHindrance? x)
  | .list items => holding tableFrames left (itemsHindrance? (left - tableFrames) items)
  | .table entries => holding tableFrames left (entriesHindrance? (left - tableFrames) entries)

def itemsHindrance? (left : Nat) : List Value → Option Hindrance
  | [] => none
  | v :: rest => (hindrance? left v).or (itemsHindrance? left rest)

def entriesHindrance? (left : Nat) : List (Key × Value) → Option Hindrance
  | [] => none
  | (k, v) :: rest =>
    (keyHindrance? left k).or ((hindrance? left v).or (entriesHindrance? left rest))

end

/-- The limit that the literal of a value meets. Where a value with parts is refused as a whole,
none of its parts is written. -/
def limit? (kind : Kind) (v : Value) (left : Nat) : Option Error :=
  if v.hasParts && !kind.writesParts then none
  else (hindrance? left v).bind Hindrance.limit?

/-- A literal, within the limits. -/
def literalOn (room : Room) (kind : Kind) (v : Value) (key : String) : Except Error String :=
  room.within (limit? kind v) ((literal kind v key).mapError .compile)

end Lua

end CartGraph
