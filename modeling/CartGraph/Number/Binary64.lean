/-!
# Doubles

A double is its 64 bits: sign, eleven bits of exponent, fifty-two of fraction. A finite one stands
for `significand * 2 ^ exponent` up to sign. Everything here is exact arithmetic on naturals, and
`ofRatio` is the one place that rounds.
-/
namespace CartGraph

structure Binary64 where
  bits : UInt64
  deriving DecidableEq, Repr

namespace Binary64

def fractionSize : Nat := 0x10000000000000

/-- The bit of the sign. -/
def signBit : Nat := 0x8000000000000000

/-- The exponent field of infinities and of what is not a number. -/
def topField : Nat := 2047

/-- The bits without the sign. They order the magnitudes. -/
def magnitude (x : Binary64) : Nat := x.bits.toNat % signBit

def isNegative (x : Binary64) : Bool := signBit ≤ x.bits.toNat

def exponentField (x : Binary64) : Nat := x.magnitude / fractionSize

def fraction (x : Binary64) : Nat := x.magnitude % fractionSize

def isFinite (x : Binary64) : Bool := x.exponentField != topField

def isNaN (x : Binary64) : Bool := !x.isFinite && x.fraction != 0

def isZero (x : Binary64) : Bool := x.magnitude == 0

def significand (x : Binary64) : Nat :=
  if x.exponentField = 0 then x.fraction else fractionSize + x.fraction

def exponent (x : Binary64) : Int :=
  if x.exponentField = 0 then -1074 else (x.exponentField : Int) - 1075

/-- Numerator and denominator of the magnitude of a finite double. -/
def ratio (x : Binary64) : Nat × Nat :=
  (x.significand <<< x.exponent.toNat, 1 <<< (-x.exponent).toNat)

def isInteger (x : Binary64) : Bool := x.isFinite && x.ratio.1 % x.ratio.2 == 0

/-- The integer part of a finite double. -/
def truncate (x : Binary64) : Int :=
  let n : Int := x.ratio.1 / x.ratio.2
  if x.isNegative then -n else n

def ofMagnitude (negative : Bool) (magnitude : Nat) : Binary64 :=
  ⟨UInt64.ofNat (if negative then signBit + magnitude else magnitude)⟩

def zero : Binary64 := ofMagnitude false 0

def infinity (negative : Bool) : Binary64 := ofMagnitude negative (topField * fractionSize)

def nan : Binary64 := ofMagnitude false (topField * fractionSize + fractionSize / 2)

/-- The natural nearest to a quotient, the even one of two equally near. -/
def roundHalfEven (num den : Nat) : Nat :=
  let q := num / den
  let r := num % den
  if 2 * r < den then q
  else if den < 2 * r then q + 1
  else q + q % 2

/-- The largest `e` with `2 ^ e ≤ num / den`. -/
def log2Ratio (num den : Nat) : Int :=
  let l : Int := (num.log2 : Int) - den.log2
  if den <<< l.toNat ≤ num <<< (-l).toNat then l else l - 1

/-- The double nearest to a quotient, the one with an even significand of two equally near, and an
infinity beyond the largest finite double. A significand that rounds up to a power of two carries
into the exponent field by itself. -/
def ofRatio (negative : Bool) (num den : Nat) : Binary64 :=
  if num = 0 then ofMagnitude negative 0
  else
    let e := max (log2Ratio num den - 52) (-1074)
    let m := roundHalfEven (num <<< (-e).toNat) (den <<< e.toNat)
    let magnitude := (e + 1074).toNat * fractionSize + m
    if topField * fractionSize ≤ magnitude then infinity negative else ofMagnitude negative magnitude

/-- Number of decimal digits. -/
def digitCount (n : Nat) : Nat := (Nat.toDigits 10 n).length

/-- The double nearest to `digits * 10 ^ exponent`. Exponents far outside the range of the doubles
are answered without building the power. -/
def ofDecimal (negative : Bool) (digits : Nat) (exponent : Int) : Binary64 :=
  let top := exponent + digitCount digits
  if digits = 0 || top < -330 then ofMagnitude negative 0
  else if 320 < top then infinity negative
  else ofRatio negative (digits * Nat.pow 10 exponent.toNat) (Nat.pow 10 (-exponent).toNat)

/-- The nearest double, none when the integer is beyond the finite doubles. -/
def ofInt? (n : Int) : Option Binary64 :=
  let x := ofRatio (n < 0) n.natAbs 1
  if x.isFinite then some x else none

end Binary64

end CartGraph
