import CartGraph.Number.Binary64

/-!
# Shortest decimal text of a double

The fewest digits that read back as the same double, and of those the nearest to it. The point is
written in place for magnitudes from `0.0001` up to `10 ^ 16`, and an exponent of at least two
digits otherwise.
-/
namespace CartGraph.Binary64

/-- The `k` with `10 ^ (k - 1) ≤ num / den < 10 ^ k`. -/
def pointOf (num den : Nat) : Int :=
  if den ≤ num then (digitCount (num / den) : Int)
  else 1 - (digitCount (den / num) : Int)

/-- The multiple of `10 ^ unit` nearest to a finite double among its two neighbours that read back
as the double, the even one of two equally near. -/
def readBackNear? (x : Binary64) (unit : Int) : Option Nat :=
  let num := x.ratio.1 * Nat.pow 10 (-unit).toNat
  let den := x.ratio.2 * Nat.pow 10 unit.toNat
  let below := num / den
  let reads (digits : Nat) : Bool := ofDecimal x.isNegative digits unit == x
  let nearest := roundHalfEven num den
  if reads nearest then some nearest
  else if reads below then some below
  else if reads (below + 1) then some (below + 1)
  else none

/-- Digits and exponent of the shortest decimal that reads back. Seventeen digits always do. -/
def shortest (x : Binary64) : Nat × Int :=
  let point := pointOf x.ratio.1 x.ratio.2
  let found := (List.range 17).findSome? fun i =>
    let unit := point - (i + 1 : Nat)
    (readBackNear? x unit).map fun digits => (digits, unit)
  found.getD (0, 0)

def stripTrailingZeros (cs : List Char) : List Char :=
  (cs.reverse.dropWhile (· == '0')).reverse

def zerosText (n : Nat) : List Char := List.replicate n '0'

/-- An exponent with its sign and at least two digits. -/
def exponentText (e : Int) : List Char :=
  let digits := Nat.toDigits 10 e.natAbs
  (if e < 0 then '-' else '+') :: zerosText (2 - digits.length) ++ digits

/-- Lays out digits whose point stands `point` places after their start. -/
def layout (digits : List Char) (point : Int) : List Char :=
  if -4 < point && point ≤ 16 then
    if point ≤ 0 then '0' :: '.' :: zerosText (-point).toNat ++ digits
    else if digits.length ≤ point.toNat then
      digits ++ zerosText (point.toNat - digits.length) ++ ['.', '0']
    else digits.take point.toNat ++ '.' :: digits.drop point.toNat
  else
    let tail := digits.drop 1
    digits.take 1 ++ (if tail.isEmpty then [] else '.' :: tail) ++ 'e' :: exponentText (point - 1)

/-- The text of the magnitude of a finite double. -/
def magnitudeText (x : Binary64) : List Char :=
  if x.isZero then ['0', '.', '0']
  else
    let (digits, unit) := x.shortest
    let all := Nat.toDigits 10 digits
    layout (stripTrailingZeros all) (unit + all.length)

def toText (x : Binary64) : String :=
  if x.isNaN then "nan"
  else
    let body := if x.isFinite then x.magnitudeText else "inf".toList
    String.ofList (if x.isNegative then '-' :: body else body)

end CartGraph.Binary64
