import CartGraph.Number.Binary64
import CartGraph.Text.Blank
import CartGraph.Text.Digit

/-!
# Reading numbers from text

Numbers typed by hand may stand between blanks, use the digits of any script, and group digits with
single underscores. An integer has a limited number of digits. A double may have a fraction and an
exponent, or be one of the words for infinity and for what is not a number.
-/
namespace CartGraph.Number

/-- A digit of any script as the ASCII digit of the same value. -/
def plainDigit (c : Char) : Char :=
  match Text.digitValue? c with
  | some d => Char.ofNat ('0'.toNat + d)
  | none => c

/-- Drops the underscores that stand between two digits and refuses any other. -/
def ungroup (afterDigit : Bool) : List Char → Option (List Char)
  | [] => some []
  | '_' :: rest =>
    if afterDigit && (rest.head?.any Char.isDigit) then ungroup false rest else none
  | c :: rest => (ungroup c.isDigit rest).map (c :: ·)

/-- The blanks that may stand around a number. The separators of files, groups, records and units
are none of them. -/
def isMargin (c : Char) : Bool := Text.isBlank c && !(28 ≤ c.toNat && c.toNat ≤ 31)

/-- The characters of a typed number: trimmed, in ASCII digits, without grouping. -/
def typed (s : String) : Option (List Char) :=
  ungroup false ((Text.trimBy isMargin s.toList).map plainDigit)

/-- Splits off a sign. -/
def splitSign : List Char → Bool × List Char
  | '-' :: rest => (true, rest)
  | '+' :: rest => (false, rest)
  | rest => (false, rest)

/-- The value of a run of ASCII digits. -/
def digitsValue (cs : List Char) : Nat := cs.foldl (fun n c => 10 * n + (c.toNat - '0'.toNat)) 0

/-- The value of a text that is digits only and not empty. -/
def natOf? (cs : List Char) : Option Nat :=
  if !cs.isEmpty && cs.all Char.isDigit then some (digitsValue cs) else none

def intOf? (cs : List Char) : Option Int :=
  let (negative, rest) := splitSign cs
  (natOf? rest).map fun n => if negative then -(n : Int) else n

/-- The most digits that an integer may be written with, leading zeros included. -/
def maxDigits : Nat := 4300

/-- The integer that a typed text denotes. -/
def int? (s : String) : Option Int :=
  (typed s).bind fun cs =>
    if maxDigits < (splitSign cs).2.length then none else intOf? cs

/-- Reads an optional exponent that ends the text. -/
def exponentOf? : List Char → Option Int
  | [] => some 0
  | c :: rest => if c == 'e' || c == 'E' then intOf? rest else none

/-- Digits, optionally a point and more digits, then an optional exponent; at least one digit. -/
def decimalOf? (negative : Bool) (cs : List Char) : Option Binary64 :=
  let whole := cs.takeWhile Char.isDigit
  let rest := cs.dropWhile Char.isDigit
  let (fraction, rest) := match rest with
    | '.' :: more => (more.takeWhile Char.isDigit, more.dropWhile Char.isDigit)
    | _ => ([], rest)
  if whole.isEmpty && fraction.isEmpty then none
  else (exponentOf? rest).map fun e =>
    Binary64.ofDecimal negative (digitsValue (whole ++ fraction)) (e - fraction.length)

/-- The double that a typed text denotes. -/
def binary64? (s : String) : Option Binary64 :=
  (typed s).bind fun cs =>
    let (negative, rest) := splitSign cs
    let word := String.ofList (rest.map Char.toLower)
    if word == "inf" || word == "infinity" then some (Binary64.infinity negative)
    else if word == "nan" then some Binary64.nan
    else decimalOf? negative rest

end CartGraph.Number
