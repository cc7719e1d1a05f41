import CartGraph.Number.Reading
import CartGraph.Value.Basic

/-!
# Values from JSON text

A number with a fraction or an exponent is a double, any other an integer, which has a limited
number of digits. The words `NaN` and `Infinity` are numbers. Of two members with one key the later
gives the value and the earlier the place. A text is read from its start, and the first fault ends
the reading. Lists and tables may be nested only so deep.
-/
namespace CartGraph.Json

inductive Fault where
  | malformed
  | integerTooLong
  | nestedTooDeep
  deriving DecidableEq, Repr

/-- Reading that can only fail on the form of the text. -/
def formed : Option (α × List Char) → Except Fault (α × List Char)
  | some r => .ok r
  | none => .error .malformed

def isSpace (c : Char) : Bool := c == ' ' || c == '\t' || c == '\n' || c == '\r'

def skipSpace (cs : List Char) : List Char := cs.dropWhile isSpace

/-- Four hexadecimal digits. -/
def hex4 : List Char → Option (Nat × List Char)
  | a :: b :: c :: d :: rest => do
    let a ← Text.hexValue? a
    let b ← Text.hexValue? b
    let c ← Text.hexValue? c
    let d ← Text.hexValue? d
    return (((a * 16 + b) * 16 + c) * 16 + d, rest)
  | _ => none

def isHighSurrogate (n : Nat) : Bool := 0xd800 ≤ n && n ≤ 0xdbff

def isLowSurrogate (n : Nat) : Bool := 0xdc00 ≤ n && n ≤ 0xdfff

/-- The character of an escape by code, which may take two escapes. Half a pair is refused. -/
def unicodeEscape (cs : List Char) : Option (Char × List Char) := do
  let (high, rest) ← hex4 cs
  if isHighSurrogate high then
    match rest with
    | '\\' :: 'u' :: more =>
      let (low, rest) ← hex4 more
      if isLowSurrogate low then
        return (Char.ofNat (0x10000 + (high - 0xd800) * 0x400 + (low - 0xdc00)), rest)
      else none
    | _ => none
  else if isLowSurrogate high then none
  else return (Char.ofNat high, rest)

def simpleEscape? (c : Char) : Option Char :=
  match c with
  | '"' | '\\' | '/' => some c
  | 'b' => some (Char.ofNat 8)
  | 'f' => some (Char.ofNat 12)
  | 'n' => some '\n'
  | 'r' => some '\r'
  | 't' => some '\t'
  | _ => none

/-- The rest of a string after its opening quote. Control characters must be escaped. -/
def stringTail : Nat → List Char → Option (List Char × List Char)
  | 0, _ => none
  | _ + 1, [] => none
  | steps + 1, c :: rest =>
    if c == '"' then some ([], rest)
    else if c == '\\' then
      match rest with
      | 'u' :: more => do
        let (c, rest) ← unicodeEscape more
        let (cs, rest) ← stringTail steps rest
        return (c :: cs, rest)
      | e :: more => do
        let c ← simpleEscape? e
        let (cs, rest) ← stringTail steps more
        return (c :: cs, rest)
      | [] => none
    else if c.toNat < 32 then none
    else do
      let (cs, rest) ← stringTail steps rest
      return (c :: cs, rest)

/-- The integer part of a number: zero alone, or digits that do not start with it. -/
def wholePart : List Char → Option (List Char × List Char)
  | '0' :: rest => some (['0'], rest)
  | cs =>
    let digits := cs.takeWhile Char.isDigit
    if digits.isEmpty then none else some (digits, cs.dropWhile Char.isDigit)

/-- A point with digits after it, nothing if there is none. -/
def fractionPart : List Char → List Char × List Char
  | '.' :: rest =>
    let digits := rest.takeWhile Char.isDigit
    if digits.isEmpty then ([], '.' :: rest) else (digits, rest.dropWhile Char.isDigit)
  | cs => ([], cs)

/-- An exponent, nothing if there is none. -/
def exponentPart : List Char → Option Int × List Char
  | c :: rest =>
    if c == 'e' || c == 'E' then
      let (negative, digits) := Number.splitSign rest
      let shown := digits.takeWhile Char.isDigit
      if shown.isEmpty then (none, c :: rest)
      else
        let n : Int := Number.digitsValue shown
        (some (if negative then -n else n), digits.dropWhile Char.isDigit)
    else (none, c :: rest)
  | [] => (none, [])

def unsignedNumber (negative : Bool) (cs : List Char) : Except Fault (Value × List Char) := do
  let (whole, rest) ← formed (wholePart cs)
  let (fraction, rest) := fractionPart rest
  let (exponent, rest) := exponentPart rest
  if fraction.isEmpty && exponent.isNone then
    if Number.maxDigits < whole.length then throw .integerTooLong
    let n : Int := Number.digitsValue whole
    return (.int (if negative then -n else n), rest)
  else
    let value := Binary64.ofDecimal negative (Number.digitsValue (whole ++ fraction))
      (exponent.getD 0 - fraction.length)
    return (.float value, rest)

/-- Splits off a word. -/
def word? (word : String) (cs : List Char) : Option (List Char) :=
  if word.toList.isPrefixOf cs then some (cs.drop word.length) else none

def number (cs : List Char) : Except Fault (Value × List Char) :=
  match cs with
  | '-' :: rest =>
    match word? "Infinity" rest with
    | some rest => .ok (.float (.infinity true), rest)
    | none => unsignedNumber true rest
  | cs => unsignedNumber false cs

/-- The words of the format. -/
def words : List (String × Value) := [
  ("null", .null), ("true", .bool true), ("false", .bool false), ("NaN", .float .nan),
  ("Infinity", .float (.infinity false))]

def wordValue (cs : List Char) : Option (Value × List Char) :=
  words.findSome? fun w => (word? w.1 cs).map fun rest => (w.2, rest)

/-- How many lists and tables may stand inside each other. -/
def maxNesting : Nat := 985

mutual

/-- A value at the start of a text, within a number of steps, inside so many lists and tables. -/
def value : Nat → Nat → List Char → Except Fault (Value × List Char)
  | 0, _, _ => .error .malformed
  | steps + 1, depth, cs =>
    match cs with
    | '"' :: rest =>
      (formed (stringTail (rest.length + 1) rest)).map fun r => (.text (String.ofList r.1), r.2)
    | '[' :: rest =>
      if maxNesting ≤ depth then .error .nestedTooDeep
      else match skipSpace rest with
        | ']' :: rest => .ok (.list [], rest)
        | rest => (items steps (depth + 1) rest).map fun r => (.list r.1, r.2)
    | '\x7b' :: rest =>
      if maxNesting ≤ depth then .error .nestedTooDeep
      else match skipSpace rest with
        | '\x7d' :: rest => .ok (.table [], rest)
        | rest => (members steps (depth + 1) [] rest).map fun r => (.table r.1, r.2)
    | cs =>
      match wordValue cs with
      | some r => .ok r
      | none => number cs

/-- The items of a list up to its closing bracket. -/
def items : Nat → Nat → List Char → Except Fault (List Value × List Char)
  | 0, _, _ => .error .malformed
  | steps + 1, depth, cs => do
    let (v, rest) ← value steps depth cs
    match skipSpace rest with
    | ',' :: rest => (items steps depth (skipSpace rest)).map fun r => (v :: r.1, r.2)
    | ']' :: rest => .ok ([v], rest)
    | _ => .error .malformed

/-- The members of a table up to its closing brace, written over those before them. -/
def members : Nat → Nat → Table → List Char → Except Fault (Table × List Char)
  | 0, _, _, _ => .error .malformed
  | steps + 1, depth, before, cs =>
    match cs with
    | '"' :: rest => do
      let (key, rest) ← formed (stringTail (rest.length + 1) rest)
      match skipSpace rest with
      | ':' :: rest =>
        let (v, rest) ← value steps depth (skipSpace rest)
        let table := before.insert (.text (String.ofList key)) v
        match skipSpace rest with
        | ',' :: rest => members steps depth table (skipSpace rest)
        | '\x7d' :: rest => .ok (table, rest)
        | _ => .error .malformed
      | _ => .error .malformed
    | _ => .error .malformed

end

/-- The value that a whole text denotes. Any two steps read at least one character. -/
def read (s : String) : Except Fault Value := do
  let cs := skipSpace s.toList
  let (v, rest) ← value (2 * cs.length + 2) 0 cs
  if (skipSpace rest).isEmpty then return v else throw .malformed

end CartGraph.Json
