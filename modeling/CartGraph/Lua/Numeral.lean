import CartGraph.Text.Digit

/-!
# Number text

Number text is kept as it was typed: an optional minus sign, then decimal, hexadecimal or binary
digits with an optional fraction. Decimal digits may be those of any script.
-/
namespace CartGraph.Lua

def isHexDigit (c : Char) : Bool :=
  c.isDigit || ('a' ≤ c && c ≤ 'f') || ('A' ≤ c && c ≤ 'F')

def isBinaryDigit (c : Char) : Bool := c == '0' || c == '1'

/-- Nothing, or a point and any number of digits. -/
def isFraction (isDigit : Char → Bool) : List Char → Bool
  | [] => true
  | c :: rest => c == '.' && rest.all isDigit

/-- At least one digit, then an optional fraction. -/
def isDigitsWithFraction (isDigit : Char → Bool) (cs : List Char) : Bool :=
  !(cs.takeWhile isDigit).isEmpty && isFraction isDigit (cs.dropWhile isDigit)

def isUnsignedNumeral : List Char → Bool
  | '0' :: c :: rest =>
    if c == 'x' || c == 'X' then isDigitsWithFraction isHexDigit rest
    else if c == 'b' || c == 'B' then isDigitsWithFraction isBinaryDigit rest
    else isDigitsWithFraction Text.isDecimalDigit ('0' :: c :: rest)
  | '.' :: rest => !rest.isEmpty && rest.all Text.isDecimalDigit
  | cs => isDigitsWithFraction Text.isDecimalDigit cs

def isNumeral : List Char → Bool
  | '-' :: rest => isUnsignedNumeral rest
  | cs => isUnsignedNumeral cs

end CartGraph.Lua
