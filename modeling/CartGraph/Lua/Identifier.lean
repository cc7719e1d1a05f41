import CartGraph.Text.Blank
import CartGraph.Text.Lowercase

/-!
# Lua names

Names of the user are sanitised to lower-case identifiers that are neither reserved words nor
inside the region of hidden names. Hidden names belong to the compiler.
-/
namespace CartGraph.Lua

def reserved : List String := [
  "and", "break", "do", "else", "elseif", "end", "false", "for", "function", "goto", "if", "in",
  "local", "nil", "not", "or", "repeat", "return", "then", "true", "until", "while"]

/-- Hidden names start so, and no sanitised name does. -/
def hiddenStart : String := "__pg_"

def isLowerAlnum (c : Char) : Bool := c.isLower || c.isDigit

def isLowerNameChar (c : Char) : Bool := isLowerAlnum c || c == '_'

/-- Trimmed, in lower case. -/
def folded (raw : String) : List Char := (Text.lower (Text.strip raw)).toList

def maskChar (c : Char) : Char := if isLowerNameChar c then c else '_'

/-- Puts `v_` before a name that starts with a digit. -/
def guardDigit (cs : List Char) : List Char :=
  if cs.head?.any Char.isDigit then 'v' :: '_' :: cs else cs

def guardReserved (cs : List Char) : List Char :=
  if reserved.contains (String.ofList cs) then cs ++ ['_'] else cs

def guardHidden (cs : List Char) : List Char :=
  if hiddenStart.toList.isPrefixOf cs then 'v' :: cs else cs

/-- A name for the user's text. Text without an ASCII letter or digit has the name `var`. -/
def sanitize (raw : String) : String :=
  let text := folded raw
  if text.any isLowerAlnum then
    String.ofList (guardHidden (guardReserved (guardDigit (text.map maskChar))))
  else "var"

/-- One part of a hidden name. -/
def hiddenPart (raw fallback : String) : List Char :=
  let part := Text.trimBy (· == '_') ((folded raw).map maskChar)
  if part.isEmpty then fallback.toList else part

/-- The name of a temporary that a node owns. -/
def hidden (owner label : String) : String :=
  String.ofList (hiddenStart.toList ++ hiddenPart owner "node" ++ '_' :: hiddenPart label "tmp")

def isNameStart (c : Char) : Bool := c.isAlpha || c == '_'

def isNameChar (c : Char) : Bool := c.isAlphanum || c == '_'

/-- The characters of a name: a letter or underscore, then letters, digits and underscores. -/
def hasNameShape : List Char → Bool
  | [] => false
  | c :: rest => isNameStart c && rest.all isNameChar

/-- A text without the one line break that may end it. -/
def chomp (cs : List Char) : List Char :=
  if cs.getLast? == some '\n' then cs.dropLast else cs

/-- Whether a text, or the one line that it is, is a name. Reserved words are not names. -/
def isIdentifier (s : String) : Bool :=
  hasNameShape (chomp s.toList) && !reserved.contains s

end CartGraph.Lua
