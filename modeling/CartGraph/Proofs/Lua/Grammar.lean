import CartGraph.Lua.Identifier

/-! # Expressions of Lua, read back

A text is cut into tokens, each as long as it can be (`Lua.scan`), and the tokens are grouped by the
priorities of the operators (`Lua.expression`). Of the expressions of the language the constructors
of tables and functions, indexing, long strings and hexadecimal numerals are left out, and so are
comments: a text that has one of them is refused. -/
namespace CartGraph.Lua

/-! ## Tokens -/

inductive Token where
  | name (text : String)
  /-- A reserved word. -/
  | word (text : String)
  | number (text : String)
  /-- A string as it is written, with its quotes. -/
  | string (text : String)
  | opening
  | closing
  | comma
  | symbol (text : String)
  deriving DecidableEq, Repr

inductive Stage where
  | whole
  | fraction
  | marker
  | sign
  | exponent
  deriving DecidableEq, Repr

def Stage.next? : Stage → Char → Option Stage
  | .whole, c =>
    if c.isDigit then some .whole
    else if c == '.' then some .fraction
    else if c == 'e' || c == 'E' then some .marker
    else none
  | .fraction, c =>
    if c.isDigit then some .fraction
    else if c == 'e' || c == 'E' then some .marker
    else none
  | .marker, c =>
    if c.isDigit then some .exponent
    else if c == '+' || c == '-' then some .sign
    else none
  | .sign, c | .exponent, c => if c.isDigit then some .exponent else none

def Stage.isComplete : Stage → Bool
  | .whole | .fraction | .exponent => true
  | .marker | .sign => false

def simpleEscapes : List Char := ['a', 'b', 'f', 'n', 'r', 't', 'v', '\\', '"', '\'', '\n']

/-- Whether a character and what follows it may stand after a backslash. A code has at most three
digits and is that of a byte. -/
def isEscape (c : Char) (rest : List Char) : Bool :=
  simpleEscapes.contains c ||
    c.isDigit && Nat.ofDigitChars 10 (((c :: rest).takeWhile Char.isDigit).take 3) 0 ≤ 255

/-- Whether the text between two quotes stands on one line and has valid escapes only. -/
def isContent : (escaped : Bool) → List Char → Bool
  | escaped, [] => !escaped
  | true, c :: rest => isEscape c rest && isContent false rest
  | false, c :: rest =>
    if c == '\\' then isContent true rest
    else c != '\n' && c != '\r' && isContent false rest

inductive Scan where
  | gap
  | word (read : List Char)
  | number (stage : Stage) (read : List Char)
  | string (quote : Char) (read : List Char)
  | escape (quote : Char) (read : List Char)
  | symbol (c : Char)
  | done (token : Token)
  /-- No token starts so. -/
  | refused
  deriving DecidableEq, Repr

def blanks : List Char := [' ', '\t', '\n', '\r', '\x0b', '\x0c']

def symbols : List Char :=
  ['+', '-', '*', '/', '%', '^', '#', '&', '~', '|', '<', '>', '=', '(', ')', '[', ']', '\x7b',
    '\x7d', ';', ':', ',', '.']

def pairs : List (Char × Char) :=
  [('=', '='), ('~', '='), ('<', '='), ('>', '='), ('/', '/'), ('<', '<'), ('>', '>'), ('.', '.'),
    (':', ':')]

/-- What starts a comment or a long string. -/
def refusedPairs : List (Char × Char) := [('-', '-'), ('[', '['), ('[', '=')]

def Token.ofWord (read : List Char) : Token :=
  let text := String.ofList read
  if reserved.contains text then .word text else .name text

def Token.ofSymbol (c : Char) : Token :=
  if c == '(' then .opening
  else if c == ')' then .closing
  else if c == ',' then .comma
  else .symbol (String.ofList [c])

namespace Scan

def start? (c : Char) : Option Scan :=
  if blanks.contains c then some .gap
  else if isNameStart c then some (.word [c])
  else if c.isDigit then some (.number .whole [c])
  else if c == '"' || c == '\'' then some (.string c [])
  else if symbols.contains c then some (.symbol c)
  else none

/-- The token with one character more, none if the character does not belong to it. -/
def next? : Scan → Char → Option Scan
  | .word read, c => if isNameChar c then some (.word (read ++ [c])) else none
  | .number stage read, c =>
    match stage.next? c with
    | some stage => some (.number stage (read ++ [c]))
    | none => if isNameChar c || c == '.' then some .refused else none
  | .string quote read, c =>
    if c == '\\' then some (.escape quote (read ++ [c]))
    else if c == quote then
      some (if isContent false read then .done (.string (String.ofList (quote :: read ++ [quote])))
        else .refused)
    else some (.string quote (read ++ [c]))
  | .escape quote read, c => some (.string quote (read ++ [c]))
  | .symbol a, c =>
    if a == '.' && c.isDigit then some (.number .fraction [a, c])
    else if pairs.contains (a, c) then some (.done (.symbol (String.ofList [a, c])))
    else if refusedPairs.contains (a, c) then some .refused
    else none
  | .refused, _ => some .refused
  | .gap, _ | .done _, _ => none

def finish : Scan → Option (List Token)
  | .gap => some []
  | .word read => some [.ofWord read]
  | .number stage read => if stage.isComplete then some [.number (String.ofList read)] else none
  | .symbol c => some [.ofSymbol c]
  | .done token => some [token]
  | .string _ _ | .escape _ _ | .refused => none

end Scan

/-- The tokens of a text, given what was read of the first one. -/
def scan : Scan → List Char → Option (List Token)
  | state, [] => state.finish
  | state, c :: rest =>
    match state.next? c with
    | some state => scan state rest
    | none => do
      let tokens ← state.finish
      let state ← Scan.start? c
      return tokens ++ (← scan state rest)

/-! ## Trees -/

/-- An expression. Brackets leave no trace. -/
inductive Tree where
  | constant (word : String)
  | number (text : String)
  | string (text : String)
  | name (text : String)
  | unary (operator : String) (operand : Tree)
  | binary (operator : String) (left right : Tree)
  | call (function : Tree) (arguments : List Tree)
  deriving Repr

def constants : List String := ["nil", "true", "false"]

/-- The priorities of the binary operators to their left and to their right. An operator whose
priority is higher to the left groups to the right. -/
def priorities : List (Token × Nat × Nat) := [
  (.word "or", 1, 1), (.word "and", 2, 2),
  (.symbol "<", 3, 3), (.symbol ">", 3, 3), (.symbol "<=", 3, 3), (.symbol ">=", 3, 3),
  (.symbol "~=", 3, 3), (.symbol "==", 3, 3),
  (.symbol "|", 4, 4), (.symbol "~", 5, 5), (.symbol "&", 6, 6),
  (.symbol "<<", 7, 7), (.symbol ">>", 7, 7), (.symbol "..", 9, 8),
  (.symbol "+", 10, 10), (.symbol "-", 10, 10),
  (.symbol "*", 11, 11), (.symbol "/", 11, 11), (.symbol "//", 11, 11), (.symbol "%", 11, 11),
  (.symbol "^", 14, 13)]

/-- The priority of the unary operators, of which only the power stands above. -/
def unaryPriority : Nat := 12

namespace Token

def unary? : Token → Option String
  | .word text => if text == "not" then some text else none
  | .symbol text => if ["-", "#", "~"].contains text then some text else none
  | _ => none

def binary? (token : Token) : Option (String × Nat × Nat) :=
  match token, priorities.lookup token with
  | .word text, some p | .symbol text, some p => some (text, p)
  | _, _ => none

end Token

mutual

/-- The expression at the start of some tokens, as far as operators above a limit reach, and the
tokens after it. The first argument bounds the nesting. -/
def expression : Nat → (limit : Nat) → List Token → Option (Tree × List Token)
  | 0, _, _ => none
  | fuel + 1, limit, tokens => do
    let (left, tokens) ← operand fuel tokens
    operators fuel limit left tokens

def operand : Nat → List Token → Option (Tree × List Token)
  | 0, _ | _, [] => none
  | fuel + 1, token :: tokens =>
    match token with
    | .number text => some (.number text, tokens)
    | .string text => some (.string text, tokens)
    | .name text => calls fuel (.name text) tokens
    | .opening => do
      match ← expression fuel 0 tokens with
      | (tree, .closing :: tokens) => calls fuel tree tokens
      | _ => none
    | token =>
      match token.unary?, token with
      | some operator, _ => do
        let (tree, tokens) ← expression fuel unaryPriority tokens
        return (.unary operator tree, tokens)
      | none, .word text => if constants.contains text then some (.constant text, tokens) else none
      | none, _ => none

def calls : Nat → Tree → List Token → Option (Tree × List Token)
  | 0, _, _ => none
  | fuel + 1, function, tokens =>
    match tokens with
    | .opening :: .closing :: tokens => calls fuel (.call function []) tokens
    | .opening :: tokens => do
      let (arguments, tokens) ← argumentList fuel tokens
      calls fuel (.call function arguments) tokens
    | .string text :: tokens => calls fuel (.call function [.string text]) tokens
    | tokens => some (function, tokens)

def argumentList : Nat → List Token → Option (List Tree × List Token)
  | 0, _ => none
  | fuel + 1, tokens => do
    match ← expression fuel 0 tokens with
    | (tree, .closing :: tokens) => return ([tree], tokens)
    | (tree, .comma :: tokens) => do
      let (trees, tokens) ← argumentList fuel tokens
      return (tree :: trees, tokens)
    | _ => none

/-- The binary operators above a limit that follow an expression. -/
def operators : Nat → (limit : Nat) → Tree → List Token → Option (Tree × List Token)
  | 0, _, _, _ => none
  | _, _, left, [] => some (left, [])
  | fuel + 1, limit, left, token :: tokens =>
    match token.binary? with
    | some (operator, before, after) =>
      if limit < before then do
        let (right, tokens) ← expression fuel after tokens
        operators fuel limit (.binary operator left right) tokens
      else some (left, token :: tokens)
    | none => some (left, token :: tokens)

end

def parse (text : String) : Option Tree := do
  let tokens ← scan .gap text.toList
  match ← expression (4 * tokens.length) 0 tokens with
  | (tree, []) => return tree
  | _ => none

example : parse "a + b * -2 < f(1, c)" = some (.binary "<"
    (.binary "+" (.name "a") (.binary "*" (.name "b") (.unary "-" (.number "2"))))
    (.call (.name "f") [.number "1", .name "c"])) := by cbv

end CartGraph.Lua
