import CartGraph.Text.Digit

/-!
# Command line options

Long options may be shortened to any start that only one of them has. Options of one letter may be
written together. After two dashes nothing is an option.
-/
namespace CartGraph.Command

inductive Switch where
  | help
  | out
  | print
  | use60fps
  | strict
  | verbose
  deriving DecidableEq, Repr

namespace Switch

def all : List Switch := [help, out, print, use60fps, strict, verbose]

def name : Switch → String
  | .help => "help"
  | .out => "out"
  | .print => "print"
  | .use60fps => "use-60fps"
  | .strict => "strict"
  | .verbose => "verbose"

def takesValue (s : Switch) : Bool := s == .out

/-- The option of one letter. -/
def ofLetter? (c : Char) : Option Switch :=
  match c with
  | 'h' => some .help
  | 'v' => some .verbose
  | _ => none

/-- The options of letters written together, each of which must be one. An equals sign after the
first letter is passed over if more letters follow it. -/
def ofLetters? : List Char → Option (List Switch)
  | first :: '=' :: next :: rest => (first :: next :: rest).mapM ofLetter?
  | letters => letters.mapM ofLetter?

/-- The options whose names start in a way, only the one that has the name if there is one. -/
def ofStart (start : List Char) : List Switch :=
  match all.find? fun s => s.name.toList == start with
  | some s => [s]
  | none => all.filter fun s => start.isPrefixOf s.name.toList

end Switch

structure Options where
  graph : Option String := none
  out : Option String := none
  printOnly : Bool := false
  use60fps : Bool := false
  strict : Bool := false
  verbose : Bool := false
  deriving DecidableEq, Repr

def Options.set (o : Options) : Switch → Options
  | .print => { o with printOnly := true }
  | .use60fps => { o with use60fps := true }
  | .strict => { o with strict := true }
  | .verbose => { o with verbose := true }
  | .help | .out => o

/-- Why no options come out of a command line. -/
inductive Usage where
  /-- Help was asked for. -/
  | help
  | wrong
  deriving DecidableEq, Repr

/-- What an argument is taken for. -/
inductive Word where
  | plain (text : String)
  /-- Two dashes alone. -/
  | dashes
  /-- A long option, and what stands after its equals sign. -/
  | long (switch : Switch) (value : Option String)
  /-- Letters after one dash, the first of which is an option. -/
  | letters (letters : List Char)
  /-- What looks like an option and is none. -/
  | unknown
  deriving DecidableEq, Repr

namespace Word

/-- Splits at the first equals sign. -/
def splitValue (cs : List Char) : List Char × Option String :=
  match cs.dropWhile fun c => c != '=' with
  | [] => (cs, none)
  | _ :: value => (cs.takeWhile fun c => c != '=', some (String.ofList value))

/-- Digits, which may have a point before, among or after them. A line may end after them. -/
def isNumber (cs : List Char) : Bool :=
  let cs := if cs.getLast? == some '\n' then cs.dropLast else cs
  let whole := cs.takeWhile Text.isDecimalDigit
  match cs.dropWhile Text.isDecimalDigit with
  | [] => !whole.isEmpty
  | '.' :: fraction => !fraction.isEmpty && fraction.all Text.isDecimalDigit
  | _ => false

/-- An argument that starts with a dash and names no option is plain if it is a negative number or
holds a space. -/
def orPlain (text : String) (afterDash : List Char) : Word :=
  if isNumber afterDash || text.toList.contains ' ' then .plain text else .unknown

/-- What an argument before two dashes is taken for. A start that several options have is wrong. -/
def ofText (text : String) : Except Usage Word :=
  match text.toList with
  | ['-', '-'] => .ok .dashes
  | '-' :: '-' :: rest =>
    let (start, value) := splitValue rest
    match Switch.ofStart start with
    | [s] => .ok (.long s value)
    | [] => .ok (orPlain text ('-' :: rest))
    | _ => .error .wrong
  | '-' :: c :: rest =>
    if (Switch.ofLetter? c).isSome then .ok (.letters (c :: rest))
    else .ok (orPlain text (c :: rest))
  | _ => .ok (.plain text)

/-- What the arguments are taken for. -/
def ofTexts : List String → Except Usage (List Word)
  | [] => .ok []
  | text :: rest => do
    match ← ofText text with
    | .dashes => return .dashes :: rest.map .plain
    | w => return w :: (← ofTexts rest)

end Word

/-- Where the reading of a command line stands. -/
structure Reading where
  options : Options := {}
  /-- Whether the last argument was the graph. -/
  afterGraph : Bool := false
  /-- Whether an argument was left over. -/
  leftOver : Bool := false

def Reading.setAll (r : Reading) : List Switch → Except Usage Reading
  | [] => .ok r
  | .help :: _ => .error .help
  | s :: rest => Reading.setAll { r with options := r.options.set s } rest

/-- Reads words from left to right. The first plain word is the graph. -/
def Reading.read (r : Reading) : List Word → Except Usage Reading
  | [] => .ok r
  | .plain text :: rest =>
    if r.options.graph.isNone then
      Reading.read { r with options := { r.options with graph := some text }, afterGraph := true } rest
    else Reading.read { r with leftOver := true, afterGraph := false } rest
  | .dashes :: rest =>
    let leftOver := r.leftOver || (r.options.graph.isSome && !r.afterGraph)
    Reading.read { r with leftOver, afterGraph := false } rest
  | .unknown :: rest => Reading.read { r with leftOver := true, afterGraph := false } rest
  | .letters letters :: rest => do
    match Switch.ofLetters? letters with
    | none => .error .wrong
    | some switches =>
      let r ← Reading.setAll r switches
      Reading.read { r with afterGraph := false } rest
  | .long s value :: rest =>
    if s.takesValue then
      match value, rest with
      | some value, rest =>
        Reading.read { r with options := { r.options with out := some value }, afterGraph := false } rest
      | none, .plain value :: rest =>
        Reading.read { r with options := { r.options with out := some value }, afterGraph := false } rest
      | none, _ => .error .wrong
    else if value.isSome then .error .wrong
    else if s == .help then .error .help
    else Reading.read { r with options := r.options.set s, afterGraph := false } rest

/-- The options of a command line, which names a graph and leaves nothing over. -/
def Options.ofArguments (arguments : List String) : Except Usage (Options × String) := do
  let r ← Reading.read {} (← Word.ofTexts arguments)
  match r.options.graph with
  | some graph => if r.leftOver then .error .wrong else .ok (r.options, graph)
  | none => .error .wrong

end CartGraph.Command
