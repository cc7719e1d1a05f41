import CartGraph.Command.Options
import CartGraph.Document.Compile
import CartGraph.File.Tree
import CartGraph.Library.Standard
import CartGraph.Value.Json

/-!
# The command

Compiles the document of a file and prints the result or writes it into a directory.
-/
namespace CartGraph.Command

/-- What a command leaves behind. -/
structure Report where
  status : Nat := 0
  output : String := ""
  errors : String := ""
  /-- The place of the file that was written, and its text. -/
  written : Option (List String × String) := none
  deriving DecidableEq, Repr

inductive Outcome where
  /-- The usage is shown. -/
  | usage (u : Usage)
  | report (r : Report)
  /-- The command broke off. -/
  | failure (e : Error)

def outputName : String := "compiled.lua"

def failed (log message : String) : Outcome :=
  .report { status := 1, errors := log ++ "[error] " ++ message ++ "\n" }

def warningLines (warnings : List Document.Fault) : String :=
  String.join (warnings.map fun w => "WARNING picograph.compiler.schema: " ++ w.message ++ "\n")

def logStart : String := "DEBUG picograph.compiler.emitter: "

/-- A line of the log. The lines of the program are not told again. -/
def visitLine : Visit → String
  | .statement node level => logStart ++ "statement " ++ node.display ++ s!" at level {level}\n"
  | .value node pin => logStart ++ "value " ++ node.display ++ "." ++ pin.display ++ "\n"
  | .read node pin _ found =>
    logStart ++ "read " ++ node.display ++ "." ++ pin.display ++ ": " ++ found.getD "unbound" ++ "\n"
  | .line _ _ => ""

/-- What the walk did, first step first. -/
def visitLines (progress : Progress) : String :=
  String.join (progress.trail.reverse.map visitLine)

def settingsFor (options : Options) (env : Settings.Environment) : Except Error Settings := do
  let settings ← Settings.ofEnvironment env
  let settings := if options.use60fps then { settings with use60fps := .bool true } else settings
  return match options.out with
    | some dir => { settings with outputDir := .text dir }
    | none => settings

/-- Prints a program or writes it to its file. -/
def deliver (tree : FileTree) (options : Options) (settings : Settings) (log source : String) :
    Outcome :=
  if options.printOnly then .report { output := source ++ "\n", errors := log }
  else
    let directory := Path.ofText settings.outputDir.display
    match tree.placeOf directory outputName with
    | .error e => .failure e
    | .ok place => .report {
        output := "[picograph-compile] wrote  : " ++ (directory.append outputName).text ++ "\n"
        errors := log
        written := some (place, source ++ "\n") }

/-- Compiles a document. Its check is noted twice, once as a check and once as a part of the
compilation. -/
def compileValue (tree : FileTree) (options : Options) (settings : Settings) (v : Value) :
    Outcome :=
  let verdict := Document.check (some Library.catalogue) options.strict v
  let warnings := warningLines verdict.warnings
  match verdict.fault with
  | some fault => failed warnings ("Schema validation failed: " ++ fault.message)
  | none =>
    let (result, progress) := Document.compileLogged v Library.catalogue settings options.strict
    let log := warnings ++ warnings ++ (if options.verbose then visitLines progress else "")
    match result with
    | .ok source => deliver tree options settings log source
    | .error (.compile e) => failed log (e.kindName ++ ": " ++ e.message)
    | .error e => .failure e

def compileEntry (tree : FileTree) (options : Options) (settings : Settings) (path : Path) :
    FileEntry → Outcome
  | .directory => .failure (.isDirectory path.text)
  | .file text =>
    match Json.read text with
    | .error .malformed => failed "" "Invalid JSON"
    | .error .integerTooLong => .failure .integerTooLong
    | .error .nestedTooDeep => .failure .nestedTooDeep
    | .ok v => compileValue tree options settings v

/-- Runs the command. -/
def run (tree : FileTree) (env : Settings.Environment) (arguments : List String) : Outcome :=
  match Options.ofArguments arguments with
  | .error u => .usage u
  | .ok (options, graph) =>
    let path := Path.ofText graph
    match tree.entry? path with
    | none => failed "" ("File not found: " ++ path.text)
    | some entry =>
      match settingsFor options env with
      | .error e => failed "" ("Invalid configuration: " ++ e.message?.getD "")
      | .ok settings => compileEntry tree options settings path entry

end CartGraph.Command
