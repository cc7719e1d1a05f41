import CartGraph.Command.Run

/-!
# Command line

Reads the graph file and the environment, runs the command, and carries out what it reports.
-/
namespace CartGraph.Main

def environmentNames : List String := [
  "PICOGRAPH_USE_60FPS", "PICOGRAPH_MAX_DEPTH", "PICOGRAPH_MAX_STEPS", "PICOGRAPH_INDENT",
  "PICOGRAPH_OUTPUT_DIR"]

def environment : IO Settings.Environment :=
  environmentNames.filterMapM fun name => return (← IO.getEnv name).map fun text => (name, .text text)

/-- The places that a path passes on its way. -/
def passed (p : Path) : List (List String) :=
  (List.range (p.parts.length + 1)).map fun n => (p.parts.take n).foldl Path.step p.start

/-- The part of the files that a command line names. -/
def visibleFiles (arguments : List String) : IO FileTree :=
  match Command.Options.ofArguments arguments with
  | .error _ => return {}
  | .ok (_, graph) => do
    let path := Path.ofText graph
    try
      let text ← IO.FS.readFile path.text
      return { files := [(path.place, text)]
               directories := (passed path).filter fun place => place != path.place }
    catch _ => return {}

def usage : String :=
  "usage: picograph-compile [-h] [--out DIR] [--print] [--use-60fps] [--strict] [-v] graph.json"

def write (place : List String) (text : String) : IO Unit := do
  IO.FS.createDirAll (Path.ofPlace place.dropLast).text
  IO.FS.writeFile (Path.ofPlace place).text text

end CartGraph.Main

open CartGraph in
def main (arguments : List String) : IO UInt32 := do
  let tree ← Main.visibleFiles arguments
  let env ← Main.environment
  match Command.run tree env arguments with
  | .usage .help =>
    IO.println Main.usage
    return 0
  | .usage .wrong =>
    IO.eprintln Main.usage
    return 2
  | .failure e =>
    IO.eprintln (e.message?.getD "the command broke off")
    return 1
  | .report r =>
    match r.written with
    | some (place, text) => Main.write place text
    | none => pure ()
    IO.eprint r.errors
    IO.print r.output
    return r.status.toUInt32
