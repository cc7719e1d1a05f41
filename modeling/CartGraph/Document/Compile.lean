import CartGraph.Document.Check
import CartGraph.Graph.Saved
import CartGraph.Library.Standard
import CartGraph.Program

/-!
# Compiling saved documents

A document is checked, loaded and compiled. Its own settings can ask for sixty frames per second,
and can not take that back.
-/
namespace CartGraph.Document

/-- The workspace variables of a list, counted from an index on. -/
def globalsFrom (index : Nat) : List Value → Except Error (List Variable)
  | [] => .ok []
  | v :: rest => do
    let t ← Graph.asTable v "variables"
    let more ← globalsFrom (index + 1) rest
    return .ofTable index t :: more

/-- The workspace variables that a value lists. -/
def listedGlobals (v : Value) : Except Error (List Variable) :=
  match v.parts? with
  | some parts => globalsFrom 0 parts
  | none => .error (.notAList "variables")

/-- The workspace variables of a document, which may have none. -/
def globals (t : Table) : Except Error (List Variable) :=
  let v := t.get "variables"
  if v.truthy then listedGlobals v else .ok []

/-- The settings under which a document is compiled. -/
def settingsFor (t : Table) (settings : Settings) : Settings :=
  match t.get "settings" with
  | .table own => if (Table.get own "use60Fps").truthy then { settings with use60fps := .bool true }
    else settings
  | _ => settings

/-- Compiles a document that was checked. -/
def compileChecked (t : Table) (catalogue : Catalogue) (settings : Settings) :
    Except Error String × Progress :=
  match Graph.load (.table t) catalogue, globals t with
  | .error e, _ => (.error e, {})
  | .ok _, .error e => (.error e, {})
  | .ok g, .ok globals => Program.compileLogged g (settingsFor t settings) globals

/-- The catalogue that a document is compiled against: the standard one if the given one has no
types. -/
def catalogueFor (catalogue : Catalogue) : Catalogue :=
  if catalogue.types.isEmpty then Library.catalogue else catalogue

/-- The Lua text of a document, and what the walk did to find it. -/
def compileLogged (v : Value) (catalogue : Catalogue) (settings : Settings) (strict : Bool) :
    Except Error String × Progress :=
  let catalogue := catalogueFor catalogue
  match (check (some catalogue) strict v).fault, v with
  | some fault, _ => (.error (.document fault), {})
  | none, .table t => compileChecked t catalogue settings
  | none, _ => (.error (.document .notAnObject), {})

/-- The Lua text of a document. -/
def compile (v : Value) (catalogue : Catalogue) (settings : Settings) (strict : Bool) :
    Except Error String :=
  (compileLogged v catalogue settings strict).1

end CartGraph.Document
