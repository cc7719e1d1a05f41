import CartGraph.Address
import CartGraph.Catalogue.Palette
import CartGraph.Catalogue.Search
import CartGraph.Document.Compile
import CartGraph.Library.Standard

/-!
# The web service

The palette and the compiler behind four routes. Bodies are checked for their shape before they are
compiled, and everything wrong with the shape is reported at once.
-/
namespace CartGraph.Service

structure Request where
  method : String := "GET"
  path : String
  query : List (String × String) := []
  body : Value := .null

inductive Response where
  | answer (status : Nat) (body : Value)
  /-- The places of a body that have the wrong shape. -/
  | misshapen (locations : List String)
  /-- The request could not be handled. -/
  | failure

def version : String := "0.1.0"

def detail (status : Nat) (v : Value) : Response := .answer status (.object [("detail", v)])

def health (c : Catalogue) : Response := .answer 200 (.object [
  ("status", .text "ok"), ("version", .text version), ("nodes", .int c.size)])

/-- What the editor is told about a definition of the catalogue. -/
def paletteEntry (c : Catalogue) (d : Definition) : Value :=
  d.toValue ((c.find? d.id).any NodeType.isEntryPoint)

def listNodes (c : Catalogue) (query : String) : Response :=
  .answer 200 (.list ((c.search query).map (paletteEntry c)))

def getNode (c : Catalogue) (id : String) : Response :=
  match c.find? id with
  | some t => .answer 200 t.toValue
  | none => detail 404 (.text "Node definition not found")

/-! ## Compile requests -/

/-- The places where a list of objects has the wrong shape. -/
def objectListFaults (location : String) : Value → List String
  | .list items => items.zipIdx.filterMap fun entry => match entry.1 with
    | .table _ => none
    | _ => some (location ++ "/" ++ toString entry.2)
  | _ => [location]

def optionalFaults (body : Table) (name : String) (faults : Value → List String) : List String :=
  match body.get? name with
  | none => []
  | some v => faults v

def objectFaults (location : String) : Value → List String
  | .table _ => []
  | _ => [location]

/-- A switch: a boolean, zero or one, or one of the usual words in any case. -/
def switch? : Value → Option Bool
  | .bool b => some b
  | .int n => if n == 0 then some false else if n == 1 then some true else none
  | .float x => if !x.isInteger then none
    else if x.truncate == 0 then some false else if x.truncate == 1 then some true else none
  | .text s =>
    let word := String.ofList (s.toList.map Char.toLower)
    if ["1", "true", "t", "y", "yes", "on"].contains word then some true
    else if ["0", "false", "f", "n", "no", "off"].contains word then some false
    else none
  | _ => none

def bodyFaults (body : Table) : List String :=
  (match body.get? "nodes" with
    | none => ["body/nodes"]
    | some v => objectListFaults "body/nodes" v) ++
  optionalFaults body "connections" (objectListFaults "body/connections") ++
  optionalFaults body "variables" (objectListFaults "body/variables") ++
  optionalFaults body "settings" (objectFaults "body/settings") ++
  optionalFaults body "strict" fun v => if (switch? v).isNone then ["body/strict"] else []

/-- The document of a compile request. What was left out is empty. -/
def bodyDocument (body : Table) : Value := .object [
  ("nodes", body.get "nodes"),
  ("connections", (body.get? "connections").getD (.list [])),
  ("variables", (body.get? "variables").getD (.list [])),
  ("settings", (body.get? "settings").getD (.table []))]

def compileDocument (c : Catalogue) (document : Value) (strict : Bool) : Response :=
  match Document.compile document c {} strict with
  | .ok source => .answer 200 (.object [("source", .text source)])
  | .error (.compile e) => detail 422 e.report
  | .error (.document fault) => detail 422 (.object [
      ("error", .text "SchemaError"), ("message", .text fault.message), ("nodeId", .null),
      ("pinId", .null)])
  | .error _ => .failure

def compileRequest (c : Catalogue) : Value → Response
  | .table body =>
    match Order.sortBy Order.textLE (bodyFaults body) with
    | [] => compileDocument c (bodyDocument body) (((Table.get? body "strict").bind switch?).getD false)
    | faults => .misshapen faults
  | _ => .misshapen ["body"]

/-! ## Routes -/

inductive Route where
  | health
  | nodes
  | node (id : String)
  | compile
  deriving DecidableEq, Repr

def routeOf (path : String) : Option Route :=
  match path with
  | "/health" => some .health
  | "/api/nodes" => some .nodes
  | "/api/compile" => some .compile
  | path =>
    let start := "/api/nodes/".toList
    let id := path.toList.drop start.length
    if start.isPrefixOf path.toList && !id.isEmpty && !id.contains '/' then
      some (.node (String.ofList id))
    else none

/-- The route of a path, with or without slashes at its end. -/
def route? (path : String) : Option Route :=
  (routeOf path).or
    (routeOf (String.ofList (path.toList.reverse.dropWhile (· == '/')).reverse))

def Route.method : Route → String
  | .compile => "POST"
  | _ => "GET"

/-- The last value of a field of the query. Fields that are given apart come before those that the
address carries. -/
def Request.field? (r : Request) (name : String) : Option String :=
  (r.query.lookup name).or ((Address.ofText r.path).query.reverse.lookup name)

/-- Answers a request. Methods may be written in any case. -/
def respond (c : Catalogue) (r : Request) : Response :=
  match route? (Address.ofText r.path).path with
  | none => detail 404 (.text "Not Found")
  | some route =>
    if r.method.toList.map Char.toUpper != route.method.toList then detail 405 (.text "Method Not Allowed")
    else match route with
      | .health => health c
      | .nodes => listNodes c ((r.field? "q").getD "")
      | .node id => getNode c id
      | .compile => compileRequest c r.body

end CartGraph.Service
