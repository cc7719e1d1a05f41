import CartGraph.Behaviour

/-!
# Events and control flow

Entry points, custom events and their calls, branches, loops and sequences.
-/
namespace CartGraph.Library

/-- An event of the console: a function that is called by its name. -/
def lifecycle (id title description : String) (tags : List String) (name event : String) :
    NodeType where
  definition := {
    id, title, category := "Events", description, tags, unique := true, outputs := [.execOut] }
  behaviour := some {
    name, statement := some .follow, isEntryPoint := true, eventName := some event }

def eventStart : NodeType :=
  lifecycle "event_start" "Event Init" "Called once on cart startup."
    ["start", "init", "boot", "lifecycle"] "EventInit" "_init"

def eventUpdate : NodeType :=
  lifecycle "event_update" "Event Update" "Called once per update"
    ["update", "loop", "frame", "tick"] "EventUpdate" "_update"

def eventDraw : NodeType :=
  lifecycle "event_draw" "Event Draw" "Called once per visible frame."
    ["draw", "render", "frame", "lifecycle"] "EventDraw" "_draw"

/-- The id of the type that call sites look for. -/
def customEventId : String := "custom_event"

def customEvent : NodeType where
  definition := {
    id := customEventId
    title := "Custom Event"
    category := "Events"
    description := "Defines a custom event that can be triggered elsewhere."
    tags := ["event", "custom", "broadcast", "trigger"]
    outputs := [.execOut]
    properties := [{
      key := "name", label := "Event Name", default := .text "CustomEvent"
      placeholder := "Enter event name" }]
    derivedPins := .parameters }
  behaviour := some { name := "CustomEvent", statement := some .openEvent, isEntryPoint := true }

def callCustomEvent : NodeType where
  definition := {
    id := "call_custom_event"
    title := "Call Custom Event"
    category := "Events"
    description := "Invokes a custom event defined elsewhere in the graph."
    tags := ["event", "call", "trigger", "custom"]
    inputs := [.execIn]
    outputs := [.execOut]
    properties := [{ key := "eventId", label := "Event", default := .text "" }]
    derivedPins := .arguments }
  behaviour := some { name := "CallCustomEvent", statement := some .callEvent }

def branch : NodeType where
  definition := {
    id := "if"
    title := "If"
    category := "Logic"
    description := "Branch execution based on a boolean condition."
    tags := ["if", "condition", "branch", "logic"]
    inputs := [.execIn, .valueIn "condition" .boolean "Condition"]
    outputs := [.branchOut "then" "Then", .branchOut "else" "Else"] }
  behaviour := some { name := "If", statement := some .branch }

def loop : NodeType where
  definition := {
    id := "for_loop"
    title := "For Loop"
    category := "Logic"
    description := "Iterate from start to end inclusive using PICO-8 for semantics."
    tags := ["loop", "for", "iterate", "counter"]
    inputs := [.execIn,
      (Pin.valueIn "start" .number "Start").withDefault (.int 0),
      (Pin.valueIn "end" .number "End").withDefault (.int 10),
      (Pin.valueIn "step" .number "Step").withDefault (.int 1)]
    outputs := [.branchOut "loop" "Loop", .branchOut "completed" "Completed",
      .valueOut "index" .number "Index"]
    properties := [{ key := "index", label := "Index Variable", default := .text "i" }] }
  behaviour := some {
    name := "ForLoop", statement := some .loop, expression := some (.bound (some "index")) }

def sequence : NodeType where
  definition := {
    id := "sequence"
    title := "Sequence"
    category := "Logic"
    description := "Execute connected branches sequentially."
    tags := ["sequence", "flow", "order", "multi"]
    inputs := [.execIn]
    derivedPins := .branches }
  behaviour := some { name := "Sequence", statement := some .sequence }

def control : List NodeType :=
  [eventStart, eventUpdate, eventDraw, customEvent, callCustomEvent, branch, loop, sequence]

end CartGraph.Library
