import CartGraph.Behaviour

/-!
# Calls of the console

Drawing, input, sound and coroutines. Trailing arguments that were left empty are dropped.
-/
namespace CartGraph.Library

def number (id name : String) : Pin := .valueIn id .number name

def numberOr (id name : String) (default : Int) : Pin := (number id name).withDefault (.int default)

/-- Slots that can not be left empty before a provided one. -/
def plainSlots (pins : List String) : List Slot := pins.map fun pin => { pin }

/-- A statement that calls a function of the console with its value inputs as arguments. -/
def consoleCall (id title category description : String) (tags : List String) (inputs : List Pin)
    (name function : String) (slots : List Slot) : NodeType where
  definition := {
    id, title, category, description, tags, inputs := .execIn :: inputs, outputs := [.execOut] }
  behaviour := some { name, statement := some (.call function slots) }

def clearScreen : NodeType :=
  consoleCall "graphics_cls" "Clear Screen" "Graphics" "Clear the screen, optionally to a colour."
    ["cls", "clear", "screen"] [number "color" "Color"] "Cls" "cls" (plainSlots ["color"])

def circleInputs : List Pin :=
  [numberOr "x" "X" 0, numberOr "y" "Y" 0, numberOr "radius" "Radius" 4, number "color" "Color"]

def circle : NodeType :=
  consoleCall "graphics_circ" "Draw Circle" "Graphics"
    "Render an outlined circle at the specified position."
    ["circle", "outline", "shape", "draw"] circleInputs "Circ" "circ"
    (plainSlots ["x", "y", "radius", "color"])

def filledCircle : NodeType :=
  consoleCall "graphics_circfill" "Draw Filled Circle" "Graphics"
    "Render a filled circle at the specified position."
    ["circle", "filled", "shape", "draw"] circleInputs "Circfill" "circfill"
    (plainSlots ["x", "y", "radius", "color"])

def filledRectangle : NodeType :=
  consoleCall "graphics_rectfill" "Draw Filled Rectangle" "Graphics"
    "Render a filled rectangle between two corners."
    ["rect", "rectangle", "filled", "draw"]
    [numberOr "x0" "X0" 0, numberOr "y0" "Y0" 0, numberOr "x1" "X1" 8, numberOr "y1" "Y1" 8,
      number "color" "Color"]
    "Rectfill" "rectfill" (plainSlots ["x0", "y0", "x1", "y1", "color"])

def pixel : NodeType :=
  consoleCall "graphics_pset" "Set Pixel" "Graphics" "Set the colour of a single pixel."
    ["pset", "pixel", "point", "draw"]
    [numberOr "x" "X" 0, numberOr "y" "Y" 0, number "color" "Color"]
    "Pset" "pset" (plainSlots ["x", "y", "color"])

def sprite : NodeType :=
  consoleCall "graphics_spr" "Draw Sprite" "Graphics"
    "Blit one or more sprites at the given screen position."
    ["spr", "sprite", "draw", "blit"]
    [numberOr "sprite" "Sprite" 0, numberOr "x" "X" 0, numberOr "y" "Y" 0, number "w" "Width",
      number "h" "Height", .valueIn "flip_x" .boolean "Flip X", .valueIn "flip_y" .boolean "Flip Y"]
    "Spr" "spr"
    [⟨"sprite", some "0"⟩, ⟨"x", some "0"⟩, ⟨"y", some "0"⟩, ⟨"w", some "1"⟩, ⟨"h", some "1"⟩,
      ⟨"flip_x", some "false"⟩, ⟨"flip_y", some "false"⟩]

def print : NodeType :=
  consoleCall "print" "Print" "PICO-8" "Render text on screen using the PICO-8 print command."
    ["print", "text", "output", "debug"]
    [(Pin.valueIn "msg" .string "Text").withDefault (.text "hello"), numberOr "x" "X" 0,
      numberOr "y" "Y" 0, numberOr "color" "Color" 7]
    "Print" "print" (plainSlots ["msg", "x", "y", "color"])

def button : NodeType where
  definition := {
    id := "input_btn"
    title := "Button State"
    category := "Input"
    description := "Read the current pressed state for a controller button."
    tags := ["btn", "input", "button", "press"]
    inputs := [(number "button" "Button").withDescription "Button index or glyph code",
      (number "player" "Player").withDescription "Optional player index"]
    outputs := [.valueOut "value" .boolean "Pressed"] }
  behaviour := some {
    name := "Btn", expression := some (.call "btn" [⟨"button", some "nil"⟩, ⟨"player", some "nil"⟩]) }

def sound : NodeType :=
  consoleCall "audio_sfx" "Play SFX" "Audio"
    "Trigger a sound effect, control looping, or stop playback via SFX()."
    ["sfx", "audio", "sound", "effect"]
    [(numberOr "id" "SFX" 0).withDescription "Sound effect slot or command",
      (number "channel" "Channel").withDescription "Playback channel (-1 auto)",
      (number "offset" "Offset").withDescription "Note offset",
      (number "length" "Length").withDescription "Number of notes to play"]
    "Sfx" "sfx"
    [⟨"id", some "0"⟩, ⟨"channel", some "nil"⟩, ⟨"offset", some "nil"⟩, ⟨"length", some "nil"⟩]

def coroutineCreate : NodeType where
  definition := {
    id := "lua_coroutine_create"
    title := "Coroutine Create"
    category := "Lua"
    description := "Wrap a function in a new coroutine."
    tags := ["coroutine", "create", "cocreate", "lua"]
    inputs := [.valueIn "fn" .any "Function"]
    outputs := [.valueOut "coroutine" .any "Coroutine"] }
  behaviour := some {
    name := "CoroutineCreate"
    expression := some (.apply "coroutine.create" "fn" "function() end") }

def coroutineResume : NodeType where
  definition := {
    id := "lua_coroutine_resume"
    title := "Coroutine Resume"
    category := "Lua"
    description :=
      "Resume a coroutine and capture the success flag alongside the first returned value."
    tags := ["coroutine", "resume", "lua"]
    inputs := [.execIn, { Pin.valueIn "coroutine" .any "Coroutine" with required := true },
      (Pin.valueIn "arg1" .any "Arg 1").withDescription "Optional first value passed to coroutine",
      (Pin.valueIn "arg2" .any "Arg 2").withDescription "Optional second value passed to coroutine"]
    outputs := [.execOut, .valueOut "success" .boolean "Success", .valueOut "result" .any "Result"] }
  behaviour := some {
    name := "CoroutineResume", statement := some .resume, expression := some (.bound none) }

def console : List NodeType := [
  clearScreen, circle, filledCircle, filledRectangle, pixel, sprite, print, button, sound,
  coroutineCreate, coroutineResume]

end CartGraph.Library
