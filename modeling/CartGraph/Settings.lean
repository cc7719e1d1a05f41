import CartGraph.Error
import CartGraph.Number.Reading
import CartGraph.Value.Order

/-!
# Settings

Settings have defaults, may be given by the environment, and may then be overridden one by one.
Only values from the environment must be positive. A setting that is overridden holds whatever it
was given, and what it is good for shows where it is put to use.
-/
namespace CartGraph

structure Settings where
  use60fps : Value := .bool false
  maxDepth : Value := .int 150
  maxSteps : Value := .int 50000
  indentWidth : Value := .int 2
  outputDir : Value := .text "."

namespace Settings

/-- Whether a count passes a limit, which must be a number. -/
def passes (name : String) (limit : Value) (count : Int) : Except Error Bool :=
  match Key.ofValue? limit with
  | some k => if k.isNumber then .ok (k.less (.int count)) else .error (.limitNotANumber name)
  | none => .error (.limitNotANumber name)

@[simp] theorem passes_int (name : String) (limit count : Int) :
    passes name (.int limit) count = .ok (decide (limit < count)) := by
  simp [passes, Key.ofValue?, Key.isNumber]

/-- The widest unit of indentation that has a length at all. -/
def widthBound : Int := 0x8000000000000000

/-- The memory of the machine that programs are made on, in blanks: 64 GiB. A unit of indentation
that wide has a length, but can not be written. -/
def widthRoom : Int := 0x1000000000

/-- A width of so many blanks. Less than nothing is nothing. -/
def widthOf (n : Int) : Except Error Nat :=
  if n < -widthBound || widthBound ≤ n then .error (.indentOutOfRange n)
  else if widthRoom ≤ n then .error (.indentTooWide n)
  else .ok n.toNat

/-- The number of blanks that one level is indented by. -/
def width (s : Settings) : Except Error Nat :=
  match s.indentWidth with
  | .int n => widthOf n
  | .bool b => .ok (if b then 1 else 0)
  | _ => .error .indentNotAnInteger

def blanks (n : Nat) : String := String.ofList (List.replicate n ' ')

/-- The blanks before a line of a block of some depth. -/
def indent (s : Settings) (level : Int) : Except Error String :=
  s.width.map fun width => blanks (width * level.toNat)

/-- What the environment gives, by name. It should give texts. -/
abbrev Environment := List (String × Value)

/-- A positive integer. A blank text is as good as none. -/
def integerOf (name text : String) (default : Value) : Except Error Value :=
  if (Text.strip text).isEmpty then .ok default
  else match Number.int? text with
    | none => .error (.settingNotAnInteger name text)
    | some n => if n < 1 then .error (.settingNotPositive name n) else .ok (.int n)

/-- A positive integer of the environment. -/
def integerFrom (env : Environment) (name : String) (default : Value) : Except Error Value :=
  match env.lookup name with
  | none | some .null => .ok default
  | some (.text s) => integerOf name s default
  | some _ => .error (.settingNotText name)

/-- A switch of the environment. -/
def flagFrom (env : Environment) (name : String) : Except Error Bool :=
  match env.lookup name with
  | none => .ok false
  | some (.text s) => .ok (["1", "true", "yes", "on"].contains (Text.lower (Text.strip s)))
  | some _ => .error (.settingNotText name)

def ofEnvironment (env : Environment) : Except Error Settings := do
  let defaults : Settings := {}
  let use60fps ← flagFrom env "PICOGRAPH_USE_60FPS"
  let maxDepth ← integerFrom env "PICOGRAPH_MAX_DEPTH" defaults.maxDepth
  let maxSteps ← integerFrom env "PICOGRAPH_MAX_STEPS" defaults.maxSteps
  let indentWidth ← integerFrom env "PICOGRAPH_INDENT" defaults.indentWidth
  let outputDir := ((env.lookup "PICOGRAPH_OUTPUT_DIR").getD .null).orElse defaults.outputDir
  return { use60fps := .bool use60fps, maxDepth, maxSteps, indentWidth, outputDir }

/-- Sets one setting by name. -/
def assign (s : Settings) (name : String) (v : Value) : Except Error Settings :=
  match name with
  | "use_60fps" => .ok { s with use60fps := v }
  | "max_depth" => .ok { s with maxDepth := v }
  | "max_steps" => .ok { s with maxSteps := v }
  | "indent_width" => .ok { s with indentWidth := v }
  | "output_dir" => .ok { s with outputDir := v }
  | name => .error (.unknownSetting name)

/-- Sets several settings by name. -/
def assignAll (s : Settings) (changes : List (String × Value)) : Except Error Settings :=
  changes.foldlM (fun s change => s.assign change.1 change.2) s

/-- Sets several settings by name. What is `null` is left as it was. -/
def overrideAll (s : Settings) (changes : List (String × Value)) : Except Error Settings :=
  s.assignAll (changes.filter fun change => !change.2.isNull)

/-- The settings by name, with the unit of indentation spelled out. -/
def toValue (s : Settings) : Except Error Value := do
  let width ← s.width
  return .object [
    ("use_60fps", s.use60fps),
    ("max_depth", s.maxDepth),
    ("max_steps", s.maxSteps),
    ("indent_width", s.indentWidth),
    ("indent_unit", .text (blanks width)),
    ("output_dir", s.outputDir)]

end Settings

end CartGraph
