import CrowdPad.Command.Message
import CrowdPad.Request
import CrowdPad.Verb.Table

/-! Macros: named lists of timed verbs. The steps of a macro are clamped like any other request when
it is made, and again when it is played, so that no macro holds a key for longer than its verb
allows. -/

namespace CrowdPad

/-- One step of a macro. -/
structure MacroStep where
  verb : String
  delayMs : UInt32 := 0
  durationMs : UInt32
deriving Repr, DecidableEq, Inhabited

/-- Bounds on every macro of a team. -/
structure MacroLimits where
  /-- Bound on delay and duration together, for each step. -/
  ceilingMs : UInt32 := 5000
  maxSteps : Nat := 32
deriving Repr, DecidableEq, Inhabited

def MacroLimits.toValue (limits : MacroLimits) : Value :=
  .record [("max_total_ms", .nat limits.ceilingMs.toNat), ("max_steps", .nat limits.maxSteps)]

/-- Why a macro is refused. -/
inductive MacroError where
  | invalidName (name : String)
  | alreadyExists (name : String)
  | missing (name : String)
  | unknownVerb (name verb : String)
  | empty (name : String)
  | exceedsBounds (name : String) (endMs limit : UInt32)
  | tooManySteps (name : String) (steps limit : Nat)
  | timing (malformed : Malformed)
  | rejected (cause : TimingRejected)
  | changesDisabled
deriving Repr, DecidableEq

def MacroError.message : MacroError → String
  | .invalidName name => "invalid macro name '" ++ name ++ "'"
  | .alreadyExists name => "macro '" ++ name ++ "' already exists"
  | .missing name => "macro '" ++ name ++ "' does not exist"
  | .unknownVerb name verb => "macro '" ++ name ++ "' uses unknown verb '" ++ verb ++ "'"
  | .empty name => "macro '" ++ name ++ "' has no steps"
  | .exceedsBounds name endMs limit =>
    "macro '" ++ name ++ "' runs for " ++ toString endMs.toNat ++ " ms, above the " ++
      toString limit.toNat ++ " ms limit"
  | .tooManySteps name steps limit =>
    "macro '" ++ name ++ "' has " ++ toString steps ++ " steps, above the " ++ toString limit ++
      " step limit"
  | .timing malformed => "macro body: " ++ malformed.message
  | .rejected cause => "macro timing rejected: " ++ cause.message
  | .changesDisabled => "macro changes are disabled for this team"

namespace MacroStep

/-- When the step ends; the longest time if that does not fit. -/
def endMs (step : MacroStep) : UInt32 :=
  if step.delayMs.toNat + step.durationMs.toNat < UInt32.size then step.delayMs + step.durationMs
  else maxMillis

/-- The step that a request amounts to. -/
def ofRequest (r : Request) : MacroStep :=
  { verb := r.verb.name, delayMs := r.delayMs, durationMs := r.durationMs }

def timing (step : MacroStep) : Timing :=
  { delay := step.delayMs.toNat, duration := some step.durationMs.toNat }

def toValue (step : MacroStep) : Value :=
  .record [("verb", .text step.verb), ("delay_ms", .nat step.delayMs.toNat),
    ("duration_ms", .nat step.durationMs.toNat)]

end MacroStep

/-- A macro with at least one step. -/
structure Macro where
  name : String
  steps : List MacroStep
  /-- The earliest end of a step. -/
  minTime : UInt32
  /-- The latest end of a step. -/
  maxTime : UInt32
deriving Repr, DecidableEq, Inhabited

def Macro.toValue (m : Macro) : Value :=
  .record [("name", .text m.name), ("steps", .list (m.steps.map MacroStep.toValue)),
    ("min_time", .nat m.minTime.toNat), ("max_time", .nat m.maxTime.toNat)]

/-- Letters, digits and underscores of ASCII. -/
def isMacroChar (c : Char) : Bool := c.isAlphanum || c = '_'

/-- The name of a macro in lower case, if it is one word of `isMacroChar`. -/
def macroName (name : String) : Except MacroError String :=
  if !name.isEmpty && name.toList.all isMacroChar then .ok (Text.lower name)
  else .error (.invalidName name)

/-- A request refused because a macro uses a verb that is not in the table. -/
def macroVerb (t : VerbTable) (name verb : String) : Except MacroError Verb :=
  match t.get? verb with
  | some v => .ok v
  | none => .error (.unknownVerb name verb)

/-- The request of a timing, for a macro. -/
def macroRequest (t : Timing) (v : Verb) : Except MacroError Request :=
  match t.request v with
  | .ok r => .ok r
  | .error cause => .error (.rejected cause)

namespace Macro

/-- The macro of steps that are clamped already. -/
def ofClamped (name : String) (steps : List MacroStep) (limits : MacroLimits) :
    Except MacroError Macro :=
  let ends := steps.map MacroStep.endMs
  let maxTime := ends.max?.getD 0
  if steps.isEmpty then .error (.empty name)
  else if limits.maxSteps < steps.length then
    .error (.tooManySteps name steps.length limits.maxSteps)
  else if limits.ceilingMs < maxTime then
    .error (.exceedsBounds name maxTime limits.ceilingMs)
  else .ok { name, steps, minTime := ends.min?.getD 0, maxTime }

/-- A step clamped to the bounds of its verb, which is given by its own name. -/
def clampStep (t : VerbTable) (name : String) (step : MacroStep) : Except MacroError MacroStep := do
  let v ← macroVerb t name step.verb
  let r ← macroRequest step.timing v
  return { step with delayMs := r.delayMs, durationMs := r.durationMs }

/-- The macro of the given steps. -/
def ofSteps (t : VerbTable) (limits : MacroLimits) (name : String) (steps : List MacroStep) :
    Except MacroError Macro := do
  let name ← macroName name
  ofClamped name (← steps.mapM (clampStep t name)) limits

/-- The request of one step of an invocation. The delay of the invocation is added to that of the
step; a duration replaces the first step's and changes the others by as much. -/
def stepRequest (t : VerbTable) (m : Macro) (invocation : Timing) (step : MacroStep) :
    Except MacroError Request := do
  let v ← macroVerb t m.name step.verb
  let first : Int := ((m.steps.head?.map MacroStep.durationMs).getD 0).toNat
  let own : Int := step.durationMs.toNat
  let duration := match invocation.duration with
    | some ms => max (wrap64 (ms + own - first)) 0
    | none => own
  let delay := wrap64 (invocation.delay + step.delayMs.toNat)
  macroRequest { delay, duration := some duration } v

/-- The requests of an invocation, one for each step. -/
def expand (t : VerbTable) (m : Macro) (invocation : Timing) : Except MacroError (List Request) :=
  if invocation.delay < 0 then .error (.rejected (.negativeDelay invocation.delay))
  else if invocation.duration.getD 0 < 0 then
    .error (.rejected (.negativeDuration (invocation.duration.getD 0)))
  else m.steps.mapM (stepRequest t m invocation)

end Macro

end CrowdPad

namespace CrowdPad.Value

def toMacroStep? (v : Value) : Option MacroStep := do
  match ← v.toFields? ["verb", "delay_ms", "duration_ms"] with
  | [verb, delayMs, durationMs] =>
    return {
      verb := ← required toText? verb
      delayMs := ← orDefault 0 toMillis? delayMs
      durationMs := ← required toMillis? durationMs }
  | _ => none

def toMacroLimits? (v : Value) : Option MacroLimits := do
  match ← v.toFields? ["max_total_ms", "max_steps"] with
  | [ceilingMs, maxSteps] =>
    let default : MacroLimits := {}
    return {
      ceilingMs := ← orDefault default.ceilingMs toMillis? ceilingMs
      maxSteps := ← orDefault default.maxSteps toNat64? maxSteps }
  | _ => none

end CrowdPad.Value
