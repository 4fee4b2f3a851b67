import CrowdPad.Hub.Basic

/-! Hooks: what an operator can do to one team or to all. A hook reaches every team it is meant for,
whichever of them fail. -/

namespace CrowdPad

/-- Something that an operator does to teams. -/
inductive Hook where
  | cancelAll
  | injectRandom
  | reset
  | randomInputs (on : Bool)
deriving Repr, DecidableEq

namespace Hook

def toValue : Hook → Value
  | .cancelAll => .record [("hook", .text "cancel_all")]
  | .injectRandom => .record [("hook", .text "inject_random")]
  | .reset => .record [("hook", .text "reset")]
  | .randomInputs on => .record [("hook", .text "random_inputs"), ("enabled", .bool on)]

/-- What the hook does to a team. -/
def action : Hook → TeamAction (Except TeamError Unit)
  | .cancelAll => fun fs now t =>
    let (fs, t, notices, _) := TeamAction.cancelAll fs now t
    (fs, t, notices, .ok ())
  | .injectRandom => fun fs now t =>
    let (fs, t, notices, _) := TeamAction.injectRandom fs now t
    (fs, t, notices, .ok ())
  | .reset => TeamAction.reset
  | .randomInputs on => fun fs now t =>
    let (fs, t, notices, _) := TeamAction.setRandom on fs now t
    (fs, t, notices, .ok ())

end Hook

/-- How a hook went. -/
structure HookReport where
  /-- The number of teams on which it did not fail. -/
  affected : Nat := 0
  failed : List FailedTeam := []
deriving Repr, DecidableEq

namespace HookReport

def toValue (report : HookReport) : Value :=
  .record [("affected", .nat report.affected),
    ("failed", .list (report.failed.map FailedTeam.toValue))]

/-- Adds how the hook went on one team. -/
def add (report : HookReport) (name : String) : Except TeamError Unit → HookReport
  | .ok () => { report with affected := report.affected + 1 }
  | .error error =>
    { report with failed := report.failed ++ [{ name, error := error.message }] }

end HookReport

namespace Hub

/-- Applies a hook to the teams of some names in order. -/
def applyHook (hook : Hook) (hub : Hub) (report : HookReport) : List String → Hub × HookReport
  | [] => (hub, report)
  | name :: rest =>
    match hub.act? name hook.action with
    | some (hub, result) => applyHook hook hub (report.add name result) rest
    | none => applyHook hook hub report rest

/-- Applies a hook to one team, or to all in order. -/
def control (hub : Hub) (team : Option String) (hook : Hook) :
    Except TeamError (Hub × HookReport) :=
  match team with
  | some name =>
    if hub.names.contains name then .ok (hub.applyHook hook {} [name])
    else .error (.unknownTeam name)
  | none => .ok (hub.applyHook hook {} hub.names)

end Hub

/-- The kind of a hook, which says whether the hook has a value. -/
inductive HookKind where
  | plain (hook : Hook)
  | randomInputs
deriving Repr, DecidableEq

def HookKind.names : List (String × HookKind) :=
  [("cancel_all", .plain .cancelAll), ("inject_random", .plain .injectRandom),
    ("reset", .plain .reset), ("random_inputs", .randomInputs)]

namespace Value

/-- A hook of a kind with its value, if it has one. A value that a plain hook does not need may be
`null`, or an empty record if it stands before the name. -/
def toHookOf? (valueFirst : Bool) (content : Option Value) : HookKind → Option Hook
  | .plain hook =>
    match content with
    | none => some hook
    | some .null => some hook
    | some (.record []) => if valueFirst then some hook else none
    | some _ => none
  | .randomInputs => (required toBool? content).map .randomInputs

/-- A hook in a document: a record of its name and its value, or a list of the two. -/
def toHook? : Value → Option Hook
  | .record fields =>
    let known := fields.filter fun field => field.1 == "hook" || field.1 == "enabled"
    match known with
    | [("hook", name)] => (toChoice? HookKind.names name).bind (toHookOf? false none)
    | [("hook", name), ("enabled", content)] =>
      (toChoice? HookKind.names name).bind (toHookOf? false (some content))
    | [("enabled", content), ("hook", name)] =>
      (toChoice? HookKind.names name).bind (toHookOf? true (some content))
    | _ => none
  | .list [name, content] =>
    (toChoice? HookKind.names name).bind (toHookOf? false (some content))
  | _ => none

end Value

end CrowdPad
