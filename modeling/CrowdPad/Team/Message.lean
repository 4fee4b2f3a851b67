import CrowdPad.Team.Basic

/-! Chat messages for a team. The commands of a message become one batch, whose times count from
when the message arrived. -/

namespace CrowdPad

/-- What became of a message. -/
inductive MessageOutcome where
  /-- No word carries the marker. -/
  | notACommand
  /-- The same author's same message still runs. -/
  | duplicate
  /-- Every command was dropped. -/
  | nothingToRun (dropped : Nat)
  | scheduled (batch requests dropped : Nat)
deriving Repr, DecidableEq

def MessageOutcome.toValue : MessageOutcome → Value
  | .notACommand => .record [("outcome", .text "not_a_command")]
  | .duplicate => .record [("outcome", .text "duplicate")]
  | .nothingToRun dropped =>
    .record [("outcome", .text "nothing_to_run"), ("dropped", .nat dropped)]
  | .scheduled batch requests dropped =>
    .record [("outcome", .text "scheduled"), ("batch", .nat batch), ("requests", .nat requests),
      ("dropped", .nat dropped)]

/-- What a message asks for, and why some of it is dropped. -/
structure Orders where
  requests : List Request := []
  reasons : List String := []
deriving Repr, DecidableEq

namespace Orders

/-- Why a command is dropped. Timing that a verb refuses is not put down to a macro. -/
def dropReason (command : Command Meaning) (error : MacroError) : String :=
  command.word ++ ": " ++
    match command.meaning, error with
    | .verb _, .rejected cause => cause.message
    | _, error => error.message

/-- Adds what a command asks for, in front. -/
def consCommand (verbs : VerbTable) (macros : MacroTable) (command : Command Meaning)
    (orders : Orders) : Orders :=
  match command.requests verbs macros with
  | .ok requests => { orders with requests := requests ++ orders.requests }
  | .error error => { orders with reasons := dropReason command error :: orders.reasons }

end Orders

namespace Team

/-- The number of recent messages at which those that no longer run are forgotten. -/
def recentLimit : Nat := 256

/-- What identifies a message for spam protection. -/
def messageKey (author text : String) : MessageKey :=
  (author, String.ofList (Text.trim text.toList))

/-- What a message asks a team for. Commands with malformed timing are the first to be dropped. -/
def ordersOf (t : Team) (text : String) : Orders :=
  match t.config.grammar.parse? (meaning? t.verbs t.macros) text with
  | none => {}
  | some message =>
    let commands := message.commands.foldr (Orders.consCommand t.verbs t.macros) {}
    { commands with reasons := message.malformed.map Malformed.message ++ commands.reasons }

/-- Whether a message still runs. -/
def stillRuns (t : Team) (key : MessageKey) : Bool :=
  match t.recent.lookup key with
  | some batch => t.scheduler.isActive batch
  | none => false

/-- Remembers the batch of a message. -/
def remember (t : Team) (key : MessageKey) (batch : Nat) : Team :=
  let recent :=
    if recentLimit ≤ t.recent.length then
      t.recent.filter fun entry => t.scheduler.isActive entry.2
    else t.recent
  { t with recent := (recent.filter fun entry => entry.1 != key) ++ [(key, batch)] }

/-- What a log is told of a request. -/
def actionValue (r : Request) : Value :=
  .record [("verb", .text r.verb.name), ("delay_ms", .nat r.delayMs.toNat),
    ("duration_ms", .nat r.durationMs.toNat)]

/-- Schedules the requests of a message. -/
def scheduleMessage (t : Team) (author : String) (key : MessageKey) (reference : Time)
    (orders : Orders) : Team × List Notice × MessageOutcome :=
  let requests := orders.requests
  let dropped := orders.reasons.length
  let (scheduler, batch) := t.scheduler.schedule requests reference
  let t := t.withScheduler scheduler
  let t := if t.config.spamProtection then t.remember key batch else t
  let t := { t with counters := { t.counters with
    batches := t.counters.batches + 1, requests := t.counters.requests + requests.length } }
  (t,
    [.log .info "team.batch.scheduled" <| .record [("batch", .nat batch), ("author", .text author),
        ("actions", .list (requests.map actionValue)), ("dropped", .nat dropped)],
      .event "batch.scheduled" <| .record [("batch", .nat batch),
        ("requests", .nat requests.length)]],
    .scheduled batch requests.length dropped)

/-- Takes a message that arrived at the reference time. -/
def handleMessage (t : Team) (now : Time) (author text : String) (reference : Time) :
    Team × List Notice × MessageOutcome :=
  let t := { t with counters := { t.counters with messages := t.counters.messages + 1 } }
  let key := messageKey author text
  if !t.config.grammar.isCommand text then (t, [], .notACommand)
  else if t.config.spamProtection && t.stillRuns key then
    ({ t with counters := { t.counters with duplicates := t.counters.duplicates + 1 } }, [],
      .duplicate)
  else
    let orders := t.ordersOf text
    let t := t.drop now author orders.reasons
    if orders.requests.isEmpty then (t, [], .nothingToRun orders.reasons.length)
    else t.scheduleMessage author key reference orders

end Team

end CrowdPad
