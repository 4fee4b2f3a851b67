import CrowdPad.CommandLine.Program
import CrowdPad.Proofs.Command.Scan
import CrowdPad.Proofs.Data.Json.Sorted
import CrowdPad.Proofs.Team.Recent

/-! What a dry run is worth. A team without macros does with a message what a dry run of the message
says: it schedules the requests of the dry run and drops commands for its errors, in order. -/

namespace CrowdPad

/-! ### Other meanings of words -/

section Meanings

variable {α β : Type}

/-- The same command with another meaning. -/
def Command.map (f : α → β) (command : Command α) : Command β :=
  { command with meaning := f command.meaning }

/-- The same message with other meanings of its words. -/
def Message.map (f : α → β) (m : Message α) : Message β :=
  { commands := m.commands.map (Command.map f), malformed := m.malformed, unknown := m.unknown }

namespace Grammar

variable {g : Grammar} {resolve : String → Option α} {always inRun : Bool} {index : Nat}
  {words : List Word}

/-- What a scan finds depends on the meanings of words only through which words have one. -/
theorem scan_map (f : α → β) :
    g.scan (fun word => (resolve word).map f) always inRun index words =
      (g.scan resolve always inRun index words).map f := by
  fun_induction Grammar.scan g resolve always inRun index words with
  | case1 => rw [scan]; rfl
  | case2 inRun index word rest hcandidate ih =>
      rw [scan, hcandidate]
      exact ih
  | case3 inRun index word rest candidate hcandidate lowered hresolve ih =>
      have hnone : (resolve lowered).map f = none := by rw [hresolve, Option.map_none]
      rw [scan, hcandidate]
      simp only [lowered] at hnone
      simp only [hnone, ih]
      rfl
  | case4 inRun index word rest candidate hcandidate lowered meaning hresolve hclause ih =>
      have hsome : (resolve lowered).map f = some (f meaning) := by rw [hresolve, Option.map_some]
      rw [scan_without_clause hcandidate hsome hclause, ih]
      rfl
  | case5 inRun index word rest candidate hcandidate lowered meaning hresolve clause rest' hclause
      timing htiming ih =>
      have hsome : (resolve lowered).map f = some (f meaning) := by rw [hresolve, Option.map_some]
      rw [scan_with_clause hcandidate hsome hclause, htiming]
      simp only [ih]
      rfl
  | case6 inRun index word rest candidate hcandidate lowered meaning hresolve clause rest' hclause
      fault htiming ih =>
      have hsome : (resolve lowered).map f = some (f meaning) := by rw [hresolve, Option.map_some]
      rw [scan_with_clause hcandidate hsome hclause, htiming]
      simp only [ih]
      rfl

theorem parse?_map (f : α → β) (text : String) :
    g.parse? (fun word => (resolve word).map f) text =
      (g.parse? resolve text).map (Message.map f) := by
  rw [parse?, parse?]
  split
  · rw [scan_map, Option.map_some]
  · rfl

end Grammar

end Meanings

/-- Without macros a word means the verb that it names. -/
theorem meaning?_empty (verbs : VerbTable) :
    meaning? verbs {} = fun word => (verbs.resolve? word).map .verb := by
  funext word
  rw [meaning?]
  cases verbs.resolve? word with
  | some v => rfl
  | none => rfl

/-! ### Orders -/

namespace DryRun

/-- The orders to a team that a dry run tells of. -/
def orders (run : DryRun) : Orders := { requests := run.requests, reasons := run.errors }

theorem orders_consCommand (verbs : VerbTable) (macros : MacroTable) (command : Command Verb)
    (run : DryRun) :
    Orders.consCommand verbs macros (command.map .verb) run.orders =
      (run.consCommand command).orders := by
  have hrequests : (command.map Meaning.verb).requests verbs macros =
      (macroRequest command.timing command.meaning).map fun r => [r] := rfl
  rw [Orders.consCommand, hrequests, macroRequest, consCommand]
  cases command.timing.request command.meaning with
  | ok r => rfl
  | error cause => rfl

theorem orders_foldr (verbs : VerbTable) (macros : MacroTable) (commands : List (Command Verb)) :
    (commands.map (Command.map .verb)).foldr (Orders.consCommand verbs macros) {} =
      (commands.foldr consCommand {}).orders := by
  induction commands with
  | nil => rfl
  | cons command rest ih =>
      rw [List.map_cons, List.foldr_cons, ih, orders_consCommand, List.foldr_cons]

variable {t : Team} {text : String} {run : DryRun}

theorem ofText?_eq_none_iff {g : Grammar} {verbs : VerbTable} :
    ofText? g verbs text = none ↔ ¬g.isCommand text := by
  rw [ofText?, Option.map_eq_none_iff, Grammar.parse?]
  split
  · rename_i hcommand
    exact iff_of_false nofun (not_not_intro hcommand)
  · rename_i hcommand
    exact iff_of_true rfl hcommand

/-- A team without macros takes from a message the orders that a dry run tells of. -/
theorem ordersOf_eq (hmacros : t.macros = {})
    (hrun : ofText? t.config.grammar t.verbs text = some run) : t.ordersOf text = run.orders := by
  obtain ⟨message, hparse, rfl⟩ := Option.map_eq_some_iff.mp hrun
  rw [Team.ordersOf, hmacros, meaning?_empty, Grammar.parse?_map, hparse, Option.map_some]
  simp only [Message.map, orders_foldr]
  rfl

/-! ### What a team does -/

/-- Whether a team does with a message what a dry run says, unless the message runs already. -/
structure Foretells (run : DryRun) (t : Team) (now : Time) (author text : String)
    (reference : Time) : Prop where
  duplicate : (t.handleMessage now author text reference).2.2 = .duplicate ↔ t.ignores author text
  outcome : ¬t.ignores author text → (t.handleMessage now author text reference).2.2 =
    if run.requests = [] then .nothingToRun run.errors.length
    else .scheduled (t.scheduler.schedule run.requests reference).2 run.requests.length
      run.errors.length
  scheduler : ¬t.ignores author text → (t.handleMessage now author text reference).1.scheduler =
    if run.requests = [] then t.scheduler else (t.scheduler.schedule run.requests reference).1
  dropped : ¬t.ignores author text → (t.handleMessage now author text reference).1.dropped =
    t.dropped.pushAll (run.errors.map fun reason => { time := now, author, reason })

theorem foretells {t : Team} {text : String} {run : DryRun} (hmacros : t.macros = {})
    (hrun : ofText? t.config.grammar t.verbs text = some run) (now : Time) (author : String)
    (reference : Time) : run.Foretells t now author text reference := by
  have hcommand : t.config.grammar.isCommand text := by
    by_contra hnot
    rw [ofText?_eq_none_iff.mpr hnot] at hrun
    cases hrun
  have horders := ordersOf_eq hmacros hrun
  have hhandled : ¬t.ignores author text → t.handleMessage now author text reference =
      if run.requests = [] then
        (t.counted.drop now author run.errors, [], .nothingToRun run.errors.length)
      else (t.counted.drop now author run.errors).scheduleMessage author
        (Team.messageKey author text) reference run.orders := by
    intro hnew
    rw [Team.handleMessage_of_not_ignores t now author reference hcommand hnew, horders]
    simp only [List.isEmpty_iff]
    rfl
  refine ⟨?_, fun hnew => ?_, fun hnew => ?_, fun hnew => ?_⟩
  · rw [Team.handleMessage_eq_duplicate_iff]
    exact and_iff_right hcommand
  all_goals
    rw [hhandled hnew]
    split
  · rfl
  · rfl
  · rfl
  · exact Team.scheduleMessage_scheduler ..
  · rfl
  · rw [Team.scheduleMessage_eq]
    rfl

/-! ### Reports -/

/-- What a report tells of a dry run, with the names of every record in order. -/
theorem sorted_toValue (profile : String) (run : DryRun) :
    (run.toValue profile).sorted = .record [("command", .bool true),
      ("errors", .list (run.errors.map .text)), ("profile", .text profile),
      ("requests", .list (run.requests.map fun r => r.toValue.sorted)),
      ("unknown", .list (run.unknown.map .text))] := by
  have htexts : ∀ texts : List String, (Value.list (texts.map .text)).sorted =
      .list (texts.map .text) := by
    intro texts
    rw [Value.sorted, Json.sortedItems_eq_map, List.map_map]
    rfl
  have hrequests : (Value.list (run.requests.map Request.toValue)).sorted =
      .list (run.requests.map fun r => r.toValue.sorted) := by
    rw [Value.sorted, Json.sortedItems_eq_map, List.map_map]
    rfl
  have hsorted : ∀ requests errors unknown : Value, (Value.record [("command", .bool true),
      ("profile", .text profile), ("requests", requests), ("errors", errors),
      ("unknown", unknown)]).sorted = .record [("command", .bool true),
        ("errors", errors.sorted), ("profile", .text profile), ("requests", requests.sorted),
        ("unknown", unknown.sorted)] := by
    intro requests errors unknown
    cbv
  rw [toValue, hsorted, htexts, htexts, hrequests]

theorem isExact_toValue (profile : String) (run : DryRun) : Json.isExact (run.toValue profile) := by
  have hrequests : Json.areExactItems (run.requests.map Request.toValue) :=
    Json.areExactItems_map (fun _ => rfl) _
  have htexts : ∀ texts : List String, Json.areExactItems (texts.map .text) :=
    Json.areExactItems_map fun _ => rfl
  simp [toValue, Json.isExact, Json.areExactFields, hrequests, htexts]

theorem read_report_of_none {g : Grammar} {verbs : VerbTable} {text : String}
    (h : ofText? g verbs text = none) :
    Json.read (report g verbs text) = some (.record [("command", .bool false)]) := by
  rw [report, h]
  exact Json.read_compact rfl

theorem read_report_of_some {g : Grammar} {verbs : VerbTable} {text : String} {run : DryRun}
    (h : ofText? g verbs text = some run) :
    Json.read (report g verbs text) = some (run.toValue verbs.profile).sorted := by
  rw [report, h]
  refine Json.read_pretty ?_
  rw [Json.isExact_sorted]
  exact run.isExact_toValue verbs.profile

/-- Whether a report tells what a team does with a message. -/
structure Tells (told : Value) (t : Team) (now : Time) (author text : String) (reference : Time) :
    Prop where
  command : told.field? "command" =
    some (.bool (decide ((t.handleMessage now author text reference).2.2 ≠ .notACommand)))
  run : (t.handleMessage now author text reference).2.2 ≠ .notACommand → ∃ run : DryRun,
    told.field? "requests" = some (.list (run.requests.map fun r => r.toValue.sorted)) ∧
      told.field? "errors" = some (.list (run.errors.map .text)) ∧
        run.Foretells t now author text reference

/-- **Dry runs.** The program reports on a message for any verbs and any marker that is accepted.
Its report can be read, and says that the message is no command exactly if a team with these verbs,
this marker and no macros answers so. Else it lists the requests that the team schedules, in order, and
the reasons for which the team records commands as dropped, in order; only a message that runs
already is passed over by the team. -/
theorem report_tells {t : Team} {marker : String} (hmarker : ({ marker } : Grammar).check = .ok ())
    (hgrammar : t.config.grammar = { marker }) (hmacros : t.macros = {}) (text : String) :
    (∀ files profile profileFile, Program.verbsFor files profile profileFile = .ok t.verbs →
      Program.parse files profile profileFile marker text = .ok (report { marker } t.verbs text)) ∧
    ∃ told, Json.read (report { marker } t.verbs text) = some told ∧
      ∀ now author reference, Tells told t now author text reference := by
  constructor
  · intro files profile profileFile hverbs
    have haccepted : ({ marker } : Grammar).check.mapError ProgramError.setup = .ok () := by
      rw [hmarker]
      rfl
    rw [Program.parse, bind_of_eq_ok hverbs]
    exact bind_of_eq_ok haccepted _
  · cases hrun : ofText? { marker } t.verbs text with
    | none =>
        refine ⟨_, read_report_of_none hrun, fun now author reference => ?_⟩
        rw [← hgrammar, ofText?_eq_none_iff] at hrun
        have hanswer := t.handleMessage_of_not_command now author text reference hrun
        refine ⟨?_, fun hcommand => absurd (congrArg (·.2.2) hanswer) hcommand⟩
        rw [hanswer]
        rfl
    | some run =>
        refine ⟨_, read_report_of_some hrun, fun now author reference => ?_⟩
        rw [← hgrammar] at hrun
        have hforetells := foretells hmacros hrun now author reference
        rw [sorted_toValue]
        refine ⟨?_, fun _ => ⟨run, rfl, rfl, hforetells⟩⟩
        rw [decide_eq_true]
        · rfl
        · by_cases hignores : t.ignores author text
          · rw [hforetells.duplicate.mpr hignores]
            exact nofun
          · rw [hforetells.outcome hignores]
            split <;> exact nofun

/-- A team that reads commands after an exclamation mark. -/
def shouting : Team where
  config := { name := "red", target := {}, grammar := { marker := "!" } }
  verbs := MacroTable.jumpAndRight
  playback := { worker := .here { target := {} } }
  dropped := .ofCapacity 32
  failures := .ofCapacity 32

/-- The report on a message with a command of each kind lists one request and one error, as the team
schedules one request and drops one command. -/
theorem report_tells_shouting : ∃ (told : Value) (run : DryRun),
    Json.read (report { marker := "!" } shouting.verbs "!Jump 50+100 right 5x") = some told ∧
      told.field? "errors" = some (.list (run.errors.map .text)) ∧
      run.requests.length = 1 ∧ run.errors.length = 1 := by
  have hmarker : ({ marker := "!" } : Grammar).check = .ok () := by cbv
  obtain ⟨-, told, hread, htells⟩ :=
    report_tells (t := shouting) hmarker rfl rfl "!Jump 50+100 right 5x"
  have houtcome : (shouting.handleMessage 0 "ann" "!Jump 50+100 right 5x" 0).2.2 =
      .scheduled 1 1 1 := by decide +kernel
  obtain ⟨run, -, herrors, hforetells⟩ := (htells 0 "ann" 0).run (by simp [houtcome])
  have hcounts := hforetells.outcome (by simp [← hforetells.duplicate, houtcome])
  rw [houtcome] at hcounts
  split at hcounts
  · cases hcounts
  · injection hcounts with _ hrequests hdropped
    exact ⟨told, run, hread, herrors, hrequests.symm, hdropped.symm⟩

end DryRun

end CrowdPad
