import CrowdPad.Proofs.Command.Scan
import CrowdPad.Proofs.Request
import CrowdPad.Proofs.Verb.Table
import CrowdPad.Team.Message

/-! What a team takes from a message. Every word of a command means a verb of the table or a stored
macro, and macros are played through the verbs of the table, so that each request is one for a verb of
the table and within its bounds. -/

namespace CrowdPad

/-! ### Commands -/

/-- A request for a verb of a table, within the bounds of the verb. -/
structure Request.Granted (verbs : VerbTable) (r : Request) : Prop where
  mem : r.verb ∈ verbs.verbs
  bounded : r.Bounded

/-- A request for a verb of a table that the verb grants as it stands. -/
structure Request.Stands (verbs : VerbTable) (r : Request) : Prop where
  mem : r.verb ∈ verbs.verbs
  again : r.timing.request r.verb = .ok r

theorem Request.Stands.granted {verbs : VerbTable} {r : Request} (h : r.Stands verbs) :
    r.Granted verbs :=
  ⟨h.mem, (Timing.request_eq_ok h.again).2⟩

theorem mem_of_macroVerb {t : VerbTable} {name verb : String} {v : Verb}
    (h : macroVerb t name verb = .ok v) : v ∈ t.verbs := by
  unfold macroVerb at h
  split at h
  · rename_i found hget
    cases h
    exact VerbTable.mem_of_get? hget
  · cases h

theorem request_of_macroRequest {t : Timing} {v : Verb} {r : Request}
    (h : macroRequest t v = .ok r) : t.request v = .ok r := by
  unfold macroRequest at h
  split at h
  · rename_i made hmade
    cases h
    exact hmade
  · cases h

theorem stands_of_macroRequest {verbs : VerbTable} {t : Timing} {v : Verb} {r : Request}
    (hv : v ∈ verbs.verbs) (h : macroRequest t v = .ok r) : r.Stands verbs := by
  have hmade := request_of_macroRequest h
  obtain ⟨rfl, -⟩ := Timing.request_eq_ok hmade
  exact ⟨hv, Timing.request_again hmade⟩

/-- However a macro was made, its verbs grant what it is expanded to. -/
theorem Macro.stands_of_expand {verbs : VerbTable} {m : Macro} {invocation : Timing}
    {requests : List Request} (h : m.expand verbs invocation = .ok requests) :
    ∀ r ∈ requests, r.Stands verbs := by
  intro r hr
  unfold expand at h
  split at h
  · cases h
  · split at h
    · cases h
    · obtain ⟨step, -, hstep⟩ := mem_of_mapM_eq_ok h hr
      obtain ⟨v, hverb, hmade⟩ := exists_of_bind_eq_ok hstep
      exact stands_of_macroRequest (mem_of_macroVerb hverb) hmade

/-- Its verbs grant what a command asks for, if its word means a verb of the table or a macro. -/
theorem Command.stands_of_requests {verbs : VerbTable} {macros : MacroTable}
    {command : Command Meaning} {requests : List Request}
    (hmeaning : ∀ v, command.meaning = .verb v → v ∈ verbs.verbs)
    (h : command.requests verbs macros = .ok requests) : ∀ r ∈ requests, r.Stands verbs := by
  intro r hr
  unfold Command.requests at h
  split at h
  · rename_i v hcommand
    obtain ⟨made, hmade, rfl⟩ := exists_of_map_eq_ok h
    rw [List.mem_singleton.mp hr]
    exact stands_of_macroRequest (hmeaning v hcommand) hmade
  · split at h
    · exact Macro.stands_of_expand h r hr
    · cases h

/-! ### Messages -/

theorem mem_of_meaning? {verbs : VerbTable} {macros : MacroTable} {word : String} {v : Verb}
    (h : meaning? verbs macros word = some (.verb v)) : v ∈ verbs.verbs := by
  unfold meaning? at h
  split at h
  · rename_i found hresolve
    cases h
    exact VerbTable.mem_of_resolve? hresolve
  · obtain ⟨m, -, hm⟩ := Option.map_eq_some_iff.mp h
    cases hm

/-- What a scan finds is granted as it is asked for, once it is asked for. -/
theorem Grammar.stands_of_scan {g : Grammar} {verbs : VerbTable} {macros : MacroTable}
    {always inRun : Bool} {index : Nat} {words : List Word} {command : Command Meaning}
    {requests : List Request}
    (hcommand : command ∈ (g.scan (meaning? verbs macros) always inRun index words).commands)
    (h : command.requests verbs macros = .ok requests) : ∀ r ∈ requests, r.Stands verbs := by
  have hword := (mem_commands_scan hcommand).1
  refine Command.stands_of_requests (fun v hv => ?_) h
  rw [hv] at hword
  exact mem_of_meaning? hword

theorem Orders.mem_foldr_consCommand {verbs : VerbTable} {macros : MacroTable}
    {commands : List (Command Meaning)} {r : Request}
    (h : r ∈ (commands.foldr (consCommand verbs macros) {}).requests) :
    ∃ command ∈ commands, ∃ requests, command.requests verbs macros = .ok requests ∧ r ∈ requests := by
  induction commands with
  | nil => exact absurd h List.not_mem_nil
  | cons command rest ih =>
      rw [List.foldr_cons, consCommand] at h
      cases hmade : command.requests verbs macros with
      | error e =>
          rw [hmade] at h
          obtain ⟨other, hother, hmem⟩ := ih h
          exact ⟨other, List.mem_cons_of_mem _ hother, hmem⟩
      | ok requests =>
          rw [hmade] at h
          rcases List.mem_append.mp h with hfirst | hrest
          · exact ⟨command, List.mem_cons_self .., requests, hmade, hfirst⟩
          · obtain ⟨other, hother, hmem⟩ := ih hrest
            exact ⟨other, List.mem_cons_of_mem _ hother, hmem⟩

/-- Every request that a team takes from a message is one for a verb of its table, within the bounds
of the verb. -/
theorem Team.granted_of_ordersOf {t : Team} {text : String} {r : Request}
    (h : r ∈ (t.ordersOf text).requests) : r.Granted t.verbs := by
  unfold ordersOf at h
  cases hparsed : t.config.grammar.parse? (meaning? t.verbs t.macros) text with
  | none =>
      rw [hparsed] at h
      exact absurd h List.not_mem_nil
  | some message =>
      rw [hparsed] at h
      obtain ⟨command, hcommand, requests, hmade, hr⟩ := Orders.mem_foldr_consCommand h
      unfold Grammar.parse? at hparsed
      split at hparsed
      · cases hparsed
        exact (Grammar.stands_of_scan hcommand hmade r hr).granted
      · cases hparsed

end CrowdPad
