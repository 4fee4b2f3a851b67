import CrowdPad.Proofs.Command.Phrase
import CrowdPad.Proofs.Macro.Expansion
import CrowdPad.Proofs.Team.Reachable

/-! What a message comes to. Every command that is found in a message asks for something, so that
nothing but unreadable timing is dropped; and the name of a new macro asks for what its body asks
for. -/

namespace CrowdPad

/-! ### Commands -/

namespace Team

variable {t : Team}

/-- A command asks for something, whatever its timing and however its macro was made. -/
theorem Sound.exists_requests (h : t.Sound) {command : Command Meaning}
    (hmeaning : meaning? t.verbs t.macros command.word = some command.meaning)
    (hfits : command.timing.Fits) :
    ∃ requests, command.requests t.verbs t.macros = .ok requests ∧ requests ≠ [] := by
  unfold meaning? at hmeaning
  split at hmeaning
  · -- A verb refuses negative times only.
    rename_i v _
    have hduration : 0 ≤ command.timing.duration.getD 0 := by
      cases hms : command.timing.duration with
      | none => exact Int.le_refl 0
      | some ms => exact (hfits.duration ms hms).1
    obtain ⟨r, hr⟩ := Timing.request_of_nonneg v hfits.delay.1 hduration
    refine ⟨[r], ?_, List.cons_ne_nil _ _⟩
    rw [Command.requests, ← Option.some.inj hmeaning]
    simp only [macroRequest_eq_ok hr]
    rfl
  · -- A macro of the table was made of the team's own verbs, and has a step.
    obtain ⟨m, hget, hstored⟩ := Option.map_eq_some_iff.mp hmeaning
    have hmade := h.macros.made _ (MacroTable.mem_of_get? hget)
    obtain ⟨requests, hrequests, hlength⟩ := hmade.exists_expand hfits
    refine ⟨requests, ?_, ?_⟩
    · rw [Command.requests, ← hstored]
      simp only [h.macros.get?_name hget, hrequests]
    · intro hnil
      have hnonempty := hmade.wellMade.nonempty
      rw [← hlength, hnil] at hnonempty
      exact absurd hnonempty (by decide)

end Team

/-- The orders of commands that all ask for something. -/
theorem Orders.foldr_consCommand {verbs : VerbTable} {macros : MacroTable}
    {commands : List (Command Meaning)} {parts : List (List Request)}
    (h : commands.mapM (Command.requests verbs macros) = .ok parts) :
    commands.foldr (consCommand verbs macros) {} = { requests := parts.flatten } := by
  rw [mapM_eq_ok_iff] at h
  induction h with
  | nil => rfl
  | cons hfirst _ ih =>
      rw [List.foldr_cons, ih, consCommand, hfirst]
      rfl

/-! ### Messages -/

namespace Team

variable {t : Team} {text : String} {message : Message Meaning} {parts : List (List Request)}

theorem ordersOf_of_parse
    (hparse : t.config.grammar.parse? (meaning? t.verbs t.macros) text = some message)
    (hparts : message.commands.mapM (Command.requests t.verbs t.macros) = .ok parts) :
    t.ordersOf text =
      { requests := parts.flatten, reasons := message.malformed.map Malformed.message } := by
  rw [ordersOf, hparse]
  simp only [Orders.foldr_consCommand hparts, List.append_nil]

/-- A message that carries the marker and does not run already drops what its orders drop, and
schedules what they ask for. -/
theorem handleMessage_of_isCommand (hcommand : t.config.grammar.isCommand text) (now : Time)
    (author : String) (reference : Time)
    (hnew : (t.handleMessage now author text reference).2.2 ≠ .duplicate) :
    (t.handleMessage now author text reference).1.counters.dropped =
        t.counters.dropped + (t.ordersOf text).reasons.length ∧
      (t.handleMessage now author text reference).2.2 =
        if (t.ordersOf text).requests.isEmpty then .nothingToRun (t.ordersOf text).reasons.length
        else .scheduled t.scheduler.nextBatch (t.ordersOf text).requests.length
          (t.ordersOf text).reasons.length := by
  revert hnew
  refine t.handleMessage_cases now author text reference ?_ ?_ ?_ ?_
  · exact fun hno => absurd hcommand hno
  · exact fun _ _ hnew => absurd rfl hnew
  · exact fun _ _ hempty _ => ⟨rfl, (if_pos hempty).symm⟩
  · intro _ _ hsome _
    rw [scheduleMessage_eq]
    exact ⟨rfl, (if_neg hsome).symm⟩

/-- **Messages.** In a message with a marked word every command that is found has times that fit and
asks for at least one request. What is dropped is what has unreadable timing, no more; the requests are
those of the commands, in order; and unless the message runs already, it runs if there is a command in
it. -/
theorem translation (hreach : t.Reachable) (hcommand : t.config.grammar.isCommand text) :
    ∃ message parts,
      t.config.grammar.parse? (meaning? t.verbs t.macros) text = some message ∧
      (∀ command ∈ message.commands, command.timing.Fits) ∧
      message.commands.mapM (Command.requests t.verbs t.macros) = .ok parts ∧
      (∀ part ∈ parts, part ≠ []) ∧
      t.ordersOf text =
        { requests := parts.flatten, reasons := message.malformed.map Malformed.message } ∧
      ∀ now author reference,
        (t.handleMessage now author text reference).2.2 = .duplicate ∨
          (t.handleMessage now author text reference).1.counters.dropped =
              t.counters.dropped + message.malformed.length ∧
            (t.handleMessage now author text reference).2.2 =
              if message.commands = [] then .nothingToRun message.malformed.length
              else .scheduled t.scheduler.nextBatch parts.flatten.length message.malformed.length := by
  have hsound := hreach.sound
  have hparse : t.config.grammar.parse? (meaning? t.verbs t.macros) text =
      some (t.config.grammar.scan (meaning? t.verbs t.macros) false false 0 (Text.words text)) :=
    if_pos hcommand
  generalize hscan : t.config.grammar.scan (meaning? t.verbs t.macros) false false 0
    (Text.words text) = message at hparse
  have hcommands : ∀ command ∈ message.commands,
      meaning? t.verbs t.macros command.word = some command.meaning ∧ command.timing.Fits := by
    intro command hmem
    rw [← hscan] at hmem
    exact Grammar.mem_commands_scan hmem
  have hasks : ∀ command ∈ message.commands, ∃ requests,
      command.requests t.verbs t.macros = .ok requests ∧ requests ≠ [] := fun command hmem =>
    hsound.exists_requests (hcommands command hmem).1 (hcommands command hmem).2
  obtain ⟨parts, hparts, hlength⟩ := exists_mapM_eq_ok fun command hmem =>
    (hasks command hmem).imp fun _ => And.left
  have hfilled : ∀ part ∈ parts, part ≠ [] := by
    intro part hpart
    obtain ⟨command, hmem, hmade⟩ := mem_of_mapM_eq_ok hparts hpart
    obtain ⟨requests, hrequests, hne⟩ := hasks command hmem
    rw [hmade] at hrequests
    exact Except.ok.inj hrequests ▸ hne
  have horders := ordersOf_of_parse hparse hparts
  refine ⟨message, parts, hparse, fun command hmem => (hcommands command hmem).2, hparts, hfilled,
    horders, fun now author reference => ?_⟩
  by_cases hduplicate : (t.handleMessage now author text reference).2.2 = .duplicate
  · exact .inl hduplicate
  · obtain ⟨hdropped, houtcome⟩ := handleMessage_of_isCommand hcommand now author reference hduplicate
    rw [horders] at hdropped houtcome
    simp only [List.length_map] at hdropped houtcome
    refine .inr ⟨hdropped, houtcome.trans ?_⟩
    -- No part is empty, so there is nothing to run only where there is no part.
    have hnothing : parts.flatten.isEmpty ↔ message.commands = [] := by
      rw [← List.length_eq_zero_iff, ← hlength, List.length_eq_zero_iff, List.isEmpty_iff,
        List.flatten_eq_nil_iff]
      constructor
      · intro hnil
        cases parts with
        | nil => rfl
        | cons part rest =>
            exact absurd (hnil part (List.mem_cons_self ..)) (hfilled part (List.mem_cons_self ..))
      · rintro rfl
        exact nofun
    simp only [hnothing]

/-- A team that may change its macros. -/
def hopless : Team where
  config := { name := "red", target := {}, macros := { allowChanges := true } }
  verbs := MacroTable.jumpAndRight
  playback := { worker := .here { target := {} } }
  dropped := .ofCapacity 32
  failures := .ofCapacity 32

/-- The same team with a macro of two steps. -/
def hopping : Team :=
  { hopless with macros := { entries := [("hop", {
      name := "hop", minTime := 100, maxTime := 500
      steps := [{ verb := "jump", durationMs := 100 },
        { verb := "right", delayMs := 200, durationMs := 300 }] })] } }

theorem reachable_hopping : hopping.Reachable := by
  have hbuild : Declarations.build { profile := "", verbs := hopless.verbs.verbs } =
      .ok hopless.verbs := rfl
  obtain ⟨notices, hstart⟩ : ∃ notices,
      Team.start {} 0 0 hopless.config hopless.verbs = .ok (hopless, notices) := ⟨_, rfl⟩
  have hstep := (Reachable.start hbuild hstart).step (s := { host := {}, member := { team := hopless } })
    (.addMacro "Hop" "jump 100 right 200+300")
  have hteam : (Station.step { host := {}, member := { team := hopless } }
      (.addMacro "Hop" "jump 100 right 200+300")).team = hopping := by cbv
  rwa [hteam] at hstep

/-- Of three commands the one with unreadable timing is dropped, and the word that means nothing is not
taken for one. -/
theorem translation_of_hop :
    (hopping.ordersOf "hi +hop 20 right 5x up +jump").reasons =
      [Malformed.message { index := 1, word := "right", clause := "5x", fault := .notAnInteger }] := by
  have hcommand : hopping.config.grammar.isCommand "hi +hop 20 right 5x up +jump" := by cbv
  obtain ⟨message, parts, hparse, -, -, -, horders, -⟩ := translation reachable_hopping hcommand
  have hmalformed : (hopping.config.grammar.parse? (meaning? hopping.verbs hopping.macros)
      "hi +hop 20 right 5x up +jump").map (·.malformed) =
        some [{ index := 1, word := "right", clause := "5x", fault := .notAnInteger }] := by cbv
  rw [hparse] at hmalformed
  rw [horders]
  exact congrArg (List.map Malformed.message) (Option.some.inj hmalformed)

end Team

/-! ### New macros -/

section Added

variable {verbs : VerbTable} {macros macros' : MacroTable} {m : Macro}
  (hadd : macros.add m = .ok macros')

include hadd

/-- Words keep their meaning when a macro is added. -/
theorem meaning?_of_add {word : String} {meaning : Meaning}
    (h : meaning? verbs macros word = some meaning) : meaning? verbs macros' word = some meaning := by
  unfold meaning? at h ⊢
  cases hverb : verbs.resolve? word with
  | some v =>
      rw [hverb] at h
      exact h
  | none =>
      rw [hverb] at h
      obtain ⟨found, hget, hstored⟩ := Option.map_eq_some_iff.mp h
      simp only [MacroTable.get?_of_add hadd hget, Option.map_some, hstored]

/-- Commands ask for the same when a macro is added. -/
theorem Command.requests_of_add {command : Command Meaning} {requests : List Request}
    (h : command.requests verbs macros = .ok requests) :
    command.requests verbs macros' = .ok requests := by
  unfold Command.requests at h ⊢
  cases hmeaning : command.meaning with
  | verb v =>
      rw [hmeaning] at h
      exact h
  | stored name =>
      cases hget : macros.get? name with
      | none =>
          simp only [hmeaning, hget] at h
          cases h
      | some found =>
          simp only [hmeaning, hget] at h
          simp only [MacroTable.get?_of_add hadd hget, h]

end Added

/-- A body that starts with a marked word reads the same as a message, once it reads as a body without
fault, and it goes on doing so with more macros. -/
theorem Grammar.parse?_eq_parseBody {α : Type} {g : Grammar} {resolve resolve' : String → Option α}
    {body : String} {first : Word} {rest : List Word} (hwords : Text.words body = first :: rest)
    (hmarked : (g.marked? first).isSome)
    (hmore : ∀ word meaning, resolve word = some meaning → resolve' word = some meaning)
    (hknown : (g.parseBody resolve body).unknown = []) :
    g.parse? resolve' body = some (g.parseBody resolve body) := by
  have hcommand : g.isCommand body := by
    rw [isCommand, hwords, List.any_cons, hmarked, Bool.true_or]
  rw [parse?, if_pos hcommand]
  unfold parseBody at hknown ⊢
  rw [hwords] at hknown ⊢
  rw [scan_of_marked hmarked, scan_of_known hmore rfl hknown]

namespace Team

/-- **Macros are transparent.** Once a macro is added under a name that means no verb, the marked name
asks for the same requests as the body of the macro does as a message, whatever macros the body
invokes; and nothing of either is dropped. -/
theorem ordersOf_addMacro {t t' : Team} (hreach : t.Reachable) {name body : String}
    (hfree : t.verbs.resolve? name = none) {first : Word} {rest : List Word}
    (hwords : Text.words body = first :: rest) (hmarked : (t.config.grammar.marked? first).isSome)
    {files files' : Files} {notices : List Notice}
    (hadded : t.addMacro files name body = (files', .ok (t', notices))) :
    ∃ requests, requests ≠ [] ∧ t'.ordersOf (t.config.grammar.marker ++ name) = { requests } ∧
      t'.ordersOf body = { requests } := by
  have hsound := hreach.sound
  obtain ⟨macros', hmade, -, rfl⟩ := updateMacros_eq_ok hadded
  obtain ⟨m, hcompile, hadd⟩ := exists_of_bind_eq_ok hmade
  obtain ⟨key, parts, hkey, hmalformed, hunknown, hparts, hclamped⟩ := Macro.compile_eq_ok hcompile
  obtain ⟨hlower, hname, hnonempty, hchars⟩ := macroName_eq_ok hkey
  obtain ⟨rfl, hsteps, hne, -⟩ := Macro.ofClamped_eq_ok hclamped
  have hstands := Macro.stands_of_parseBody hparts
  refine ⟨parts.flatten, fun hnil => hne (by rw [hnil]; rfl), ?_, ?_⟩
  · -- The name is a word that means the new macro, which expands to what it was compiled from.
    have hword : Text.IsWord name.toList :=
      ⟨hnonempty, fun c hc => isBlank_of_isMacroChar (hchars c hc)⟩
    have hget := MacroTable.get?_name_of_add hadd hname
    have hmeaning : meaning? t.verbs macros' (Text.lower name) = some (.stored m.name) := by
      have hnoVerb : t.verbs.resolve? m.name = none := by
        rw [← hfree, VerbTable.resolve?, VerbTable.resolve?, hname.lower, hlower]
      rw [← hlower, meaning?, hnoVerb]
      simp only [hget, Option.map_some]
    have hexpand : m.expand t.verbs {} = .ok parts.flatten :=
      Macro.expand_ofRequests hsound.distinct hsteps hstands
    have hrequests : ∀ index word, [Command.mk index word (Meaning.stored m.name) {}].mapM
        (Command.requests t.verbs macros') = .ok [parts.flatten] := fun _ _ =>
      mapM_eq_ok_iff.mpr (.cons (by simp only [Command.requests, hget, hexpand]) .nil)
    have horders := ordersOf_of_parse (t := { t with macros := macros' })
      (hsound.accepted.parse?_marked hword hmeaning) (hrequests _ _)
    simpa using horders
  · -- The body reads as it did when it was compiled, and its commands ask for what they asked for.
    have hmeanings : ∀ word meaning, meaning? t.verbs t.macros word = some meaning →
        meaning? t.verbs macros' word = some meaning := fun _ _ => meaning?_of_add hadd
    have hparse := Grammar.parse?_eq_parseBody hwords hmarked hmeanings hunknown
    have hagain := mapM_eq_ok_iff.mpr ((mapM_eq_ok_iff.mp hparts).imp fun _ _ =>
      Command.requests_of_add hadd)
    have horders := ordersOf_of_parse (t := { t with macros := macros' }) hparse hagain
    simpa [hmalformed] using horders

/-- The same team with a macro that invokes the first one later. -/
def hoppingLater : Team :=
  { hopping with macros := { entries := hopping.macros.entries ++
      [("later", MacroTable.laterHop)] } }

/-- What the team answers to the name of the new macro, it answers to the body with its own timing for
the macro in it. -/
theorem ordersOf_later :
    hoppingLater.ordersOf "+Later" = hoppingLater.ordersOf "+hop 40+ jump 500+900" := by
  have hadded : hopping.addMacro {} "Later" "+hop 40+ jump 500+900" =
      ({}, .ok (hoppingLater, [.log .info "macro.added" (.record [("macro", .text "later")]),
        .event "macro.added" (.record [("macro", .text "later")])])) := by cbv
  have hfree : hopping.verbs.resolve? "Later" = none := by cbv
  have hwords : Text.words "+hop 40+ jump 500+900" =
      ['+', 'h', 'o', 'p'] :: [['4', '0', '+'], ['j', 'u', 'm', 'p'],
        ['5', '0', '0', '+', '9', '0', '0']] := by decide
  obtain ⟨requests, -, hname, hbody⟩ :=
    ordersOf_addMacro reachable_hopping hfree hwords (by decide) hadded
  rw [hbody]
  exact hname

end Team

end CrowdPad
