import CrowdPad.Hub.Basic
import CrowdPad.Proofs.Team.Reachable

/-! What becomes of declared teams. Each of them runs or fails, by its position; the running ones and
those on record are read off the outcomes, which say no more than that. -/

namespace CrowdPad

namespace Catalogue

/-- Keeping a profile that was asked for does not change what any name stands for. -/
theorem resolve_resolve (c : Catalogue) (name other : String) :
    ((c.resolve name).1.resolve other).2 = (c.resolve other).2 := by
  cases htable : c.tables.lookup (Text.lower name) with
  | some table => simp only [resolve, htable]
  | none =>
      cases hbroken : c.broken.lookup (Text.lower name) with
      | some reason => simp only [resolve, htable, hbroken]
      | none =>
          cases hbuiltin : Profile.builtin (Text.lower name) with
          | error error => simp only [resolve, htable, hbroken, hbuiltin]
          | ok table =>
              have hkept : (c.resolve name).1 =
                  { c with tables := c.tables ++ [(Text.lower name, table)] } := by
                simp only [resolve, htable, hbroken, hbuiltin]
              rw [hkept, resolve, resolve, List.lookup_append]
              by_cases hsame : Text.lower other = Text.lower name
              · -- What was kept is what would be found among the built-in profiles again.
                rw [hsame, htable, hbroken, hbuiltin, List.lookup_cons, beq_self_eq_true]
                rfl
              · rw [List.lookup_cons, beq_false_of_ne hsame, List.lookup_nil, Option.or_none]
                cases c.tables.lookup (Text.lower other) with
                | some table => rfl
                | none =>
                    cases c.broken.lookup (Text.lower other) with
                    | some reason => rfl
                    | none => cases Profile.builtin (Text.lower other) <;> rfl

end Catalogue

namespace Hub

/-! ### Outcomes -/

/-- A declared team with what became of it. -/
abbrev Outcome := TeamEntry × Except EntryFault Member

/-- The team, if it runs. -/
def Outcome.member? (o : Outcome) : Option Member := o.2.toOption

/-- What is put on record, if it does not run. -/
def Outcome.failed? : Outcome → Option FailedTeam
  | (_, .ok _) => none
  | (entry, .error fault) => some { name := entry.name, error := fault.message }

section

variable (publishes : Bool) (config : ProgramConfig) (seed : Nat)

/-- A hub and the catalogue that is used, once some declared teams were started in it. -/
def begun (state : Hub × Catalogue) (entries : List TeamEntry) : Hub × Catalogue :=
  entries.foldl (fun state entry => addEntry publishes config seed state.1 state.2 entry) state

/-- What becomes of declared teams that are started in order. -/
def outcomes (state : Hub × Catalogue) : List TeamEntry → List Outcome
  | [] => []
  | entry :: rest =>
    (entry, (tryEntry publishes config seed state.1 state.2 entry).2.2) ::
      outcomes (addEntry publishes config seed state.1 state.2 entry) rest

variable (state : Hub × Catalogue)

theorem addEntries_eq (entries : List TeamEntry) :
    addEntries publishes config seed state.1 state.2 entries =
      (begun publishes config seed state entries).1 := by
  induction entries generalizing state with
  | nil => rfl
  | cons entry rest ih => exact ih (addEntry publishes config seed state.1 state.2 entry)

theorem map_outcomes (entries : List TeamEntry) :
    (outcomes publishes config seed state entries).map (·.1) = entries := by
  induction entries generalizing state with
  | nil => rfl
  | cons entry rest ih => rw [outcomes, List.map_cons, ih]

theorem outcomes_append (before after : List TeamEntry) :
    outcomes publishes config seed state (before ++ after) =
      outcomes publishes config seed state before ++
        outcomes publishes config seed (begun publishes config seed state before) after := by
  induction before generalizing state with
  | nil => rfl
  | cons entry rest ih =>
      rw [List.cons_append, outcomes, outcomes, ih, List.cons_append]
      rfl

/-- What a step does to a hub is told by the outcome. -/
theorem addEntry_hub (entry : TeamEntry) {outcome : Except EntryFault Member}
    (h : (tryEntry publishes config seed state.1 state.2 entry).2.2 = outcome) :
    (addEntry publishes config seed state.1 state.2 entry).1.members =
        state.1.members ++ (Outcome.member? (entry, outcome)).toList ∧
      (addEntry publishes config seed state.1 state.2 entry).1.failed =
        state.1.failed ++ (Outcome.failed? (entry, outcome)).toList ∧
      (addEntry publishes config seed state.1 state.2 entry).1.host =
        (tryEntry publishes config seed state.1 state.2 entry).1 ∧
      (addEntry publishes config seed state.1 state.2 entry).2 =
        (tryEntry publishes config seed state.1 state.2 entry).2.1 := by
  subst h
  rw [addEntry]
  rcases tryEntry publishes config seed state.1 state.2 entry with ⟨host, catalogue, fault | m⟩
  · exact ⟨(List.append_nil _).symm, rfl, rfl, rfl⟩
  · exact ⟨rfl, (List.append_nil _).symm, rfl, rfl⟩

/-- The running teams and those on record are read off the outcomes. -/
theorem begun_eq (entries : List TeamEntry) :
    (begun publishes config seed state entries).1.members =
        state.1.members ++ (outcomes publishes config seed state entries).filterMap Outcome.member? ∧
      (begun publishes config seed state entries).1.failed =
        state.1.failed ++ (outcomes publishes config seed state entries).filterMap Outcome.failed? := by
  have hcons {α β : Type} (f : α → Option β) (a : α) (rest : List α) :
      (a :: rest).filterMap f = (f a).toList ++ rest.filterMap f := by
    rw [List.filterMap_cons]
    cases f a <;> rfl
  induction entries generalizing state with
  | nil => exact ⟨(List.append_nil _).symm, (List.append_nil _).symm⟩
  | cons entry rest ih =>
      obtain ⟨hmembers, hfailed, -, -⟩ := addEntry_hub publishes config seed state entry rfl
      obtain ⟨hmore, hmore'⟩ := ih (addEntry publishes config seed state.1 state.2 entry)
      rw [outcomes, hcons, hcons, ← List.append_assoc, ← List.append_assoc, ← hmembers, ← hfailed]
      exact ⟨hmore, hmore'⟩

/-! ### The teams that run -/

/-- Whether a running team is the declared one, with its settings and its profile. -/
structure Fits (profiles : Catalogue) (entry : TeamEntry) (m : Member) : Prop where
  settings : m.team.config = config.teamConfig entry
  verbs : (profiles.resolve entry.profile).2 = .ok m.team.verbs

variable {publishes config seed state}

theorem Fits.name {profiles : Catalogue} {entry : TeamEntry} {m : Member}
    (h : Fits config profiles entry m) : m.name = entry.name :=
  congrArg TeamConfig.name h.settings

theorem startMember_eq_ok {host host' : Host} {settings : TeamConfig} {verbs : VerbTable}
    {telemetry : Option Telemetry} {m : Member}
    (h : startMember host seed settings verbs telemetry = .ok (host', m)) :
    m.team.config = settings ∧ m.team.verbs = verbs := by
  obtain ⟨⟨team, notices⟩, hstart, h⟩ := exists_of_bind_eq_ok h
  cases h
  obtain ⟨hconfig, hverbs, -⟩ := Team.start_eq_ok hstart
  exact ⟨hconfig, hverbs⟩

theorem startEntry_eq_ok {host host' : Host} {verbs : VerbTable} {entry : TeamEntry} {m : Member}
    (h : startEntry publishes config host seed verbs entry = (host', .ok m)) :
    m.team.config = config.teamConfig entry ∧ m.team.verbs = verbs := by
  unfold startEntry at h
  split at h
  · cases h
  · simp only at h
    split at h
    · cases h
    · rename_i hstart
      cases h
      exact startMember_eq_ok hstart

theorem tryEntry_eq_ok {entry : TeamEntry} {m : Member}
    (h : (tryEntry publishes config seed state.1 state.2 entry).2.2 = .ok m) :
    entry.name ∉ state.1.names ∧ Fits config state.2 entry m := by
  unfold tryEntry at h
  split at h
  · cases h
  · rename_i hnew
    refine ⟨by simpa using hnew, ?_⟩
    split at h
    · cases h
    · rename_i verbs hverbs
      split at h
      · cases h
      · rename_i hstart
        cases h
        obtain ⟨hconfig, hkept⟩ := startEntry_eq_ok hstart
        exact ⟨hconfig, by rw [hverbs, hkept]⟩

/-- The profiles stay what they are while teams start. -/
theorem resolve_addEntry (entry : TeamEntry) (name : String) :
    ((addEntry publishes config seed state.1 state.2 entry).2.resolve name).2 =
      (state.2.resolve name).2 := by
  have hkept := Catalogue.resolve_resolve state.2 entry.profile name
  rw [(addEntry_hub publishes config seed state entry rfl).2.2.2, tryEntry]
  split
  · rfl
  · split
    · rename_i hfails
      rw [hfails] at hkept
      exact hkept
    · rename_i hverbs
      rw [hverbs] at hkept
      split <;> exact hkept

theorem fits_of_mem {profiles : Catalogue} {entries : List TeamEntry} {entry : TeamEntry} {m : Member}
    (hprofiles : ∀ name, (state.2.resolve name).2 = (profiles.resolve name).2)
    (h : (entry, .ok m) ∈ outcomes publishes config seed state entries) :
    Fits config profiles entry m := by
  induction entries generalizing state with
  | nil => cases h
  | cons first rest ih =>
      rcases List.mem_cons.mp h with hfirst | hrest
      · obtain ⟨rfl, houtcome⟩ := Prod.mk.inj hfirst
        obtain ⟨-, hsettings, hverbs⟩ := tryEntry_eq_ok houtcome.symm
        exact ⟨hsettings, (hprofiles _).symm.trans hverbs⟩
      · exact ih (fun name => (resolve_addEntry first name).trans (hprofiles name)) hrest

/-- No two running teams have one name. -/
theorem nodup_begun {entries : List TeamEntry} (h : state.1.names.Nodup) :
    (begun publishes config seed state entries).1.names.Nodup := by
  induction entries generalizing state with
  | nil => exact h
  | cons entry rest ih =>
      apply ih
      obtain ⟨hmembers, -⟩ := addEntry_hub publishes config seed state entry rfl
      rw [names, hmembers, List.map_append]
      cases houtcome : (tryEntry publishes config seed state.1 state.2 entry).2.2 with
      | error fault =>
          rw [Outcome.member?, Except.toOption, Option.toList_none, List.map_nil, List.append_nil]
          exact h
      | ok m =>
          obtain ⟨hnew, hfits⟩ := tryEntry_eq_ok houtcome
          rw [Outcome.member?, Except.toOption, Option.toList_some, List.map_singleton, hfits.name]
          exact List.nodup_append_comm.mp (List.nodup_cons.mpr ⟨hnew, h⟩)

/-- The running teams stand in the order in which they were declared. -/
theorem names_sublist {outcomes : List Outcome} {profiles : Catalogue}
    (h : ∀ entry m, (entry, .ok m) ∈ outcomes → Fits config profiles entry m) :
    ((outcomes.filterMap Outcome.member?).map Member.name).Sublist (outcomes.map fun o => o.1.name) := by
  induction outcomes with
  | nil => exact .slnil
  | cons outcome rest ih =>
      have hrest := ih fun entry m hmem => h entry m (List.mem_cons_of_mem _ hmem)
      obtain ⟨entry, fault | m⟩ := outcome
      · exact hrest.cons entry.name
      · have hname := (h entry m (List.mem_cons_self ..)).name
        rw [List.map_cons, ← hname]
        exact hrest.cons_cons m.name

end

end Hub

end CrowdPad
