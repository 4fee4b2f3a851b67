import CrowdPad.Proofs.Command.Clause
import CrowdPad.Proofs.Team.Edit

/-! Teams that can come about. Whatever has been done to a team since it started, its verbs have names
of their own, its command language is unambiguous, and its macros are made with its verbs. -/

namespace CrowdPad.Team

/-- A team that can come about: it has started with the verbs of a profile, and since then anything has
been done to it, any time has passed, and it may have been stopped, on any host. -/
inductive Reachable : Team → Prop where
  | start {d : Declarations} {verbs : VerbTable} (hbuild : d.build = .ok verbs) {files : Files}
      {now : Time} {seed : Nat} {config : TeamConfig} {t : Team} {notices : List Notice}
      (hstart : Team.start files now seed config verbs = .ok (t, notices)) : Reachable t
  | step {s : Station} (h : Reachable s.team) (σ : TeamStep) : Reachable (s.step σ).team
  | beginStop {t : Team} (h : Reachable t) : Reachable t.beginStop
  | endStop {t : Team} (h : Reachable t) : Reachable t.endStop.1

/-- What the repertoire of a team is like. -/
structure Sound (t : Team) : Prop where
  distinct : t.verbs.Distinct
  accepted : t.config.grammar.Accepted
  macros : t.macros.Made t.verbs t.config.macros.limits

variable {t t' : Team} {σ : TeamStep} {files files' : Files}

/-- Whatever becomes of an edit, the macros are those that were there or those that a change made. -/
theorem Edit.cases_macros {macros : MacroTable} (h : Edit files t σ files' macros) :
    macros = t.macros ∨ ∃ change, macros = t.changed change := by
  cases h with
  | kept => exact .inl rfl
  | saved change _ => exact .inr ⟨change, rfl⟩
  | refused change _ => exact .inl rfl
  | loaded _ => exact .inr ⟨_, rfl⟩
  | restored stored _ => exact .inr ⟨_, rfl⟩

theorem Sound.edited (h : t.Sound) (hedited : t.Edited σ files files' t') : t'.Sound := by
  have hmacros : t'.macros.Made t.verbs t.config.macros.limits := by
    rcases hedited.edit.cases_macros with heq | ⟨change, heq⟩
    · rw [heq]
      exact h.macros
    · rw [heq]
      exact h.macros.apply h.distinct change
  constructor
  · rw [hedited.verbs]
    exact h.distinct
  · rw [hedited.config]
    exact h.accepted
  · rw [hedited.verbs, hedited.config]
    exact hmacros

/-- What a team starts with. -/
theorem start_eq_ok {now : Time} {seed : Nat} {config : TeamConfig} {verbs : VerbTable}
    {notices : List Notice} (h : start files now seed config verbs = .ok (t, notices)) :
    t.config = config ∧ t.verbs = verbs ∧ config.grammar.fault? = none ∧
      ∃ file, readMacroFile files config = .ok file ∧
        t.macros = (MacroTable.ofSteps verbs config.macros.limits (file.getD {}).macros).1 := by
  obtain ⟨hgrammar, -, file, hread, rfl⟩ := exists_of_start_eq_ok h
  exact ⟨rfl, rfl, hgrammar, file, hread, rfl⟩

/-- Every team that can come about is sound. -/
theorem Reachable.sound (h : t.Reachable) : t.Sound := by
  induction h with
  | start hbuild hstart =>
      have hdistinct := Declarations.distinct_of_build hbuild
      obtain ⟨rfl, rfl, hgrammar, file, -, hmacros⟩ := start_eq_ok hstart
      refine ⟨hdistinct, Grammar.accepted_of_fault?_eq_none hgrammar, ?_⟩
      rw [hmacros]
      exact MacroTable.made_ofSteps hdistinct _
  | step _ σ ih => exact ih.edited (Station.edited_step _ σ)
  | beginStop _ ih => exact ⟨ih.distinct, ih.accepted, ih.macros⟩
  | endStop _ ih => exact ⟨ih.distinct, ih.accepted, ih.macros⟩

end CrowdPad.Team
