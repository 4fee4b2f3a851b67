import CrowdPad.Proofs.Clamp
import CrowdPad.Proofs.Macro.Expansion

/-! What an invocation does to a macro. Its delay moves every step, as far as 32 bits reach; its duration
changes those of all steps by as much as that of the first one. Without timing the macro is played as it
is stored, and with the duration that its first step has anyway, as without a duration. -/

namespace CrowdPad

/-- Whether a number is one of 64 bits with sign. -/
def IsInt64 (n : Int) : Prop := -9223372036854775808 ≤ n ∧ n < 9223372036854775808

namespace Macro

variable {verbs : VerbTable} {limits : MacroLimits} {m : Macro} {invocation : Timing}
  {step other first : MacroStep} {r r' : Request}

/-- What an invocation asks of the verb of a step. -/
structure Invokes (verbs : VerbTable) (m : Macro) (invocation : Timing) (step : MacroStep)
    (r : Request) : Prop where
  verb : verbs.get? step.verb = some r.verb
  start : (r.delayMs.toNat : Int) =
    min (invocation.delay + step.delayMs.toNat) (UInt32.size - 1)
  duration : (r.durationMs.toNat : Int) =
    r.verb.allowanceMs (invocation.delay + step.delayMs.toNat) (m.invokedMs invocation step)

/-- Whether none of the numbers that the request of a step is computed through leaves 64 bits. -/
structure InRange (m : Macro) (invocation : Timing) (step : MacroStep) : Prop where
  start : IsInt64 (invocation.delay + step.delayMs.toNat)
  sum : ∀ ms ∈ invocation.duration, IsInt64 (ms + step.durationMs.toNat)
  difference : ∀ ms ∈ invocation.duration, ∀ first ∈ m.steps.head?,
    IsInt64 (ms + step.durationMs.toNat - first.durationMs.toNat)

theorem inRange_of_fits (hfits : invocation.Fits) (m : Macro) (step : MacroStep) :
    m.InRange invocation step := by
  have hsize : (UInt32.size : Int) = 4294967296 := rfl
  have hdelayMs := step.delayMs.toNat_lt
  have hownMs := step.durationMs.toNat_lt
  obtain ⟨hlow, hhigh⟩ := hfits.delay
  constructor
  · exact ⟨by omega, by omega⟩
  · intro ms hms
    obtain ⟨hlow, hhigh⟩ := hfits.duration ms hms
    exact ⟨by omega, by omega⟩
  · intro ms hms first _
    obtain ⟨hlow, hhigh⟩ := hfits.duration ms hms
    have hfirstMs := first.durationMs.toNat_lt
    exact ⟨by omega, by omega⟩

theorem invokes_of_stepRequest (hfits : invocation.Fits)
    (h : m.stepRequest verbs invocation step = .ok r) : m.Invokes verbs invocation step r := by
  obtain ⟨v, hverb, -⟩ := exists_of_bind_eq_ok h
  have hget := get?_of_macroVerb hverb
  rw [stepRequest_of_fits hfits hget] at h
  have hclamped := Timing.isClamped_of_request (request_of_macroRequest h)
  obtain rfl := hclamped.verb
  exact ⟨hget, hclamped.delay, hclamped.duration⟩

/-- Steps that are played before time runs out stand apart as they were stored. -/
theorem Invokes.apart (h : m.Invokes verbs invocation step r)
    (hother : m.Invokes verbs invocation other r')
    (hstart : invocation.delay + step.delayMs.toNat < UInt32.size)
    (hstart' : invocation.delay + other.delayMs.toNat < UInt32.size) :
    (r'.delayMs.toNat : Int) - r.delayMs.toNat = other.delayMs.toNat - step.delayMs.toNat := by
  have hr := h.start
  have hr' := hother.start
  omega

/-- However a macro is invoked, there is a request for each of its steps, in order. -/
theorem Made.exists_invokes (h : m.Made verbs limits) (hfits : invocation.Fits) :
    ∃ requests, m.expand verbs invocation = .ok requests ∧
      List.Forall₂ (m.Invokes verbs invocation) m.steps requests := by
  obtain ⟨requests, hrequests, -⟩ := h.exists_expand hfits
  refine ⟨requests, hrequests, ?_⟩
  rw [expand_of_fits hfits, mapM_eq_ok_iff] at hrequests
  exact hrequests.imp fun step r => invokes_of_stepRequest hfits

/-! ### Invocations that change nothing -/

/-- The steps of a macro are what its verbs granted. -/
theorem exists_requests {name : String} {steps : List MacroStep}
    (h : ∀ step ∈ steps, clampStep verbs name step = .ok step) :
    ∃ requests : List Request, steps = requests.map MacroStep.ofRequest ∧
      ∀ r ∈ requests, r.Stands verbs := by
  induction steps with
  | nil => exact ⟨[], rfl, nofun⟩
  | cons step rest ih =>
      obtain ⟨r, hr, -, hstep⟩ := clampStep_eq_ok (h step (List.mem_cons_self ..))
      obtain ⟨requests, hrest, hstands⟩ := ih fun other hother => h other (List.mem_cons_of_mem _ hother)
      refine ⟨r :: requests, ?_, List.forall_mem_cons.mpr ⟨hr, hstands⟩⟩
      rw [List.map_cons, ← hstep, ← hrest]

/-- Without timing a macro is played as it is stored. -/
theorem Made.expand_empty (h : m.Made verbs limits) (hdistinct : verbs.Distinct) :
    ∃ requests, m.expand verbs {} = .ok requests ∧ requests.map MacroStep.ofRequest = m.steps := by
  obtain ⟨requests, hsteps, hstands⟩ := exists_requests h.steps_clamped
  exact ⟨requests, expand_ofRequests hdistinct hsteps hstands, hsteps.symm⟩

/-- What the duration of the first step is replaced by does not change if it is its own. -/
theorem stepRequest_first (hfirst : first ∈ m.steps.head?) (delay : Int) (step : MacroStep) :
    m.stepRequest verbs { delay, duration := some (first.durationMs.toNat : Int) } step =
      m.stepRequest verbs { delay } step := by
  have hfirstMs := first.durationMs.toNat_lt
  have hownMs := step.durationMs.toNat_lt
  have hown : max (wrap64 ((first.durationMs.toNat : Int) + step.durationMs.toNat -
      first.durationMs.toNat)) 0 = step.durationMs.toNat := by
    rw [wrap64_eq_self (by omega) (by omega)]
    omega
  simp only [stepRequest, Option.mem_def.mp hfirst, Option.map_some, Option.getD_some, hown]

theorem expand_first (hfirst : first ∈ m.steps.head?) (delay : Int) :
    m.expand verbs { delay, duration := some (first.durationMs.toNat : Int) } =
      m.expand verbs { delay } := by
  have hsteps : m.stepRequest verbs { delay, duration := some (first.durationMs.toNat : Int) } =
      m.stepRequest verbs { delay } :=
    funext fun step => stepRequest_first hfirst delay step
  have hduration : ¬(first.durationMs.toNat : Int) < 0 := Int.not_lt.mpr (Int.natCast_nonneg _)
  simp only [expand, hsteps, Option.getD_some, Option.getD_none, if_neg hduration,
    if_neg (Int.lt_irrefl 0)]

end Macro

namespace MacroTable

theorem made_applyAll {verbs : VerbTable} (hdistinct : verbs.Distinct) (limits : MacroLimits)
    (changes : List MacroChange) : (applyAll verbs limits changes).Made verbs limits :=
  List.foldlRecOn changes (MacroTable.apply verbs limits) made_empty
    fun _ h change _ => h.apply hdistinct change

/-- **Invocation.** Whatever was done to a table of macros, and however one of its macros is invoked in
32 bits, no number on the way leaves 64 bits and there is a request for each step, in order: it starts by
the delay of the invocation later, or at the end of 32 bits, so that steps which all start before stand
apart as they were stored. Invoked without timing, a macro is played as it is stored; invoked with the
duration of its first step, as without a duration, whatever the delay. -/
theorem invocation {d : Declarations} {verbs : VerbTable} (hbuild : d.build = .ok verbs)
    (limits : MacroLimits) (changes : List MacroChange) {name : String} {m : Macro}
    (hm : (name, m) ∈ (applyAll verbs limits changes).entries) :
    (∀ invocation : Timing, invocation.Fits → ∃ requests,
      m.expand verbs invocation = .ok requests ∧
      List.Forall₂ (m.Invokes verbs invocation) m.steps requests ∧
      (∀ step ∈ m.steps, m.InRange invocation step) ∧
      ∀ one ∈ m.steps.zip requests, ∀ other ∈ m.steps.zip requests,
        invocation.delay + one.1.delayMs.toNat < UInt32.size →
        invocation.delay + other.1.delayMs.toNat < UInt32.size →
        (other.2.delayMs.toNat : Int) - one.2.delayMs.toNat =
          other.1.delayMs.toNat - one.1.delayMs.toNat) ∧
    (∃ requests, m.expand verbs {} = .ok requests ∧ requests.map MacroStep.ofRequest = m.steps) ∧
    ∀ first ∈ m.steps.head?, ∀ delay : Int,
      m.expand verbs { delay, duration := some (first.durationMs.toNat : Int) } =
        m.expand verbs { delay } := by
  have hdistinct := Declarations.distinct_of_build hbuild
  have hmade : m.Made verbs limits := (made_applyAll hdistinct limits changes).made _ hm
  refine ⟨fun invocation hfits => ?_, hmade.expand_empty hdistinct,
    fun first hfirst delay => Macro.expand_first hfirst delay⟩
  obtain ⟨requests, hrequests, hinvokes⟩ := hmade.exists_invokes hfits
  refine ⟨requests, hrequests, hinvokes, fun step _ => Macro.inRange_of_fits hfits m step, ?_⟩
  intro one hone other hother
  exact (List.forall₂_zip hinvokes hone).apart (List.forall₂_zip hinvokes hother)

/-- A jump and a step to the right at the end of the ceiling of its verb. -/
def hopAndRun : Macro :=
  { name := "hop_and_run", minTime := 50, maxTime := 2000, steps := [
      { verb := "jump", durationMs := 50 },
      { verb := "right", delayMs := 1800, durationMs := 200 }] }

/-- Invoked shortly before the end of 32 bits, the second step starts there. -/
theorem invocation_of_hopAndRun :
    ("hop_and_run", hopAndRun) ∈ (applyAll jumpAndRight {}
      [.addBody {} "Hop_and_run" "jump right 1800+900"]).entries ∧
    Timing.Fits { delay := 4294966000, duration := some 120 } ∧
    ∃ requests, hopAndRun.expand jumpAndRight { delay := 4294966000, duration := some 120 } =
        .ok requests ∧
      requests.map Request.delayMs = [4294966000, 4294967295] ∧
      List.Forall₂ (hopAndRun.Invokes jumpAndRight { delay := 4294966000, duration := some 120 })
        hopAndRun.steps requests := by
  have hbuild : Declarations.build { profile := "", verbs := jumpAndRight.verbs } =
      .ok jumpAndRight := rfl
  have hentries : (applyAll jumpAndRight {}
      [.addBody {} "Hop_and_run" "jump right 1800+900"]).entries = [("hop_and_run", hopAndRun)] := by
    cbv
  have hm : ("hop_and_run", hopAndRun) ∈ (applyAll jumpAndRight {}
      [.addBody {} "Hop_and_run" "jump right 1800+900"]).entries := by
    rw [hentries]
    exact List.mem_singleton_self _
  have hfits : Timing.Fits { delay := 4294966000, duration := some 120 } :=
    ⟨by decide, fun ms hms => Option.some.inj hms ▸ by decide⟩
  obtain ⟨requests, hrequests, hinvokes, -⟩ := (invocation hbuild {} _ hm).1 _ hfits
  have hstarts : (hopAndRun.expand jumpAndRight { delay := 4294966000, duration := some 120 }).map
      (List.map Request.delayMs) = .ok [4294966000, 4294967295] := by
    cbv
  rw [hrequests] at hstarts
  exact ⟨hm, hfits, requests, hrequests, Except.ok.inj hstarts, hinvokes⟩

end MacroTable

end CrowdPad
