import CrowdPad.Proofs.Request

/-! Clamping. What a verb grants is computed with numbers of 32 bits that never wrap: it is what the same
rule gives over all integers. A longer duration is granted no less, and behind a longer delay no more is
granted. -/

namespace CrowdPad

/-! ### Numbers of 32 bits -/

theorem toNat_min_millis (a b : UInt32) : (min a b).toNat = min a.toNat b.toNat := by
  rw [Std.min_eq_if]
  split
  · rename_i hle
    rw [UInt32.le_iff_toNat_le] at hle
    omega
  · rename_i hle
    rw [UInt32.le_iff_toNat_le] at hle
    omega

theorem toNat_max_millis (a b : UInt32) : (max a b).toNat = max a.toNat b.toNat := by
  rw [max_millis]
  split
  · rename_i hle
    rw [UInt32.le_iff_toNat_le] at hle
    omega
  · rename_i hle
    rw [UInt32.le_iff_toNat_le] at hle
    omega

/-- What does not fit is cut. -/
theorem toNat_saturate {ms : Int} (hms : 0 ≤ ms) :
    ((saturate ms).toNat : Int) = min ms (UInt32.size - 1) := by
  by_cases hfits : ms < UInt32.size
  · have htoNat : ms.toNat.toUInt32.toNat = ms.toNat := UInt32.toNat_ofNat_of_lt' (by omega)
    rw [saturate, if_pos, htoNat]
    · omega
    · rw [Bool.and_eq_true, decide_eq_true_iff, decide_eq_true_iff]
      exact ⟨hms, hfits⟩
  · have hmax : (maxMillis.toNat : Int) = UInt32.size - 1 := rfl
    rw [saturate, if_neg, hmax]
    · omega
    · rw [Bool.and_eq_true, decide_eq_true_iff, decide_eq_true_iff]
      exact fun hboth => hfits hboth.2

namespace Verb

/-- What a verb grants behind a delay, counted with numbers of any size. -/
def allowanceMs (v : Verb) (delay requested : Int) : Int :=
  if v.kind = .toggle ∨ (v.ceilingMs.toNat : Int) ≤ delay then 0
  else min (max requested v.minMs.toNat) (v.ceilingMs.toNat - delay)

variable (v : Verb) {delay delay' requested requested' : Int}

theorem toNat_grant (hdelay : 0 ≤ delay) (hrequested : 0 ≤ requested) :
    ((v.grant (saturate delay) (saturate requested)).toNat : Int) =
      v.allowanceMs delay requested := by
  have hceiling : (v.ceilingMs.toNat : Int) < UInt32.size := Int.ofNat_lt.mpr v.ceilingMs.toNat_lt
  have hdelayed := toNat_saturate hdelay
  by_cases htoggle : v.kind = .toggle
  · rw [v.grant_of_toggle _ _ htoggle, allowanceMs, if_pos (.inl htoggle)]
    rfl
  · by_cases hlate : v.ceilingMs ≤ saturate delay
    · rw [v.grant_of_le _ _ hlate, allowanceMs, if_pos]
      · rfl
      · rw [UInt32.le_iff_toNat_le] at hlate
        exact .inr (by omega)
    · have hearly := UInt32.le_of_lt (UInt32.not_le.mp hlate)
      have hroom := UInt32.toNat_sub_of_le _ _ hearly
      rw [UInt32.le_iff_toNat_le] at hlate
      have hbefore : ¬ (v.ceilingMs.toNat : Int) ≤ delay := by omega
      rw [grant, if_neg (by simp [htoggle, UInt32.le_iff_toNat_le, hlate]), allowanceMs,
        if_neg (by simp [htoggle, hbefore]), toNat_min_millis, toNat_max_millis, hroom]
      have hlonger := toNat_saturate hrequested
      omega

theorem allowanceMs_mono (delay : Int) (hle : requested ≤ requested') :
    v.allowanceMs delay requested ≤ v.allowanceMs delay requested' := by
  unfold allowanceMs
  split
  · exact Int.le_refl 0
  · omega

theorem allowanceMs_antitone (requested : Int) (hle : delay ≤ delay') :
    v.allowanceMs delay' requested ≤ v.allowanceMs delay requested := by
  unfold allowanceMs
  split
  · split
    · exact Int.le_refl 0
    · omega
  · split
    · rename_i hbefore hdelayed
      exact absurd (hdelayed.imp_right fun hlate => Int.le_trans hlate hle) hbefore
    · omega

end Verb

/-! ### Requests -/

/-- What a request is like that a timing makes of a verb. -/
structure Timing.IsClamped (t : Timing) (v : Verb) (r : Request) : Prop where
  verb : r.verb = v
  delay : (r.delayMs.toNat : Int) = min t.delay (UInt32.size - 1)
  duration : (r.durationMs.toNat : Int) =
    v.allowanceMs t.delay (t.duration.getD (v.defaultMs.toNat : Int))
  /-- What the ceiling leaves behind the delay does not wrap. -/
  room : r.delayMs < v.ceilingMs →
    (v.ceilingMs - r.delayMs).toNat + r.delayMs.toNat = v.ceilingMs.toNat
  again : r.timing.request v = .ok r

theorem Timing.isClamped_of_request {t : Timing} {v : Verb} {r : Request}
    (h : t.request v = .ok r) : t.IsClamped v r := by
  have hagain := Timing.request_again h
  unfold Timing.request at h
  split at h
  · cases h
  · split at h
    · cases h
    · rename_i hdelay hduration
      cases h
      have hnonneg := Int.not_lt.mp hdelay
      refine ⟨rfl, toNat_saturate hnonneg, ?_, fun hearly => ?_, hagain⟩
      · cases hgiven : t.duration with
        | none =>
            have hdefault := v.toNat_grant hnonneg (Int.natCast_nonneg v.defaultMs.toNat)
            rwa [saturate_toNat] at hdefault
        | some ms =>
            rw [hgiven] at hduration
            exact v.toNat_grant hnonneg (Int.not_lt.mp hduration)
      · have hle := UInt32.le_of_lt hearly
        have hroom := UInt32.toNat_sub_of_le _ _ hle
        rw [UInt32.le_iff_toNat_le] at hle
        omega

theorem Timing.request_of_negative {t : Timing} (v : Verb) {ms : Int} (hms : ms ∈ t.duration)
    (hdelay : 0 ≤ t.delay) (hnegative : ms < 0) :
    t.request v = .error (.negativeDuration ms) := by
  have hduration : t.duration.getD 0 = ms := by rw [Option.mem_def.mp hms, Option.getD_some]
  rw [Timing.request, if_neg (Int.not_lt.mpr hdelay), hduration, if_pos hnegative]

/-- **Clamping.** A timing is refused exactly if its delay or its duration is negative, and of the two the
delay is reported. Otherwise the delay is cut to 32 bits and the duration is the one of the verb's rule
over all integers, whatever the bounds of the verb; nothing wraps on the way, and the request asks for
itself. Behind one delay a longer duration is granted no less, and one duration is granted no more behind
a longer delay. -/
theorem Timing.request_clamped (v : Verb) :
    (∀ t : Timing, t.delay < 0 → t.request v = .error (.negativeDelay t.delay)) ∧
    (∀ t : Timing, ∀ ms ∈ t.duration, 0 ≤ t.delay → ms < 0 →
      t.request v = .error (.negativeDuration ms)) ∧
    (∀ t : Timing, 0 ≤ t.delay → (∀ ms ∈ t.duration, 0 ≤ ms) →
      ∃ r, t.request v = .ok r ∧ t.IsClamped v r) ∧
    ∀ t t' : Timing, ∀ r r', t.request v = .ok r → t'.request v = .ok r' →
      (t.delay = t'.delay → (∃ ms ∈ t.duration, ∃ ms' ∈ t'.duration, ms ≤ ms') →
        r.durationMs ≤ r'.durationMs) ∧
      (t.duration = t'.duration → t.delay ≤ t'.delay → r'.durationMs ≤ r.durationMs) := by
  refine ⟨?_, ?_, ?_, ?_⟩
  · intro t hdelay
    rw [Timing.request, if_pos hdelay]
  · intro t ms hms hdelay hnegative
    exact Timing.request_of_negative v hms hdelay hnegative
  · intro t hdelay hduration
    obtain ⟨r, hr⟩ := Timing.request_of_nonneg v hdelay <| by
      cases hgiven : t.duration with
      | none => exact Int.le_refl 0
      | some ms => exact hduration ms hgiven
    exact ⟨r, hr, Timing.isClamped_of_request hr⟩
  · intro t t' r r' hr hr'
    have hfirst := (Timing.isClamped_of_request hr).duration
    have hsecond := (Timing.isClamped_of_request hr').duration
    rw [UInt32.le_iff_toNat_le, UInt32.le_iff_toNat_le]
    constructor
    · rintro hdelay ⟨ms, hms, ms', hms', hle⟩
      rw [Option.mem_def.mp hms, Option.getD_some] at hfirst
      rw [Option.mem_def.mp hms', Option.getD_some, ← hdelay] at hsecond
      have hmono := v.allowanceMs_mono t.delay hle
      omega
    · intro hduration hle
      rw [← hduration] at hsecond
      have hantitone := v.allowanceMs_antitone (t.duration.getD (v.defaultMs.toNat : Int)) hle
      omega

end CrowdPad
