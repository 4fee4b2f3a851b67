import CrowdPad.Request

/-! What a request grants. Whatever timing a verb is asked for, the request holds the key no longer
than the ceiling of the verb, counted from the reference time as long as the ceiling reaches there. -/

namespace CrowdPad

/-! ### Times -/

theorem max_millis (a b : UInt32) : max a b = if a ≤ b then b else a := rfl

instance instLawfulOrderMaxMillis : Std.LawfulOrderMax UInt32 :=
  .of_max_le_iff
    (fun a b c => by
      rw [max_millis]
      split
      · rename_i hle
        exact ⟨fun hb => ⟨UInt32.le_trans hle hb, hb⟩, And.right⟩
      · rename_i hnot
        have hle := UInt32.le_of_lt (UInt32.not_le.mp hnot)
        exact ⟨fun ha => ⟨ha, UInt32.le_trans hle ha⟩, And.left⟩)
    (fun a b => by
      rw [max_millis]
      split
      · exact .inr rfl
      · exact .inl rfl)

theorem saturate_toNat (ms : UInt32) : saturate ms.toNat = ms := by
  have hlt : (ms.toNat : Int) < UInt32.size := Int.ofNat_lt.mpr ms.toNat_lt
  rw [saturate, if_pos (by simpa using hlt), Int.toNat_natCast]
  exact UInt32.ofNat_toNat

/-! ### Bounds -/

/-- The bounds that a request keeps. -/
structure Request.Bounded (r : Request) : Prop where
  total : r.durationMs = 0 ∨ r.releaseMs ≤ r.verb.ceilingMs.toNat
  early : r.delayMs < r.verb.ceilingMs → r.releaseMs ≤ r.verb.ceilingMs.toNat
  late : r.verb.ceilingMs ≤ r.delayMs → r.durationMs = 0
  toggle : r.verb.kind = .toggle → r.durationMs = 0

/-- A bounded request holds its key no longer than the ceiling. -/
theorem Request.Bounded.releaseMs_le {r : Request} (h : r.Bounded) :
    r.releaseMs ≤ r.delayMs.toNat + r.verb.ceilingMs.toNat := by
  rcases h.total with hzero | htotal
  · rw [Request.releaseMs, hzero, UInt32.toNat_zero]
    omega
  · omega

namespace Verb

variable (v : Verb) (delayMs requestedMs : UInt32)

theorem grant_of_toggle (htoggle : v.kind = .toggle) : v.grant delayMs requestedMs = 0 := by
  rw [grant, if_pos]
  rw [decide_eq_true htoggle, Bool.true_or]

theorem grant_of_le (hlate : v.ceilingMs ≤ delayMs) : v.grant delayMs requestedMs = 0 := by
  rw [grant, if_pos]
  rw [decide_eq_true hlate, Bool.or_true]

/-- What is granted behind a delay ends at the ceiling at the latest. -/
theorem grant_le_of_lt (hearly : delayMs < v.ceilingMs) :
    delayMs.toNat + (v.grant delayMs requestedMs).toNat ≤ v.ceilingMs.toNat := by
  have hdelay : delayMs ≤ v.ceilingMs := UInt32.le_of_lt hearly
  have hleft := UInt32.toNat_sub_of_le _ _ hdelay
  rw [UInt32.le_iff_toNat_le] at hdelay
  by_cases htoggle : v.kind = .toggle
  · rw [v.grant_of_toggle delayMs requestedMs htoggle, UInt32.toNat_zero]
    omega
  · have hgrant : v.grant delayMs requestedMs =
        min (max requestedMs v.minMs) (v.ceilingMs - delayMs) := by
      rw [grant, if_neg]
      rw [Bool.or_eq_true, decide_eq_true_iff, decide_eq_true_iff, not_or, UInt32.not_le]
      exact ⟨htoggle, hearly⟩
    have hle : v.grant delayMs requestedMs ≤ v.ceilingMs - delayMs := hgrant ▸ Std.min_le_right
    rw [UInt32.le_iff_toNat_le] at hle
    omega

end Verb

/-! ### Asking again -/

namespace Verb

/-- What is granted is granted again. -/
theorem grant_grant (v : Verb) (delayMs requestedMs : UInt32) :
    v.grant delayMs (v.grant delayMs requestedMs) = v.grant delayMs requestedMs := by
  unfold grant
  split
  · rfl
  · -- What the minimum adds is there the second time, unless the ceiling took it away again.
    generalize v.ceilingMs - delayMs = left
    have hle : min (max requestedMs v.minMs) left ≤ left := Std.min_le_right
    rcases UInt32.le_total v.minMs left with hroom | htight
    · have hmin : v.minMs ≤ min (max requestedMs v.minMs) left :=
        Std.le_min_iff.mpr ⟨Std.right_le_max, hroom⟩
      rw [Std.max_eq_if, if_pos hmin, Std.min_eq_if, if_pos hle]
    · have hfull : ∀ other, left ≤ other → min other left = left := fun other hother =>
        UInt32.le_antisymm Std.min_le_right (Std.le_min_iff.mpr ⟨hother, UInt32.le_refl left⟩)
      have hcut : min (max requestedMs v.minMs) left = left :=
        hfull _ (UInt32.le_trans htight Std.right_le_max)
      rw [hcut]
      exact hfull _ Std.left_le_max

end Verb

namespace Request

/-- The timing that asks for what a request grants. -/
def timing (r : Request) : Timing :=
  { delay := r.delayMs.toNat, duration := some (r.durationMs.toNat : Int) }

end Request

theorem Timing.request_of_nonneg {t : Timing} (v : Verb) (hdelay : 0 ≤ t.delay)
    (hduration : 0 ≤ t.duration.getD 0) : ∃ r, t.request v = .ok r := by
  rw [request, if_neg (Int.not_lt.mpr hdelay), if_neg (Int.not_lt.mpr hduration)]
  exact ⟨_, rfl⟩

/-- Asking a verb for what it granted, it grants the same. -/
theorem Timing.request_again {t : Timing} {v : Verb} {r : Request} (h : t.request v = .ok r) :
    r.timing.request v = .ok r := by
  unfold Timing.request at h
  split at h
  · cases h
  · split at h
    · cases h
    · cases h
      rw [Timing.request, if_neg (by simp [Request.timing]), if_neg (by simp [Request.timing])]
      simp only [Request.timing, saturate_toNat, Verb.grant_grant]

/-- A request that is made of a verb is one for this verb, within its bounds. -/
theorem Timing.request_eq_ok {t : Timing} {v : Verb} {r : Request} (h : t.request v = .ok r) :
    r.verb = v ∧ r.Bounded := by
  unfold Timing.request at h
  split at h
  · cases h
  · split at h
    · cases h
    · cases h
      refine ⟨rfl, ?_⟩
      constructor
      · by_cases hlate : v.ceilingMs ≤ saturate t.delay
        · exact Or.inl (v.grant_of_le _ _ hlate)
        · exact Or.inr (v.grant_le_of_lt _ _ (UInt32.not_le.mp hlate))
      · exact fun hearly => v.grant_le_of_lt _ _ hearly
      · exact fun hlate => v.grant_of_le _ _ hlate
      · exact fun htoggle => v.grant_of_toggle _ _ htoggle

end CrowdPad
