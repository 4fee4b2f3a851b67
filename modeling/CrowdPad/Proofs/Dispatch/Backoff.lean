import CrowdPad.Dispatch.Backoff
import Mathlib

/-! How the next wait is rounded. A number of 53 significant bits that is not above another number is not
above what that number is rounded to, so that multiplying with a factor of one or more never shrinks a
wait in seconds. What is lost on the way from nanoseconds to seconds is less than half a nanosecond up to
2^32 ms, and then the next wait is no shorter than the one before, unless the ceiling is. What is gained by
rounding is bounded too, so that waits within moderate settings stay far from the longest time there is. -/

namespace CrowdPad.Backoff

variable {q s : ℚ}

theorem pow2_eq_zpow (e : Int) : pow2 e = (2 : ℚ) ^ e := by
  rw [pow2]
  split
  · rename_i hpos
    obtain ⟨n, rfl⟩ := Int.eq_ofNat_of_zero_le hpos
    exact (zpow_natCast (2 : ℚ) n).symm
  · rename_i hneg
    obtain ⟨n, rfl⟩ : ∃ n : Nat, e = -(n : Int) := ⟨e.natAbs, by omega⟩
    rw [Int.natAbs_neg, Int.natAbs_natCast, zpow_neg, zpow_natCast, one_div]

theorem pow2_pos (e : Int) : 0 < pow2 e := by
  rw [pow2_eq_zpow]
  exact zpow_pos two_pos e

theorem pow2_add (e f : Int) : pow2 (e + f) = pow2 e * pow2 f := by
  simp only [pow2_eq_zpow, zpow_add₀ (two_ne_zero (α := ℚ))]

theorem pow2_le_pow2 {e f : Int} (h : e ≤ f) : pow2 e ≤ pow2 f := by
  simp only [pow2_eq_zpow]
  exact zpow_le_zpow_right₀ one_le_two h

theorem pow2_natCast (n : Nat) : pow2 n = ((2 ^ n : Nat) : ℚ) := by
  rw [pow2_eq_zpow, zpow_natCast]
  norm_cast

/-- A quotient is between the powers of two that are nearest to it by its parts. -/
theorem pow2_le_div {num den : Nat} (hnum : num ≠ 0) (hden : den ≠ 0) :
    pow2 (num.log2 - den.log2 - 1) ≤ (num : ℚ) / den ∧
      (num : ℚ) / den < pow2 (num.log2 - den.log2 + 1) := by
  have hnumLow : pow2 num.log2 ≤ num := by
    rw [pow2_natCast]
    exact_mod_cast Nat.log2_self_le hnum
  have hnumHigh : (num : ℚ) < pow2 (num.log2 + 1 : Nat) := by
    rw [pow2_natCast]
    exact_mod_cast Nat.lt_log2_self
  have hdenLow : pow2 den.log2 ≤ den := by
    rw [pow2_natCast]
    exact_mod_cast Nat.log2_self_le hden
  have hdenHigh : (den : ℚ) < pow2 (den.log2 + 1 : Nat) := by
    rw [pow2_natCast]
    exact_mod_cast Nat.lt_log2_self
  have hpos : (0 : ℚ) < den := Nat.cast_pos.mpr (Nat.pos_of_ne_zero hden)
  constructor
  · rw [le_div_iff₀ hpos]
    calc pow2 (num.log2 - den.log2 - 1) * den
        ≤ pow2 (num.log2 - den.log2 - 1) * pow2 (den.log2 + 1 : Nat) :=
          mul_le_mul_of_nonneg_left hdenHigh.le (pow2_pos _).le
      _ = pow2 num.log2 := by
          rw [← pow2_add]
          congr 1
          push_cast
          ring
      _ ≤ num := hnumLow
  · rw [div_lt_iff₀ hpos]
    calc (num : ℚ)
        < pow2 (num.log2 + 1 : Nat) := hnumHigh
      _ = pow2 (num.log2 - den.log2 + 1) * pow2 den.log2 := by
          rw [← pow2_add]
          congr 1
          push_cast
          ring
      _ ≤ pow2 (num.log2 - den.log2 + 1) * den :=
          mul_le_mul_of_nonneg_left hdenLow (pow2_pos _).le

/-- A positive number is not below its greatest power of two, and below the next one. -/
theorem log2_spec (hq : 0 < q) : pow2 (log2 q) ≤ q ∧ q < pow2 (log2 q + 1) := by
  have hquot : (q.num.natAbs : ℚ) / q.den = q := by
    have hnum : ((q.num.natAbs : Int) : ℚ) = q.num := by
      rw [Int.natAbs_of_nonneg (Rat.num_pos.mpr hq).le]
    rw [← Int.cast_natCast q.num.natAbs, hnum, Rat.num_div_den]
  obtain ⟨hlow, hhigh⟩ :=
    pow2_le_div (Int.natAbs_ne_zero.mpr (Rat.num_pos.mpr hq).ne') q.den_ne_zero
  rw [hquot] at hlow hhigh
  rw [log2]
  split
  · rename_i hle
    exact ⟨hle, hhigh⟩
  · rename_i hlt
    refine ⟨hlow, ?_⟩
    rw [Int.sub_add_cancel]
    exact not_le.mp hlt

/-! ### Rounding to an integer -/

/-- A number is rounded to one of the two integers beside it, and to the nearer one. -/
theorem abs_roundEven_sub_le (q : ℚ) : |(roundEven q : ℚ) - q| ≤ 1 / 2 := by
  have hlow : (q.floor : ℚ) ≤ q := Int.floor_le q
  have hhigh : q < q.floor + 1 := Int.lt_floor_add_one q
  rw [abs_le, roundEven]
  split_ifs
  all_goals
    push_cast
    constructor <;> linarith

/-- An integer that is not more than half above a number is not above what it is rounded to. -/
theorem le_roundEven {n : Int} (h : (n : ℚ) - 1 / 2 < q) : n ≤ roundEven q := by
  have hnear := (abs_le.mp (abs_roundEven_sub_le q)).1
  have hless : (n : ℚ) < roundEven q + 1 := by linarith
  exact Int.lt_add_one_iff.mp (by exact_mod_cast hless)

/-! ### Rounding to 53 bits -/

/-- The distance of the numbers of 53 bits that are next to a number. -/
def unit (q : ℚ) : ℚ := pow2 (log2 q - 52)

theorem unit_pos (q : ℚ) : 0 < unit q := pow2_pos _

theorem unit_mul (q : ℚ) : 2 ^ 52 * unit q = pow2 (log2 q) := by
  have hsplit : pow2 (log2 q) = pow2 52 * unit q := by
    rw [unit, ← pow2_add]
    congr 1
    ring
  rw [hsplit]
  congr 1

theorem round53_of_pos (hq : 0 < q) : round53 q = roundEven (q / unit q) * unit q :=
  if_neg (not_le.mpr hq)

theorem round53_of_nonpos (hq : q ≤ 0) : round53 q = 0 := if_pos hq

/-- A multiple of the distance that is not above a number is not above what the number is rounded to. -/
theorem mul_unit_le_round53 (hq : 0 < q) {n : Int} (h : n * unit q ≤ q) : n * unit q ≤ round53 q := by
  rw [round53_of_pos hq]
  refine mul_le_mul_of_nonneg_right ?_ (unit_pos q).le
  have hquot : (n : ℚ) ≤ q / unit q := (le_div_iff₀ (unit_pos q)).mpr h
  exact_mod_cast le_roundEven (by linarith)

/-- What is lost by rounding is less than one part in 2^53. -/
theorem sub_le_round53 (hq : 0 ≤ q) : q - q / 2 ^ 53 ≤ round53 q := by
  rcases hq.eq_or_lt with rfl | hpos
  · rw [round53_of_nonpos le_rfl]
    norm_num
  · have hlow := (log2_spec hpos).1
    rw [← unit_mul] at hlow
    have hnear := (abs_le.mp (abs_roundEven_sub_le (q / unit q))).1
    have hscaled := mul_le_mul_of_nonneg_right hnear (unit_pos q).le
    rw [sub_mul, div_mul_cancel₀ _ (unit_pos q).ne', ← round53_of_pos hpos] at hscaled
    linarith

/-- What is gained by rounding is no more. -/
theorem round53_le_add (hq : 0 ≤ q) : round53 q ≤ q + q / 2 ^ 53 := by
  rcases hq.eq_or_lt with rfl | hpos
  · rw [round53_of_nonpos le_rfl]
    norm_num
  · have hlow := (log2_spec hpos).1
    rw [← unit_mul] at hlow
    have hnear := (abs_le.mp (abs_roundEven_sub_le (q / unit q))).2
    have hscaled := mul_le_mul_of_nonneg_right hnear (unit_pos q).le
    rw [sub_mul, div_mul_cancel₀ _ (unit_pos q).ne', ← round53_of_pos hpos] at hscaled
    linarith

theorem round53_le_two_mul (hq : 0 ≤ q) : round53 q ≤ 2 * q := by
  have hmost := round53_le_add hq
  linarith

/-- Whether a number has at most 53 significant bits. -/
def IsShort (s : ℚ) : Prop := ∃ (m : Nat) (k : Int), m ≤ 2 ^ 53 ∧ s = m * pow2 k

theorem isShort_natCast {n : Nat} (h : n ≤ 2 ^ 53) : IsShort n :=
  ⟨n, 0, h, (mul_one _).symm⟩

theorem IsShort.nonneg (h : IsShort s) : 0 ≤ s := by
  obtain ⟨m, k, -, rfl⟩ := h
  exact mul_nonneg (Nat.cast_nonneg m) (pow2_pos k).le

theorem isShort_round53 (q : ℚ) : IsShort (round53 q) := by
  rcases le_or_gt q 0 with hq | hq
  · rw [round53_of_nonpos hq]
    exact isShort_natCast (Nat.zero_le _)
  · have hhigh := (log2_spec hq).2
    rw [pow2_add, ← unit_mul] at hhigh
    have hquot : q / unit q < 2 ^ 53 := by
      rw [div_lt_iff₀ (unit_pos q)]
      calc q < 2 ^ 52 * unit q * pow2 1 := hhigh
        _ = 2 ^ 53 * unit q := by
          rw [show pow2 1 = 2 from rfl]
          ring
    have hfirst : (0 : Int) ≤ roundEven (q / unit q) :=
      le_roundEven (by have := div_pos hq (unit_pos q); push_cast; linarith)
    have hlast : roundEven (q / unit q) ≤ 2 ^ 53 := by
      have hnear := (abs_le.mp (abs_roundEven_sub_le (q / unit q))).2
      have hless : (roundEven (q / unit q) : ℚ) < 2 ^ 53 + 1 := by linarith
      exact Int.lt_add_one_iff.mp (by exact_mod_cast hless)
    obtain ⟨m, hm⟩ := Int.eq_ofNat_of_zero_le hfirst
    refine ⟨m, log2 q - 52, by omega, ?_⟩
    rw [round53_of_pos hq, hm, Int.cast_natCast, unit]

/-- **Rounding keeps the order.** A number of 53 bits that is not above another number is not above what
that number is rounded to. -/
theorem IsShort.le_round53 (hs : IsShort s) (hle : s ≤ q) : s ≤ round53 q := by
  rcases le_or_gt q 0 with hq | hq
  · rw [round53_of_nonpos hq]
    exact hle.trans hq
  · obtain ⟨m, k, hm, rfl⟩ := hs
    rcases lt_or_ge k (log2 q - 52) with hk | hk
    · -- The number is no greater than the greatest power of two, which has the bits.
      have hpower : ((2 ^ 52 : Int) : ℚ) * unit q = pow2 (log2 q) := by
        rw [← unit_mul]
        norm_num
      have hless : (m : ℚ) * pow2 k ≤ ((2 ^ 52 : Int) : ℚ) * unit q := by
        rw [hpower]
        have hbits : (m : ℚ) ≤ pow2 53 := (Nat.cast_le.mpr hm).trans_eq (pow2_natCast 53).symm
        calc (m : ℚ) * pow2 k
            ≤ pow2 53 * pow2 (log2 q - 53) :=
              mul_le_mul hbits (pow2_le_pow2 (by omega)) (pow2_pos k).le (pow2_pos _).le
          _ = pow2 (log2 q) := by
              rw [← pow2_add]
              congr 1
              ring
      refine hless.trans (mul_unit_le_round53 hq ?_)
      rw [hpower]
      exact (log2_spec hq).1
    · -- The number is a multiple of the distance.
      obtain ⟨j, hj⟩ := Int.le.dest hk
      have hmultiple : (m : ℚ) * pow2 k = ((m * 2 ^ j : Nat) : Int) * unit q := by
        rw [← hj, add_comm, pow2_add, pow2_natCast, unit]
        push_cast
        ring
      rw [hmultiple] at hle ⊢
      exact mul_unit_le_round53 hq hle

/-! ### Waits -/

theorem isShort_seconds (nanos : Nat) : IsShort (seconds nanos) := isShort_round53 _

/-- Up to 2^32 ms, less than half a nanosecond is lost where a wait is taken in seconds. -/
theorem sub_lt_seconds {nanos : Nat} (h : nanos ≤ 2 ^ 32 * nanosPerMilli) :
    (nanos : ℚ) - 1 / 2 < seconds nanos * 1000000000 := by
  obtain ⟨whole, hwhole⟩ : ∃ whole, whole = nanos / 1000000000 := ⟨_, rfl⟩
  obtain ⟨rest, hrest⟩ : ∃ rest, rest = nanos % 1000000000 := ⟨_, rfl⟩
  have hparts : (nanos : ℚ) = whole * 1000000000 + rest := by
    exact_mod_cast (by omega : nanos = whole * 1000000000 + rest)
  have hsmall : (rest : ℚ) < 1000000000 := by
    exact_mod_cast (by omega : rest < 1000000000)
  have hmost : (nanos : ℚ) ≤ 4294967296000000 := by
    exact_mod_cast h
  have hfront : (whole : ℚ) ≤ round53 whole :=
    (isShort_natCast (by simp only [nanosPerMilli] at h; omega)).le_round53 le_rfl
  have hback := sub_le_round53 (q := (rest : ℚ) / 1000000000) (by positivity)
  have hsum := sub_le_round53 (q := round53 whole + round53 ((rest : ℚ) / 1000000000))
    (add_nonneg (isShort_round53 _).nonneg (isShort_round53 _).nonneg)
  rw [seconds, ← hwhole, ← hrest]
  linarith

/-- By taking a wait in seconds, and by multiplying it, no more than four bits are gained. -/
theorem scale_le (factor : Decimal) (nanos : Nat) :
    (scale factor nanos : ℚ) ≤ 16 * max 1 (ratOf factor) * nanos + 1 := by
  obtain ⟨whole, hwhole⟩ : ∃ whole, whole = nanos / 1000000000 := ⟨_, rfl⟩
  obtain ⟨rest, hrest⟩ : ∃ rest, rest = nanos % 1000000000 := ⟨_, rfl⟩
  have hparts : (nanos : ℚ) = whole * 1000000000 + rest := by
    exact_mod_cast (by omega : nanos = whole * 1000000000 + rest)
  have hseconds : seconds nanos * 1000000000 ≤ 4 * nanos := by
    have hfront := round53_le_two_mul (q := whole) (Nat.cast_nonneg whole)
    have hback := round53_le_two_mul (q := (rest : ℚ) / 1000000000) (by positivity)
    have hsum := round53_le_two_mul (q := round53 whole + round53 ((rest : ℚ) / 1000000000))
      (add_nonneg (isShort_round53 _).nonneg (isShort_round53 _).nonneg)
    rw [seconds, ← hwhole, ← hrest, hparts]
    linarith
  have hgrowth : (if round53 (ratOf factor) < 1 then 1 else round53 (ratOf factor) : ℚ) ≤
      2 * max 1 (ratOf factor) := by
    have hone := le_max_left 1 (ratOf factor)
    split
    · linarith
    · rename_i hless
      have hpos : 0 ≤ ratOf factor := by
        by_contra hneg
        exact hless (by rw [round53_of_nonpos (not_le.mp hneg).le]; exact one_pos)
      have hmost := round53_le_two_mul hpos
      have hsecond := le_max_right 1 (ratOf factor)
      linarith
  have hfirst : (0 : ℚ) ≤ if round53 (ratOf factor) < 1 then 1 else round53 (ratOf factor) := by
    split
    · exact zero_le_one
    · exact (isShort_round53 _).nonneg
  rw [scale]
  generalize (if round53 (ratOf factor) < 1 then 1 else round53 (ratOf factor) : ℚ) = growth at hgrowth hfirst ⊢
  have hproduct := round53_le_two_mul (mul_nonneg hfirst (isShort_seconds nanos).nonneg)
  have hnear := (abs_le.mp (abs_roundEven_sub_le (round53 (growth * seconds nanos) * 1000000000))).2
  have hgrown : growth * (seconds nanos * 1000000000) ≤ 2 * max 1 (ratOf factor) * (4 * nanos) :=
    mul_le_mul hgrowth hseconds (mul_nonneg (isShort_seconds nanos).nonneg (by norm_num))
      (hfirst.trans hgrowth)
  have hrounded : (roundEven (round53 (growth * seconds nanos) * 1000000000) : ℚ) ≤
      16 * max 1 (ratOf factor) * nanos + 1 := by
    linarith
  have hpos : (0 : ℚ) ≤ 16 * max 1 (ratOf factor) * nanos + 1 := by positivity
  rcases Int.le_total 0 (roundEven (round53 (growth * seconds nanos) * 1000000000)) with hsign | hsign
  · rw [← Int.cast_natCast, Int.toNat_of_nonneg hsign]
    exact hrounded
  · rw [Int.toNat_of_nonpos hsign]
    exact hpos

/-- Up to 2^32 ms, a wait that is multiplied becomes no shorter. -/
theorem le_scale (factor : Decimal) {nanos : Nat} (h : nanos ≤ 2 ^ 32 * nanosPerMilli) :
    nanos ≤ scale factor nanos := by
  have hfactor : (1 : ℚ) ≤ if round53 (ratOf factor) < 1 then 1 else round53 (ratOf factor) := by
    split
    · exact le_rfl
    · rename_i hless
      exact not_lt.mp hless
  rw [scale]
  generalize (if round53 (ratOf factor) < 1 then 1 else round53 (ratOf factor) : ℚ) = growth at hfactor ⊢
  have hseconds := isShort_seconds nanos
  have hproduct : seconds nanos ≤ round53 (growth * seconds nanos) :=
    hseconds.le_round53 (le_mul_of_one_le_left hseconds.nonneg hfactor)
  have hnear := sub_lt_seconds h
  have hrounded : (nanos : Int) ≤ roundEven (round53 (growth * seconds nanos) * 1000000000) :=
    le_roundEven (by push_cast; linarith)
  omega

end CrowdPad.Backoff

namespace CrowdPad.RemoteSettings

/-- The longest wait that the settings allow, in nanoseconds. -/
def ceiling (s : RemoteSettings) : Nat := s.maxBackoffMs * Backoff.nanosPerMilli

variable {s : RemoteSettings} {nanos later count : Nat}

/-- Whether a wait is a first one or within the ceiling. -/
def IsAllowed (s : RemoteSettings) (nanos : Nat) : Prop := nanos = s.firstBackoff ∨ nanos ≤ s.ceiling

/-- Whether every wait that the settings allow, multiplied, is still a length of time: their seconds are
numbers of 64 bits. A worker that multiplies a longer wait ends there and then. -/
def Multiplies (s : RemoteSettings) : Prop :=
  ∀ nanos, s.IsAllowed nanos → Backoff.scale s.backoffFactor nanos < 2 ^ 64 * 1000000000

/-- A factor and waits that are not immense are enough. -/
theorem multiplies_of_lt
    (h : 16 * max 1 (Backoff.ratOf s.backoffFactor) * (max s.firstBackoff s.ceiling : Nat) + 1 <
      2 ^ 64 * 1000000000) : s.Multiplies := by
  intro nanos hallowed
  have hmost : nanos ≤ max s.firstBackoff s.ceiling := by
    rcases hallowed with rfl | hcapped
    · exact le_max_left _ _
    · exact hcapped.trans (le_max_right _ _)
  have hscaled : (Backoff.scale s.backoffFactor nanos : ℚ) < 2 ^ 64 * 1000000000 :=
    calc (Backoff.scale s.backoffFactor nanos : ℚ)
        ≤ 16 * max 1 (Backoff.ratOf s.backoffFactor) * nanos + 1 := Backoff.scale_le _ nanos
      _ ≤ 16 * max 1 (Backoff.ratOf s.backoffFactor) * (max s.firstBackoff s.ceiling : Nat) + 1 := by
          gcongr
      _ < 2 ^ 64 * 1000000000 := h
  exact_mod_cast hscaled

/-- Every wait but a first one is within the ceiling. -/
theorem nextBackoff_le (s : RemoteSettings) (nanos : Nat) : s.nextBackoff nanos ≤ s.ceiling :=
  Nat.min_le_right ..

/-- The wait behind one that is within the ceiling is no shorter. -/
theorem le_nextBackoff (hmax : s.maxBackoffMs ≤ 2 ^ 32) (h : nanos ≤ s.ceiling) :
    nanos ≤ s.nextBackoff nanos :=
  Nat.le_min.mpr ⟨Backoff.le_scale _ (h.trans (Nat.mul_le_mul_right _ hmax)), h⟩

theorem le_ceiling_of_mem_iterate (h : nanos ≤ s.ceiling)
    (hmem : later ∈ List.iterate s.nextBackoff nanos count) : later ≤ s.ceiling := by
  induction count generalizing nanos with
  | zero => cases hmem
  | succ count ih =>
      rcases List.mem_cons.mp hmem with rfl | hmem
      · exact h
      · exact ih (s.nextBackoff_le nanos) hmem

theorem le_of_mem_iterate (hmax : s.maxBackoffMs ≤ 2 ^ 32) (h : nanos ≤ s.ceiling)
    (hmem : later ∈ List.iterate s.nextBackoff nanos count) : nanos ≤ later := by
  induction count generalizing nanos with
  | zero => cases hmem
  | succ count ih =>
      rcases List.mem_cons.mp hmem with rfl | hmem
      · exact le_rfl
      · exact (le_nextBackoff hmax h).trans (ih (s.nextBackoff_le nanos) hmem)

/-- Waits that follow each other do not become shorter, from one that is within the ceiling on. -/
theorem pairwise_iterate (hmax : s.maxBackoffMs ≤ 2 ^ 32) (h : nanos ≤ s.ceiling) (count : Nat) :
    (List.iterate s.nextBackoff nanos count).Pairwise (· ≤ ·) := by
  induction count generalizing nanos with
  | zero => exact .nil
  | succ count ih =>
      refine List.pairwise_cons.mpr ⟨fun later hmem => ?_, ih (s.nextBackoff_le nanos)⟩
      exact (le_nextBackoff hmax h).trans (le_of_mem_iterate hmax (s.nextBackoff_le nanos) hmem)

end CrowdPad.RemoteSettings
