import Mathlib.Tactic.Ring
import Mathlib.Tactic.Linarith
import Mathlib.Algebra.Order.Ring.Pow

/-!
# Retry backoff

A strategy grows a ceiling with the retry count and draws the delay below it. Durations are 64-bit nanoseconds, and
the exponential ceiling is computed by a shift. The shift drops high bits: a product past `2 ^ 64` may come back as a
small positive number, which the tests after the shift do not tell from a product that fits. From the 62nd retry on
the maximum is taken for granted, although a base of one nanosecond is then still below the largest maximum.
-/

namespace Conveyor

/-- How the ceiling grows with the retry count. -/
inductive BackoffKind where
  | exponential
  | linear
  | fixed
  deriving DecidableEq

/-- A retry strategy. -/
structure Strategy where
  kind : BackoffKind
  base : Int64
  maxDelay : Int64
  deriving DecidableEq

namespace Strategy

/-- The base times a factor, bounded by the maximum; the factor is tested before the multiplication. -/
def scaled (s : Strategy) (factor : Int64) : Int64 :=
  if s.base ≤ 0 ∨ factor ≤ 0 then s.maxDelay
  else if factor > s.maxDelay / s.base then s.maxDelay
  else s.base * factor

/-- The ceiling of the delay. -/
def ceiling (s : Strategy) (retried : Int32) : Int64 :=
  match s.kind with
  | .linear => s.scaled (retried.toInt64 + 1)
  | .fixed => min s.base s.maxDelay
  | .exponential =>
    let shifted := s.base <<< retried.toInt64
    if retried < 62 ∧ 0 < shifted ∧ shifted < s.maxDelay then shifted else s.maxDelay

/-- The delay of a retry; `randN n` is the number drawn below `n`. -/
def delay (randN : Int64 → Int64) (s : Strategy) (retried : Int32) : Int64 :=
  let ceiling := s.ceiling (if retried < 0 then 0 else retried)
  if ceiling ≤ 0 then 0
  else if s.kind = .fixed then ceiling
  else randN ceiling

end Strategy

/-- The retry strategy of a task, as the wire has it. -/
inductive RetryStrategy where
  | unspecified
  | exponential
  | linear
  | fixed
  | unrecognized (value : Int32)
  deriving DecidableEq

/-- A task's own retry policy. -/
structure RetryPolicy where
  strategy : RetryStrategy := .unspecified
  base : Int64 := 0
  max : Int64 := 0
  deriving DecidableEq

/-- The kind a wire strategy names. -/
def backoffKind : RetryStrategy → Option BackoffKind
  | .exponential => some .exponential
  | .linear => some .linear
  | .fixed => some .fixed
  | .unspecified | .unrecognized _ => none

/-- The strategy of one task: its policy, each field left at zero taken from the default. -/
def retryStrategyFor (defaultStrategy : Strategy) : Option RetryPolicy → Strategy
  | none => defaultStrategy
  | some policy =>
    { kind := (backoffKind policy.strategy).getD defaultStrategy.kind
      base := if policy.base ≤ 0 then defaultStrategy.base else policy.base
      maxDelay := if policy.max ≤ 0 then defaultStrategy.maxDelay else policy.max }

namespace Strategy

/-- A strategy with delays to wait. -/
def Positive (s : Strategy) : Prop := 0 < s.base ∧ 0 < s.maxDelay

instance (s : Strategy) : Decidable s.Positive := inferInstanceAs (Decidable (_ ∧ _))

/-- Whatever policy a task brings, its strategy has delays to wait when the default has. -/
theorem retryStrategyFor_positive {s : Strategy} (h : s.Positive) (policy : Option RetryPolicy) :
    (retryStrategyFor s policy).Positive := by
  cases policy with
  | none => exact h
  | some policy =>
    constructor
    · dsimp only [retryStrategyFor]
      split
      · exact h.1
      · rename_i hpositive
        exact Int64.not_le.mp hpositive
    · dsimp only [retryStrategyFor]
      split
      · exact h.2
      · rename_i hpositive
        exact Int64.not_le.mp hpositive

/-- The ceiling in unbounded integers, before the maximum. -/
def growth (s : Strategy) (retried : Nat) : Int :=
  match s.kind with
  | .exponential => s.base.toInt * 2 ^ retried
  | .linear => s.base.toInt * (retried + 1)
  | .fixed => s.base.toInt

/-- An exponential product that the tests misjudge: one past 64 bits whose low bits pass for a delay below the
maximum, or one that is still below the maximum after 62 retries. -/
def Misjudged (s : Strategy) (retried : Nat) : Prop :=
  s.kind = .exponential ∧
    if retried < 62 then
      2 ^ 64 < s.growth retried ∧ 0 < (s.growth retried).bmod (2 ^ 64) ∧
        (s.growth retried).bmod (2 ^ 64) < s.maxDelay.toInt
    else s.growth retried < s.maxDelay.toInt

instance (s : Strategy) (retried : Nat) : Decidable (s.Misjudged retried) := inferInstanceAs (Decidable (_ ∧ _))

variable {s : Strategy}

theorem growth_pos (hbase : 0 < s.base) (n : Nat) : 0 < s.growth n := by
  have hpos : 0 < s.base.toInt := Int64.lt_iff_toInt_lt.mp hbase
  rw [growth]
  cases s.kind with
  | exponential => positivity
  | linear => positivity
  | fixed => exact hpos

/-- The unbounded ceiling never decreases. -/
theorem growth_mono (hbase : 0 < s.base) {n m : Nat} (h : n ≤ m) : s.growth n ≤ s.growth m := by
  have hpos := Int64.lt_iff_toInt_lt.mp hbase
  rw [growth, growth]
  cases s.kind with
  | exponential => exact mul_le_mul_of_nonneg_left (pow_le_pow_right₀ (by decide) h) hpos.le
  | linear => exact mul_le_mul_of_nonneg_left (by omega) hpos.le
  | fixed => exact le_rfl

theorem natCast_toNat_of_nonneg {w : Nat} {x : BitVec w} (h : 0 ≤ x.toInt) : (x.toNat : Int) = x.toInt :=
  (BitVec.toInt_eq_toNat_of_msb (by rw [BitVec.msb_eq_toInt, decide_eq_false (not_lt.mpr h)])).symm

variable {retried : Int32}

/-- A shift multiplies by a power of two in 64 bits. -/
theorem toInt_shiftLeft {base : Int64} (hbase : 0 < base) (hlow : 0 ≤ retried) (hhigh : retried < 62) :
    (base <<< retried.toInt64).toInt = (base.toInt * 2 ^ retried.toInt.toNat).bmod (2 ^ 64) := by
  have hlow := Int32.le_iff_toInt_le.mp hlow
  have hhigh := Int32.lt_iff_toInt_lt.mp hhigh
  have hpos := Int64.lt_iff_toInt_lt.mp hbase
  have hsmod : (retried.toInt64.toBitVec.smod 64).toInt = retried.toInt := by
    rw [BitVec.toInt_smod, Int64.toInt_toBitVec, Int32.toInt_toInt64]
    exact Int.fmod_eq_of_lt hlow (hhigh.trans (by decide))
  have hmod : (retried.toInt64.toBitVec.smod 64).toNat = retried.toInt.toNat := by
    have := natCast_toNat_of_nonneg (hsmod ▸ hlow)
    omega
  rw [← Int64.toInt_toBitVec, Int64.toBitVec_shiftLeft, BitVec.shiftLeft_eq', hmod, BitVec.toInt_shiftLeft,
    Nat.shiftLeft_eq, Nat.cast_mul, natCast_toNat_of_nonneg (x := base.toBitVec) hpos.le]
  norm_cast

/-- The scaled ceiling is the bounded product, whatever the factor. -/
theorem toInt_scaled (h : s.Positive) {factor : Int64} (hfactor : 0 < factor) :
    (s.scaled factor).toInt = min s.maxDelay.toInt (s.base.toInt * factor.toInt) := by
  have hbase := Int64.lt_iff_toInt_lt.mp h.1
  have hmax := Int64.lt_iff_toInt_lt.mp h.2
  have hpos := Int64.lt_iff_toInt_lt.mp hfactor
  have hdiv : (s.maxDelay / s.base).toInt = s.maxDelay.toInt / s.base.toInt := by
    rw [Int64.toInt_div_of_ne_right, Int.tdiv_eq_ediv_of_nonneg hmax.le]
    intro heq
    rw [heq] at hbase
    exact absurd hbase (by decide)
  have hguard := not_or.mpr ⟨Int64.not_le.mpr h.1, Int64.not_le.mpr hfactor⟩
  have htest : s.maxDelay / s.base < factor ↔ s.maxDelay.toInt < s.base.toInt * factor.toInt := by
    rw [Int64.lt_iff_toInt_lt, hdiv, Int.ediv_lt_iff_lt_mul hbase, mul_comm]
  rw [scaled, if_neg hguard]
  by_cases hlarge : s.maxDelay.toInt < s.base.toInt * factor.toInt
  · rw [if_pos (htest.mpr hlarge), min_eq_left hlarge.le]
  · have hlt := Int64.toInt_lt s.maxDelay
    have hproduct := mul_pos hbase hpos
    rw [if_neg fun hover => hlarge (htest.mp hover), Int64.toInt_mul, min_eq_right (not_lt.mp hlarge)]
    refine Int.bmod_eq_of_le ?_ ?_ <;> omega

/-- The exponential ceiling is the bounded product exactly when the 64-bit tests see the product as it is, or see it
as past them. -/
theorem toInt_ceiling_exponential (h : s.Positive) (hkind : s.kind = .exponential) (hretried : 0 ≤ retried) :
    (s.ceiling retried).toInt = min s.maxDelay.toInt (s.growth retried.toInt.toNat) ↔
      ¬ s.Misjudged retried.toInt.toNat := by
  have hmax := Int64.toInt_lt s.maxDelay
  have hpos := growth_pos h.1 retried.toInt.toNat
  have hgrowth : s.growth retried.toInt.toNat = s.base.toInt * 2 ^ retried.toInt.toNat := by rw [growth, hkind]
  have hnat := Int32.le_iff_toInt_le.mp hretried
  have hless : retried < 62 ↔ retried.toInt.toNat < 62 := by
    rw [Int32.lt_iff_toInt_lt, show (62 : Int32).toInt = 62 from rfl]
    omega
  rw [Misjudged, and_iff_right hkind]
  simp only [ceiling, hkind, hless]
  by_cases hhigh : retried.toInt.toNat < 62
  · have hshift := toInt_shiftLeft h.1 hretried (hless.mpr hhigh)
    simp only [Int64.lt_iff_toInt_lt, hshift, ← hgrowth, hhigh, Int64.toInt_zero, true_and, if_true]
    -- a product that fits is seen as it is, and one up to `2 ^ 64` is seen as not positive
    have hseen : (s.growth retried.toInt.toNat).bmod (2 ^ 64) = s.growth retried.toInt.toNat ∨
        2 ^ 63 ≤ s.growth retried.toInt.toNat ∧
          (s.growth retried.toInt.toNat ≤ 2 ^ 64 → (s.growth retried.toInt.toNat).bmod (2 ^ 64) ≤ 0) := by
      rw [Int.bmod_def]
      split <;> omega
    split
    · rw [hshift, ← hgrowth]
      omega
    · omega
  · rw [if_neg hhigh, if_neg fun htests => hhigh htests.1, not_lt, eq_comm, min_eq_left_iff]

/-- A ceiling is the bounded growth exactly when the product is not misjudged. -/
theorem toInt_ceiling (h : s.Positive) (hretried : 0 ≤ retried) :
    (s.ceiling retried).toInt = min s.maxDelay.toInt (s.growth retried.toInt.toNat) ↔
      ¬ s.Misjudged retried.toInt.toNat := by
  have hother : s.kind ≠ .exponential → ¬ s.Misjudged retried.toInt.toNat := fun hkind hmisjudged =>
    hkind hmisjudged.1
  cases hkind : s.kind with
  | exponential => exact toInt_ceiling_exponential h hkind hretried
  | linear =>
    have hnat : 0 ≤ retried.toInt := Int32.le_iff_toInt_le.mp hretried
    have hlt := Int32.toInt_lt retried
    have hfactor : (retried.toInt64 + 1).toInt = retried.toInt + 1 := by
      rw [Int64.toInt_add, Int32.toInt_toInt64, Int64.toInt_one]
      refine Int.bmod_eq_of_le ?_ ?_ <;> omega
    have hfactorPos : 0 < retried.toInt64 + 1 := by
      rw [Int64.lt_iff_toInt_lt, hfactor, Int64.toInt_zero]
      omega
    refine iff_of_true ?_ (hother (by rw [hkind]; decide))
    rw [ceiling, hkind, growth, hkind]
    dsimp only
    rw [toInt_scaled h hfactorPos, hfactor, Int.toNat_of_nonneg hnat]
  | fixed =>
    refine iff_of_true ?_ (hother (by rw [hkind]; decide))
    rw [ceiling, hkind, growth, hkind]
    change (if s.base ≤ s.maxDelay then s.base else s.maxDelay).toInt = min s.maxDelay.toInt s.base.toInt
    split
    · rename_i hle
      exact (min_eq_right (Int64.le_iff_toInt_le.mp hle)).symm
    · rename_i hlt
      exact (min_eq_left (Int64.lt_iff_toInt_lt.mp (Int64.not_le.mp hlt)).le).symm

/-- A ceiling is positive. -/
theorem ceiling_pos (h : s.Positive) (hretried : 0 ≤ retried) : 0 < s.ceiling retried := by
  by_cases hjudged : s.Misjudged retried.toInt.toNat
  · simp only [ceiling, hjudged.1]
    split_ifs with htests
    · exact htests.2.1
    · exact h.2
  · rw [Int64.lt_iff_toInt_lt, (toInt_ceiling h hretried).mpr hjudged]
    exact lt_min (Int64.lt_iff_toInt_lt.mp h.2) (growth_pos h.1 _)

/-- For every strategy and retry count, the ceiling is the smaller of the maximum and the unbounded growth exactly when
the exponential product is not misjudged; between such counts it never decreases; and the delay is drawn below it, or
equal to it for a fixed strategy. -/
theorem ceiling_eq_min (s : Strategy) (retried : Int32) (randN : Int64 → Int64) (h : s.Positive)
    (hretried : 0 ≤ retried) (hrand : ∀ n, 0 < n → 0 ≤ randN n ∧ randN n < n) :
    ((s.ceiling retried).toInt = min s.maxDelay.toInt (s.growth retried.toInt.toNat) ↔
      ¬ s.Misjudged retried.toInt.toNat) ∧
      (∀ later, retried ≤ later → ¬ s.Misjudged retried.toInt.toNat → ¬ s.Misjudged later.toInt.toNat →
        s.ceiling retried ≤ s.ceiling later) ∧ 0 ≤
      s.delay randN retried ∧ (s.kind ≠ .fixed → s.delay randN retried < s.ceiling retried) ∧
      (s.kind = .fixed → s.delay randN retried = s.ceiling retried) := by
  have hpos := ceiling_pos h hretried
  have hdelay : s.delay randN retried = if s.kind = .fixed then s.ceiling retried else randN (s.ceiling retried) := by
    simp only [delay, if_neg (Int32.not_lt.mpr hretried), if_neg (Int64.not_le.mpr hpos)]
  refine ⟨toInt_ceiling h hretried, fun later hlater hjudged hjudged' => ?_, ?_, fun hkind => ?_, fun hkind => ?_⟩
  · have hle := Int32.le_iff_toInt_le.mp hlater
    rw [Int64.le_iff_toInt_le, (toInt_ceiling h hretried).mpr hjudged,
      (toInt_ceiling h (Int32.le_trans hretried hlater)).mpr hjudged']
    exact min_le_min_left _ (growth_mono h.1 (Int.toNat_le_toNat hle))
  · rw [hdelay]
    split
    · exact Int64.le_of_lt hpos
    · exact (hrand _ hpos).1
  · rw [hdelay, if_neg hkind]
    exact (hrand _ hpos).2
  · rw [hdelay, if_pos hkind]

/-- Doubling from two seconds up to a quarter of an hour. -/
def standard : Strategy := ⟨.exponential, 2000000000, 900000000000⟩

/-- The third retry waits at most sixteen seconds. -/
theorem ceiling_eq_min_third : (standard.ceiling 3).toInt = 16000000000 ∧ standard.ceiling 3 ≤ standard.ceiling 9 := by
  obtain ⟨hceiling, hmono, -⟩ := ceiling_eq_min standard 3 (fun _ => 0) (by decide) (by decide)
    fun n hn => ⟨Int64.le_refl _, hn⟩
  exact ⟨(hceiling.mpr (by decide)).trans (by decide), hmono 9 (by decide) (by decide) (by decide)⟩

/-- A base of about 67 milliseconds: the 38th retry waits at most five minutes after the 37th waited a quarter of an
hour. -/
theorem ceiling_misjudged :
    let s : Strategy := ⟨.exponential, 67108865, 900000000000⟩
    s.Positive ∧ min s.maxDelay.toInt (s.growth 38) = 900000000000 ∧ s.ceiling 37 = 900000000000 ∧
      s.ceiling 38 = 274877906944 := by
  decide

end Strategy

end Conveyor
