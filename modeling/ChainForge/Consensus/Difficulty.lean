import ChainForge.Consensus.ProofOfWork
import ChainForge.Lib.ExactDouble
import Mathlib.Algebra.Order.Field.Basic
import Mathlib.Tactic.Linarith

/-!
# Difficulty adjustment

`modules/consensus/src/consensus_impl.cpp`: `bitcoin_style_adjustment` and `ethereum_style_adjustment`,
over a type `F` of doubles.  Both scale the difficulty by a factor, convert the product to an
integer and clamp it to the default bounds.

The facts are about doubles that compute exactly, with an outcome `wild` for a conversion that is
undefined.

* `settle_le_iff`, `le_settle_iff`   bounds of a result, whatever the undefined outcomes are;
* `bitcoinProduct_eq`, `ethereumProduct_eq`   the products that are converted;
* `negative_feedback_iff`   **when the adjustments are negative feedback**: `bitcoin_style_adjustment`
                            multiplies by the ratio where it should divide, and the sum of the block
                            times in `ethereum_style_adjustment` may wrap around.
-/

set_option linter.unusedSectionVars false

namespace ChainForge
namespace Consensus
open Extended

structure DifficultyParams where
  targetBlockTimeSeconds : UInt64 := 15
  adjustmentIntervalBlocks : UInt64 := 144
  maxAdjustmentFactor : UInt64 := 4
  minDifficulty : UInt64 := 1
  maxDifficulty : UInt64 := 18446744073709551615
  deriving DecidableEq, Repr

/-- `std::clamp` -/
def clampDifficulty (v lo hi : Difficulty) : Difficulty :=
  if v < lo then lo else if hi < v then hi else v

namespace Pow

section
variable (F : Type) [Double F]

/-- the end of both adjustments: conversion, and the bounds of `default_params` -/
def settle (product : F) : Difficulty :=
  let newDifficulty := Double.toSize product
  let defaultParams : DifficultyParams := {}
  clampDifficulty newDifficulty defaultParams.minDifficulty defaultParams.maxDifficulty

/-- `current_difficulty * ratio` -/
def bitcoinProduct (actualTimeSeconds targetTimeSeconds currentDifficulty
    maxAdjustmentFactor : UInt64) : F :=
  let ratio : F := Double.div (Double.ofNat actualTimeSeconds.toNat)
    (Double.ofNat targetTimeSeconds.toNat)
  let ratio := Double.clamp ratio
    (Double.div (Double.lit 1) (Double.ofNat maxAdjustmentFactor.toNat))
    (Double.ofNat maxAdjustmentFactor.toNat)
  Double.mul (Double.ofNat currentDifficulty.toNat) ratio

def bitcoinStyleAdjustment (actualTimeSeconds targetTimeSeconds currentDifficulty
    maxAdjustmentFactor : UInt64) : Difficulty :=
  if targetTimeSeconds == 0 then currentDifficulty
  else settle F (bitcoinProduct F actualTimeSeconds targetTimeSeconds currentDifficulty
    maxAdjustmentFactor)

/-- `current_difficulty * adjustment_factor`; the block times are added modulo `2^64` -/
def ethereumProduct (recentBlockTimes : List UInt64) (targetTimeSeconds currentDifficulty : UInt64) :
    F :=
  let totalTime := recentBlockTimes.foldl (· + ·) 0
  let avgBlockTime : F := Double.div (Double.ofNat totalTime.toNat)
    (Double.ofNat recentBlockTimes.length)
  let adjustmentFactor := Double.div (Double.ofNat targetTimeSeconds.toNat) avgBlockTime
  let adjustmentFactor := Double.clamp adjustmentFactor (Double.lit (1/2)) (Double.lit 2)
  Double.mul (Double.ofNat currentDifficulty.toNat) adjustmentFactor

def ethereumStyleAdjustment (recentBlockTimes : List UInt64)
    (targetTimeSeconds currentDifficulty : UInt64) : Difficulty :=
  if recentBlockTimes.isEmpty then currentDifficulty
  else settle F (ethereumProduct F recentBlockTimes targetTimeSeconds currentDifficulty)

end

/-! ## results -/

section
variable {wild : Extended → UInt64} {x : Extended}

theorem settle_toNat (x : Extended) : (settle (ExactDouble wild) x).toNat
    = max 1 (Double.toSize (F := ExactDouble wild) x).toNat := by
  show (clampDifficulty (Double.toSize (F := ExactDouble wild) x) 1 18446744073709551615).toNat = _
  generalize Double.toSize (F := ExactDouble wild) x = v
  have hv := v.toNat_lt
  have hone : v < 1 ↔ v.toNat < 1 := UInt64.lt_iff_toNat_lt
  have hmax : ¬ (18446744073709551615 : UInt64) < v := by
    rw [UInt64.lt_iff_toNat_lt]
    change ¬ 18446744073709551615 < v.toNat
    omega
  unfold clampDifficulty
  rw [if_neg hmax]
  by_cases h : v < 1
  · rw [if_pos h, max_eq_left (hone.mp h).le]
    rfl
  · rw [if_neg h, max_eq_right (not_lt.mp (mt hone.mpr h))]

theorem one_le_settle (x : Extended) : 1 ≤ (settle (ExactDouble wild) x).toNat := by
  rw [settle_toNat]
  exact le_max_left _ _

theorem settle_num {q : ℚ≥0} (h : ⌊q⌋₊ < 2 ^ 64) :
    (settle (ExactDouble wild) (num q)).toNat = max 1 ⌊q⌋₊ := by
  rw [settle_toNat, ExactDouble.toSize_num h]

/-- **An upper bound of a result**: where the product does not fit, the result may be the largest. -/
theorem settle_le_iff {u : Nat} (hu : 1 ≤ u) (hu' : u < 2 ^ 64) :
    (∀ wild, (settle (ExactDouble wild) x).toNat ≤ u) ↔
      u = 2 ^ 64 - 1 ∨ ∃ q, x = num q ∧ q < u + 1 := by
  have hfloor : ∀ q : ℚ≥0, ⌊q⌋₊ ≤ u ↔ q < u + 1 := by
    intro q
    rw [← Nat.lt_succ_iff, Nat.floor_lt' (Nat.succ_ne_zero u), Nat.cast_succ]
  constructor
  · intro h
    by_cases hfits : x.Fits
    · obtain ⟨q, rfl, hq⟩ := hfits
      have hle := h fun _ => 0
      rw [settle_num hq] at hle
      exact Or.inr ⟨q, rfl, (hfloor q).mp ((le_max_right _ _).trans hle)⟩
    · have hle := h fun _ => 18446744073709551615
      rw [settle_toNat, ExactDouble.toSize_of_not_fits hfits] at hle
      change max 1 18446744073709551615 ≤ u at hle
      exact Or.inl (by omega)
  · rintro (rfl | ⟨q, rfl, hq⟩) wild
    · have := (settle (ExactDouble wild) x).toNat_lt
      omega
    · have hfits : q < 2 ^ 64 := by
        refine lt_of_lt_of_le hq ?_
        exact_mod_cast Nat.succ_le_of_lt hu'
      rw [settle_num (Extended.floor_lt.mpr hfits)]
      exact max_le hu ((hfloor q).mpr hq)

/-- **A lower bound of a result**: where the product does not fit, the result may be 1. -/
theorem le_settle_iff {l : Nat} :
    (∀ wild, l ≤ (settle (ExactDouble wild) x).toNat) ↔
      l ≤ 1 ∨ ∃ q, x = num q ∧ q < 2 ^ 64 ∧ l ≤ q := by
  constructor
  · intro h
    by_cases hfits : x.Fits
    · obtain ⟨q, rfl, hq⟩ := hfits
      have hle := h fun _ => 0
      rw [settle_num hq, le_max_iff] at hle
      refine hle.imp id fun hl => ⟨q, rfl, Extended.floor_lt.mp hq, ?_⟩
      exact (Nat.cast_le.mpr hl).trans (Nat.floor_le zero_le)
    · have hle := h fun _ => 0
      rw [settle_toNat, ExactDouble.toSize_of_not_fits hfits] at hle
      exact Or.inl hle
  · rintro (hl | ⟨q, rfl, hq, hl⟩) wild
    · exact hl.trans (one_le_settle x)
    · rw [settle_num (Extended.floor_lt.mpr hq)]
      exact (Nat.le_floor hl).trans (le_max_right _ _)

end

/-! ## products -/

section
variable {wild : Extended → UInt64} {a t d m : UInt64} {times : List UInt64}

/-- the ratio of actual to target time, limited to `[1/m, m]` -/
def ratio (a t m : Nat) : ℚ≥0 := max (1 / (m : ℚ≥0)) (min ((a : ℚ≥0) / t) m)

theorem cast_ne_zero {n : UInt64} (h : 0 < n) : (n.toNat : ℚ≥0) ≠ 0 := by
  rw [UInt64.lt_iff_toNat_lt] at h
  exact Nat.cast_ne_zero.mpr (Nat.ne_of_gt h)

theorem bitcoinProduct_eq (ht : 0 < t) (hm : 0 < m) :
    bitcoinProduct (ExactDouble wild) a t d m = num (d.toNat * ratio a.toNat t.toNat m.toNat) := by
  have hone : (1 : ℚ≥0) ≤ m.toNat := by
    rw [UInt64.lt_iff_toNat_lt] at hm
    exact_mod_cast hm
  have hle : (1 : ℚ≥0) / m.toNat ≤ m.toNat := (div_le_one_of_le₀ hone zero_le).trans hone
  have hlit : (Double.lit 1 : ExactDouble wild) = num 1 := ExactDouble.lit_eq 1
  unfold bitcoinProduct ratio
  dsimp only
  rw [hlit, ExactDouble.ofNat_eq, ExactDouble.ofNat_eq, ExactDouble.ofNat_eq, ExactDouble.ofNat_eq,
    ExactDouble.div_num _ (cast_ne_zero ht), ExactDouble.div_num _ (cast_ne_zero hm),
    ExactDouble.clamp_num hle]
  rfl

theorem bitcoinStyleAdjustment_eq (ht : 0 < t) (hm : 0 < m) :
    bitcoinStyleAdjustment (ExactDouble wild) a t d m
      = settle (ExactDouble wild) (num (d.toNat * ratio a.toNat t.toNat m.toNat)) := by
  have hne : ¬ (t == 0) = true := by
    rw [beq_iff_eq]
    rintro rfl
    exact absurd ht (UInt64.lt_irrefl 0)
  unfold bitcoinStyleAdjustment
  rw [if_neg hne, bitcoinProduct_eq ht hm]

/-- the block times added as natural numbers -/
def totalSeconds (times : List UInt64) : Nat := (times.map (·.toNat)).sum

/-- target over average block time, limited to `[1/2, 2]` -/
def factor (total count t : Nat) : ℚ≥0 :=
  if total = 0 then 2 else max (1 / 2) (min ((t : ℚ≥0) * count / total) 2)

theorem foldl_add_toNat (times : List UInt64) (b : UInt64) :
    (times.foldl (· + ·) b).toNat = (b.toNat + totalSeconds times) % 2 ^ 64 := by
  induction times generalizing b with
  | nil => exact (Nat.mod_eq_of_lt b.toNat_lt).symm
  | cons c times ih =>
    rw [List.foldl_cons, ih, UInt64.toNat_add]
    unfold totalSeconds
    rw [List.map_cons, List.sum_cons]
    omega

theorem ethereumProduct_eq (ht : 0 < t) (hne : times ≠ []) :
    ethereumProduct (ExactDouble wild) times t d
      = num (d.toNat * factor (totalSeconds times % 2 ^ 64) times.length t.toNat) := by
  have hlen : (times.length : ℚ≥0) ≠ 0 :=
    Nat.cast_ne_zero.mpr (mt List.length_eq_zero_iff.mp hne)
  have hhalf : (Double.lit (1/2) : ExactDouble wild) = num (1/2) := ExactDouble.lit_eq (1/2)
  have htwo : (Double.lit 2 : ExactDouble wild) = num 2 := ExactDouble.lit_eq 2
  have hle : (1 / 2 : ℚ≥0) ≤ 2 := (half_le_self zero_le).trans one_le_two
  have hsum : (times.foldl (· + ·) 0).toNat = totalSeconds times % 2 ^ 64 := by
    rw [foldl_add_toNat]
    exact congrArg (· % 2 ^ 64) (Nat.zero_add _)
  unfold ethereumProduct factor
  dsimp only
  rw [hsum, hhalf, htwo, ExactDouble.ofNat_eq, ExactDouble.ofNat_eq, ExactDouble.ofNat_eq,
    ExactDouble.ofNat_eq, ExactDouble.div_num _ hlen]
  by_cases hzero : totalSeconds times % 2 ^ 64 = 0
  · rw [if_pos hzero, hzero, Nat.cast_zero, zero_div, ExactDouble.div_zero (cast_ne_zero ht),
      ExactDouble.clamp_inf]
    rfl
  · have hpos : ((totalSeconds times % 2 ^ 64 : Nat) : ℚ≥0) ≠ 0 := Nat.cast_ne_zero.mpr hzero
    rw [if_neg hzero, ExactDouble.div_num _ (div_ne_zero hpos hlen), ExactDouble.clamp_num hle,
      div_div_eq_mul_div]
    rfl

theorem ethereumStyleAdjustment_eq (ht : 0 < t) (hne : times ≠ []) :
    ethereumStyleAdjustment (ExactDouble wild) times t d = settle (ExactDouble wild)
      (num (d.toNat * factor (totalSeconds times % 2 ^ 64) times.length t.toNat)) := by
  have hcond : ¬ times.isEmpty = true := by rwa [List.isEmpty_iff]
  unfold ethereumStyleAdjustment
  rw [if_neg hcond, ethereumProduct_eq ht hne]

/-! ## bounds of the results -/

theorem bitcoin_le_iff {u : Nat} (ht : 0 < t) (hm : 0 < m) (hu : 1 ≤ u) (hu' : u < 2 ^ 64) :
    (∀ wild, (bitcoinStyleAdjustment (ExactDouble wild) a t d m).toNat ≤ u) ↔
      u = 2 ^ 64 - 1 ∨ (d.toNat : ℚ≥0) * ratio a.toNat t.toNat m.toNat < (u + 1 : Nat) := by
  have hiff := settle_le_iff (x := num (d.toNat * ratio a.toNat t.toNat m.toNat)) hu hu'
  simp only [num.injEq, exists_eq_left'] at hiff
  rw [Nat.cast_succ, ← hiff]
  refine forall_congr' fun wild => ?_
  rw [bitcoinStyleAdjustment_eq ht hm]

theorem le_bitcoin_iff {l : Nat} (ht : 0 < t) (hm : 0 < m) :
    (∀ wild, l ≤ (bitcoinStyleAdjustment (ExactDouble wild) a t d m).toNat) ↔
      l ≤ 1 ∨ (d.toNat : ℚ≥0) * ratio a.toNat t.toNat m.toNat < 2 ^ 64 ∧
        (l : ℚ≥0) ≤ d.toNat * ratio a.toNat t.toNat m.toNat := by
  have hiff := le_settle_iff (x := num (d.toNat * ratio a.toNat t.toNat m.toNat)) (l := l)
  simp only [num.injEq, exists_eq_left'] at hiff
  rw [← hiff]
  refine forall_congr' fun wild => ?_
  rw [bitcoinStyleAdjustment_eq ht hm]

theorem ethereum_le_iff {u : Nat} (ht : 0 < t) (hne : times ≠ []) (hu : 1 ≤ u) (hu' : u < 2 ^ 64) :
    (∀ wild, (ethereumStyleAdjustment (ExactDouble wild) times t d).toNat ≤ u) ↔
      u = 2 ^ 64 - 1 ∨ (d.toNat : ℚ≥0) *
        factor (totalSeconds times % 2 ^ 64) times.length t.toNat < (u + 1 : Nat) := by
  have hiff := settle_le_iff (x := num (d.toNat *
    factor (totalSeconds times % 2 ^ 64) times.length t.toNat)) hu hu'
  simp only [num.injEq, exists_eq_left'] at hiff
  rw [Nat.cast_succ, ← hiff]
  refine forall_congr' fun wild => ?_
  rw [ethereumStyleAdjustment_eq ht hne]

theorem le_ethereum_iff {l : Nat} (ht : 0 < t) (hne : times ≠ []) :
    (∀ wild, l ≤ (ethereumStyleAdjustment (ExactDouble wild) times t d).toNat) ↔
      l ≤ 1 ∨ (d.toNat : ℚ≥0) *
          factor (totalSeconds times % 2 ^ 64) times.length t.toNat < 2 ^ 64 ∧
        (l : ℚ≥0) ≤ d.toNat * factor (totalSeconds times % 2 ^ 64) times.length t.toNat := by
  have hiff := le_settle_iff (x := num (d.toNat *
    factor (totalSeconds times % 2 ^ 64) times.length t.toNat)) (l := l)
  simp only [num.injEq, exists_eq_left'] at hiff
  rw [← hiff]
  refine forall_congr' fun wild => ?_
  rw [ethereumStyleAdjustment_eq ht hne]

end

/-! ## feedback -/

section
variable {a t d m total count : Nat}

theorem ratio_of_le (ht : 0 < t) (hm : 1 ≤ m) (h : t ≤ a) :
    ratio a t m = min ((a : ℚ≥0) / t) m := by
  have hm' : (1 : ℚ≥0) ≤ m := Nat.one_le_cast.mpr hm
  have ha : (1 : ℚ≥0) ≤ a / t :=
    (one_le_div (Nat.cast_pos.mpr ht)).mpr (Nat.cast_le.mpr h)
  have hinv : (1 : ℚ≥0) / m ≤ 1 := div_le_one_of_le₀ hm' zero_le
  exact max_eq_right (le_min (hinv.trans ha) (hinv.trans hm'))

theorem mul_ratio_lt_iff {u : Nat} (ht : 0 < t) (hm : 1 ≤ m) (h : t ≤ a) :
    (d : ℚ≥0) * ratio a t m < u ↔ d * min a (m * t) < u * t := by
  have ht' : (0 : ℚ≥0) < t := Nat.cast_pos.mpr ht
  have hmin : min ((a : ℚ≥0) / t) m = min (a : ℚ≥0) (m * t) / t := by
    rw [← min_div_div_right ht'.le, mul_div_cancel_right₀ _ ht'.ne']
  rw [ratio_of_le ht hm h, hmin, ← mul_div_assoc, div_lt_iff₀ ht']
  exact_mod_cast Iff.rfl

theorem ratio_le_one (hm : 1 ≤ m) (h : a ≤ t) : ratio a t m ≤ 1 :=
  max_le (div_le_one_of_le₀ (Nat.one_le_cast.mpr hm) zero_le)
    ((min_le_left _ _).trans (div_le_one_of_le₀ (Nat.cast_le.mpr h) zero_le))

/-- blocks are too fast: the ratio is below 1 unless it is limited to 1 -/
theorem one_le_ratio_iff (ht : 0 < t) (hm : 1 ≤ m) (h : a ≤ t) :
    1 ≤ ratio a t m ↔ a = t ∨ m = 1 := by
  have ht' : (0 : ℚ≥0) < t := Nat.cast_pos.mpr ht
  have hm' : (0 : ℚ≥0) < m := Nat.cast_pos.mpr hm
  unfold ratio
  rw [le_max_iff, le_min_iff, one_le_div hm', one_le_div ht', Nat.cast_le_one, Nat.cast_le,
    Nat.one_le_cast]
  omega

/-- the product is truncated to no more than the difficulty -/
theorem mul_factor_lt_iff (hd : 1 ≤ d) :
    (d : ℚ≥0) * factor total count t < d + 1 ↔ d * (t * count) < (d + 1) * total := by
  have hd' : (1 : ℚ≥0) ≤ d := Nat.one_le_cast.mpr hd
  have htwo : ¬ (d : ℚ≥0) * 2 < d + 1 := by
    rw [mul_two, not_lt]
    exact add_le_add_right hd' _
  have hhalf : (d : ℚ≥0) * (1 / 2) < d + 1 :=
    (mul_le_of_le_one_right zero_le (half_le_self zero_le)).trans_lt (lt_add_one _)
  unfold factor
  by_cases hzero : total = 0
  · rw [if_pos hzero, hzero, Nat.mul_zero]
    exact iff_of_false htwo (Nat.not_lt_zero _)
  · have htotal : (0 : ℚ≥0) < total := Nat.cast_pos.mpr (Nat.pos_of_ne_zero hzero)
    rw [if_neg hzero, mul_max_of_nonneg _ _ zero_le, mul_min_of_nonneg _ _ zero_le, max_lt_iff,
      min_lt_iff, or_iff_left htwo, and_iff_right hhalf, ← mul_div_assoc, div_lt_iff₀ htotal]
    exact_mod_cast Iff.rfl

theorem one_le_factor (h : total ≤ t * count) : 1 ≤ factor total count t := by
  unfold factor
  by_cases hzero : total = 0
  · rw [if_pos hzero]
    exact one_le_two
  · have htotal : (0 : ℚ≥0) < total := Nat.cast_pos.mpr (Nat.pos_of_ne_zero hzero)
    rw [if_neg hzero]
    refine le_max_of_le_right (le_min ?_ one_le_two)
    rw [one_le_div htotal]
    exact_mod_cast h

end

section
variable {a t d m : UInt64} {times : List UInt64}

theorem toNat_eq_max : d.toNat = 2 ^ 64 - 1 ↔ d = maxDifficulty :=
  ⟨fun h => UInt64.toNat_inj.mp h, fun h => congrArg UInt64.toNat h⟩

theorem toNat_eq_one {n : UInt64} : n.toNat = 1 ↔ n = 1 := by
  rw [← UInt64.toNat_inj]
  rfl

theorem bitcoin_slow_iff (hd : 1 ≤ d) (ht : 0 < t) (hm : 1 ≤ m) (h : t ≤ a) :
    (∀ wild, bitcoinStyleAdjustment (ExactDouble wild) a t d m ≤ d) ↔
      d = maxDifficulty ∨ d.toNat * min a.toNat (m.toNat * t.toNat) < (d.toNat + 1) * t.toNat := by
  have hm0 : 0 < m := UInt64.lt_of_lt_of_le UInt64.zero_lt_one hm
  simp only [UInt64.le_iff_toNat_le] at hd hm h ⊢
  rw [bitcoin_le_iff ht hm0 hd d.toNat_lt, toNat_eq_max,
    mul_ratio_lt_iff (UInt64.lt_iff_toNat_lt.mp ht) hm h]

theorem bitcoin_fast_iff (hd : 1 ≤ d) (ht : 0 < t) (hm : 1 ≤ m) (h : a ≤ t) :
    (∀ wild, Fits (bitcoinProduct (ExactDouble wild) a t d m) →
      d ≤ bitcoinStyleAdjustment (ExactDouble wild) a t d m) ↔ a = t ∨ m = 1 ∨ d = 1 := by
  have hm0 : 0 < m := UInt64.lt_of_lt_of_le UInt64.zero_lt_one hm
  have hd1 : d.toNat ≤ 1 ↔ d = 1 := by
    have hle : 1 ≤ d.toNat := UInt64.le_iff_toNat_le.mp hd
    rw [← toNat_eq_one]
    omega
  rw [UInt64.le_iff_toNat_le] at hm h hd
  have hd0 : (0 : ℚ≥0) < d.toNat := Nat.cast_pos.mpr hd
  -- the product is at most the difficulty, so it fits
  have hfits : (d.toNat : ℚ≥0) * ratio a.toNat t.toNat m.toNat < 2 ^ 64 := by
    refine (mul_le_of_le_one_right zero_le (ratio_le_one hm h)).trans_lt ?_
    exact_mod_cast d.toNat_lt
  have hall : (∀ wild, Fits (bitcoinProduct (ExactDouble wild) a t d m) →
      d ≤ bitcoinStyleAdjustment (ExactDouble wild) a t d m) ↔
        ∀ wild, d.toNat ≤ (bitcoinStyleAdjustment (ExactDouble wild) a t d m).toNat := by
    refine forall_congr' fun wild => ?_
    rw [bitcoinProduct_eq ht hm0, ← UInt64.le_iff_toNat_le]
    exact imp_iff_right ⟨_, rfl, Extended.floor_lt.mpr hfits⟩
  rw [hall, le_bitcoin_iff ht hm0, and_iff_right hfits, le_mul_iff_one_le_right hd0,
    one_le_ratio_iff (UInt64.lt_iff_toNat_lt.mp ht) hm h, hd1, toNat_eq_one, UInt64.toNat_inj]
  exact or_comm.trans or_assoc

theorem ethereum_slow_iff (hd : 1 ≤ d) (ht : 0 < t) (hne : times ≠ []) :
    (∀ wild, ethereumStyleAdjustment (ExactDouble wild) times t d ≤ d) ↔
      d = maxDifficulty ∨
        d.toNat * (t.toNat * times.length) < (d.toNat + 1) * (totalSeconds times % 2 ^ 64) := by
  simp only [UInt64.le_iff_toNat_le] at hd ⊢
  rw [ethereum_le_iff ht hne hd d.toNat_lt, toNat_eq_max, Nat.cast_succ, mul_factor_lt_iff hd]

/-- a sum that wraps around only makes the average smaller -/
theorem ethereum_fast (wild : Extended → UInt64) (ht : 0 < t)
    (h : totalSeconds times ≤ t.toNat * times.length)
    (hfits : Fits (ethereumProduct (ExactDouble wild) times t d)) :
    d ≤ ethereumStyleAdjustment (ExactDouble wild) times t d := by
  by_cases hne : times = []
  · rw [hne]
    exact UInt64.le_refl d
  · obtain ⟨q, hq, hlt⟩ := hfits
    have hfactor := one_le_factor ((Nat.mod_le _ (2 ^ 64)).trans h)
    have hprod : num (d.toNat * factor (totalSeconds times % 2 ^ 64) times.length t.toNat) = num q :=
      (ethereumProduct_eq ht hne).symm.trans hq
    rw [ethereumStyleAdjustment_eq ht hne, hprod, UInt64.le_iff_toNat_le, settle_num hlt]
    refine (Nat.le_floor ?_).trans (le_max_right _ _)
    rw [← num.inj hprod]
    exact le_mul_of_one_le_right zero_le hfactor

end

/-- slow blocks never make mining harder, fast blocks never make it easier -/
structure NegativeFeedback (wild : Extended → UInt64)
    (actualTime targetTime currentDifficulty maxFactor : UInt64) (blockTimes : List UInt64) : Prop where
  bitcoin_slow : targetTime ≤ actualTime →
    bitcoinStyleAdjustment (ExactDouble wild) actualTime targetTime currentDifficulty maxFactor
      ≤ currentDifficulty
  bitcoin_fast : actualTime ≤ targetTime →
    Fits (bitcoinProduct (ExactDouble wild) actualTime targetTime currentDifficulty maxFactor) →
      currentDifficulty ≤
        bitcoinStyleAdjustment (ExactDouble wild) actualTime targetTime currentDifficulty maxFactor
  ethereum_slow : targetTime.toNat * blockTimes.length ≤ totalSeconds blockTimes →
    ethereumStyleAdjustment (ExactDouble wild) blockTimes targetTime currentDifficulty
      ≤ currentDifficulty
  ethereum_fast : totalSeconds blockTimes ≤ targetTime.toNat * blockTimes.length →
    Fits (ethereumProduct (ExactDouble wild) blockTimes targetTime currentDifficulty) →
      currentDifficulty ≤
        ethereumStyleAdjustment (ExactDouble wild) blockTimes targetTime currentDifficulty

/-- **Negative feedback, exactly.**  `bitcoin_style_adjustment` makes slow blocks harder and fast ones
easier unless rounding or a limit of 1 hides it; `ethereum_style_adjustment` fails only if the sum of
the block times wraps around. -/
theorem negative_feedback_iff (actualTime targetTime currentDifficulty maxFactor : UInt64)
    (blockTimes : List UInt64) (hd : 1 ≤ currentDifficulty) (ht : 0 < targetTime)
    (hm : 1 ≤ maxFactor) :
    (∀ wild, NegativeFeedback wild actualTime targetTime currentDifficulty maxFactor blockTimes) ↔
      (targetTime ≤ actualTime → currentDifficulty = maxDifficulty ∨
        currentDifficulty.toNat * min actualTime.toNat (maxFactor.toNat * targetTime.toNat)
          < (currentDifficulty.toNat + 1) * targetTime.toNat) ∧
      (actualTime ≤ targetTime →
        actualTime = targetTime ∨ maxFactor = 1 ∨ currentDifficulty = 1) ∧
      (blockTimes = [] ∨ totalSeconds blockTimes < targetTime.toNat * blockTimes.length ∨
        currentDifficulty = maxDifficulty ∨
        currentDifficulty.toNat * (targetTime.toNat * blockTimes.length)
          < (currentDifficulty.toNat + 1) * (totalSeconds blockTimes % 2 ^ 64)) := by
  constructor
  · intro h
    refine ⟨fun hslow => ?_, fun hfast => ?_, ?_⟩
    · exact (bitcoin_slow_iff hd ht hm hslow).mp fun wild => (h wild).bitcoin_slow hslow
    · exact (bitcoin_fast_iff hd ht hm hfast).mp fun wild => (h wild).bitcoin_fast hfast
    · by_cases hne : blockTimes = []
      · exact Or.inl hne
      · refine Or.inr ((lt_or_ge _ _).imp_right fun hslow => ?_)
        exact (ethereum_slow_iff hd ht hne).mp fun wild => (h wild).ethereum_slow hslow
  · rintro ⟨hslow, hfast, heth⟩ wild
    constructor
    · exact fun hle => (bitcoin_slow_iff hd ht hm hle).mpr (hslow hle) wild
    · exact fun hle => (bitcoin_fast_iff hd ht hm hle).mpr (hfast hle) wild
    · intro hle
      rcases heth with rfl | hlt | hcond
      · exact UInt64.le_refl _
      · exact absurd hlt (Nat.not_lt.mpr hle)
      · by_cases hne : blockTimes = []
        · rw [hne]
          exact UInt64.le_refl _
        · exact (ethereum_slow_iff hd ht hne).mpr hcond wild
    · exact fun hle hfits => ethereum_fast wild ht hle hfits

/-- the hypotheses at the default parameters -/
theorem negative_feedback_sample :
    (∀ wild, NegativeFeedback wild 15 15 100 4 [15, 15]) ↔
      ((15 : UInt64) ≤ 15 → (100 : UInt64) = maxDifficulty ∨
        (100 : UInt64).toNat * min (15 : UInt64).toNat ((4 : UInt64).toNat * (15 : UInt64).toNat)
          < ((100 : UInt64).toNat + 1) * (15 : UInt64).toNat) ∧
      ((15 : UInt64) ≤ 15 → (15 : UInt64) = 15 ∨ (4 : UInt64) = 1 ∨ (100 : UInt64) = 1) ∧
      ([15, 15] = ([] : List UInt64) ∨
        totalSeconds [15, 15] < (15 : UInt64).toNat * [15, 15].length ∨
        (100 : UInt64) = maxDifficulty ∨
        (100 : UInt64).toNat * ((15 : UInt64).toNat * [15, 15].length)
          < ((100 : UInt64).toNat + 1) * (totalSeconds [15, 15] % 2 ^ 64)) :=
  negative_feedback_iff 15 15 100 4 [15, 15] (by decide) (by decide) (by decide)

/-- blocks that take twice the target time double the difficulty -/
theorem slow_blocks_harder :
    (15 : UInt64) ≤ 30 ∧ ∀ wild, bitcoinStyleAdjustment (ExactDouble wild) 30 15 100 4 = 200 := by
  refine ⟨by decide, fun wild => UInt64.toNat_inj.mp ?_⟩
  have hprod : (((100 : UInt64).toNat : Nat) : ℚ≥0) *
      ratio (30 : UInt64).toNat (15 : UInt64).toNat (4 : UInt64).toNat = 200 := by decide +kernel
  rw [bitcoinStyleAdjustment_eq (by decide) (by decide), hprod, settle_num (by decide +kernel)]
  decide +kernel

end Pow

end Consensus
end ChainForge
