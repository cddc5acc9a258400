import ChainForge.Consensus.Difficulty
import ChainForge.Consensus.MiningControl

/-!
# The bounds of the difficulty

`ProofOfWork` with its difficulty parameters: `set_difficulty` and `set_difficulty_params` clamp the
difficulty to the bounds of the parameters, `adjust_difficulty` and `calculate_target_difficulty`
propose a new one and clamp it to the default bounds.

* `difficulty_within`       the difficulty of the object stays within its bounds along every run;
* `bitcoin_le_all_iff`, `le_bitcoin_all_iff`, `ethereum_le_all_iff`, `le_ethereum_all_iff`   the
                            extreme proposals: a time of 0 and of `2^64 - 1`, for one block;
* `respects_iff`, `proposals_iff`   **when every proposal is within the bounds of the object**;
* `respected_everywhere_iff`   with a given choice of parameters this is so for every difficulty
                            exactly when the bounds are the default ones.
-/

set_option linter.unusedSectionVars false

namespace ChainForge
namespace Consensus
open Extended Machine ChainForge.Consensus.Pow

/-! ## the object -/

structure ConfiguredPow (F : Type) extends ProofOfWork F where
  difficultyParams : DifficultyParams

namespace ConfiguredPow
variable {F : Type} [Double F]

def make (initialDifficulty : Difficulty) (miningStats : MiningStats F) : ConfiguredPow F where
  toProofOfWork := ProofOfWork.make initialDifficulty miningStats
  difficultyParams :=
    { targetBlockTimeSeconds := 15, adjustmentIntervalBlocks := 144, maxAdjustmentFactor := 4,
      minDifficulty := 1, maxDifficulty := maxDifficulty }

def setDifficulty (s : ConfiguredPow F) (difficulty : Difficulty) : ConfiguredPow F :=
  { s with
    currentDifficulty := clampDifficulty difficulty s.difficultyParams.minDifficulty
      s.difficultyParams.maxDifficulty }

/-- the current difficulty is clamped to the new bounds -/
def setDifficultyParams (s : ConfiguredPow F) (params : DifficultyParams) : ConfiguredPow F :=
  { s with
    difficultyParams := params
    currentDifficulty :=
      clampDifficulty s.currentDifficulty params.minDifficulty params.maxDifficulty }

/-- over the doubles `D` -/
def adjustDifficulty (D : Type) [Double D] (s : ConfiguredPow F) (actualBlockTimeSeconds : UInt64)
    (currentDifficulty : Difficulty) : Difficulty :=
  bitcoinStyleAdjustment D actualBlockTimeSeconds s.difficultyParams.targetBlockTimeSeconds
    currentDifficulty s.difficultyParams.maxAdjustmentFactor

def calculateTargetDifficulty (D : Type) [Double D] (s : ConfiguredPow F)
    (blockTimes : List UInt64) : Difficulty :=
  ethereumStyleAdjustment D blockTimes s.difficultyParams.targetBlockTimeSeconds s.currentDifficulty

end ConfiguredPow

/-- the calls that change the object -/
inductive PowCall (F : Type) where
  | setDifficulty (difficulty : Difficulty)
  | setDifficultyParams (params : DifficultyParams)
  | mineBlock (template : Block) (rand : UInt64 → Nat) (miningTime : Int)
  | resetMiningStats (fresh : MiningStats F)
  | stopMining

section
variable {F : Type} [Double F]

def ConfiguredPow.step (H : List UInt8 → Hash) (s : ConfiguredPow F) : PowCall F → ConfiguredPow F
  | .setDifficulty difficulty => s.setDifficulty difficulty
  | .setDifficultyParams params => s.setDifficultyParams params
  | .mineBlock template rand miningTime =>
    { s with toProofOfWork := (s.toProofOfWork.mineBlock H template rand miningTime).2 }
  | .resetMiningStats fresh => { s with miningStats := fresh }
  | .stopMining => { s with stopRequested := true }

def powAfter (H : List UInt8 → Hash) (initialDifficulty : Difficulty) (miningStats : MiningStats F)
    (calls : List (PowCall F)) : ConfiguredPow F :=
  run (ConfiguredPow.step H) (.make initialDifficulty miningStats) calls

/-- the difficulty is within the bounds, if there is anything between them -/
def ConfiguredPow.Within (s : ConfiguredPow F) : Prop :=
  s.difficultyParams.minDifficulty ≤ s.difficultyParams.maxDifficulty →
    s.difficultyParams.minDifficulty ≤ s.currentDifficulty ∧
      s.currentDifficulty ≤ s.difficultyParams.maxDifficulty

theorem clampDifficulty_within (v : Difficulty) {lo hi : Difficulty} (h : lo ≤ hi) :
    lo ≤ clampDifficulty v lo hi ∧ clampDifficulty v lo hi ≤ hi := by
  unfold clampDifficulty
  split
  · exact ⟨UInt64.le_refl lo, h⟩
  · rename_i hlo
    split
    · exact ⟨h, UInt64.le_refl hi⟩
    · rename_i hhi
      exact ⟨UInt64.not_lt.mp hlo, UInt64.not_lt.mp hhi⟩

theorem mineBlock_difficulty (H : List UInt8 → Hash) (s : ProofOfWork F) (template : Block)
    (rand : UInt64 → Nat) (miningTime : Int) :
    (s.mineBlock H template rand miningTime).2.currentDifficulty = s.currentDifficulty := by
  unfold ProofOfWork.mineBlock ProofOfWork.performMining
  dsimp only
  split <;> rfl

theorem step_within (H : List UInt8 → Hash) (s : ConfiguredPow F) (c : PowCall F)
    (hs : s.Within) : (s.step H c).Within := by
  cases c with
  | setDifficulty difficulty => exact fun h => clampDifficulty_within difficulty h
  | setDifficultyParams params => exact fun h => clampDifficulty_within s.currentDifficulty h
  | mineBlock template rand miningTime =>
    intro h
    have hkeep := mineBlock_difficulty H s.toProofOfWork template rand miningTime
    show s.difficultyParams.minDifficulty ≤ (s.toProofOfWork.mineBlock H _ _ _).2.currentDifficulty ∧
      (s.toProofOfWork.mineBlock H _ _ _).2.currentDifficulty ≤ s.difficultyParams.maxDifficulty
    rw [hkeep]
    exact hs h
  | resetMiningStats fresh => exact hs
  | stopMining => exact hs

/-- **The difficulty of the object stays within its bounds**, along every run from an initial
difficulty that is not zero. -/
theorem difficulty_within (H : List UInt8 → Hash) (initialDifficulty : Difficulty)
    (miningStats : MiningStats F) (calls : List (PowCall F)) (h : 1 ≤ initialDifficulty) :
    EveryState (ConfiguredPow.step H) ConfiguredPow.Within (.make initialDifficulty miningStats)
      calls := by
  have hmax : initialDifficulty ≤ maxDifficulty := by
    have hlt := initialDifficulty.toNat_lt
    rw [UInt64.le_iff_toNat_le]
    change initialDifficulty.toNat ≤ 18446744073709551615
    omega
  exact everyState_of_inv ConfiguredPow.Within (step_within H) calls fun _ => ⟨h, hmax⟩

end

/-! ## the extreme proposals -/

namespace Pow

section
variable {t m c : UInt64} {u l : Nat}

theorem ratio_mono {a a' : Nat} (h : a ≤ a') (t m : Nat) : ratio a t m ≤ ratio a' t m :=
  max_le_max le_rfl (min_le_min (div_le_div_of_nonneg_right (Nat.cast_le.mpr h) zero_le) le_rfl)

theorem ratio_zero (t m : Nat) : ratio 0 t m = 1 / (m : ℚ≥0) := by
  unfold ratio
  rw [Nat.cast_zero, zero_div, min_eq_left zero_le, max_eq_left zero_le]

theorem toNat_le_max (a : UInt64) : a.toNat ≤ 2 ^ 64 - 1 := Nat.le_sub_one_of_lt a.toNat_lt

/-- the largest product of `bitcoin_style_adjustment` -/
theorem mul_ratio_all_iff (ht : 0 < t) (hm : 0 < m) :
    (∀ a : UInt64, (c.toNat : ℚ≥0) * ratio a.toNat t.toNat m.toNat < (u : Nat)) ↔
      c.toNat * min (2 ^ 64 - 1) (m.toNat * t.toNat) < u * t.toNat := by
  rw [UInt64.lt_iff_toNat_lt] at ht hm
  rw [← mul_ratio_lt_iff ht hm (toNat_le_max t)]
  constructor
  · intro h
    exact h maxDifficulty
  · intro h a
    exact lt_of_le_of_lt (mul_le_mul_right (ratio_mono (toNat_le_max a) _ _) _) h

theorem bitcoin_le_all_iff (ht : 0 < t) (hm : 0 < m) (hu : 1 ≤ u) (hu' : u < 2 ^ 64) :
    (∀ wild a, (bitcoinStyleAdjustment (ExactDouble wild) a t c m).toNat ≤ u) ↔
      u = 2 ^ 64 - 1 ∨ c.toNat * min (2 ^ 64 - 1) (m.toNat * t.toNat) < (u + 1) * t.toNat := by
  rw [forall_comm, ← mul_ratio_all_iff ht hm, ← forall_or_left]
  exact forall_congr' fun a => bitcoin_le_iff ht hm hu hu'

theorem le_bitcoin_all_iff (ht : 0 < t) (hm : 0 < m) :
    (∀ wild a, l ≤ (bitcoinStyleAdjustment (ExactDouble wild) a t c m).toNat) ↔
      l ≤ 1 ∨ c.toNat * min (2 ^ 64 - 1) (m.toNat * t.toNat) < 2 ^ 64 * t.toNat ∧
        l * m.toNat ≤ c.toNat := by
  have hm' : (0 : ℚ≥0) < m.toNat := Nat.cast_pos.mpr (UInt64.lt_iff_toNat_lt.mp hm)
  have hlow : (∀ a : UInt64, (l : ℚ≥0) ≤ c.toNat * ratio a.toNat t.toNat m.toNat) ↔
      l * m.toNat ≤ c.toNat := by
    have hzero : (l : ℚ≥0) ≤ c.toNat * ratio 0 t.toNat m.toNat ↔ l * m.toNat ≤ c.toNat := by
      rw [ratio_zero, mul_one_div, le_div_iff₀ hm']
      exact_mod_cast Iff.rfl
    rw [← hzero]
    constructor
    · intro h
      exact h 0
    · intro h a
      exact h.trans (mul_le_mul_right (ratio_mono (Nat.zero_le _) _ _) _)
  rw [forall_comm, ← hlow, ← mul_ratio_all_iff ht hm, ← forall_and, ← forall_or_left]
  refine forall_congr' fun a => (le_bitcoin_iff ht hm).trans ?_
  rw [Nat.cast_pow, Nat.cast_ofNat]

theorem factor_le_two (total count t : Nat) : factor total count t ≤ 2 := by
  unfold factor
  split
  · exact le_rfl
  · exact max_le ((half_le_self zero_le).trans one_le_two) (min_le_right _ _)

/-- one block that took as long as can be said -/
theorem factor_one_block (t : UInt64) :
    factor (2 ^ 64 - 1) 1 t.toNat = max (1 / 2) ((t.toNat : ℚ≥0) / (2 ^ 64 - 1 : Nat)) := by
  have hle : (t.toNat : ℚ≥0) / (2 ^ 64 - 1 : Nat) ≤ 2 :=
    (div_le_one_of_le₀ (Nat.cast_le.mpr (toNat_le_max t)) zero_le).trans one_le_two
  unfold factor
  rw [if_neg (by decide), Nat.cast_one, mul_one, min_eq_left hle]

theorem factor_one_block_le {total count : Nat} (htotal : total < 2 ^ 64) (hcount : 1 ≤ count)
    (t : UInt64) : factor (2 ^ 64 - 1) 1 t.toNat ≤ factor total count t.toNat := by
  by_cases hzero : total = 0
  · rw [hzero]
    exact factor_le_two _ _ _
  · have hpos : (0 : ℚ≥0) < total := Nat.cast_pos.mpr (Nat.pos_of_ne_zero hzero)
    have hquot : (t.toNat : ℚ≥0) * (1 : Nat) / (2 ^ 64 - 1 : Nat) ≤ t.toNat * count / total :=
      div_le_div₀ zero_le (mul_le_mul_right (Nat.cast_le.mpr hcount) _) hpos
        (Nat.cast_le.mpr (Nat.le_sub_one_of_lt htotal))
    unfold factor
    rw [if_neg hzero, if_neg (by decide)]
    exact max_le_max le_rfl (min_le_min hquot le_rfl)

theorem totalSeconds_singleton (b : UInt64) : totalSeconds [b] % 2 ^ 64 = b.toNat := by
  show (b.toNat + 0) % 2 ^ 64 = b.toNat
  rw [Nat.add_zero, Nat.mod_eq_of_lt b.toNat_lt]

theorem ethereum_le_all_iff (ht : 0 < t) (hu : 1 ≤ u) (hu' : u < 2 ^ 64) (hc : c.toNat ≤ u) :
    (∀ wild times, (ethereumStyleAdjustment (ExactDouble wild) times t c).toNat ≤ u) ↔
      u = 2 ^ 64 - 1 ∨ 2 * c.toNat ≤ u := by
  have htwo : (c.toNat : ℚ≥0) * 2 < (u + 1 : Nat) ↔ 2 * c.toNat ≤ u := by
    rw [← Nat.lt_succ_iff, mul_comm]
    exact_mod_cast Iff.rfl
  rw [← htwo, forall_comm]
  constructor
  · intro h
    -- a block time of 0
    have hzero := (ethereum_le_iff ht (by simp) hu hu').mp (h [0])
    rw [totalSeconds_singleton] at hzero
    exact hzero
  · intro h times
    by_cases hne : times = []
    · rw [hne]
      exact fun _ => hc
    · refine (ethereum_le_iff ht hne hu hu').mpr (h.imp_right fun hlt => ?_)
      exact lt_of_le_of_lt (mul_le_mul_right (factor_le_two _ _ _) _) hlt

theorem le_ethereum_all_iff (ht : 0 < t) (hl : l ≤ c.toNat) :
    (∀ wild times, l ≤ (ethereumStyleAdjustment (ExactDouble wild) times t c).toNat) ↔
      l ≤ 1 ∨ 2 * c.toNat < 2 ^ 64 ∧
        (2 * l ≤ c.toNat ∨ l * (2 ^ 64 - 1) ≤ c.toNat * t.toNat) := by
  have htwo : (c.toNat : ℚ≥0) * 2 < 2 ^ 64 ↔ 2 * c.toNat < 2 ^ 64 := by
    rw [mul_comm]
    exact_mod_cast Iff.rfl
  have hlow : (l : ℚ≥0) ≤ c.toNat * factor (2 ^ 64 - 1) 1 t.toNat ↔
      2 * l ≤ c.toNat ∨ l * (2 ^ 64 - 1) ≤ c.toNat * t.toNat := by
    have hmax : (0 : ℚ≥0) < (2 ^ 64 - 1 : Nat) := Nat.cast_pos.mpr (by decide)
    rw [factor_one_block, mul_max_of_nonneg _ _ zero_le, le_max_iff, mul_one_div,
      le_div_iff₀ two_pos, ← mul_div_assoc, le_div_iff₀ hmax, mul_comm (l : ℚ≥0) 2]
    exact or_congr (by exact_mod_cast Iff.rfl) (by exact_mod_cast Iff.rfl)
  rw [← htwo, ← hlow, forall_comm]
  constructor
  · intro h
    have hshort := (le_ethereum_iff ht (by simp)).mp (h [0])
    have hlong := (le_ethereum_iff ht (by simp)).mp (h [maxDifficulty])
    rw [totalSeconds_singleton] at hshort hlong
    rcases hshort with hl1 | ⟨hfits, _⟩
    · exact Or.inl hl1
    · exact hlong.imp_right fun hle => ⟨hfits, hle.2⟩
  · intro h times
    by_cases hne : times = []
    · rw [hne]
      exact fun _ => hl
    · refine (le_ethereum_iff ht hne).mpr (h.imp_right fun hle => ⟨?_, ?_⟩)
      · exact lt_of_le_of_lt (mul_le_mul_right (factor_le_two _ _ _) _) hle.1
      · refine hle.2.trans (mul_le_mul_right (factor_one_block_le (Nat.mod_lt _ (by decide)) ?_ t) _)
        exact List.length_pos_iff.mpr hne

/-! ### undefined conversions -/

/-- a factor limit of 0 makes the lower limit infinite -/
theorem bitcoinProduct_zero (wild : Extended → UInt64) (a : UInt64) (ht : 0 < t) :
    bitcoinProduct (ExactDouble wild) a t c 0 = if (c.toNat : ℚ≥0) = 0 then nan else inf := by
  have hlit : (Double.lit 1 : ExactDouble wild) = num 1 := ExactDouble.lit_eq 1
  have hzero : (Double.ofNat (0 : UInt64).toNat : ExactDouble wild) = num 0 := rfl
  unfold bitcoinProduct
  dsimp only
  rw [hlit, hzero, ExactDouble.div_zero one_ne_zero, ExactDouble.ofNat_eq, ExactDouble.ofNat_eq,
    ExactDouble.ofNat_eq, ExactDouble.div_num _ (cast_ne_zero ht)]
  rfl

/-- no target time and no block time -/
theorem ethereumProduct_zero (wild : Extended → UInt64) :
    ethereumProduct (ExactDouble wild) [0] 0 c = nan := by
  unfold ethereumProduct
  dsimp only
  have havg : (Double.div (Double.ofNat ((List.foldl (· + ·) 0 [0] : UInt64)).toNat)
      (Double.ofNat ([0] : List UInt64).length) : ExactDouble wild) = num 0 := by
    rw [ExactDouble.ofNat_eq, ExactDouble.ofNat_eq, ExactDouble.div_num _ (by simp)]
    exact congrArg num (by simp)
  rw [havg]
  rfl

variable {x : Extended}

theorem eq_max_of_settle_le (hx : ∀ q, x ≠ num q) (hu : 1 ≤ u) (hu' : u < 2 ^ 64)
    (h : ∀ wild, (settle (ExactDouble wild) x).toNat ≤ u) : u = 2 ^ 64 - 1 := by
  refine ((settle_le_iff hu hu').mp h).resolve_right ?_
  rintro ⟨q, hq, _⟩
  exact hx q hq

theorem le_one_of_le_settle (hx : ∀ q, x ≠ num q)
    (h : ∀ wild, l ≤ (settle (ExactDouble wild) x).toNat) : l ≤ 1 := by
  refine (le_settle_iff.mp h).resolve_right ?_
  rintro ⟨q, hq, _⟩
  exact hx q hq

theorem infinite_product (q : ℚ≥0) : (if (c.toNat : ℚ≥0) = 0 then nan else inf) ≠ num q := by
  split <;> exact Extended.noConfusion

/-- with no target time or a factor limit of 0 a conversion is undefined -/
theorem undefined_conversion (h : t = 0 ∨ m = 0) : ∃ x : Extended, (∀ q, x ≠ num q) ∧
    ((∀ wild, settle (ExactDouble wild) x = bitcoinStyleAdjustment (ExactDouble wild) 0 t c m) ∨
      ∀ wild, settle (ExactDouble wild) x = ethereumStyleAdjustment (ExactDouble wild) [0] t c) := by
  by_cases ht : t = 0
  · refine ⟨nan, fun q => Extended.noConfusion, Or.inr fun wild => ?_⟩
    rw [ht, ← ethereumProduct_zero (c := c) wild]
    rfl
  · have hm : m = 0 := h.resolve_left ht
    have ht' : 0 < t := UInt64.pos_iff_ne_zero.mpr ht
    refine ⟨_, infinite_product (c := c), Or.inl fun wild => ?_⟩
    rw [hm, ← bitcoinProduct_zero wild 0 ht']
    unfold bitcoinStyleAdjustment
    rw [if_neg (by simpa using ht)]

end

end Pow

/-! ## proposals within the bounds -/

/-- every proposal from the difficulty `c` is within the bounds of `p`, whatever undefined
conversions yield -/
def Respects (p : DifficultyParams) (c : Difficulty) : Prop :=
  ∀ wild actualTime blockTimes,
    (p.minDifficulty ≤ bitcoinStyleAdjustment (ExactDouble wild) actualTime
        p.targetBlockTimeSeconds c p.maxAdjustmentFactor ∧
      bitcoinStyleAdjustment (ExactDouble wild) actualTime p.targetBlockTimeSeconds c
        p.maxAdjustmentFactor ≤ p.maxDifficulty) ∧
    (p.minDifficulty ≤
        ethereumStyleAdjustment (ExactDouble wild) blockTimes p.targetBlockTimeSeconds c ∧
      ethereumStyleAdjustment (ExactDouble wild) blockTimes p.targetBlockTimeSeconds c
        ≤ p.maxDifficulty)

/-- the largest proposals are within the upper bound -/
def BelowMax (p : DifficultyParams) (c : Difficulty) : Prop :=
  p.maxDifficulty = maxDifficulty ∨
    (0 < p.targetBlockTimeSeconds ∧ 0 < p.maxAdjustmentFactor) ∧ 0 < p.maxDifficulty ∧
      c.toNat * min (2 ^ 64 - 1) (p.maxAdjustmentFactor.toNat * p.targetBlockTimeSeconds.toNat)
        < (p.maxDifficulty.toNat + 1) * p.targetBlockTimeSeconds.toNat ∧
      2 * c.toNat ≤ p.maxDifficulty.toNat

/-- the smallest proposals are within the lower bound, and no product is too large to convert -/
def AboveMin (p : DifficultyParams) (c : Difficulty) : Prop :=
  p.minDifficulty ≤ 1 ∨
    (0 < p.targetBlockTimeSeconds ∧ 0 < p.maxAdjustmentFactor) ∧
      (c.toNat * min (2 ^ 64 - 1) (p.maxAdjustmentFactor.toNat * p.targetBlockTimeSeconds.toNat)
          < 2 ^ 64 * p.targetBlockTimeSeconds.toNat ∧
        p.minDifficulty.toNat * p.maxAdjustmentFactor.toNat ≤ c.toNat) ∧
      2 * c.toNat < 2 ^ 64 ∧
      (2 * p.minDifficulty.toNat ≤ c.toNat ∨
        p.minDifficulty.toNat * (2 ^ 64 - 1) ≤ c.toNat * p.targetBlockTimeSeconds.toNat)

section
variable {p : DifficultyParams} {c : Difficulty}

/-- a bound that no undefined conversion keeps makes the parameters positive -/
theorem positive_of_bounded (bound : UInt64 → Prop) {t m : UInt64}
    (h : ∀ wild actualTime blockTimes,
      bound (bitcoinStyleAdjustment (ExactDouble wild) actualTime t c m) ∧
      bound (ethereumStyleAdjustment (ExactDouble wild) blockTimes t c))
    (hundef : ∀ x : Extended, (∀ q, x ≠ num q) → ¬ ∀ wild, bound (settle (ExactDouble wild) x)) :
    0 < t ∧ 0 < m := by
  have hpos : ¬ (t = 0 ∨ m = 0) := by
    intro hzero
    obtain ⟨x, hx, hsettle⟩ := undefined_conversion (c := c) hzero
    refine hundef x hx fun wild => ?_
    rcases hsettle with hb | he
    · rw [hb wild]
      exact (h wild 0 []).1
    · rw [he wild]
      exact (h wild 0 [0]).2
  rw [not_or] at hpos
  exact ⟨UInt64.pos_iff_ne_zero.mpr hpos.1, UInt64.pos_iff_ne_zero.mpr hpos.2⟩

/-- a result is the difficulty itself or at least 1 -/
theorem le_proposals {l : Nat} (hl : l ≤ 1) (hc : l ≤ c.toNat) (wild : Extended → UInt64)
    (actualTime : UInt64) (blockTimes : List UInt64) (t m : UInt64) :
    l ≤ (bitcoinStyleAdjustment (ExactDouble wild) actualTime t c m).toNat ∧
      l ≤ (ethereumStyleAdjustment (ExactDouble wild) blockTimes t c).toNat := by
  constructor
  · unfold bitcoinStyleAdjustment
    split
    · exact hc
    · exact hl.trans (one_le_settle _)
  · unfold ethereumStyleAdjustment
    split
    · exact hc
    · exact hl.trans (one_le_settle _)

theorem below_max_iff (hc : c ≤ p.maxDifficulty) :
    (∀ wild actualTime blockTimes,
      bitcoinStyleAdjustment (ExactDouble wild) actualTime p.targetBlockTimeSeconds c
        p.maxAdjustmentFactor ≤ p.maxDifficulty ∧
      ethereumStyleAdjustment (ExactDouble wild) blockTimes p.targetBlockTimeSeconds c
        ≤ p.maxDifficulty) ↔ BelowMax p c := by
  simp only [UInt64.le_iff_toNat_le] at hc ⊢
  have hlt := p.maxDifficulty.toNat_lt
  unfold BelowMax
  rw [← toNat_eq_max]
  constructor
  · intro h
    have hone : 1 ≤ p.maxDifficulty.toNat := (one_le_settle _).trans (h (fun _ => 0) 0 [0]).2
    by_cases hmax : p.maxDifficulty.toNat = 2 ^ 64 - 1
    · exact Or.inl hmax
    · obtain ⟨ht, hm⟩ := positive_of_bounded (·.toNat ≤ p.maxDifficulty.toNat) h
        fun x hx hs => hmax (eq_max_of_settle_le hx hone hlt hs)
      refine Or.inr ⟨⟨ht, hm⟩, UInt64.lt_iff_toNat_lt.mpr hone, ?_, ?_⟩
      · exact ((bitcoin_le_all_iff ht hm hone hlt).mp fun wild a => (h wild a []).1).resolve_left hmax
      · exact ((ethereum_le_all_iff ht hone hlt hc).mp fun wild l => (h wild 0 l).2).resolve_left hmax
  · rintro (hmax | ⟨⟨ht, hm⟩, hone, hbit, heth⟩) wild a l
    · rw [hmax]
      exact ⟨toNat_le_max _, toNat_le_max _⟩
    · have hone := UInt64.lt_iff_toNat_lt.mp hone
      exact ⟨(bitcoin_le_all_iff ht hm hone hlt).mpr (Or.inr hbit) wild a,
        (ethereum_le_all_iff ht hone hlt hc).mpr (Or.inr heth) wild l⟩

theorem above_min_iff (hc : p.minDifficulty ≤ c) :
    (∀ wild actualTime blockTimes,
      p.minDifficulty ≤ bitcoinStyleAdjustment (ExactDouble wild) actualTime
        p.targetBlockTimeSeconds c p.maxAdjustmentFactor ∧
      p.minDifficulty ≤
        ethereumStyleAdjustment (ExactDouble wild) blockTimes p.targetBlockTimeSeconds c) ↔
      AboveMin p c := by
  have hone : p.minDifficulty ≤ 1 ↔ p.minDifficulty.toNat ≤ 1 := UInt64.le_iff_toNat_le
  unfold AboveMin
  rw [hone]
  simp only [UInt64.le_iff_toNat_le] at hc ⊢
  constructor
  · intro h
    by_cases hmin : p.minDifficulty.toNat ≤ 1
    · exact Or.inl hmin
    · obtain ⟨ht, hm⟩ := positive_of_bounded (p.minDifficulty.toNat ≤ ·.toNat) h
        fun x hx hs => hmin (le_one_of_le_settle hx hs)
      refine Or.inr ⟨⟨ht, hm⟩, ?_, ?_⟩
      · exact ((le_bitcoin_all_iff ht hm).mp fun wild a => (h wild a []).1).resolve_left hmin
      · exact ((le_ethereum_all_iff ht hc).mp fun wild l => (h wild 0 l).2).resolve_left hmin
  · rintro (hmin | ⟨⟨ht, hm⟩, hbit, heth⟩) wild a l
    · exact le_proposals hmin hc wild a l _ _
    · exact ⟨(le_bitcoin_all_iff ht hm).mpr (Or.inr hbit) wild a,
        (le_ethereum_all_iff ht hc).mpr (Or.inr heth) wild l⟩

/-- **Every proposal is within the bounds exactly when the extreme ones are.** -/
theorem respects_iff (hlo : p.minDifficulty ≤ c) (hhi : c ≤ p.maxDifficulty) :
    Respects p c ↔ BelowMax p c ∧ AboveMin p c := by
  rw [← below_max_iff hhi, ← above_min_iff hlo]
  constructor
  · intro h
    exact ⟨fun wild a l => ⟨(h wild a l).1.2, (h wild a l).2.2⟩,
      fun wild a l => ⟨(h wild a l).1.1, (h wild a l).2.1⟩⟩
  · rintro ⟨hmax, hmin⟩ wild a l
    exact ⟨⟨(hmin wild a l).1, (hmax wild a l).1⟩, (hmin wild a l).2, (hmax wild a l).2⟩

/-- **The bounds of a choice of parameters are respected from everywhere between them only if they
are the default ones**: at the upper bound, a block time of 0 doubles the difficulty. -/
theorem respected_everywhere_iff (hp : p.minDifficulty ≤ p.maxDifficulty) :
    (∀ c, p.minDifficulty ≤ c → c ≤ p.maxDifficulty → Respects p c) ↔
      p.minDifficulty ≤ 1 ∧ p.maxDifficulty = maxDifficulty := by
  constructor
  · intro h
    obtain ⟨hmax, hmin⟩ := (respects_iff hp (UInt64.le_refl _)).mp (h _ hp (UInt64.le_refl _))
    have htop : p.maxDifficulty = maxDifficulty := by
      refine hmax.resolve_right ?_
      rintro ⟨_, hpos, _, hdouble⟩
      have := UInt64.lt_iff_toNat_lt.mp hpos
      change 0 < p.maxDifficulty.toNat at this
      omega
    refine ⟨hmin.resolve_right ?_, htop⟩
    rintro ⟨_, _, hfits, _⟩
    rw [htop] at hfits
    exact absurd hfits (by decide)
  · rintro ⟨hmin, hmax⟩ c hlo hhi
    exact (respects_iff hlo hhi).mpr ⟨Or.inl hmax, Or.inl hmin⟩

end

/-- **When the proposals of an object are within its bounds**, in every state with a difficulty
between them: each of the two bounds is the default one, or the extreme proposals from the current
difficulty are on the right side of it. -/
theorem proposals_iff {F : Type} [Double F] (s : ConfiguredPow F)
    (hlo : s.difficultyParams.minDifficulty ≤ s.currentDifficulty)
    (hhi : s.currentDifficulty ≤ s.difficultyParams.maxDifficulty) :
    (∀ wild actualTime blockTimes,
      (s.difficultyParams.minDifficulty ≤
          s.adjustDifficulty (ExactDouble wild) actualTime s.currentDifficulty ∧
        s.adjustDifficulty (ExactDouble wild) actualTime s.currentDifficulty
          ≤ s.difficultyParams.maxDifficulty) ∧
      (s.difficultyParams.minDifficulty ≤
          s.calculateTargetDifficulty (ExactDouble wild) blockTimes ∧
        s.calculateTargetDifficulty (ExactDouble wild) blockTimes
          ≤ s.difficultyParams.maxDifficulty)) ↔
      BelowMax s.difficultyParams s.currentDifficulty ∧
        AboveMin s.difficultyParams s.currentDifficulty :=
  respects_iff hlo hhi

/-- an object with a lower bound of 100, and a difficulty of 100 -/
def raisedMin : ConfiguredPow ℚ :=
  powAfter hashSha256 1 ⟨0, 0, 0, 0, 0⟩ [.setDifficultyParams { minDifficulty := 100 }]

theorem proposals_raisedMin :
    (raisedMin.difficultyParams.minDifficulty ≤ raisedMin.currentDifficulty ∧
      raisedMin.currentDifficulty ≤ raisedMin.difficultyParams.maxDifficulty) ∧
    ((∀ wild actualTime blockTimes,
      (raisedMin.difficultyParams.minDifficulty ≤
          raisedMin.adjustDifficulty (ExactDouble wild) actualTime raisedMin.currentDifficulty ∧
        raisedMin.adjustDifficulty (ExactDouble wild) actualTime raisedMin.currentDifficulty
          ≤ raisedMin.difficultyParams.maxDifficulty) ∧
      (raisedMin.difficultyParams.minDifficulty ≤
          raisedMin.calculateTargetDifficulty (ExactDouble wild) blockTimes ∧
        raisedMin.calculateTargetDifficulty (ExactDouble wild) blockTimes
          ≤ raisedMin.difficultyParams.maxDifficulty)) ↔
      BelowMax raisedMin.difficultyParams raisedMin.currentDifficulty ∧
        AboveMin raisedMin.difficultyParams raisedMin.currentDifficulty) :=
  ⟨by decide, proposals_iff raisedMin (by decide) (by decide)⟩

/-- a block that took one second: the proposal is a quarter of the lower bound -/
theorem proposal_below_min :
    raisedMin.difficultyParams.minDifficulty = 100 ∧ raisedMin.currentDifficulty = 100 ∧
      ∀ wild, raisedMin.adjustDifficulty (ExactDouble wild) 1 raisedMin.currentDifficulty = 25 := by
  refine ⟨by decide, by decide, fun wild => UInt64.toNat_inj.mp ?_⟩
  have hprod : (((100 : UInt64).toNat : Nat) : ℚ≥0) *
      ratio (1 : UInt64).toNat (15 : UInt64).toNat (4 : UInt64).toNat = 25 := by decide +kernel
  show (bitcoinStyleAdjustment (ExactDouble wild) 1 15 100 4).toNat = 25
  rw [bitcoinStyleAdjustment_eq (by decide) (by decide), hprod, settle_num (by decide +kernel)]
  decide +kernel

end Consensus
end ChainForge
