import ChainForge.Consensus.ProofOfWork
import ChainForge.Core.Preimage

/-!
# Targets and the proof-of-work test

`modules/consensus/src/consensus_impl.cpp`: `meets_difficulty_target`, and in the namespace `pow`
the conversions `difficulty_from_target` and `target_from_difficulty`.

* `hashToDifficulty_eq`    a hash is measured by the number `top` that its first eight bytes write;
* `target_test_iff`        **a hash passes exactly when `top * difficulty` stays below `2^64`**;
* `targetFromDifficulty_val`   the target value is written into the last eight bytes of a target;
* `roundTrip_iff`          **the way to a target and back returns the largest difficulty**, whatever
                           the one it started from: the first eight bytes are read.
-/

set_option linter.unusedSectionVars false

namespace ChainForge
namespace Consensus
open Buffer

/-! ## the test -/

/-- the number that the first eight bytes of a hash write -/
def top (hash : Hash) : Nat := ofBigEndian (hash.1.take 8)

theorem maxDifficulty_toNat : maxDifficulty.toNat = 2 ^ 64 - 1 := rfl

/-- the quotient, with the largest difficulty in the place of a division by zero -/
theorem hashToDifficulty_eq (hash : Hash) :
    (hashToDifficulty hash).toNat = if top hash = 0 then 2 ^ 64 - 1 else (2 ^ 64 - 1) / top hash := by
  have hword := word64_toNat (l := hash.1.take 8) (List.length_take_le 8 hash.1)
  have hzero : ((hash.1.take 8).foldl (fun (v : UInt64) b => (v <<< 8) ||| b.toUInt64) 0 == 0) = true
      ↔ top hash = 0 := by
    rw [beq_iff_eq, ← UInt64.toNat_inj, hword]
    rfl
  unfold hashToDifficulty
  dsimp only
  by_cases h : top hash = 0
  · rw [if_pos (hzero.mpr h), if_pos h, maxDifficulty_toNat]
  · rw [if_neg (mt hzero.mp h), if_neg h, UInt64.toNat_div, hword, maxDifficulty_toNat]
    rfl

theorem meetsDifficultyTarget_iff (hash : Hash) (difficulty : Difficulty) :
    meetsDifficultyTarget hash difficulty = true ↔ top hash * difficulty.toNat < 2 ^ 64 := by
  have hd := difficulty.toNat_lt
  unfold meetsDifficultyTarget
  rw [decide_eq_true_iff, ge_iff_le, UInt64.le_iff_toNat_le, hashToDifficulty_eq]
  by_cases h : top hash = 0
  · rw [if_pos h, h, Nat.zero_mul]
    omega
  · rw [if_neg h, Nat.le_div_iff_mul_le (Nat.pos_of_ne_zero h), Nat.mul_comm]
    omega

/-- **The proof-of-work test is one inequality**, and so a smaller prefix or a lower difficulty never
turns a passing hash into a failing one. -/
theorem target_test_iff (hash : Hash) (difficulty : Difficulty) :
    (meetsDifficultyTarget hash difficulty = true ↔ top hash * difficulty.toNat < 2 ^ 64) ∧
      ∀ hash' : Hash, ∀ difficulty' : Difficulty, top hash' ≤ top hash → difficulty' ≤ difficulty →
        meetsDifficultyTarget hash difficulty = true →
          meetsDifficultyTarget hash' difficulty' = true := by
  refine ⟨meetsDifficultyTarget_iff hash difficulty, ?_⟩
  intro hash' difficulty' htop hdiff h
  rw [meetsDifficultyTarget_iff] at h ⊢
  exact Nat.lt_of_le_of_lt (Nat.mul_le_mul htop (UInt64.le_iff_toNat_le.mp hdiff)) h

/-! ## targets -/

namespace Pow

/-- the same loop as in `hash_to_difficulty` -/
def difficultyFromTarget (target : Hash) : Difficulty :=
  let targetValue : UInt64 := (target.1.take 8).foldl (fun v b => (v <<< 8) ||| b.toUInt64) 0
  if targetValue == 0 then maxDifficulty else maxDifficulty / targetValue

/-- `static_cast<uint8_t>((value >> (k * 8)) & 0xFF)` -/
def byteAt (value : UInt64) (k : Nat) : UInt8 := ((value >>> UInt64.ofNat (k * 8)) &&& 0xFF).toUInt8

/-- `target_bytes[24 + i]` is written for `i` from 7 down to 0 -/
def targetFromDifficulty (difficulty : Difficulty) : Hash :=
  let difficulty := if difficulty == 0 then 1 else difficulty
  let targetValue := maxDifficulty / difficulty
  (List.range 8).reverse.foldl
    (fun targetBytes i => ⟨targetBytes.1.set (24 + i) (byteAt targetValue (7 - i)), by
      rw [List.length_set]
      exact targetBytes.2⟩) Hash.zero

theorem byteAt_eq (value : UInt64) {k : Nat} (hk : k < 8) :
    byteAt value k = UInt8.ofNat (value.toNat >>> (k * 8)) := by
  have hshift : (UInt64.ofNat (k * 8)).toNat % 64 = k * 8 := by
    rw [UInt64.toNat_ofNat_of_lt' (by change k * 8 < 2 ^ 64; omega)]
    omega
  apply UInt8.toNat_inj.mp
  unfold byteAt
  rw [UInt64.toNat_toUInt8, UInt64.toNat_and, UInt64.toNat_shiftRight, hshift, UInt8.toNat_ofNat']
  change (value.toNat >>> (k * 8) &&& (2 ^ 8 - 1)) % 2 ^ 8 = _
  rw [Nat.and_two_pow_sub_one_eq_mod, Nat.mod_mod]

/-- what the loop leaves: 24 zeros, then the value, the most significant byte first -/
theorem targetFromDifficulty_val (difficulty : Difficulty) :
    (targetFromDifficulty difficulty).1 = List.replicate 24 0 ++
      bigEndian 8 (maxDifficulty / if difficulty == 0 then 1 else difficulty).toNat := by
  have hbytes : ∀ value : UInt64,
      (List.range 8).reverse.map (byteAt value) = bigEndian 8 value.toNat := by
    intro value
    refine List.map_congr_left fun i hi => byteAt_eq value ?_
    exact List.mem_range.mp (List.mem_reverse.mp hi)
  rw [← hbytes]
  rfl

theorem top_targetFromDifficulty (difficulty : Difficulty) :
    top (targetFromDifficulty difficulty) = 0 := by
  unfold top
  rw [targetFromDifficulty_val]
  exact ofBigEndian_replicate 8

/-- **The conversions are not inverse**: the value is written into the last eight bytes and read
from the first eight, so only the largest difficulty comes back. -/
theorem roundTrip_iff (difficulty : Difficulty) :
    difficultyFromTarget (targetFromDifficulty difficulty) = difficulty ↔
      difficulty = maxDifficulty := by
  have h : difficultyFromTarget (targetFromDifficulty difficulty) = maxDifficulty := by
    apply UInt64.toNat_inj.mp
    show (hashToDifficulty (targetFromDifficulty difficulty)).toNat = maxDifficulty.toNat
    rw [hashToDifficulty_eq, top_targetFromDifficulty, if_pos rfl, maxDifficulty_toNat]
  rw [h]
  exact eq_comm

/-- difficulty 1, the easiest, comes back as the hardest -/
theorem easiest_becomes_hardest : difficultyFromTarget (targetFromDifficulty 1) = maxDifficulty := by
  decide +kernel

end Pow

end Consensus
end ChainForge
