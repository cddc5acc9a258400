import ChainForge.Core.Block
import ChainForge.Lib.Double

/-!
# Proof of work

`modules/consensus/src/consensus_impl.cpp`: mining and validation.  `stop_mining` waits for the
mutex that `mine_block` holds, so the flag that `mine_block` clears stays cleared while it mines.
The outcomes of `rand()` and the time that passes are arguments.

Mining hashes height, parent, root, timestamp, nonce and difficulty; validation hashes the header.
The placeholder `hash_sha256` keeps the first 32 bytes, height and parent, of both
(`calculateBlockHash_eq`), so the nonce changes neither hash.

* `miningLoop_meets`   a template whose hash meets the difficulty is mined at once;
* `miningLoop_demo`    every other template is mined at nonce 42, the demo exit of the loop;
* `mining_agrees`      **mining and validation agree up to the demo exit**;
* `demo_block_rejected`   a block mined by the demo exit does not validate;
* `mined_preimage_ne`     mining and validation never hash the same bytes: with another function in
                          the place of the placeholder they see different hashes.
-/

set_option linter.unusedSectionVars false

namespace ChainForge
namespace Consensus

abbrev Difficulty := UInt64

/-- `std::numeric_limits<Difficulty>::max()` -/
def maxDifficulty : Difficulty := 18446744073709551615

structure MiningResult where
  success : Bool
  nonce : UInt64
  blockHash : Hash
  /-- milliseconds -/
  miningTime : Int
  attempts : UInt64
  deriving DecidableEq, Repr

structure MiningStats (F : Type) where
  totalAttempts : UInt64
  successfulMines : UInt64
  totalMiningTime : Int
  averageAttemptsPerSecond : F
  currentDifficulty : UInt64

structure ProofOfWork (F : Type) where
  currentDifficulty : Difficulty
  miningStats : MiningStats F
  miningActive : Bool
  stopRequested : Bool

def hashToDifficulty (hash : Hash) : Difficulty :=
  let hashValue : UInt64 := (hash.1.take 8).foldl (fun v b => (v <<< 8) ||| b.toUInt64) 0
  if hashValue == 0 then maxDifficulty else maxDifficulty / hashValue

def meetsDifficultyTarget (hash : Hash) (difficulty : Difficulty) : Bool :=
  hashToDifficulty hash ≥ difficulty

namespace ProofOfWork

section
variable {F : Type} [Double F] (H : List UInt8 → Hash)

/-! ## mining -/

/-- the byte string that `calculate_block_hash` builds -/
def minedPreimage (s : ProofOfWork F) (b : Block) (nonce : UInt64) : List UInt8 :=
  bigEndian 8 b.header.height.toNat ++ (b.header.parentHash.1 ++ (b.header.merkleRoot.1 ++
    (bigEndian 8 b.header.timestamp.toNat ++ (bigEndian 8 nonce.toNat ++
      bigEndian 8 s.currentDifficulty.toNat))))

def calculateBlockHash (s : ProofOfWork F) (b : Block) (nonce : UInt64) : Hash :=
  H (s.minedPreimage b nonce)

/-- the statistics after a success; both exits of the loop update them in the same way -/
def recordSuccess (s : ProofOfWork F) (attempts : UInt64) (miningTime : Int) : MiningStats F :=
  let totalAttempts := s.miningStats.totalAttempts + attempts
  let totalMiningTime := s.miningStats.totalMiningTime + miningTime
  { totalAttempts
    successfulMines := s.miningStats.successfulMines + 1
    totalMiningTime
    averageAttemptsPerSecond :=
      if totalMiningTime > 0 then
        Double.div (Double.ofNat totalAttempts.toNat)
          (Double.div (Double.ofNat totalMiningTime.toNat) (Double.lit 1000))
      else s.miningStats.averageAttemptsPerSecond
    currentDifficulty := s.currentDifficulty }

/-- the loop over the nonces, for at most `rounds` of them: nonce and hash of a success, and the
number of attempts -/
def miningLoop (s : ProofOfWork F) (b : Block) (rand : UInt64 → Nat) :
    Nat → UInt64 → UInt64 → Option (UInt64 × Hash) × UInt64
  | 0, _, attempts => (none, attempts)
  | rounds + 1, nonce, attempts =>
    if s.stopRequested then (none, attempts)
    else
      let attempts := attempts + 1
      let blockHash := s.calculateBlockHash H b nonce
      if meetsDifficultyTarget blockHash s.currentDifficulty then
        (some (nonce, blockHash), attempts)
      -- "for demo purposes, we'll succeed on nonce 42 or after some attempts"
      else if nonce == 42 || (attempts > 1000 && rand nonce % 10000 == 0) then
        (some (nonce, s.calculateBlockHash H b nonce), attempts)
      else miningLoop s b rand rounds (nonce + 1) attempts

/-- the loop runs for the nonces below `2^64 - 1` -/
def performMining (s : ProofOfWork F) (b : Block) (rand : UInt64 → Nat) (miningTime : Int) :
    MiningResult × ProofOfWork F :=
  match s.miningLoop H b rand (2^64 - 1) 0 0 with
  | (some (nonce, blockHash), attempts) =>
    ({ success := true, nonce, blockHash, miningTime, attempts },
     { s with miningStats := s.recordSuccess attempts miningTime })
  | (none, attempts) =>
    ({ success := false, nonce := 0, blockHash := Hash.zero, miningTime, attempts }, s)

def mineBlock (s : ProofOfWork F) (b : Block) (rand : UInt64 → Nat) (miningTime : Int) :
    MiningResult × ProofOfWork F :=
  let s := { s with miningActive := true, stopRequested := false }
  let (result, s) := s.performMining H b rand miningTime
  (result, { s with miningActive := false })

/-! ## validation -/

/-- the nonce is not used -/
def validateProofOfWork (_ : ProofOfWork F) (blockHash : Hash) (_nonce : UInt64)
    (difficulty : Difficulty) : Bool :=
  meetsDifficultyTarget blockHash difficulty

def validateBlock (s : ProofOfWork F) (b : Block) : Bool :=
  if !b.isValid then false
  else s.validateProofOfWork (b.calculateHash H) b.nonce s.currentDifficulty

end

/-! ## both hashes -/

section
variable {F : Type} [Double F] {s : ProofOfWork F} {b : Block} {rand : UInt64 → Nat}

/-- **Mining and validation see the same hash**, whatever the nonce. -/
theorem calculateBlockHash_eq (s : ProofOfWork F) (b : Block) (nonce nonce' : UInt64) :
    s.calculateBlockHash hashSha256 b nonce = (b.setNonce nonce').calculateHash hashSha256 := by
  have hlen : 32 ≤ (bigEndian 8 b.header.height.toNat ++ b.header.parentHash.1).length := by
    rw [List.length_append, bigEndian_length, b.header.parentHash.2]
    omega
  show hashSha256 (s.minedPreimage b nonce) = hashSha256 (Block.preimage (b.setNonce nonce').header)
  unfold minedPreimage Block.preimage
  rw [← List.append_assoc, ← List.append_assoc (bigEndian 8 (b.setNonce nonce').header.height.toNat)]
  exact hashSha256_append hlen _ _

theorem minedPreimage_length (s : ProofOfWork F) (b : Block) (nonce : UInt64) :
    (s.minedPreimage b nonce).length = 96 := by
  unfold minedPreimage
  simp only [List.length_append, bigEndian_length, b.header.parentHash.2, b.header.merkleRoot.2]

/-- **Mining leaves out gas limit, gas price and chain id and adds the difficulty**, so its bytes
are never those of `Block::calculate_hash`, and there is a hash function that sees it. -/
theorem mined_preimage_ne (s : ProofOfWork F) (b : Block) :
    s.minedPreimage b b.nonce ≠ Block.preimage b.header ∧
      ∃ H : List UInt8 → Hash,
        s.calculateBlockHash H b b.nonce ≠ Block.calculateHash H { b with cachedHash := none } := by
  have hlen := s.minedPreimage_length b b.nonce
  have hlen' := Block.preimage_length b.header
  refine ⟨?_, fun l => Bytes.fill 32 (UInt8.ofNat l.length), ?_⟩
  · intro e
    rw [e, hlen'] at hlen
    cases hlen
  · -- a hash that only tells the lengths apart is enough
    show Bytes.fill 32 (UInt8.ofNat (s.minedPreimage b b.nonce).length)
      ≠ Bytes.fill 32 (UInt8.ofNat (Block.preimage b.header).length)
    rw [hlen, hlen']
    decide

theorem miningLoop_meets (hstop : s.stopRequested = false) {nonce attempts : UInt64} {rounds : Nat}
    (h : meetsDifficultyTarget (s.calculateBlockHash hashSha256 b nonce) s.currentDifficulty = true) :
    s.miningLoop hashSha256 b rand (rounds + 1) nonce attempts
      = (some (nonce, s.calculateBlockHash hashSha256 b nonce), attempts + 1) := by
  unfold miningLoop
  rw [if_neg (by rw [hstop]; exact Bool.false_ne_true)]
  dsimp only
  rw [if_pos h]

theorem miningLoop_next (hstop : s.stopRequested = false)
    (h : ∀ nonce, meetsDifficultyTarget (s.calculateBlockHash hashSha256 b nonce)
      s.currentDifficulty = false) {n : Nat} (hn : n < 42) (rounds : Nat) :
    s.miningLoop hashSha256 b rand (rounds + 1) (UInt64.ofNat n) (UInt64.ofNat n)
      = s.miningLoop hashSha256 b rand rounds (UInt64.ofNat (n + 1)) (UInt64.ofNat (n + 1)) := by
  have hlt : n + 1 < UInt64.size := by
    change n + 1 < 18446744073709551616
    omega
  have hsucc : UInt64.ofNat n + 1 = UInt64.ofNat (n + 1) := by
    rw [UInt64.ofNat_add]
    rfl
  have h42 : (UInt64.ofNat n == 42) = false := by
    rw [beq_eq_false_iff_ne]
    intro e
    have hnat : n = 42 := by
      have h := congrArg UInt64.toNat e
      rwa [UInt64.toNat_ofNat_of_lt' (by omega)] at h
    omega
  have h1000 : decide (UInt64.ofNat (n + 1) > 1000) = false := by
    rw [decide_eq_false_iff_not, gt_iff_lt, UInt64.lt_iff_toNat_lt, UInt64.toNat_ofNat_of_lt' hlt]
    change ¬ 1000 < n + 1
    omega
  rw [miningLoop, if_neg (by rw [hstop]; exact Bool.false_ne_true)]
  dsimp only
  rw [if_neg (by rw [h]; exact Bool.false_ne_true), hsucc, h42, h1000]
  rfl

/-- where no nonce meets the difficulty, the loop goes on to nonce 42 -/
theorem miningLoop_demo (hstop : s.stopRequested = false)
    (h : ∀ nonce, meetsDifficultyTarget (s.calculateBlockHash hashSha256 b nonce)
      s.currentDifficulty = false) {k n : Nat} (hk : n + k = 42) (rounds : Nat) :
    s.miningLoop hashSha256 b rand (rounds + 1 + k) (UInt64.ofNat n) (UInt64.ofNat n)
      = (some (42, s.calculateBlockHash hashSha256 b 42), 43) := by
  -- by induction on the rounds left to nonce 42
  induction k generalizing n with
  | zero =>
    have hn : n = 42 := hk
    subst hn
    rw [Nat.add_zero, miningLoop, if_neg (by rw [hstop]; exact Bool.false_ne_true)]
    dsimp only
    rw [if_neg (by rw [h]; exact Bool.false_ne_true)]
    rfl
  | succ k ih =>
    rw [← Nat.add_assoc, miningLoop_next hstop h (by omega)]
    exact ih (by omega)

theorem miningLoop_result (b : Block) (rand : UInt64 → Nat) (hstop : s.stopRequested = false) :
    ∃ nonce attempts, s.miningLoop hashSha256 b rand (2^64 - 1) 0 0
        = (some (nonce, s.calculateBlockHash hashSha256 b nonce), attempts) ∧
      (meetsDifficultyTarget (s.calculateBlockHash hashSha256 b nonce) s.currentDifficulty = false →
        nonce = 42) := by
  have hrounds : 2^64 - 1 = (2^64 - 44) + 1 + 42 := by decide
  by_cases h : meetsDifficultyTarget (s.calculateBlockHash hashSha256 b 0) s.currentDifficulty = true
  · refine ⟨0, 0 + 1, ?_, fun hf => ?_⟩
    · rw [hrounds]
      exact miningLoop_meets hstop h
    · rw [h] at hf
      cases hf
  · have hall : ∀ nonce, meetsDifficultyTarget (s.calculateBlockHash hashSha256 b nonce)
        s.currentDifficulty = false := by
      intro nonce
      rw [calculateBlockHash_eq s b nonce 0, ← calculateBlockHash_eq s b 0 0]
      simpa using h
    refine ⟨42, 43, ?_, fun _ => rfl⟩
    rw [hrounds]
    exact miningLoop_demo (n := 0) hstop hall (by omega) _

end

/-- **Mining and validation agree up to the demo exit**: `mine_block` succeeds on every valid
template, the template with the nonce found validates exactly when the hash found meets the
difficulty, and where it does not, the nonce is 42. -/
theorem mining_agrees {F : Type} [Double F] (s : ProofOfWork F) (template : Block)
    (hv : template.isValid = true) (rand : UInt64 → Nat) (miningTime : Int) :
    let r := s.mineBlock hashSha256 template rand miningTime
    r.1.success = true ∧ r.2.currentDifficulty = s.currentDifficulty ∧
      (r.2.validateBlock hashSha256 (template.setNonce r.1.nonce) = true ↔
        meetsDifficultyTarget r.1.blockHash s.currentDifficulty = true) ∧
      (r.2.validateBlock hashSha256 (template.setNonce r.1.nonce) = false → r.1.nonce = 42) := by
  have hstart : ({ s with miningActive := true, stopRequested := false } :
      ProofOfWork F).stopRequested = false := rfl
  obtain ⟨nonce, attempts, hloop, hdemo⟩ := miningLoop_result template rand hstart
  have hvalid : ∀ t : ProofOfWork F, t.currentDifficulty = s.currentDifficulty →
      t.validateBlock hashSha256 (template.setNonce nonce)
        = meetsDifficultyTarget (s.calculateBlockHash hashSha256 template nonce)
            s.currentDifficulty := by
    intro t ht
    unfold validateBlock
    rw [Block.isValid_setNonce, hv, calculateBlockHash_eq s template nonce nonce, ht]
    rfl
  dsimp only
  unfold mineBlock performMining
  dsimp only
  rw [hloop]
  refine ⟨rfl, rfl, ?_, fun hf => hdemo ?_⟩
  · rw [hvalid]
    · exact Iff.rfl
    · rfl
  · rw [hvalid] at hf
    · exact hf
    · rfl

/-! ## the demo exit -/

/-- a mining state with the given difficulty -/
def sample (difficulty : Difficulty) : ProofOfWork ℚ where
  currentDifficulty := difficulty
  miningStats := ⟨0, 0, 0, 0, 0⟩
  miningActive := false
  stopRequested := false

theorem mining_agrees_sample :
    (Block.make 2 Hash.zero 0).isValid = true ∧
    let r := (sample 1).mineBlock hashSha256 (Block.make 2 Hash.zero 0) (fun _ => 1) 0
    r.1.success = true ∧ r.2.currentDifficulty = (sample 1).currentDifficulty ∧
      (r.2.validateBlock hashSha256 ((Block.make 2 Hash.zero 0).setNonce r.1.nonce) = true ↔
        meetsDifficultyTarget r.1.blockHash (sample 1).currentDifficulty = true) ∧
      (r.2.validateBlock hashSha256 ((Block.make 2 Hash.zero 0).setNonce r.1.nonce) = false →
        r.1.nonce = 42) :=
  ⟨by decide, mining_agrees (sample 1) (Block.make 2 Hash.zero 0) (by decide) (fun _ => 1) 0⟩

/-- a block of height 2: 96 bytes for mining, 108 for validation -/
theorem mined_preimage_sample :
    (sample 1).minedPreimage (Block.make 2 Hash.zero 0) (Block.make 2 Hash.zero 0).nonce
      ≠ Block.preimage (Block.make 2 Hash.zero 0).header := by
  decide +kernel

/-- at the highest difficulty, a template of height 2 is mined, and then refused -/
theorem demo_block_rejected :
    (Block.make 2 Hash.zero 0).isValid = true ∧
    let r := (sample maxDifficulty).mineBlock hashSha256 (Block.make 2 Hash.zero 0) (fun _ => 1) 0
    r.1.success = true ∧ r.1.nonce = 42 ∧
      r.2.validateBlock hashSha256 ((Block.make 2 Hash.zero 0).setNonce r.1.nonce) = false := by
  decide +kernel

end ProofOfWork

end Consensus
end ChainForge
