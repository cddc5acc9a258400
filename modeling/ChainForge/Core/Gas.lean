import ChainForge.Core.Block
import Mathlib.Algebra.GroupWithZero.Nat

/-!
# The gas of a block

`validate_gas_limits` adds the gas limits of the transactions in 64 bits and compares every partial
sum with the limit of the block.  `gasSum` is the sum itself.

* `gasFits_exact_iff`   partial sums that fit bound the sum exactly if it is below `2^64`;
* `valid_gas_iff`       **when a valid block respects its gas limit**.
-/

set_option linter.unusedSectionVars false

namespace ChainForge

/-- the gas limits of a list of transactions, added as natural numbers -/
def gasSum (l : List Transaction) : Nat := (l.map (·.gasLimit.toNat)).sum

theorem gasSum_cons (tx : Transaction) (l : List Transaction) :
    gasSum (tx :: l) = tx.gasLimit.toNat + gasSum l := by
  unfold gasSum
  rw [List.map_cons, List.sum_cons]

theorem gasSum_concat (l : List Transaction) (tx : Transaction) :
    gasSum (l ++ [tx]) = gasSum l + tx.gasLimit.toNat := by
  unfold gasSum
  rw [List.map_append, List.sum_append]
  rfl

/-- by induction on the transactions: the first wrap takes the sum past every limit -/
theorem gasFits_exact_iff {limit used : UInt64} {l : List Transaction} (hused : used ≤ limit)
    (h : Block.gasFits limit used l = true) :
    used.toNat + gasSum l ≤ limit.toNat ↔ used.toNat + gasSum l < 2^64 := by
  have hlimit := limit.toNat_lt
  induction l generalizing used with
  | nil =>
    have hused := UInt64.le_iff_toNat_le.mp hused
    show used.toNat + 0 ≤ _ ↔ used.toNat + 0 < _
    omega
  | cons tx l ih =>
    unfold Block.gasFits at h
    dsimp only at h
    by_cases hover : used + tx.gasLimit > limit
    · rw [if_pos hover] at h
      cases h
    rw [if_neg hover] at h
    have hiff := ih (UInt64.not_lt.mp hover) h
    rw [UInt64.toNat_add] at hiff
    rw [gasSum_cons]
    by_cases hwrap : used.toNat + tx.gasLimit.toNat < 2^64
    · rw [Nat.mod_eq_of_lt hwrap] at hiff
      rw [← Nat.add_assoc]
      exact hiff
    · omega

/-- **When a valid block respects its gas limit**: exactly if the sum of the gas limits of its
transactions is below `2^64`. -/
theorem valid_gas_iff (b : Block) (hb : b.isValid = true) :
    gasSum b.transactions ≤ b.header.gasLimit.toNat ↔ gasSum b.transactions < 2^64 := by
  have hfits : Block.gasFits b.header.gasLimit 0 b.transactions = true := by
    unfold Block.isValid Block.validateTransactions Block.validateGasLimits at hb
    simp only [Bool.and_eq_true] at hb
    exact hb.1.2.2
  have hzero : (0 : UInt64) ≤ b.header.gasLimit := UInt64.le_iff_toNat_le.mpr (Nat.zero_le _)
  have h := gasFits_exact_iff hzero hfits
  rwa [UInt64.toNat_zero, Nat.zero_add] at h

/-- a block of gas limit `2^63` with a transaction for each of the gas limits -/
def gasBlock (gas : List UInt64) : Block :=
  { (Block.make 1 Hash.zero 0).setGasLimit 9223372036854775808 with
    transactions := gas.map fun g =>
      (Transaction.make (Bytes.fill 20 1) (Bytes.fill 20 2) 1).setGasLimit g }

theorem valid_gas_sample :
    gasSum (gasBlock [21000]).transactions ≤ (gasBlock [21000]).header.gasLimit.toNat ↔
      gasSum (gasBlock [21000]).transactions < 2^64 :=
  valid_gas_iff (gasBlock [21000]) (by decide +kernel)

/-- two transactions of `2^63` each: their sum in 64 bits is 0 -/
theorem wrapped_gas_valid :
    let b := gasBlock [9223372036854775808, 9223372036854775808]
    b.isValid = true ∧ b.header.gasLimit.toNat < gasSum b.transactions := by
  decide +kernel

end ChainForge
