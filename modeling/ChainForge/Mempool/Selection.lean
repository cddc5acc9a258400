import ChainForge.Core.Gas
import ChainForge.Mempool.Steps

/-!
# Selection for a block

* `poolAfter_allValid`    every pooled transaction is valid, in every run;
* `blockLoop_validates`   the selection loop keeps a list that validates, together with its gas;
* `selection_validates`   what `get_transactions_for_block` selects, put into a block with that gas
                          limit, passes `Block::validate_transactions`;
* `gas_budget_iff`        **when a selection keeps to its budget**: exactly if no entry of the queue
                          takes the sum past `2^64` and back to the budget.
-/

set_option linter.unusedSectionVars false

namespace ChainForge
namespace Mempool
open Machine IndexedStore

section
variable {F : Type} [LinearOrder F] [Double F]

/-! ## valid entries -/

def AllValid (s : IndexedStore Hash (Address × UInt64) (MempoolEntry F)) : Prop :=
  ∀ h e, s.records h = some e → e.transaction.isValid = true

theorem StoreStep.allValid {s t : IndexedStore Hash (Address × UInt64) (MempoolEntry F)} {b : Bool}
    (h : StoreStep s b t) (hs : AllValid s) : AllValid t := by
  cases h with
  | drops hd _ => exact fun k e he => hs k e (hd.records_sub he)
  | clear _ =>
    intro k e he
    cases he
  | put k e hd _ hvalid _ =>
    intro k' e' he'
    rw [records_put] at he'
    by_cases ek : k' = k
    · rw [if_pos ek] at he'
      rw [← Option.some.inj he']
      exact hvalid
    · rw [if_neg ek] at he'
      exact hs k' e' (hd.records_sub he')

theorem poolAfter_allValid (H : List UInt8 → Hash) (config : MempoolConfig F)
    (calls : List (Call F)) : AllValid (store (poolAfter H config calls)) :=
  run_inv (fun s => AllValid (store s)) (fun s c hs => (step_store H s c).allValid hs) calls
    (fun _ _ h => by cases h)

/-! ## gas -/

/-- the gas of a list of transactions on top of `used`, modulo `2^64` -/
def gasUsed (used : UInt64) (l : List Transaction) : UInt64 :=
  l.foldl (fun g tx => g + tx.gasLimit) used

theorem gasUsed_concat (used : UInt64) (l : List Transaction) (tx : Transaction) :
    gasUsed used (l ++ [tx]) = gasUsed used l + tx.gasLimit := by
  unfold gasUsed
  rw [List.foldl_append]
  rfl

theorem gasFits_concat (limit used : UInt64) (l : List Transaction) (tx : Transaction) :
    Block.gasFits limit used (l ++ [tx])
      = (Block.gasFits limit used l && decide (gasUsed used l + tx.gasLimit ≤ limit)) := by
  induction l generalizing used with
  | nil =>
    show (if used + tx.gasLimit > limit then false else true) = decide (used + tx.gasLimit ≤ limit)
    by_cases h : used + tx.gasLimit > limit
    · rw [if_pos h, decide_eq_false (UInt64.not_le.mpr h)]
    · rw [if_neg h, decide_eq_true (UInt64.not_lt.mp h)]
  | cons t l ih =>
    show (if used + t.gasLimit > limit then false else Block.gasFits limit (used + t.gasLimit) (l ++ [tx]))
      = ((if used + t.gasLimit > limit then false else Block.gasFits limit (used + t.gasLimit) l)
          && decide (gasUsed (used + t.gasLimit) l + tx.gasLimit ≤ limit))
    by_cases h : used + t.gasLimit > limit
    · rw [if_pos h, if_pos h, Bool.false_and]
    · rw [if_neg h, if_neg h, ih]

theorem blockLoop_validates (s : MempoolImpl F) (hs : AllValid (store s)) (maxCount : Nat)
    (limit : UInt64) (queue : List (F ×ₗ Hash)) (total : UInt64) (result : List Transaction)
    (hv : result.all (·.isValid) = true) (hg : Block.gasFits limit 0 result = true)
    (ht : gasUsed 0 result = total) :
    (s.blockLoop maxCount limit queue total result).all (·.isValid) = true ∧
      Block.gasFits limit 0 (s.blockLoop maxCount limit queue total result) = true := by
  induction queue generalizing total result with
  | nil => exact ⟨hv, hg⟩
  | cons p queue ih =>
    unfold MempoolImpl.blockLoop
    by_cases hc : result.length < maxCount
    · rw [if_pos hc]
      cases hl : s.transactions.lookup (ofLex p).2 with
      | none => exact ih total result hv hg ht
      | some e =>
        dsimp only
        by_cases hfit : total + e.transaction.gasLimit ≤ limit
        · rw [if_pos hfit]
          refine ih _ _ ?_ ?_ ?_
          · rw [List.all_append, hv, List.all_cons, hs _ e hl]
            rfl
          · rw [gasFits_concat, hg, ht, decide_eq_true hfit]
            rfl
          · rw [gasUsed_concat, ht]
        · rw [if_neg hfit]
          exact ih total result hv hg ht
    · rw [if_neg hc]
      exact ⟨hv, hg⟩

/-- **Pool selection agrees with block validation**: after every run, a block with gas limit `G`
that holds what `get_transactions_for_block` returns for `G` validates its transactions. -/
theorem selection_validates (H : List UInt8 → Hash) (config : MempoolConfig F)
    (calls : List (Call F)) (maxCount : Nat) (G : UInt64) (header : BlockHeader)
    (cached : Option Hash) :
    Block.validateTransactions
      { header := { header with gasLimit := G }
        transactions := (poolAfter H config calls).getTransactionsForBlock maxCount G
        cachedHash := cached } = true := by
  obtain ⟨hv, hg⟩ := blockLoop_validates (poolAfter H config calls)
    (poolAfter_allValid H config calls) maxCount G
    (poolAfter H config calls).priorityQueue.elems 0 [] rfl rfl rfl
  show (_ && _) = true
  rw [Bool.and_eq_true]
  exact ⟨hv, hg⟩

/-! ## the budget -/

theorem blockLoop_length (s : MempoolImpl F) (maxCount : Nat) (limit : UInt64)
    (queue : List (F ×ₗ Hash)) (total : UInt64) (result : List Transaction)
    (h : result.length ≤ maxCount) :
    (s.blockLoop maxCount limit queue total result).length ≤ maxCount := by
  induction queue generalizing total result with
  | nil => exact h
  | cons p queue ih =>
    unfold MempoolImpl.blockLoop
    by_cases hc : result.length < maxCount
    · rw [if_pos hc]
      cases s.transactions.lookup (ofLex p).2 with
      | none => exact ih total result h
      | some e =>
        dsimp only
        split
        · refine ih _ _ ?_
          rw [List.length_append, List.length_singleton]
          exact hc
        · exact ih total result h
    · rw [if_neg hc]
      exact h

/-- the walk over the queue in exact numbers, with `count` transactions taken and their gas limits
summed up to `total`: some entry, met with fewer than `maxCount` taken, brings the sum to `2^64` or
more, and modulo `2^64` within the budget -/
def MempoolImpl.gasWraps (s : MempoolImpl F) (maxCount maxGasLimit : Nat) :
    List (F ×ₗ Hash) → Nat → Nat → Bool
  | [], _, _ => false
  | p :: queue, count, total =>
    if count < maxCount then
      match s.transactions.lookup (ofLex p).2 with
      | some e =>
        let sum := total + e.transaction.gasLimit.toNat
        if sum ≤ maxGasLimit then gasWraps s maxCount maxGasLimit queue (count + 1) sum
        else (2^64 ≤ sum && sum - 2^64 ≤ maxGasLimit) ||
          gasWraps s maxCount maxGasLimit queue count total
      | none => gasWraps s maxCount maxGasLimit queue count total
    else false

/-- the loop only appends -/
theorem gasSum_le_blockLoop (s : MempoolImpl F) (maxCount : Nat) (limit : UInt64)
    (queue : List (F ×ₗ Hash)) (total : UInt64) (result : List Transaction) :
    gasSum result ≤ gasSum (s.blockLoop maxCount limit queue total result) := by
  induction queue generalizing total result with
  | nil => exact Nat.le_refl _
  | cons p queue ih =>
    unfold MempoolImpl.blockLoop
    split
    · split
      · rename_i e _
        split
        · refine Nat.le_trans ?_ (ih _ _)
          rw [gasSum_concat]
          exact Nat.le_add_right _ _
        · exact ih _ _
      · exact ih _ _
    · exact Nat.le_refl _

/-- the 64-bit sum of a total within the budget and a gas limit -/
theorem gas_add_le_iff {limit total : UInt64} (gas : UInt64) (ht : total ≤ limit) :
    total + gas ≤ limit ↔ total.toNat + gas.toNat ≤ limit.toNat ∨
      2^64 ≤ total.toNat + gas.toNat ∧ total.toNat + gas.toNat - 2^64 ≤ limit.toNat := by
  have hgas := gas.toNat_lt
  have hlimit := limit.toNat_lt
  have hle := UInt64.le_iff_toNat_le.mp ht
  rw [UInt64.le_iff_toNat_le, UInt64.toNat_add]
  omega

/-- **The loop keeps to its budget** exactly if the exact walk meets no such entry: up to the first
one both sums agree, and from then on the selection is over the budget. -/
theorem blockLoop_budget_iff (s : MempoolImpl F) (maxCount : Nat) (limit : UInt64)
    (queue : List (F ×ₗ Hash)) (total : UInt64) (result : List Transaction)
    (htotal : total.toNat = gasSum result) (hle : total ≤ limit) :
    gasSum (s.blockLoop maxCount limit queue total result) ≤ limit.toNat ↔
      s.gasWraps maxCount limit.toNat queue result.length total.toNat = false := by
  induction queue generalizing total result with
  | nil =>
    have hsum : gasSum result ≤ limit.toNat := htotal ▸ UInt64.le_iff_toNat_le.mp hle
    exact ⟨fun _ => rfl, fun _ => hsum⟩
  | cons p queue ih =>
    unfold MempoolImpl.blockLoop MempoolImpl.gasWraps
    by_cases hc : result.length < maxCount
    · rw [if_pos hc, if_pos hc]
      cases hl : s.transactions.lookup (ofLex p).2 with
      | none => exact ih total result htotal hle
      | some e =>
        dsimp only
        have hadd := gas_add_le_iff e.transaction.gasLimit hle
        by_cases hfits : total.toNat + e.transaction.gasLimit.toNat ≤ limit.toNat
        · -- taken, and rightly
          have hnext : (total + e.transaction.gasLimit).toNat
              = total.toNat + e.transaction.gasLimit.toNat := by
            have hlimit := limit.toNat_lt
            rw [UInt64.toNat_add, Nat.mod_eq_of_lt (by omega)]
          rw [if_pos (hadd.mpr (.inl hfits)), if_pos hfits, ← hnext,
            ih _ (result ++ [e.transaction]) (by rw [hnext, gasSum_concat, htotal])
              (hadd.mpr (.inl hfits)), List.length_append, List.length_singleton]
        · rw [if_neg hfits]
          by_cases hwraps : 2^64 ≤ total.toNat + e.transaction.gasLimit.toNat ∧
              total.toNat + e.transaction.gasLimit.toNat - 2^64 ≤ limit.toNat
          · -- taken, though the exact sum is over the budget
            rw [if_pos (hadd.mpr (.inr hwraps)), decide_eq_true hwraps.1, decide_eq_true hwraps.2]
            refine ⟨fun h => ?_, nofun⟩
            have hmore := gasSum_le_blockLoop s maxCount limit queue
              (total + e.transaction.gasLimit) (result ++ [e.transaction])
            rw [gasSum_concat, ← htotal] at hmore
            exact absurd (hmore.trans h) hfits
          · have hno : (decide (2^64 ≤ total.toNat + e.transaction.gasLimit.toNat) &&
                decide (total.toNat + e.transaction.gasLimit.toNat - 2^64 ≤ limit.toNat)) = false := by
              rw [← Bool.decide_and]
              exact decide_eq_false hwraps
            rw [if_neg (fun h => (hadd.mp h).elim hfits hwraps), hno, Bool.false_or]
            exact ih total result htotal hle
    · rw [if_neg hc, if_neg hc]
      have hsum : gasSum result ≤ limit.toNat := htotal ▸ UInt64.le_iff_toNat_le.mp hle
      exact ⟨fun _ => rfl, fun _ => hsum⟩

/-- **When a selection keeps to its budget**, after every run: exactly if, as the queue is walked
through and the transactions that fit are taken, no entry brings the sum of the gas limits to `2^64`
or more and modulo `2^64` back within the budget.  The loop adds in 64 bits, and the pool admits any
gas limit from 21000 on. -/
theorem gas_budget_iff (H : List UInt8 → Hash) (config : MempoolConfig F) (calls : List (Call F))
    (maxCount : Nat) (maxGasLimit : UInt64) :
    let s := poolAfter H config calls
    let selected := s.getTransactionsForBlock maxCount maxGasLimit
    (selected.length ≤ maxCount ∧ gasSum selected ≤ maxGasLimit.toNat) ↔
      s.gasWraps maxCount maxGasLimit.toNat s.priorityQueue.elems 0 0 = false := by
  intro s selected
  have hlen : selected.length ≤ maxCount :=
    blockLoop_length s maxCount maxGasLimit _ 0 [] (Nat.zero_le _)
  have hzero : (0 : UInt64) ≤ maxGasLimit := UInt64.le_iff_toNat_le.mpr (Nat.zero_le _)
  have hbudget := blockLoop_budget_iff s maxCount maxGasLimit s.priorityQueue.elems 0 [] rfl hzero
  exact ⟨fun h => hbudget.mp h.2, fun h => ⟨hlen, hbudget.mpr h⟩⟩

end

/-- a transaction from the address `b..b` with the gas limit `2^63` -/
def greedyTx (b : UInt8) : Transaction :=
  { data := { fromAddr := Bytes.fill 20 b, toAddr := Bytes.fill 20 3, value := 1,
              gasLimit := 9223372036854775808, gasPrice := 10, data := [], nonce := 1 } }

/-- two transactions of `2^63` each are selected for a budget of `2^63` -/
theorem budget_exceeded :
    let calls : List (Call ℚ) :=
      [⟨.addTransaction (greedyTx 1), fun _ => 0⟩, ⟨.addTransaction (greedyTx 2), fun _ => 0⟩]
    let budget : UInt64 := 9223372036854775808
    budget.toNat < gasSum
      ((poolAfter hashSha256 MempoolConfig.default calls).getTransactionsForBlock 2 budget) := by
  decide +kernel

end Mempool
end ChainForge
