import ChainForge.Core.TransactionObjects
import ChainForge.Mempool.Limits
import ChainForge.Mempool.Selection

/-!
# Fees of pooled transactions

The mempool checks the gas price against both ends of its configured range, and the gas limit against
its lower end only, so the 64-bit product of the two is not bounded by what it lets in.

* `step_priced`      one call keeps the bounds;
* `fees_exact_iff`   **when no fee wraps along a run**: no call takes a transaction in whose product is
                     `2^64` or more, by the tests of its method.
-/

set_option linter.unusedSectionVars false

namespace ChainForge
namespace Mempool
open Machine

section
variable {F : Type} [LinearOrder F] [Double F]

/-! ## the bounds -/

/-- all that the checks imply for gas limit and gas price, with the default configuration -/
def Priced (s : MempoolImpl F) : Prop :=
  ∀ h e, s.transactions.lookup h = some e →
    21000 ≤ e.transaction.gasLimit.toNat ∧ 1 ≤ e.transaction.gasPrice.toNat ∧
      e.transaction.gasPrice.toNat ≤ 1000000

/-- every fee is the product of the numbers -/
def FeesExact (s : MempoolImpl F) : Prop :=
  ∀ h e, s.transactions.lookup h = some e →
    e.transaction.calculateFee.toNat = e.transaction.gasLimit.toNat * e.transaction.gasPrice.toNat

/-- the fee is computed from the data alone -/
theorem fee_exact_iff {tx tx' : Transaction} (h : tx.data = tx'.data) :
    tx.calculateFee.toNat = tx.gasLimit.toNat * tx.gasPrice.toNat ↔
      tx'.gasLimit.toNat * tx'.gasPrice.toNat < 2^64 := by
  have hfee : tx.calculateFee.toNat = tx.gasLimit.toNat * tx.gasPrice.toNat % 2^64 :=
    UInt64.toNat_mul _ _
  rw [hfee]
  unfold Transaction.gasLimit Transaction.gasPrice
  rw [h]
  exact Nat.mod_eq_iff_lt (by decide)

/-- the call takes a transaction in, with a product of `2^64` or more -/
def Call.wraps (H : List UInt8 → Hash) (s : MempoolImpl F) (c : Call F) : Bool :=
  (c.takesIn H s).any fun tx => 2^64 ≤ tx.gasLimit.toNat * tx.gasPrice.toNat

section
variable {H : List UInt8 → Hash} {s : MempoolImpl F} {c : Call F}

theorem step_priced (hs : s.config = MempoolConfig.default) (h : Priced s) : Priced (step H s c) := by
  intro k e hk
  rcases step_entry hk with hold | ⟨tx, _, _, hdata, hvalid, hfee⟩
  · exact h k e hold
  · obtain ⟨-, ⟨hgas, -⟩, -⟩ := (Transaction.isValid_iff tx).mp hvalid
    unfold MempoolImpl.validateFee at hfee
    rw [hs, Bool.and_eq_true, decide_eq_true_iff, decide_eq_true_iff] at hfee
    unfold Transaction.gasLimit Transaction.gasPrice
    rw [hdata]
    exact ⟨UInt64.le_iff_toNat_le.mp hgas, UInt64.le_iff_toNat_le.mp hfee.1,
      UInt64.le_iff_toNat_le.mp hfee.2⟩

/-- **One call.** -/
theorem step_feesExact_iff (h : FeesExact s) : FeesExact (step H s c) ↔ c.wraps H s = false := by
  unfold Call.wraps
  rw [Option.any_eq_false]
  constructor
  · intro hstep tx htx
    obtain ⟨e, he, hdata⟩ := step_takesIn htx
    have hlt := (fee_exact_iff hdata).mp (hstep _ e he)
    exact decide_eq_false (Nat.not_le.mpr hlt)
  · intro hwraps k e he
    rcases step_entry he with hold | ⟨tx, htx, rfl, hdata, _, _⟩
    · exact h k e hold
    · exact (fee_exact_iff hdata).mpr (Nat.lt_of_not_le (of_decide_eq_false (hwraps tx htx)))

end

/-- **When no fee wraps**, in a run that keeps the default configuration: gas limits and gas prices of
the pooled transactions stay within the bounds, and all fees are exact exactly if no call takes a
transaction in with a product of `2^64` or more. -/
theorem fees_exact_iff (H : List UInt8 → Hash) (calls : List (Call F))
    (hkeep : ∀ c ∈ calls, c.keepsConfig MempoolConfig.default) :
    EveryState (step H) Priced (MempoolImpl.start MempoolConfig.default) calls ∧
      (EveryState (step H) FeesExact (MempoolImpl.start MempoolConfig.default) calls ↔
        EveryStep (step H) (fun s c => c.wraps H s = false)
          (MempoolImpl.start MempoolConfig.default) calls) := by
  have hempty : ∀ {P : MempoolEntry F → Prop} h e,
      (MempoolImpl.start MempoolConfig.default : MempoolImpl F).transactions.lookup h = some e → P e :=
    fun _ _ he => by cases he
  have hkeeps : EveryStep (step H) (fun _ c => c.keepsConfig MempoolConfig.default)
      (MempoolImpl.start MempoolConfig.default) calls := everyStep_of_forall (fun _ => hkeep) _
  constructor
  · refine (everyState_iff_of (fun s : MempoolImpl F => s.config = MempoolConfig.default)
      (C := fun _ _ => True) (fun s c hs hc => step_config hs hc) ?_ calls rfl hempty hkeeps).mpr
      (everyStep_of_forall (fun _ _ _ => trivial) _)
    intro s c hs _ hP
    exact ⟨fun _ => trivial, fun _ => step_priced hs hP⟩
  · exact everyState_iff (fun _ => True) (fun _ _ _ => trivial)
      (fun s c _ h => step_feesExact_iff h) calls trivial hempty

end

/-- one transaction with the gas limit `2^63` and the gas price 10 -/
def wrappingRun : List (Call ℚ) := [⟨.addTransaction (greedyTx 1), fun _ => 0⟩]

theorem fees_exact_wrapping :
    EveryState (step hashSha256) Priced (MempoolImpl.start MempoolConfig.default) wrappingRun ∧
      (EveryState (step hashSha256) FeesExact (MempoolImpl.start MempoolConfig.default) wrappingRun ↔
        EveryStep (step hashSha256) (fun s c => c.wraps hashSha256 s = false)
          (MempoolImpl.start MempoolConfig.default) wrappingRun) := by
  refine fees_exact_iff hashSha256 wrappingRun fun c hc => ?_
  rw [List.mem_singleton.mp hc]
  trivial

/-- its fee is zero -/
theorem wrapped_fee :
    ((poolAfter hashSha256 (MempoolConfig.default (F := ℚ)) wrappingRun).transactions.lookup
        ((greedyTx 1).calculateHash hashSha256)).map
      (fun e => (e.transaction.calculateFee, e.transaction.gasLimit.toNat * e.transaction.gasPrice.toNat))
      = some (0, 92233720368547758080) := by
  decide +kernel

end Mempool
end ChainForge
