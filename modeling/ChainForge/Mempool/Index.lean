import ChainForge.Mempool.Steps

/-!
# The nonce index along runs

* `pooled_indexed`         in every run every pooled entry is indexed by its own sender and nonce,
                           whatever the hashes are; so no two pooled transactions share both;
* `index_exact_iff`        the index names pooled entries only, all along a run, exactly when no
                           call of the run is a replacement that takes the key of another entry;
* `dangling_after_replacement`  with the implemented hash, two additions and one replacement leave
                           such an index entry behind: the hash sees the sender and twelve bytes of
                           the recipient only.
-/

set_option linter.unusedSectionVars false

namespace ChainForge
namespace Mempool
open Machine IndexedStore

section
variable {F : Type} [LinearOrder F] [Double F]

/-- every index entry names a pooled transaction of that sender and nonce -/
def NoDangling (s : MempoolImpl F) : Prop :=
  ∀ a n h, s.indexed a n = some h →
    ∃ e, s.transactions.lookup h = some e ∧ e.transaction.fromAddr = a ∧ e.transaction.nonce = n

theorem noDangling_iff (s : MempoolImpl F) : NoDangling s ↔ Exact slot (store s) := by
  constructor
  · intro h i k hk
    obtain ⟨e, he, ha, hn⟩ := h i.1 i.2 k hk
    exact ⟨e, he, Prod.ext ha hn⟩
  · intro h a n k hk
    obtain ⟨e, he, hi⟩ := h (a, n) k hk
    exact ⟨e, he, (Prod.mk.inj hi).1, (Prod.mk.inj hi).2⟩

/-! ## one step -/

theorem StoreStep.indexed {s t : IndexedStore Hash (Address × UInt64) (MempoolEntry F)} {b : Bool}
    (h : StoreStep s b t) (hs : Indexed slot s) : Indexed slot t := by
  cases h with
  | drops hd _ => exact hd.indexed hs
  | clear _ => exact Indexed.empty
  | put k e hd hfree _ _ => exact (hd.indexed hs).put k hfree

/-- from an exact index, a step ends in one exactly when it does not overwrite an entry -/
theorem StoreStep.exact_iff {s t : IndexedStore Hash (Address × UInt64) (MempoolEntry F)} {b : Bool}
    (h : StoreStep s b t) (hs : Indexed slot s) (he : Exact slot s) :
    Exact slot t ↔ b = false := by
  cases h with
  | drops hd hb => exact ⟨fun _ => hb, fun _ => hd.exact he⟩
  | clear hb => exact ⟨fun _ => hb, fun _ => Exact.empty⟩
  | put k e hd hfree _ hb =>
    rw [Exact.put_iff (hd.indexed hs) (hd.exact he) hfree]
    exact hb

theorem step_indexed (H : List UInt8 → Hash) (s : MempoolImpl F) (c : Call F)
    (hs : Indexed slot (store s)) : Indexed slot (store (step H s c)) :=
  (step_store H s c).indexed hs

theorem step_noDangling_iff (H : List UInt8 → Hash) (s : MempoolImpl F) (c : Call F)
    (hs : Indexed slot (store s)) (he : NoDangling s) :
    NoDangling (step H s c) ↔ c.clobbers H s = false := by
  rw [noDangling_iff] at he ⊢
  exact (step_store H s c).exact_iff hs he

theorem start_noDangling (config : MempoolConfig F) : NoDangling (MempoolImpl.start config) :=
  (noDangling_iff _).mpr Exact.empty

/-! ## runs -/

theorem poolAfter_indexed (H : List UInt8 → Hash) (config : MempoolConfig F)
    (calls : List (Call F)) : Indexed slot (store (poolAfter H config calls)) :=
  run_inv (fun s => Indexed slot (store s)) (step_indexed H) calls Indexed.empty

theorem poolAfter_noDangling (H : List UInt8 → Hash) (config : MempoolConfig F)
    (calls : List (Call F))
    (hcalls : EveryStep (step H) (fun s c => c.clobbers H s = false) (MempoolImpl.start config)
      calls) : NoDangling (poolAfter H config calls) := by
  refine (run_inv_of (fun s => Indexed slot (store s) ∧ NoDangling s) ?_ calls
    ⟨Indexed.empty, start_noDangling config⟩ hcalls).2
  rintro s c ⟨hs, he⟩ hc
  exact ⟨step_indexed H s c hs, (step_noDangling_iff H s c hs he).mpr hc⟩

/-- **Every pooled entry is indexed by its own sender and nonce**, in every run from an empty pool,
for every hash function and every cached hash; no two pooled entries share sender and nonce. -/
theorem pooled_indexed (H : List UInt8 → Hash) (config : MempoolConfig F) (calls : List (Call F)) :
    (∀ h e, (poolAfter H config calls).transactions.lookup h = some e →
      (poolAfter H config calls).indexed e.transaction.fromAddr e.transaction.nonce = some h) ∧
    (∀ h h' e e', (poolAfter H config calls).transactions.lookup h = some e →
      (poolAfter H config calls).transactions.lookup h' = some e' →
      e.transaction.fromAddr = e'.transaction.fromAddr →
      e.transaction.nonce = e'.transaction.nonce → h = h') := by
  have hi := poolAfter_indexed H config calls
  refine ⟨fun h e he => hi h e he, fun h h' e e' he he' ha hn => ?_⟩
  exact hi.key_unique he he' (Prod.ext ha hn)

/-- **The index is exact all along a run exactly when no replacement of the run takes the key of
another entry.** -/
theorem index_exact_iff (H : List UInt8 → Hash) (config : MempoolConfig F)
    (calls : List (Call F)) :
    EveryState (step H) NoDangling (MempoolImpl.start config) calls ↔
      EveryStep (step H) (fun s c => c.clobbers H s = false) (MempoolImpl.start config) calls := by
  exact everyState_iff (fun s => Indexed slot (store s)) (step_indexed H) (step_noDangling_iff H)
    calls Indexed.empty (start_noDangling config)

end

/-! ## an overwriting replacement -/

/-- a transaction from the address `11..1` to the address `b..b` -/
def sampleTx (b : UInt8) (nonce price : UInt64) : Transaction :=
  { data := { fromAddr := Bytes.fill 20 1, toAddr := Bytes.fill 20 b,
              value := 1, gasLimit := 21000, gasPrice := price, data := [], nonce } }

/-- nonce 1 is added at time 0 -/
def oneAddition : List (Call ℚ) := [⟨.addTransaction (sampleTx 2 1 10), fun _ => 0⟩]

/-- and nonce 2, to another recipient, at a price and a time -/
def twoAdditions (price now : UInt64) : List (Call ℚ) :=
  oneAddition ++ [⟨.addTransaction (sampleTx 3 2 price), fun _ => now⟩]

/-- nonces 1 and 2 to different recipients, then nonce 2 again, now to the first recipient -/
def clobberingRun : List (Call ℚ) :=
  twoAdditions 10 0 ++ [⟨.replaceTransaction (sampleTx 2 2 20), fun _ => 0⟩]

theorem dangling_after_replacement :
    ¬ EveryState (step hashSha256) NoDangling (MempoolImpl.start MempoolConfig.default)
      clobberingRun := by
  intro h
  have hlast : NoDangling (poolAfter hashSha256 MempoolConfig.default clobberingRun) := h.2.2.2
  have h1 : (poolAfter hashSha256 MempoolConfig.default clobberingRun).indexed
      (sampleTx 2 1 10).fromAddr 1 = some ((sampleTx 2 1 10).calculateHash hashSha256) := by
    decide +kernel
  have h2 : ((poolAfter hashSha256 MempoolConfig.default clobberingRun).transactions.lookup
      ((sampleTx 2 1 10).calculateHash hashSha256)).map (·.transaction.nonce) = some 2 := by
    decide +kernel
  obtain ⟨e, he, _, hn⟩ := hlast _ _ _ h1
  rw [he, Option.map_some, hn] at h2
  exact absurd h2 (by decide)

end Mempool
end ChainForge
