import ChainForge.Mempool.Moves

/-!
# Refused transactions

What `replace_transaction` and `add_transaction` leave behind when they do not return `SUCCESS`.

A replacement takes the old entry out before it validates the new transaction, and does not put it
back.  An addition to a full pool evicts entries before it looks again whether there is room: the
eviction is sized by the number of entries, the second look also asks for their bytes.

* `replaceTransaction_success_iff`   when a replacement succeeds;
* `failed_replacement_iff`           **when a failed replacement changes nothing**;
* `evictLowFeeTransactions_changes`  an eviction that selects entries removes them;
* `refused_addition_iff`             **when a refused addition changes nothing**.
-/

set_option linter.unusedSectionVars false

namespace ChainForge
namespace Mempool

section
variable {F : Type} [LinearOrder F] [Double F]

/-- pool, index and queue as they were, the queue up to the order of its pairs -/
structure Untouched (s t : MempoolImpl F) : Prop where
  transactions : t.transactions = s.transactions
  accountNonces : t.accountNonces = s.accountNonces
  priorityQueue : t.priorityQueue.elems.Perm s.priorityQueue.elems

theorem Untouched.refl (s : MempoolImpl F) : Untouched s s := ⟨rfl, rfl, .refl _⟩

variable (H : List UInt8 → Hash) (s : MempoolImpl F)

/-! ## replacements -/

theorem replaceTransaction_success_iff (clock : Nat → UInt64) (tx : Transaction) :
    (s.replaceTransaction H clock tx).1 = .success ↔ ∃ old, s.replaces H tx = some old := by
  have hcases := s.replaceTransaction_cases H clock tx
  generalize s.replaceTransaction H clock tx = r at hcases ⊢
  cases hcases with
  | refused he hr hp =>
    rw [hp]
    exact ⟨fun h => absurd h he, fun ⟨_, h⟩ => nomatch h⟩
  | lost oldHash old hold hr hp hv =>
    rw [hp]
    exact ⟨nofun, fun ⟨_, h⟩ => nomatch h⟩
  | done oldHash old hold hr hp hv => exact ⟨fun _ => ⟨_, hp⟩, fun _ => rfl⟩

theorem erase_ne {m : UMap Hash (MempoolEntry F)} {h : Hash} {e : MempoolEntry F}
    (hm : m.lookup h = some e) : m.erase h ≠ m := by
  intro heq
  have hnone : (m.erase h).lookup h = none := by
    rw [UMap.lookup_erase, if_pos rfl]
  rw [heq, hm] at hnone
  cases hnone

/-- **When a failed replacement changes nothing**: exactly if it does not fail after it has taken
the old entry out. -/
theorem failed_replacement_iff (clock : Nat → UInt64) (tx : Transaction) :
    ((s.replaceTransaction H clock tx).1 ≠ .success →
        Untouched s (s.replaceTransaction H clock tx).2) ↔ s.losesOld H tx = false := by
  have hcases := s.replaceTransaction_cases H clock tx
  unfold MempoolImpl.losesOld
  generalize s.replaceTransaction H clock tx = r at hcases ⊢
  cases hcases with
  | refused he hr hp =>
    rw [hr, hp]
    exact ⟨fun _ => rfl, fun _ _ => Untouched.refl s⟩
  | lost oldHash old hold hr hp hv =>
    rw [hr, hp]
    refine ⟨fun h => ?_, nofun⟩
    have htx := (h nofun).transactions
    rw [s.dropEntry_transactions] at htx
    exact absurd htx (erase_ne hold)
  | done oldHash old hold hr hp hv =>
    rw [hr, hp]
    exact ⟨fun _ => rfl, fun _ hn => absurd rfl hn⟩

/-! ## additions -/

theorem selected_pooled {count : Nat} {h : Hash} (hm : h ∈ s.selectTransactionsToEvict count) :
    ∃ e, s.transactions.lookup h = some e := by
  unfold MempoolImpl.selectTransactionsToEvict at hm
  obtain ⟨p, hp, rfl⟩ := List.mem_map.mp hm
  have hs : p ∈ s.scoredHashes :=
    (List.perm_insertionSort (· ≤ ·) s.scoredHashes).mem_iff.mp (List.mem_of_mem_take hp)
  obtain ⟨q, hq, rfl⟩ := List.mem_map.mp hs
  exact ⟨q.2, (UMap.mem_entries s.transactions q.1 q.2).mp hq⟩

theorem evictLowFeeTransactions_changes (h : s.evicts = true) :
    s.evictLowFeeTransactions.transactions ≠ s.transactions := by
  unfold MempoolImpl.evicts at h
  rw [Bool.and_eq_true, Bool.not_eq_true', Bool.not_eq_true'] at h
  obtain ⟨hb, hne⟩ := h
  obtain ⟨k, ks, hsel⟩ : ∃ k ks, s.selectTransactionsToEvict s.evictionCount = k :: ks :=
    List.exists_cons_of_ne_nil fun e => by rw [e] at hne; cases hne
  have hk : k ∈ s.selectTransactionsToEvict s.evictionCount := by
    rw [hsel]
    exact List.mem_cons_self
  obtain ⟨e, he⟩ := selected_pooled s hk
  intro heq
  have hstays : s.evictLowFeeTransactions.transactions.lookup k = some e := by
    rw [heq]
    exact he
  unfold MempoolImpl.evictLowFeeTransactions at hstays
  rw [hb, if_neg Bool.false_ne_true] at hstays
  exact ((s.removeAll_transactions _ k e).mp hstays).2 hk

/-- the addition evicts entries, and finds the pool full all the same -/
def MempoolImpl.evictsInVain (clock : Nat → UInt64) (tx : Transaction) : Bool :=
  s.admissible H tx && s.isPoolFull (clock 2) && s.evicts &&
    s.evictLowFeeTransactions.isPoolFull (clock 3)

theorem evictsInVain_of_full {clock : Nat → UInt64} {tx : Transaction}
    (hfresh : s.transactions.lookup (tx.calculateHash H) = none)
    (hvalid : s.validateTransaction (tx.hashed H) = true)
    (hfull : s.isPoolFull (clock 2) = true) :
    s.evictsInVain H clock tx
      = (s.evicts && s.evictLowFeeTransactions.isPoolFull (clock 3)) := by
  unfold MempoolImpl.evictsInVain
  rw [(s.admissible_iff H tx).mpr ⟨hfresh, hvalid⟩, hfull]
  rfl

theorem evictsInVain_of_room {clock : Nat → UInt64} {tx : Transaction}
    (hroom : s.transactions.lookup (tx.calculateHash H) = none →
      s.validateTransaction (tx.hashed H) = true → s.isPoolFull (clock 2) = false) :
    s.evictsInVain H clock tx = false := by
  unfold MempoolImpl.evictsInVain
  cases ha : s.admissible H tx with
  | false => rfl
  | true =>
    obtain ⟨hfresh, hvalid⟩ := (s.admissible_iff H tx).mp ha
    rw [hroom hfresh hvalid]
    rfl

theorem addTransaction_full (clock : Nat → UInt64) (tx : Transaction)
    (hfresh : s.transactions.lookup (tx.calculateHash H) = none)
    (hvalid : s.validateTransaction (tx.hashed H) = true)
    (hfull : s.isPoolFull (clock 2) = true) :
    s.addTransaction H clock tx =
      if s.evictLowFeeTransactions.isPoolFull (clock 3) then (.poolFull, s.evictLowFeeTransactions)
      else (.success, s.evictLowFeeTransactions.accept H clock tx) := by
  have hmake : s.makeRoom H clock tx =
      if s.evictLowFeeTransactions.isPoolFull (clock 3) then
        .error (.poolFull, s.evictLowFeeTransactions)
      else .ok s.evictLowFeeTransactions := by
    unfold MempoolImpl.makeRoom
    rw [hfresh, hvalid, hfull]
    rfl
  unfold MempoolImpl.addTransaction
  rw [hmake]
  cases s.evictLowFeeTransactions.isPoolFull (clock 3) <;> rfl

/-- **When a refused addition changes nothing**: exactly if it does not evict entries in vain. -/
theorem refused_addition_iff (clock : Nat → UInt64) (tx : Transaction) :
    ((s.addTransaction H clock tx).1 ≠ .success →
        (s.addTransaction H clock tx).2.transactions = s.transactions ∧
          (s.addTransaction H clock tx).2.accountNonces = s.accountNonces) ↔
      s.evictsInVain H clock tx = false := by
  by_cases hfull : s.transactions.lookup (tx.calculateHash H) = none ∧
      s.validateTransaction (tx.hashed H) = true ∧ s.isPoolFull (clock 2) = true
  · obtain ⟨hfresh, hvalid, hfull⟩ := hfull
    rw [addTransaction_full H s clock tx hfresh hvalid hfull,
      evictsInVain_of_full H s hfresh hvalid hfull]
    cases hfull' : s.evictLowFeeTransactions.isPoolFull (clock 3) with
    | false =>
      rw [Bool.and_false, if_neg Bool.false_ne_true]
      exact ⟨fun _ => rfl, fun _ h => absurd rfl h⟩
    | true =>
      rw [Bool.and_true, if_pos rfl]
      cases he : s.evicts with
      | false =>
        rw [s.evictLowFeeTransactions_of_not_evicts he]
        exact ⟨fun _ => rfl, fun _ _ => ⟨rfl, rfl⟩⟩
      | true =>
        refine ⟨fun h => ?_, nofun⟩
        exact absurd (h nofun).1 (evictLowFeeTransactions_changes s he)
  · -- the pool is left alone, or the transaction finds room at once
    have hroom : s.transactions.lookup (tx.calculateHash H) = none →
        s.validateTransaction (tx.hashed H) = true → s.isPoolFull (clock 2) = false :=
      fun h1 h2 => Bool.eq_false_of_not_eq_true fun h3 => hfull ⟨h1, h2, h3⟩
    rw [addTransaction_room H s clock tx hroom, evictsInVain_of_room H s hroom]
    refine ⟨fun _ => rfl, fun _ => ?_⟩
    split
    · exact fun _ => ⟨rfl, rfl⟩
    · split
      · exact fun _ => ⟨rfl, rfl⟩
      · exact fun h => absurd rfl h

end

/-! ## samples -/

/-- a transaction from the address `b..b` to the address `3..3` -/
def offerTx (b : UInt8) (nonce price : UInt64) (payload : List UInt8) : Transaction :=
  { data := { fromAddr := Bytes.fill 20 b, toAddr := Bytes.fill 20 3, value := 1,
              gasLimit := 21000, gasPrice := price, data := payload, nonce } }

/-- the price of the replacement is above `max_fee_per_gas`: the old transaction is gone -/
theorem old_entry_lost :
    let s := poolAfter hashSha256 MempoolConfig.default
      ([⟨.addTransaction (offerTx 1 1 10 []), fun _ => 0⟩] : List (Call ℚ))
    let r := s.replaceTransaction hashSha256 (fun _ => 0) (offerTx 1 1 2000000 [])
    r.1 = .invalidTransaction ∧ s.transactions.entries.length = 1 ∧
      r.2.transactions.entries.length = 0 := by
  decide +kernel

/-- two entries, and the larger one alone fills the 97 bytes: the smaller one is evicted, and the
new transaction is refused -/
theorem evicted_in_vain :
    let s := poolAfter hashSha256
      { MempoolConfig.default with maxTransactions := 2, maxSizeBytes := 97 }
      ([⟨.addTransaction (offerTx 1 1 10 []), fun _ => 0⟩,
        ⟨.addTransaction (offerTx 2 1 20 [0]), fun _ => 0⟩] : List (Call ℚ))
    let r := s.addTransaction hashSha256 (fun _ => 0) (offerTx 4 1 30 [])
    r.1 = .poolFull ∧ s.transactions.entries.length = 2 ∧ r.2.transactions.entries.length = 1 := by
  decide +kernel

end Mempool
end ChainForge
