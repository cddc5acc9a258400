import ChainForge.Mempool.Impl

/-!
# What a call does to the pool and its index

The pool and the nonce index together are a store of entries under hashes, indexed by sender and
nonce (`store s`, an `IndexedStore`).  Every method acts on it by the two operations of the
library: `dropEntry` is `drop` and `putEntry` is `put`.

* `Removals s t` `t` comes from `s` by successful calls of `remove_transaction`; every removal and
                 eviction is of this kind (`removeAll_removals`, `evictLowFeeTransactions_removals`);
* `admissible`, `hasRoom`, `evicts`, `replaced`, `replaces`   the tests of the methods, on the state
                 before the call;
* `Replacing`    all that a replacement can do, by what it finds;
* `StoreStep`    **all that a call can do to the store**: entries are dropped; or all is cleared;
                 or, after some drops, one valid entry is put under an unused (sender, nonce), at a
                 key that is free exactly when the call is not a replacement that takes the key of
                 another entry (`Call.clobbers`);
* `step_store`   every call of a method is such a step.
-/

set_option linter.unusedSectionVars false

namespace ChainForge
namespace Mempool
open Machine IndexedStore

section
variable {F : Type} [LinearOrder F] [Double F]

/-- what the index is about: sender and nonce -/
def slot (e : MempoolEntry F) : Address × UInt64 := (e.transaction.fromAddr, e.transaction.nonce)

/-- the pool with its index, as an indexed store -/
def store (s : MempoolImpl F) : IndexedStore Hash (Address × UInt64) (MempoolEntry F) :=
  ⟨fun h => s.transactions.lookup h, fun p => s.indexed p.1 p.2⟩

namespace MempoolImpl
variable (s : MempoolImpl F)

/-! ## the index -/

theorem lookup_updateAccountNonce (a b : Address) (n : UInt64) (h : Hash) :
    (s.updateAccountNonce a n h).accountNonces.lookup b
      = if b = a then some (((s.accountNonces.lookup a).getD ∅).insert n h)
        else s.accountNonces.lookup b :=
  UMap.lookup_insert _ _ _ _

/-- the nonces of an account without one of them; the account goes with its last nonce -/
def withoutNonce (m : UMap UInt64 Hash) (n : UInt64) : Option (UMap UInt64 Hash) :=
  if (m.erase n).entries.isEmpty then none else some (m.erase n)

theorem withoutNonce_lookup (m : UMap UInt64 Hash) (n n' : UInt64) :
    (withoutNonce m n).bind (·.lookup n') = if n' = n then none else m.lookup n' := by
  rw [← UMap.lookup_erase]
  unfold withoutNonce
  by_cases he : (m.erase n).entries.isEmpty = true
  · rw [if_pos he, UMap.lookup_of_isEmpty _ he]
    rfl
  · rw [if_neg he]
    rfl

theorem lookup_removeAccountNonce (a b : Address) (n : UInt64) :
    (s.removeAccountNonce a n).accountNonces.lookup b
      = if b = a then (s.accountNonces.lookup a).bind (withoutNonce · n)
        else s.accountNonces.lookup b := by
  unfold removeAccountNonce
  cases hm : s.accountNonces.lookup a with
  | none =>
    by_cases hb : b = a
    · rw [if_pos hb, hb, hm]
      rfl
    · rw [if_neg hb]
  | some m =>
    show (if (m.erase n).entries.isEmpty = true then _ else _ : MempoolImpl F).accountNonces.lookup b
      = if b = a then withoutNonce m n else _
    unfold withoutNonce
    by_cases he : (m.erase n).entries.isEmpty = true
    · rw [if_pos he, if_pos he]
      exact UMap.lookup_erase _ _ _
    · rw [if_neg he, if_neg he]
      exact UMap.lookup_insert _ _ _ _

theorem indexed_updateAccountNonce (a a' : Address) (n n' : UInt64) (h : Hash) :
    (s.updateAccountNonce a n h).indexed a' n'
      = if (a', n') = (a, n) then some h else s.indexed a' n' := by
  unfold indexed
  rw [lookup_updateAccountNonce]
  by_cases ha : a' = a
  · subst ha
    rw [if_pos rfl, Option.bind_some, UMap.lookup_insert]
    by_cases hn : n' = n
    · rw [if_pos hn, if_pos (by rw [hn])]
    · rw [if_neg hn, if_neg (fun e => hn (Prod.mk.inj e).2)]
      cases s.accountNonces.lookup a' with
      | none => rfl
      | some m => rfl
  · rw [if_neg ha, if_neg (fun e => ha (Prod.mk.inj e).1)]

theorem indexed_removeAccountNonce (a a' : Address) (n n' : UInt64) :
    (s.removeAccountNonce a n).indexed a' n'
      = if (a', n') = (a, n) then none else s.indexed a' n' := by
  unfold indexed
  rw [lookup_removeAccountNonce]
  by_cases ha : a' = a
  · subst ha
    rw [if_pos rfl]
    cases s.accountNonces.lookup a' with
    | none => simp
    | some m =>
      rw [Option.bind_some, withoutNonce_lookup, Option.bind_some]
      by_cases hn : n' = n
      · rw [if_pos hn, if_pos (by rw [hn])]
      · rw [if_neg hn, if_neg (fun e => hn (Prod.mk.inj e).2)]
  · rw [if_neg ha, if_neg (fun e => ha (Prod.mk.inj e).1)]

/-- only the index is written -/
theorem removeAccountNonce_frame (a : Address) (n : UInt64) :
    s.removeAccountNonce a n
      = { s with accountNonces := (s.removeAccountNonce a n).accountNonces } := by
  unfold removeAccountNonce
  cases s.accountNonces.lookup a with
  | none => rfl
  | some m =>
    dsimp only
    split <;> rfl

theorem dropEntry_config (h : Hash) (e : MempoolEntry F) : (s.dropEntry h e).config = s.config := by
  show (s.removeAccountNonce _ _).config = _
  rw [removeAccountNonce_frame]

theorem dropEntry_transactions (h : Hash) (e : MempoolEntry F) :
    (s.dropEntry h e).transactions = s.transactions.erase h := by
  show (s.removeAccountNonce _ _).transactions.erase h = _
  rw [removeAccountNonce_frame]

theorem dropEntry_queue (h : Hash) (e : MempoolEntry F) :
    (s.dropEntry h e).priorityQueue = s.priorityQueue := by
  show (s.removeAccountNonce _ _).priorityQueue = _
  rw [removeAccountNonce_frame]

/-! ## the store -/

theorem store_dropEntry (h : Hash) (e : MempoolEntry F) :
    store (s.dropEntry h e) = (store s).drop h (slot e) := by
  unfold store
  congr 1
  · funext h'
    rw [dropEntry_transactions, UMap.lookup_erase, Function.update_apply]
  · funext p
    show (s.removeAccountNonce e.transaction.fromAddr e.transaction.nonce).indexed p.1 p.2 = _
    rw [indexed_removeAccountNonce, Function.update_apply]
    rfl

theorem store_putEntry (h : Hash) (e : MempoolEntry F) :
    store (s.putEntry h e) = (store s).put slot h e := by
  unfold store
  congr 1
  · funext h'
    show (s.transactions.insert h e).lookup h' = _
    rw [UMap.lookup_insert, Function.update_apply]
  · funext p
    show (s.updateAccountNonce e.transaction.fromAddr e.transaction.nonce h).indexed p.1 p.2 = _
    rw [indexed_updateAccountNonce, Function.update_apply]
    rfl

theorem store_notifyAdded (h : Hash) : store (s.notifyAdded h) = store s := by
  unfold notifyAdded
  split <;> rfl

theorem store_notifyRemoved (h : Hash) : store (s.notifyRemoved h) = store s := by
  unfold notifyRemoved
  split <;> rfl

/-! ## validation -/

theorem le_foldl_max (l : List UInt64) (a : UInt64) :
    a ≤ l.foldl (fun a b => if a < b then b else a) a ∧
      ∀ b ∈ l, b ≤ l.foldl (fun a b => if a < b then b else a) a := by
  induction l generalizing a with
  | nil => exact ⟨UInt64.le_refl a, fun b hb => absurd hb List.not_mem_nil⟩
  | cons c l ih =>
    obtain ⟨h1, h2⟩ := ih (if a < c then c else a)
    have hmax : a ≤ (if a < c then c else a) ∧ c ≤ (if a < c then c else a) := by
      by_cases h : a < c
      · rw [if_pos h]
        exact ⟨UInt64.le_of_lt h, UInt64.le_refl c⟩
      · rw [if_neg h]
        exact ⟨UInt64.le_refl a, UInt64.not_lt.mp h⟩
    rw [List.foldl_cons]
    refine ⟨UInt64.le_trans hmax.1 h1, fun b hb => ?_⟩
    rcases List.mem_cons.mp hb with rfl | hb
    · exact UInt64.le_trans hmax.2 h1
    · exact h2 b hb

theorem le_maxElement {l : List UInt64} {n : UInt64} (h : n ∈ l) :
    ∃ m, maxElement l = some m ∧ n ≤ m := by
  cases l with
  | nil => exact absurd h List.not_mem_nil
  | cons a l =>
    refine ⟨_, rfl, ?_⟩
    rcases List.mem_cons.mp h with rfl | h
    · exact (le_foldl_max l n).1
    · exact (le_foldl_max l a).2 n h

/-- an accepted nonce is above every nonce of its sender -/
theorem nonce_lt_of_validateNonce {tx : Transaction} (h : s.validateNonce tx = true) {n : UInt64}
    {k : Hash} (hi : s.indexed tx.fromAddr n = some k) : n < tx.nonce := by
  obtain ⟨m, hm, hn⟩ := Option.bind_eq_some_iff.mp hi
  obtain ⟨top, htop, hle⟩ := le_maxElement ((UMap.mem_keys m n).mpr ⟨k, hn⟩)
  have hget : s.getAccountNonce tx.fromAddr = some top := by
    unfold getAccountNonce
    rw [hm, Option.bind_some]
    exact htop
  unfold validateNonce at h
  rw [hget] at h
  simp only [ge_iff_le, Bool.not_eq_true', decide_eq_false_iff_not, UInt64.not_le] at h
  exact UInt64.lt_of_le_of_lt hle h

theorem foldl_max_mem (l : List UInt64) (a : UInt64) :
    l.foldl (fun a b => if a < b then b else a) a ∈ a :: l := by
  induction l generalizing a with
  | nil => exact List.mem_cons_self
  | cons c l ih =>
    rw [List.foldl_cons]
    rcases List.mem_cons.mp (ih (if a < c then c else a)) with h | h
    · rw [h]
      split
      · exact List.mem_cons_of_mem _ List.mem_cons_self
      · exact List.mem_cons_self
    · exact List.mem_cons_of_mem _ (List.mem_cons_of_mem _ h)

theorem maxElement_mem {l : List UInt64} {n : UInt64} (h : maxElement l = some n) : n ∈ l := by
  cases l with
  | nil => cases h
  | cons a l =>
    rw [← Option.some.inj h]
    exact foldl_max_mem l a

theorem validateNonce_iff {tx : Transaction} :
    s.validateNonce tx = true ↔ ∀ n k, s.indexed tx.fromAddr n = some k → n < tx.nonce := by
  refine ⟨fun h n k hi => s.nonce_lt_of_validateNonce h hi, fun h => ?_⟩
  unfold validateNonce
  cases hget : s.getAccountNonce tx.fromAddr with
  | none => rfl
  | some top =>
    obtain ⟨m, hm, htop⟩ := Option.bind_eq_some_iff.mp hget
    obtain ⟨k, hk⟩ := (UMap.mem_keys m top).mp (maxElement_mem htop)
    have hlt : top < tx.nonce := h top k (Option.bind_eq_some_iff.mpr ⟨m, hm, hk⟩)
    simp only [ge_iff_le, Bool.not_eq_true', decide_eq_false_iff_not, UInt64.not_le]
    exact hlt

theorem indexed_none_of_validateNonce {tx : Transaction} (h : s.validateNonce tx = true) :
    s.indexed tx.fromAddr tx.nonce = none := by
  cases hi : s.indexed tx.fromAddr tx.nonce with
  | none => rfl
  | some k => exact absurd (s.nonce_lt_of_validateNonce h hi) (UInt64.lt_irrefl _)

theorem validateTransaction_nonce {tx : Transaction} (h : s.validateTransaction tx = true) :
    s.validateNonce tx = true := by
  simp only [validateTransaction, Bool.and_eq_true] at h
  exact h.1.1.2

theorem validateTransaction_spec {tx : Transaction} (h : s.validateTransaction tx = true) :
    tx.isValid = true ∧ s.indexed tx.fromAddr tx.nonce = none := by
  have hnonce := s.indexed_none_of_validateNonce (s.validateTransaction_nonce h)
  simp only [validateTransaction, validateBasicProperties, Bool.and_eq_true] at h
  exact ⟨h.1.1.1.1, hnonce⟩

/-! ## removal and eviction -/

/-- the pool after a removal of the entry `e` under `h` -/
def removeEntry (s : MempoolImpl F) (h : Hash) (e : MempoolEntry F) : MempoolImpl F :=
  (s.dropEntry h e).rebuildPriorityQueue.notifyRemoved h

theorem store_removeEntry (h : Hash) (e : MempoolEntry F) :
    store (s.removeEntry h e) = (store s).drop h (slot e) := by
  rw [← store_dropEntry]
  exact store_notifyRemoved _ h

end MempoolImpl

/-- `t` comes from `s` by successful calls of `remove_transaction` -/
inductive Removals (s : MempoolImpl F) : MempoolImpl F → Prop
  | refl : Removals s s
  | tail {t : MempoolImpl F} (h : Hash) (e : MempoolEntry F) :
      Removals s t → t.transactions.lookup h = some e → Removals s (t.removeEntry h e)

namespace Removals
variable {s t u : MempoolImpl F}

theorem trans (h : Removals s t) (h' : Removals t u) : Removals s u := by
  induction h' with
  | refl => exact h
  | tail k e _ hk ih => exact ih.tail k e hk

theorem drops (h : Removals s t) : Drops slot (store s) (store t) := by
  induction h with
  | refl => exact .refl
  | tail k e _ hk ih =>
    rw [MempoolImpl.store_removeEntry]
    exact ih.trans (Drops.single hk)

end Removals

namespace MempoolImpl
variable (s : MempoolImpl F)

theorem removeTransaction_removals (h : Hash) : Removals s (s.removeTransaction h).2 := by
  unfold removeTransaction
  cases he : s.transactions.lookup h with
  | none => exact .refl
  | some e => exact Removals.refl.tail h e he

theorem removeAll_removals (hashes : List Hash) : Removals s (s.removeAll hashes) := by
  induction hashes generalizing s with
  | nil => exact .refl
  | cons h hashes ih => exact (s.removeTransaction_removals h).trans (ih (s.removeTransaction h).2)

/-- the loop over the hashes, on the pool and its index -/
theorem store_removeAll (hashes : List Hash) :
    store (s.removeAll hashes) = (store s).dropAll slot hashes := by
  induction hashes generalizing s with
  | nil => rfl
  | cons h hashes ih =>
    have hone : store (s.removeTransaction h).2 = (store s).dropKey slot h := by
      unfold removeTransaction
      cases he : s.transactions.lookup h with
      | none => exact (dropKey_none he).symm
      | some e => exact (store_removeEntry s h e).trans (dropKey_some he).symm
    exact (ih (s.removeTransaction h).2).trans (congrArg (dropAll slot · hashes) hone)

theorem removeAll_transactions (hashes : List Hash) (h : Hash) (e : MempoolEntry F) :
    (s.removeAll hashes).transactions.lookup h = some e ↔
      s.transactions.lookup h = some e ∧ h ∉ hashes := by
  show (store (s.removeAll hashes)).records h = some e ↔ (store s).records h = some e ∧ _
  rw [store_removeAll, records_dropAll]

theorem evictLowFeeTransactions_removals : Removals s s.evictLowFeeTransactions := by
  unfold evictLowFeeTransactions
  split
  · exact .refl
  · exact s.removeAll_removals _

/-! ## adding and replacing -/

/-- an entry stored, indexed and queued -/
def enter (s : MempoolImpl F) (h : Hash) (e : MempoolEntry F) : MempoolImpl F :=
  { s.putEntry h e with priorityQueue := s.priorityQueue.emplace (toLex (e.score, h)) }

section
variable (H : List UInt8 → Hash) (clock : Nat → UInt64) (tx : Transaction)

/-- the tests of `add_transaction` before it looks at the capacity: the hash is new, and the
transaction valid -/
def admissible (s : MempoolImpl F) (tx : Transaction) : Bool :=
  (s.transactions.lookup (tx.calculateHash H)).isNone && s.validateTransaction (tx.hashed H)

/-- the pool is not full, at once or after the eviction -/
def hasRoom (s : MempoolImpl F) (clock : Nat → UInt64) : Bool :=
  !s.isPoolFull (clock 2) || !s.evictLowFeeTransactions.isPoolFull (clock 3)

/-- the eviction of a full pool selects entries -/
def evicts (s : MempoolImpl F) : Bool :=
  !s.belowThreshold && !(s.selectTransactionsToEvict s.evictionCount).isEmpty

theorem evictLowFeeTransactions_of_not_evicts (h : s.evicts = false) :
    s.evictLowFeeTransactions = s := by
  unfold evicts at h
  unfold evictLowFeeTransactions
  split
  · rfl
  · rename_i hb
    rw [Bool.eq_false_of_not_eq_true hb, Bool.not_false, Bool.true_and, Bool.not_eq_false',
      List.isEmpty_iff] at h
    unfold evictTransactionsByFee
    rw [h]
    rfl

theorem admissible_iff : s.admissible H tx = true ↔
    s.transactions.lookup (tx.calculateHash H) = none ∧
      s.validateTransaction (tx.hashed H) = true := by
  unfold admissible
  rw [Bool.and_eq_true, Option.isNone_iff_eq_none]

theorem makeRoom_isOk :
    (s.makeRoom H clock tx).isOk = (s.admissible H tx && s.hasRoom clock) := by
  unfold makeRoom admissible hasRoom
  cases s.transactions.lookup (tx.calculateHash H) with
  | some e => rfl
  | none =>
    cases s.validateTransaction (tx.hashed H) with
    | false => rfl
    | true =>
      cases s.isPoolFull (clock 2) with
      | false => rfl
      | true => cases h : s.evictLowFeeTransactions.isPoolFull (clock 3) <;> simp [h] <;> rfl

/-- a refusal leaves the pool as it was, or trimmed; a transaction that finds room is new and valid
in the pool before the trimming, and the pool it finds is not full -/
theorem makeRoom_cases :
    match s.makeRoom H clock tx with
    | .error r => Removals s r.2
    | .ok t => s.transactions.lookup (tx.calculateHash H) = none ∧
        s.validateTransaction (tx.hashed H) = true ∧ Removals s t ∧
        ∃ now, t.isPoolFull now = false := by
  unfold makeRoom
  by_cases h1 : (s.transactions.lookup (tx.calculateHash H)).isSome = true
  · rw [if_pos h1]
    exact .refl
  rw [if_neg h1]
  by_cases h2 : (!s.validateTransaction (tx.hashed H)) = true
  · rw [if_pos h2]
    exact .refl
  rw [if_neg h2]
  have hnew : s.transactions.lookup (tx.calculateHash H) = none := by simpa using h1
  have hvalid : s.validateTransaction (tx.hashed H) = true := by simpa using h2
  by_cases h3 : s.isPoolFull (clock 2) = true
  · rw [if_pos h3]
    dsimp only
    by_cases h4 : s.evictLowFeeTransactions.isPoolFull (clock 3) = true
    · rw [if_pos h4]
      exact s.evictLowFeeTransactions_removals
    · rw [if_neg h4]
      exact ⟨hnew, hvalid, s.evictLowFeeTransactions_removals, clock 3, by simpa using h4⟩
  · rw [if_neg h3]
    exact ⟨hnew, hvalid, .refl, clock 2, by simpa using h3⟩

/-- the entry that `replace_transaction` takes out before it validates the new transaction -/
def replaced (s : MempoolImpl F) (tx : Transaction) : Option (Hash × MempoolEntry F) :=
  match s.indexed tx.fromAddr tx.nonce with
  | none => none
  | some oldHash =>
    match s.transactions.lookup oldHash with
    | none => none
    | some old =>
      if checkReplacementPolicy F old.transaction tx = .success then some (oldHash, old) else none

theorem replaced_lookup {oldHash : Hash} {old : MempoolEntry F}
    (h : s.replaced tx = some (oldHash, old)) :
    s.indexed tx.fromAddr tx.nonce = some oldHash ∧ s.transactions.lookup oldHash = some old := by
  unfold replaced at h
  cases hi : s.indexed tx.fromAddr tx.nonce with
  | none => rw [hi] at h; cases h
  | some oh =>
    rw [hi] at h
    dsimp only at h
    cases hl : s.transactions.lookup oh with
    | none => rw [hl] at h; cases h
    | some o =>
      rw [hl] at h
      dsimp only at h
      split at h
      · cases h
        exact ⟨rfl, hl⟩
      · cases h

theorem replaced_of_lookup {oldHash : Hash} {old : MempoolEntry F}
    (hi : s.indexed tx.fromAddr tx.nonce = some oldHash)
    (hl : s.transactions.lookup oldHash = some old)
    (hp : checkReplacementPolicy F old.transaction tx = .success) :
    s.replaced tx = some (oldHash, old) := by
  unfold replaced
  rw [hi]
  dsimp only
  rw [hl]
  exact if_pos hp

/-- the entry whose place the new transaction takes: one that is taken out, and without which the new
transaction is valid -/
def replaces (s : MempoolImpl F) (tx : Transaction) : Option (Hash × MempoolEntry F) :=
  (s.replaced (tx.hashed H)).filter fun old =>
    (s.dropEntry old.1 old.2).validateTransaction (tx.hashed H)

theorem replaces_of_valid {oldHash : Hash} {old : MempoolEntry F}
    (hr : s.replaced (tx.hashed H) = some (oldHash, old))
    (hv : (s.dropEntry oldHash old).validateTransaction (tx.hashed H) = true) :
    s.replaces H tx = some (oldHash, old) := by
  rw [replaces, hr, Option.filter_some]
  exact if_pos hv

/-- the old entry is taken out, and the new transaction is refused -/
def losesOld (s : MempoolImpl F) (tx : Transaction) : Bool :=
  (s.replaced (tx.hashed H)).isSome && (s.replaces H tx).isNone

/-- the replacement goes through, and the key of the new transaction is in use -/
def clobbers (s : MempoolImpl F) (tx : Transaction) : Bool :=
  (s.replaces H tx).any fun old =>
    ((s.dropEntry old.1 old.2).transactions.lookup (tx.calculateHash H)).isSome

/-- **What a replacement does**, by what it finds: nothing that it may replace, an entry that it takes
out for nothing, or one whose place it takes. -/
inductive Replacing : MempoolError × MempoolImpl F → Prop
  | refused {e : MempoolError} (he : e ≠ .success) (hr : s.replaced (tx.hashed H) = none)
      (hp : s.replaces H tx = none) : Replacing (e, s)
  | lost (oldHash : Hash) (old : MempoolEntry F) (hold : s.transactions.lookup oldHash = some old)
      (hr : s.replaced (tx.hashed H) = some (oldHash, old)) (hp : s.replaces H tx = none)
      (hv : (s.dropEntry oldHash old).validateTransaction (tx.hashed H) = false) :
      Replacing (.invalidTransaction, s.dropEntry oldHash old)
  | done (oldHash : Hash) (old : MempoolEntry F) (hold : s.transactions.lookup oldHash = some old)
      (hr : s.replaced (tx.hashed H) = some (oldHash, old))
      (hp : s.replaces H tx = some (oldHash, old))
      (hv : (s.dropEntry oldHash old).validateTransaction (tx.hashed H) = true) :
      Replacing (.success, ((s.dropEntry oldHash old).putEntry (tx.calculateHash H)
        (newEntry (tx.hashed H) clock)).rebuildPriorityQueue)

theorem replaceTransaction_cases : Replacing s H clock tx (s.replaceTransaction H clock tx) := by
  have hreplaces : s.replaces H tx = (s.replaced (tx.hashed H)).filter fun old =>
    (s.dropEntry old.1 old.2).validateTransaction (tx.hashed H) := rfl
  unfold replaceTransaction
  dsimp only
  cases hi : s.indexed (tx.hashed H).fromAddr (tx.hashed H).nonce with
  | none =>
    have hr : s.replaced (tx.hashed H) = none := by rw [replaced, hi]
    exact .refused nofun hr (by rw [hreplaces, hr]; rfl)
  | some oldHash =>
    dsimp only
    cases hold : s.transactions.lookup oldHash with
    | none =>
      have hr : s.replaced (tx.hashed H) = none := by
        rw [replaced, hi]
        dsimp only
        rw [hold]
      exact .refused nofun hr (by rw [hreplaces, hr]; rfl)
    | some old =>
      dsimp only
      by_cases hpolicy : checkReplacementPolicy F old.transaction (tx.hashed H) = .success
      · have hr := s.replaced_of_lookup (tx.hashed H) hi hold hpolicy
        rw [hr, Option.filter_some] at hreplaces
        rw [if_neg (by rw [hpolicy]; decide)]
        cases hv : (s.dropEntry oldHash old).validateTransaction (tx.hashed H) with
        | false =>
          rw [hv] at hreplaces
          exact .lost oldHash old hold hr hreplaces hv
        | true =>
          rw [hv] at hreplaces
          exact .done oldHash old hold hr hreplaces hv
      · have hr : s.replaced (tx.hashed H) = none := by
          rw [replaced, hi]
          dsimp only
          rw [hold]
          exact if_neg hpolicy
        rw [if_pos (by simpa using hpolicy)]
        exact .refused hpolicy hr (by rw [hreplaces, hr]; rfl)

theorem replaceTransaction_state :
    (s.replaceTransaction H clock tx).2 =
      match s.replaced (tx.hashed H) with
      | none => s
      | some (oldHash, old) =>
        if (s.dropEntry oldHash old).validateTransaction (tx.hashed H) then
          ((s.dropEntry oldHash old).putEntry (tx.calculateHash H)
            (newEntry (tx.hashed H) clock)).rebuildPriorityQueue
        else s.dropEntry oldHash old := by
  have hcases := s.replaceTransaction_cases H clock tx
  generalize s.replaceTransaction H clock tx = r at hcases ⊢
  cases hcases with
  | refused he hr hp => rw [hr]
  | lost oldHash old hold hr hp hv =>
    rw [hr]
    exact (if_neg (by rw [hv]; exact Bool.false_ne_true)).symm
  | done oldHash old hold hr hp hv =>
    rw [hr]
    exact (if_pos hv).symm

end

end MempoolImpl

/-! ## all methods -/

/-- the call is a replacement that takes the key of another entry -/
def Call.clobbers (H : List UInt8 → Hash) (s : MempoolImpl F) (c : Call F) : Bool :=
  match c.method with
  | .replaceTransaction tx => s.clobbers H tx
  | _ => false

/-- **All that a call can do to the pool and its index.** -/
inductive StoreStep (s : IndexedStore Hash (Address × UInt64) (MempoolEntry F)) (clobbers : Bool) :
    IndexedStore Hash (Address × UInt64) (MempoolEntry F) → Prop
  | drops {t} (h : Drops slot s t) (hc : clobbers = false) : StoreStep s clobbers t
  | clear (hc : clobbers = false) : StoreStep s clobbers empty
  | put {t} (h : Hash) (e : MempoolEntry F) (hd : Drops slot s t) (hfree : t.index (slot e) = none)
      (hvalid : e.transaction.isValid = true) (hc : t.records h = none ↔ clobbers = false) :
      StoreStep s clobbers (t.put slot h e)

variable (H : List UInt8 → Hash) (s : MempoolImpl F)

theorem addTransaction_store (clock : Nat → UInt64) (tx : Transaction) :
    StoreStep (store s) false (store (s.addTransaction H clock tx).2) := by
  have hcases := s.makeRoom_cases H clock tx
  unfold MempoolImpl.addTransaction
  cases hr : s.makeRoom H clock tx with
  | error r =>
    rw [hr] at hcases
    exact .drops hcases.drops rfl
  | ok s' =>
    rw [hr] at hcases
    dsimp only
    obtain ⟨hfresh, hval, hs', _⟩ := hcases
    obtain ⟨hvalid, hfree⟩ := s.validateTransaction_spec hval
    have hd := hs'.drops
    rw [MempoolImpl.store_notifyAdded]
    show StoreStep (store s) false
      (store (s'.putEntry (tx.calculateHash H) (MempoolImpl.newEntry (tx.hashed H) clock)))
    rw [MempoolImpl.store_putEntry]
    refine .put _ _ hd (hd.index_none ?_) hvalid ?_
    · exact hfree
    · exact ⟨fun _ => rfl, fun _ => hd.records_none hfresh⟩

theorem replaceTransaction_store (clock : Nat → UInt64) (tx : Transaction) :
    StoreStep (store s) (s.clobbers H tx) (store (s.replaceTransaction H clock tx).2) := by
  have hdrop : ∀ {oldHash old}, s.transactions.lookup oldHash = some old →
      Drops slot (store s) (store (s.dropEntry oldHash old)) := by
    intro oldHash old hold
    rw [MempoolImpl.store_dropEntry]
    exact Drops.single hold
  have hcases := s.replaceTransaction_cases H clock tx
  unfold MempoolImpl.clobbers
  generalize s.replaceTransaction H clock tx = r at hcases ⊢
  cases hcases with
  | refused he hr hp =>
    rw [hp]
    exact .drops .refl rfl
  | lost oldHash old hold hr hp hv =>
    rw [hp]
    exact .drops (hdrop hold) rfl
  | done oldHash old hold hr hp hv =>
    obtain ⟨hvalid, hfree⟩ := MempoolImpl.validateTransaction_spec _ hv
    rw [hp]
    show StoreStep (store s) _ (store ((s.dropEntry oldHash old).putEntry (tx.calculateHash H)
      (MempoolImpl.newEntry (tx.hashed H) clock)))
    rw [MempoolImpl.store_putEntry, Option.any_some]
    refine .put _ _ (hdrop hold) hfree hvalid ?_
    rw [Option.isSome_eq_false_iff, Option.isNone_iff_eq_none]
    rfl

/-- **One call on the store.** -/
theorem step_store (c : Call F) :
    StoreStep (store s) (c.clobbers H s) (store (step H s c)) := by
  obtain ⟨m, clock⟩ := c
  cases m with
  | addTransaction tx => exact addTransaction_store H s clock tx
  | removeTransaction h => exact .drops (s.removeTransaction_removals h).drops rfl
  | replaceTransaction tx => exact replaceTransaction_store H s clock tx
  | evictExpiredTransactions => exact .drops (s.removeAll_removals _).drops rfl
  | evictLowFeeTransactions => exact .drops s.evictLowFeeTransactions_removals.drops rfl
  | clear => exact .clear rfl
  | setConfig _ => exact .drops .refl rfl
  | setTransactionAddedCallback _ => exact .drops .refl rfl
  | setTransactionRemovedCallback _ => exact .drops .refl rfl

end
end Mempool
end ChainForge
