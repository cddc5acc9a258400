import ChainForge.Mempool.Index
import ChainForge.Mempool.Refusals

/-!
# Replacement by fee

A replacement takes the old entry out and then validates the new transaction by the rules for new
transactions.  One of them is that the nonce is above all pending nonces of the sender.

* `FeeBump`                          a new transaction that meets all other conditions of a
                                     replacement of the entry `e` under `h`;
* `validateTransaction_drop_iff`     what is left to ask of it is the nonce rule;
* `replacement_iff`                  **when a replacement by fee goes through**: exactly if no later
                                     nonce of the sender is pending.
-/

set_option linter.unusedSectionVars false

namespace ChainForge
namespace Mempool
open Machine IndexedStore

section
variable {F : Type} [LinearOrder F] [Double F]

/-- the transaction `u` has sender and nonce of the pooled entry `e`, its hash is free or that of
`e`, and it passes every check but that of the nonce -/
structure FeeBump (H : List UInt8 → Hash) (s : MempoolImpl F) (h : Hash) (e : MempoolEntry F)
    (u : Transaction) : Prop where
  pooled : s.transactions.lookup h = some e
  fromAddr : u.fromAddr = e.transaction.fromAddr
  nonce : u.nonce = e.transaction.nonce
  key : ∀ e', s.transactions.lookup (u.calculateHash H) = some e' → u.calculateHash H = h
  valid : u.isValid = true
  fee : s.validateFee u = true
  size : u.isTooLarge = false
  policy : MempoolImpl.checkReplacementPolicy F e.transaction u = .success

variable {H : List UInt8 → Hash} {s : MempoolImpl F} {h : Hash} {e : MempoolEntry F}
  {u : Transaction}

/-- without the entry of its own nonce -/
theorem validateNonce_drop_iff (ha : u.fromAddr = e.transaction.fromAddr)
    (hn : u.nonce = e.transaction.nonce) :
    (s.dropEntry h e).validateNonce u = true ↔
      ∀ n k, s.indexed u.fromAddr n = some k → n ≤ u.nonce := by
  have hindex : ∀ n, (s.dropEntry h e).indexed u.fromAddr n
      = if n = u.nonce then none else s.indexed u.fromAddr n := by
    intro n
    show (s.removeAccountNonce _ _).indexed _ _ = _
    rw [MempoolImpl.indexed_removeAccountNonce, ← ha, ← hn]
    by_cases he : n = u.nonce
    · rw [if_pos he, if_pos (by rw [he])]
    · rw [if_neg he, if_neg fun e => he (Prod.mk.inj e).2]
  rw [MempoolImpl.validateNonce_iff]
  constructor
  · intro hlt n k hk
    by_cases he : n = u.nonce
    · rw [he]
      exact UInt64.le_refl _
    · refine UInt64.le_of_lt (hlt n k ?_)
      rw [hindex, if_neg he]
      exact hk
  · intro hle n k hk
    rw [hindex] at hk
    by_cases he : n = u.nonce
    · rw [if_pos he] at hk
      cases hk
    · rw [if_neg he] at hk
      exact UInt64.lt_of_le_of_ne (hle n k hk) he

theorem FeeBump.validateTransaction_drop_iff (hu : FeeBump H s h e u) :
    (s.dropEntry h e).validateTransaction (u.hashed H) = true ↔
      ∀ n k, s.indexed u.fromAddr n = some k → n ≤ u.nonce := by
  have hfee : (s.dropEntry h e).validateFee (u.hashed H) = true := by
    unfold MempoolImpl.validateFee
    rw [s.dropEntry_config]
    exact hu.fee
  have hsize : MempoolImpl.validateSize (u.hashed H) = true := by
    show (!u.isTooLarge) = true
    rw [hu.size]
    rfl
  have hnonce : (s.dropEntry h e).validateNonce (u.hashed H) = true ↔
      ∀ n k, s.indexed u.fromAddr n = some k → n ≤ u.nonce :=
    validateNonce_drop_iff (u := u.hashed H) hu.fromAddr hu.nonce
  have hvalid : MempoolImpl.validateBasicProperties (u.hashed H) = true := hu.valid
  rw [← hnonce]
  unfold MempoolImpl.validateTransaction MempoolImpl.validateDependencies
  rw [hfee, hsize, hvalid, Bool.and_true, Bool.and_true, Bool.true_and, Bool.true_and]

theorem FeeBump.replaced (hu : FeeBump H s h e u) (hs : Indexed slot (store s)) :
    s.replaced (u.hashed H) = some (h, e) := by
  have hindex : s.indexed e.transaction.fromAddr e.transaction.nonce = some h := hs h e hu.pooled
  rw [← hu.fromAddr, ← hu.nonce] at hindex
  exact s.replaced_of_lookup (u.hashed H) hindex hu.pooled hu.policy

/-- under an exact index the pending nonces of an account are those of its pooled transactions -/
theorem pending_iff (hs : Indexed slot (store s)) (hexact : NoDangling s) :
    (∀ n k, s.indexed u.fromAddr n = some k → n ≤ u.nonce) ↔
      ∀ k e', s.transactions.lookup k = some e' → e'.transaction.fromAddr = u.fromAddr →
        e'.transaction.nonce ≤ u.nonce := by
  constructor
  · intro hle k e' he ha
    have hindex : s.indexed e'.transaction.fromAddr e'.transaction.nonce = some k := hs k e' he
    rw [ha] at hindex
    exact hle _ k hindex
  · intro hle n k hk
    obtain ⟨e', he, ha, rfl⟩ := hexact _ _ _ hk
    exact hle k e' he ha

end

section
variable {F : Type} [LinearOrder F] [Double F]

/-- **When a replacement by fee goes through**, from every reachable pool with an exact index:
exactly if the sender has no pending transaction with a later nonce. -/
theorem replacement_iff (H : List UInt8 → Hash) (config : MempoolConfig F) (calls : List (Call F))
    (clock : Nat → UInt64) (h : Hash) (e : MempoolEntry F) (u : Transaction)
    (hexact : NoDangling (poolAfter H config calls))
    (hu : FeeBump H (poolAfter H config calls) h e u) :
    let s := poolAfter H config calls
    let r := s.replaceTransaction H clock u
    (r.1 = .success ∧ ∀ k, r.2.transactions.lookup k =
        if k = u.calculateHash H then some (MempoolImpl.newEntry (u.hashed H) clock)
        else if k = h then none else s.transactions.lookup k) ↔
      ∀ k e', s.transactions.lookup k = some e' → e'.transaction.fromAddr = u.fromAddr →
        e'.transaction.nonce ≤ u.nonce := by
  intro s r
  have hs : Indexed slot (store s) := poolAfter_indexed H config calls
  have hreplaced : s.replaced (u.hashed H) = some (h, e) := hu.replaced hs
  have hsuccess : r.1 = .success ↔ (s.dropEntry h e).validateTransaction (u.hashed H) = true := by
    rw [replaceTransaction_success_iff, MempoolImpl.replaces, hreplaced]
    constructor
    · rintro ⟨_, h⟩
      obtain ⟨heq, hv⟩ := Option.filter_eq_some_iff.mp h
      cases heq
      exact hv
    · exact fun hv => ⟨_, if_pos hv⟩
  rw [← pending_iff hs hexact, ← hu.validateTransaction_drop_iff, ← hsuccess]
  refine ⟨fun hr => hr.1, fun hr => ⟨hr, fun k => ?_⟩⟩
  have hstate : r.2.transactions = (s.transactions.erase h).insert (u.calculateHash H)
      (MempoolImpl.newEntry (u.hashed H) clock) := by
    show (s.replaceTransaction H clock u).2.transactions = _
    rw [MempoolImpl.replaceTransaction_state, hreplaced]
    dsimp only
    rw [if_pos (hsuccess.mp hr), ← s.dropEntry_transactions h e]
    rfl
  rw [hstate, UMap.lookup_insert, UMap.lookup_erase]

end

/-! ## samples -/

/-- nonce 1 again, for twice the price -/
theorem sample_feeBump {s : MempoolImpl ℚ} (hfee : s.validateFee (sampleTx 2 1 20) = true)
    (hpooled : (s.transactions.lookup ((sampleTx 2 1 10).calculateHash hashSha256)).map
      (·.transaction) = some ((sampleTx 2 1 10).hashed hashSha256)) :
    ∃ e, FeeBump hashSha256 s ((sampleTx 2 1 10).calculateHash hashSha256) e
      (sampleTx 2 1 20) := by
  obtain ⟨e, he, htx⟩ := Option.map_eq_some_iff.mp hpooled
  refine ⟨e, he, ?_, ?_, fun _ _ => rfl, by decide +kernel, hfee, by decide +kernel, ?_⟩
  · rw [htx]
    rfl
  · rw [htx]
    rfl
  · rw [htx]
    decide +kernel

theorem replacement_sample :
    let s := poolAfter hashSha256 MempoolConfig.default oneAddition
    let r := s.replaceTransaction hashSha256 (fun _ => 0) (sampleTx 2 1 20)
    (r.1 = .success ∧ ∀ k, r.2.transactions.lookup k =
        if k = (sampleTx 2 1 20).calculateHash hashSha256
        then some (MempoolImpl.newEntry ((sampleTx 2 1 20).hashed hashSha256) fun _ => 0)
        else if k = (sampleTx 2 1 10).calculateHash hashSha256 then none
        else s.transactions.lookup k) ↔
      ∀ k e', s.transactions.lookup k = some e' →
        e'.transaction.fromAddr = (sampleTx 2 1 20).fromAddr →
        e'.transaction.nonce ≤ (sampleTx 2 1 20).nonce := by
  obtain ⟨e, hu⟩ := sample_feeBump (s := poolAfter hashSha256 MempoolConfig.default oneAddition)
    (by decide +kernel) (by decide +kernel)
  exact replacement_iff hashSha256 MempoolConfig.default oneAddition (fun _ => 0) _ e
    (sampleTx 2 1 20) (poolAfter_noDangling _ _ _ ⟨rfl, trivial⟩) hu

/-- nonce 2 is pending too: the higher offer for nonce 1 is refused, and nonce 1 is gone -/
theorem earlier_nonce_refused :
    let s := poolAfter hashSha256 MempoolConfig.default (twoAdditions 10 0)
    let r := s.replaceTransaction hashSha256 (fun _ => 0) (sampleTx 2 1 20)
    NoDangling s ∧
      (∃ e, FeeBump hashSha256 s ((sampleTx 2 1 10).calculateHash hashSha256) e
        (sampleTx 2 1 20)) ∧
      r.1 = .invalidTransaction ∧
      (r.2.transactions.lookup ((sampleTx 2 1 10).calculateHash hashSha256)).isNone := by
  refine ⟨poolAfter_noDangling _ _ _ ⟨rfl, rfl, trivial⟩,
    sample_feeBump (by decide +kernel) (by decide +kernel), ?_, ?_⟩
  · decide +kernel
  · decide +kernel

end Mempool
end ChainForge
