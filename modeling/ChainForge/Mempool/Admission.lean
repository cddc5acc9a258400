import ChainForge.Mempool.Limits

/-!
# What is admitted, and in which order

* `order_irrelevant_iff`   below capacity, two transactions that are accepted each on its own lead
                           to the same pool in either order **exactly when their senders differ**:
                           after the higher nonce of a sender the lower one is refused;
* `duplicate_exact_iff`    a transaction is refused as a duplicate, where none is pooled, **exactly
                           when the 32 bytes that the implemented hash sees belong to another
                           transaction**: the sender and the first twelve bytes of the recipient.
-/

set_option linter.unusedSectionVars false

namespace ChainForge
namespace Mempool
open Machine

section
variable {F : Type} [LinearOrder F] [Double F]

/-! ## the order of two additions -/

/-- the same transactions under the same hashes, and the same nonces -/
structure SamePool (s t : MempoolImpl F) : Prop where
  pooled : ∀ h, (s.transactions.lookup h).map (·.transaction)
    = (t.transactions.lookup h).map (·.transaction)
  nonces : ∀ a, s.accountNonces.lookup a = t.accountNonces.lookup a

section
variable {H : List UInt8 → Hash} {s : MempoolImpl F} {clock clock' : Nat → UInt64}
  {tx tx' : Transaction}

theorem addTransaction_success (hroom : ∀ now, s.isPoolFull now = false)
    (h : (s.addTransaction H clock tx).1 = .success) :
    s.transactions.lookup (tx.calculateHash H) = none ∧
      s.validateTransaction (tx.hashed H) = true ∧
      (s.addTransaction H clock tx).2 = s.accept H clock tx := by
  rw [addTransaction_room H s clock tx fun _ _ => hroom _] at h ⊢
  by_cases h1 : (s.transactions.lookup (tx.calculateHash H)).isSome = true
  · rw [if_pos h1] at h
    cases h
  rw [if_neg h1] at h ⊢
  by_cases h2 : (!s.validateTransaction (tx.hashed H)) = true
  · rw [if_pos h2] at h
    cases h
  rw [if_neg h2]
  exact ⟨by simpa using h1, by simpa using h2, rfl⟩

/-- below capacity an addition takes nothing out -/
theorem addTransaction_keeps (hroom : ∀ now, s.isPoolFull now = false) {h : Hash}
    (hne : h ≠ tx.calculateHash H) :
    (s.addTransaction H clock tx).2.transactions.lookup h = s.transactions.lookup h := by
  rw [addTransaction_room H s clock tx fun _ _ => hroom _]
  split
  · rfl
  split
  · rfl
  · show (s.accept H clock tx).transactions.lookup h = _
    rw [accept_transactions, UMap.lookup_insert, if_neg hne]

/-- validation reads the configuration and the nonces of the sender -/
theorem validateTransaction_congr {t : MempoolImpl F} (hconfig : t.config = s.config)
    (hnonces : t.accountNonces.lookup tx.fromAddr = s.accountNonces.lookup tx.fromAddr) :
    t.validateTransaction tx = s.validateTransaction tx := by
  unfold MempoolImpl.validateTransaction MempoolImpl.validateFee MempoolImpl.validateNonce
    MempoolImpl.getAccountNonce
  rw [hconfig, hnonces]

/-- after one transaction, another one of another sender -/
theorem accept_accept (hroom : ∀ now, (s.accept H clock tx).isPoolFull now = false)
    (hfresh : s.transactions.lookup (tx'.calculateHash H) = none)
    (hvalid : s.validateTransaction (tx'.hashed H) = true)
    (hhash : tx'.calculateHash H ≠ tx.calculateHash H) (hsender : tx'.fromAddr ≠ tx.fromAddr) :
    (s.accept H clock tx).addTransaction H clock' tx'
      = (.success, (s.accept H clock tx).accept H clock' tx') := by
  refine addTransaction_accept H _ clock' tx' ?_ ?_ (hroom _)
  · rw [accept_transactions, UMap.lookup_insert, if_neg hhash, hfresh]
  · rw [← hvalid]
    refine validateTransaction_congr (congrArg Prod.fst (settings_accept H s clock tx)) ?_
    rw [accept_accountNonces, MempoolImpl.lookup_updateAccountNonce]
    exact if_neg hsender

theorem accept_comm {c₁ c₂ c₃ c₄ : Nat → UInt64} (hhash : tx.calculateHash H ≠ tx'.calculateHash H)
    (hsender : tx.fromAddr ≠ tx'.fromAddr) :
    SamePool ((s.accept H c₁ tx).accept H c₂ tx') ((s.accept H c₃ tx').accept H c₄ tx) := by
  constructor
  · intro h
    simp only [accept_transactions, UMap.lookup_insert]
    by_cases h1 : h = tx.calculateHash H
    · rw [if_pos h1, if_pos h1, if_neg (fun e => hhash (h1.symm.trans e))]
      rfl
    · rw [if_neg h1, if_neg h1]
      split <;> rfl
  · intro a
    simp only [accept_accountNonces, MempoolImpl.lookup_updateAccountNonce]
    by_cases h1 : a = tx.fromAddr
    · rw [if_pos h1, if_pos h1, if_neg (fun e => hsender (h1.symm.trans e)), if_neg hsender]
    · rw [if_neg h1, if_neg h1, if_neg hsender.symm]

/-- **After the higher nonce of a sender the lower one is refused.** -/
theorem lower_refused (c : Nat → UInt64)
    (hroom : ∀ now, (s.accept H clock tx).isPoolFull now = false)
    (hfresh : s.transactions.lookup (tx'.calculateHash H) = none)
    (hhash : tx'.calculateHash H ≠ tx.calculateHash H) (hsender : tx'.fromAddr = tx.fromAddr)
    (hle : tx'.nonce ≤ tx.nonce) :
    ((s.accept H clock tx).addTransaction H c tx').2.transactions.lookup (tx'.calculateHash H)
      = none := by
  have hnone : (s.accept H clock tx).transactions.lookup (tx'.calculateHash H) = none := by
    rw [accept_transactions, UMap.lookup_insert, if_neg hhash, hfresh]
  have hindexed : (s.accept H clock tx).indexed (tx'.hashed H).fromAddr tx.nonce
      = some (tx.calculateHash H) := by
    unfold MempoolImpl.indexed
    rw [accept_accountNonces]
    refine (s.indexed_updateAccountNonce _ _ _ _ _).trans (if_pos ?_)
    exact Prod.ext hsender rfl
  have hinvalid : (s.accept H clock tx).validateTransaction (tx'.hashed H) = false := by
    cases hv : (s.accept H clock tx).validateTransaction (tx'.hashed H) with
    | false => rfl
    | true =>
      have hlt := MempoolImpl.nonce_lt_of_validateNonce _
        (MempoolImpl.validateTransaction_nonce _ hv) hindexed
      exact absurd hlt (UInt64.not_lt.mpr hle)
  rw [addTransaction_room H _ c tx' fun _ _ => hroom _, hnone, hinvalid]
  exact hnone

end

/-- **The order of two additions does not matter exactly when they come from different senders**:
in a pool that does not become full, for transactions with different hashes that are accepted each
on its own, at any times. -/
theorem order_irrelevant_iff (H : List UInt8 → Hash) (s : MempoolImpl F) (tx tx' : Transaction)
    (c₁ c₂ c₃ c₄ : Nat → UInt64) (hhash : tx.calculateHash H ≠ tx'.calculateHash H)
    (h : (s.addTransaction H c₁ tx).1 = .success) (h' : (s.addTransaction H c₃ tx').1 = .success)
    (hroom : ∀ now, s.isPoolFull now = false)
    (hroom₁ : ∀ now, (s.addTransaction H c₁ tx).2.isPoolFull now = false)
    (hroom₂ : ∀ now, (s.addTransaction H c₃ tx').2.isPoolFull now = false) :
    SamePool ((s.addTransaction H c₁ tx).2.addTransaction H c₂ tx').2
        ((s.addTransaction H c₃ tx').2.addTransaction H c₄ tx).2 ↔
      tx.fromAddr ≠ tx'.fromAddr := by
  obtain ⟨hfresh, hvalid, e⟩ := addTransaction_success hroom h
  obtain ⟨hfresh', hvalid', e'⟩ := addTransaction_success hroom h'
  rw [e] at hroom₁ ⊢
  rw [e'] at hroom₂ ⊢
  constructor
  · intro hsame hsender
    -- the transaction with the lower nonce is pooled in one of the two orders only
    rcases UInt64.le_total tx.nonce tx'.nonce with hle | hle
    · have hlost := lower_refused c₄ hroom₂ hfresh hhash hsender hle
      have hp := hsame.pooled (tx.calculateHash H)
      rw [hlost, addTransaction_keeps hroom₁ hhash, accept_transactions, UMap.lookup_insert,
        if_pos rfl] at hp
      cases hp
    · have hlost := lower_refused c₂ hroom₁ hfresh' hhash.symm hsender.symm hle
      have hp := hsame.pooled (tx'.calculateHash H)
      rw [hlost, addTransaction_keeps hroom₂ hhash.symm, accept_transactions, UMap.lookup_insert,
        if_pos rfl] at hp
      cases hp
  · intro hsender
    rw [accept_accept hroom₁ hfresh' hvalid' hhash.symm hsender.symm,
      accept_accept hroom₂ hfresh hvalid hhash hsender]
    exact accept_comm hhash hsender

end

/-- a new pool, and one more transaction in it, at the time 0 -/
def newPool : MempoolImpl ℚ := MempoolImpl.start MempoolConfig.default
def oneMore (tx : Transaction) (s : MempoolImpl ℚ) : MempoolError × MempoolImpl ℚ :=
  s.addTransaction hashSha256 (fun _ => 0) tx

theorem order_irrelevant_sample :
    SamePool (oneMore (heavyTx []) (oneMore (sampleTx 2 1 10) newPool).2).2
        (oneMore (sampleTx 2 1 10) (oneMore (heavyTx []) newPool).2).2 ↔
      (sampleTx 2 1 10).fromAddr ≠ (heavyTx []).fromAddr := by
  refine order_irrelevant_iff hashSha256 newPool (sampleTx 2 1 10) (heavyTx []) (fun _ => 0)
    (fun _ => 0) (fun _ => 0) (fun _ => 0) (by decide +kernel) (by decide +kernel)
    (by decide +kernel) ?_ ?_ ?_
  all_goals
    intro now
    rw [MempoolImpl.isPoolFull_iff]
    decide +kernel

/-- two transactions of one sender, with the nonces 1 and 2 -/
theorem order_matters_for_one_sender :
    let tx := sampleTx 2 1 10
    let tx' := sampleTx 3 2 10
    tx.calculateHash hashSha256 ≠ tx'.calculateHash hashSha256 ∧
      (tx.fromAddr, tx.nonce) ≠ (tx'.fromAddr, tx'.nonce) ∧
      (oneMore tx newPool).1 = .success ∧ (oneMore tx' newPool).1 = .success ∧
      (∀ now, (oneMore tx' (oneMore tx newPool).2).2.isPoolFull now = false) ∧
      (∀ now, (oneMore tx (oneMore tx' newPool).2).2.isPoolFull now = false) ∧
      ¬ SamePool (oneMore tx' (oneMore tx newPool).2).2 (oneMore tx (oneMore tx' newPool).2).2 := by
  intro tx tx'
  refine ⟨by decide +kernel, by decide +kernel, by decide +kernel, by decide +kernel, ?_, ?_, ?_⟩
  · intro now
    rw [MempoolImpl.isPoolFull_iff]
    decide +kernel
  · intro now
    rw [MempoolImpl.isPoolFull_iff]
    decide +kernel
  · intro h
    refine absurd (congrArg Option.isSome (h.pooled (tx.calculateHash hashSha256))) ?_
    decide +kernel

/-! ## duplicates -/

section
variable {F : Type} [LinearOrder F] [Double F]

/-- a transaction with these data is pooled -/
def Holds (s : MempoolImpl F) (d : TransactionData) : Prop :=
  ∃ p ∈ s.transactions.entries, p.2.transaction.data = d

instance decidableHolds (s : MempoolImpl F) (d : TransactionData) : Decidable (Holds s d) :=
  inferInstanceAs (Decidable (∃ p ∈ s.transactions.entries, p.2.transaction.data = d))

theorem holds_iff {s : MempoolImpl F} {d : TransactionData} :
    Holds s d ↔ ∃ h e, s.transactions.lookup h = some e ∧ e.transaction.data = d := by
  constructor
  · rintro ⟨p, hp, hd⟩
    exact ⟨p.1, p.2, (UMap.mem_entries _ _ _).mp hp, hd⟩
  · rintro ⟨h, e, he, hd⟩
    exact ⟨⟨h, e⟩, (UMap.mem_entries _ _ _).mpr he, hd⟩

theorem addTransaction_exists_iff (H : List UInt8 → Hash) (s : MempoolImpl F)
    (clock : Nat → UInt64) (tx : Transaction) :
    (s.addTransaction H clock tx).1 = .transactionExists ↔
      ∃ e, s.transactions.lookup (tx.calculateHash H) = some e := by
  rw [← Option.isSome_iff_exists]
  unfold MempoolImpl.addTransaction MempoolImpl.makeRoom
  by_cases h1 : (s.transactions.lookup (tx.calculateHash H)).isSome = true
  · rw [if_pos h1]
    exact ⟨fun _ => h1, fun _ => rfl⟩
  refine ⟨fun h => ?_, fun h => absurd h h1⟩
  -- every later answer is another one
  rw [if_neg h1] at h
  split at h
  · rename_i hr
    split at hr
    · cases hr
      cases h
    split at hr
    · dsimp only at hr
      split at hr
      · cases hr
        cases h
      · cases hr
    · cases hr
  · cases h

/-- every entry is pooled under the 32 bytes that the implemented hash sees of it -/
def Keyed (s : MempoolImpl F) : Prop :=
  ∀ h e, s.transactions.lookup h = some e → h = Transaction.shortKey e.transaction.data

theorem step_keyed {s : MempoolImpl F} {c : Call F} (hs : Keyed s)
    (hc : ∀ tx, c.offered = some tx → tx.Coherent hashSha256) : Keyed (step hashSha256 s c) := by
  intro h e he
  rcases step_entry he with hold | ⟨tx, htx, hh, hdata, _, _⟩
  · exact hs h e hold
  · rw [hh, hdata]
    exact (hc tx (offered_of_takesIn htx)).calculateHash_shortKey

/-- the calls of the run offer coherent transactions only -/
def CoherentRun (calls : List (Call F)) : Prop :=
  ∀ c ∈ calls, ∀ tx, c.offered = some tx → tx.Coherent hashSha256

theorem poolAfter_keyed (config : MempoolConfig F) {calls : List (Call F)}
    (hcalls : CoherentRun calls) : Keyed (poolAfter hashSha256 config calls) := by
  refine run_inv_of Keyed (C := fun _ c => ∀ tx, c.offered = some tx → tx.Coherent hashSha256)
    (fun _ _ hs hc => step_keyed hs hc) calls ?_
    (everyStep_of_forall (fun _ => hcalls) _)
  intro h e he
  cases he

/-- **When duplicate detection is exact.**  A coherent transaction is called a duplicate only if one
with the same data is pooled, exactly if this is so for the entry under its first 32 hashed bytes;
in a run of coherent transactions, exactly if every pooled transaction with the same sender and
first twelve bytes of the recipient has the same data. -/
theorem duplicate_exact_iff (config : MempoolConfig F) (calls : List (Call F))
    (clock : Nat → UInt64) (tx : Transaction) (htx : tx.Coherent hashSha256) :
    let s := poolAfter hashSha256 config calls
    (((s.addTransaction hashSha256 clock tx).1 = .transactionExists → Holds s tx.data) ↔
      ((∃ e, s.transactions.lookup (Transaction.shortKey tx.data) = some e) → Holds s tx.data)) ∧
    (CoherentRun calls →
      (((s.addTransaction hashSha256 clock tx).1 = .transactionExists → Holds s tx.data) ↔
        ∀ p ∈ s.transactions.entries,
          Transaction.shortKey p.2.transaction.data = Transaction.shortKey tx.data →
            p.2.transaction.data = tx.data)) := by
  intro s
  rw [addTransaction_exists_iff, htx.calculateHash_shortKey]
  refine ⟨Iff.rfl, fun hcalls => ?_⟩
  have hkeyed : Keyed s := poolAfter_keyed config hcalls
  constructor
  · intro h p hp hk
    have hl := (UMap.mem_entries _ _ _).mp hp
    have hpk : p.1 = Transaction.shortKey tx.data := (hkeyed p.1 p.2 hl).trans hk
    rw [hpk] at hl
    -- an equal transaction is pooled under the same hash, so it is this one
    obtain ⟨k, e, he, hd⟩ := holds_iff.mp (h ⟨p.2, hl⟩)
    have hek := hkeyed k e he
    rw [hd] at hek
    rw [hek, hl] at he
    rw [Option.some.inj he, hd]
  · rintro h ⟨e, he⟩
    have hp := (UMap.mem_entries _ _ _).mpr he
    exact ⟨_, hp, h _ hp (hkeyed _ _ he).symm⟩

end

theorem duplicate_exact_sample :
    let s := poolAfter hashSha256 MempoolConfig.default oneAddition
    let tx := sampleTx 2 2 10
    (((s.addTransaction hashSha256 (fun _ => 0) tx).1 = .transactionExists → Holds s tx.data) ↔
      ((∃ e, s.transactions.lookup (Transaction.shortKey tx.data) = some e) → Holds s tx.data)) ∧
    (CoherentRun oneAddition →
      (((s.addTransaction hashSha256 (fun _ => 0) tx).1 = .transactionExists → Holds s tx.data) ↔
        ∀ p ∈ s.transactions.entries,
          Transaction.shortKey p.2.transaction.data = Transaction.shortKey tx.data →
            p.2.transaction.data = tx.data)) :=
  duplicate_exact_iff MempoolConfig.default oneAddition (fun _ => 0) (sampleTx 2 2 10) (.inl rfl)

/-- the second transaction of a sender to one recipient, without a cached hash -/
theorem next_nonce_taken_for_duplicate :
    (sampleTx 2 2 10).cachedHash = none ∧
      ((poolAfter hashSha256 MempoolConfig.default oneAddition).addTransaction hashSha256 (fun _ => 0)
        (sampleTx 2 2 10)).1 = .transactionExists ∧
      ¬ Holds (poolAfter hashSha256 MempoolConfig.default oneAddition) (sampleTx 2 2 10).data := by
  decide +kernel

end Mempool
end ChainForge
