import ChainForge.Mempool.Steps

/-!
# What a call does to the pool, move by move

`ChainForge.Mempool.Steps` looks at the pool and its index only.  Here the whole state is followed,
with the configuration and the callbacks.

* `addTransaction_room`     what an addition does that does not find the pool full;
* `addTransaction_moves`    an addition removes entries, and then it may enter a new one in a pool
                            that is not full;
* `Call.takesIn`            the transaction that a call takes in, by the tests of its method;
* `replaceTransaction_state` (in `Steps`) is the description of a replacement;
* `settings`, `step_settings`   configuration and callbacks are changed by their setters only;
* `PoolStep`, `step_pool`   **all that a call can do to the pooled entries**;
* `step_entry`, `step_takesIn`   an entry was pooled before, or the call has taken it in.
-/

set_option linter.unusedSectionVars false

namespace ChainForge
namespace Mempool
open Machine

section
variable {F : Type} [LinearOrder F] [Double F]

/-! ## settings -/

/-- configuration and callbacks -/
def settings (s : MempoolImpl F) : MempoolConfig F × Bool × Bool :=
  (s.config, s.onTransactionAdded, s.onTransactionRemoved)

/-- the effect of the three setters -/
def Mutator.set (p : MempoolConfig F × Bool × Bool) : Mutator F → MempoolConfig F × Bool × Bool
  | .setConfig config => (config, p.2)
  | .setTransactionAddedCallback set => (p.1, set, p.2.2)
  | .setTransactionRemovedCallback set => (p.1, p.2.1, set)
  | _ => p

theorem settings_dropEntry (s : MempoolImpl F) (h : Hash) (e : MempoolEntry F) :
    settings (s.dropEntry h e) = settings s := by
  show settings (s.removeAccountNonce _ _) = _
  rw [MempoolImpl.removeAccountNonce_frame]
  rfl

theorem settings_notifyAdded (s : MempoolImpl F) (h : Hash) :
    settings (s.notifyAdded h) = settings s := by
  unfold MempoolImpl.notifyAdded
  split <;> rfl

theorem settings_notifyRemoved (s : MempoolImpl F) (h : Hash) :
    settings (s.notifyRemoved h) = settings s := by
  unfold MempoolImpl.notifyRemoved
  split <;> rfl

/-! ## removals -/

theorem removeEntry_transactions (s : MempoolImpl F) (h : Hash) (e : MempoolEntry F) :
    (s.removeEntry h e).transactions = s.transactions.erase h := by
  rw [← s.dropEntry_transactions h e]
  unfold MempoolImpl.removeEntry MempoolImpl.notifyRemoved
  split <;> rfl

theorem Removals.settings_eq {s t : MempoolImpl F} (h : Removals s t) : settings t = settings s := by
  induction h with
  | refl => rfl
  | tail k e _ _ ih =>
    rw [← ih]
    exact (settings_notifyRemoved _ k).trans (settings_dropEntry _ k e)

variable (H : List UInt8 → Hash) (s : MempoolImpl F)

/-! ## additions -/

/-- the last part of `add_transaction`, in a pool with room -/
def MempoolImpl.accept (s : MempoolImpl F) (clock : Nat → UInt64) (tx : Transaction) :
    MempoolImpl F :=
  (s.enter (tx.calculateHash H) (newEntry (tx.hashed H) clock)).notifyAdded (tx.calculateHash H)

theorem accept_transactions (clock : Nat → UInt64) (tx : Transaction) :
    (s.accept H clock tx).transactions
      = s.transactions.insert (tx.calculateHash H)
          (MempoolImpl.newEntry (tx.hashed H) clock) := by
  unfold MempoolImpl.accept MempoolImpl.notifyAdded
  split <;> rfl

theorem accept_accountNonces (clock : Nat → UInt64) (tx : Transaction) :
    (s.accept H clock tx).accountNonces
      = (s.updateAccountNonce tx.fromAddr tx.nonce (tx.calculateHash H)).accountNonces := by
  unfold MempoolImpl.accept MempoolImpl.notifyAdded
  split <;> rfl

theorem settings_accept (clock : Nat → UInt64) (tx : Transaction) :
    settings (s.accept H clock tx) = settings s := by
  unfold MempoolImpl.accept
  rw [settings_notifyAdded]
  rfl

/-- an addition that does not find the pool full -/
theorem addTransaction_room (clock : Nat → UInt64) (tx : Transaction)
    (hroom : s.transactions.lookup (tx.calculateHash H) = none →
      s.validateTransaction (tx.hashed H) = true → s.isPoolFull (clock 2) = false) :
    s.addTransaction H clock tx =
      if (s.transactions.lookup (tx.calculateHash H)).isSome then (.transactionExists, s)
      else if !s.validateTransaction (tx.hashed H) then (.invalidTransaction, s)
      else (.success, s.accept H clock tx) := by
  unfold MempoolImpl.addTransaction MempoolImpl.makeRoom
  by_cases h1 : (s.transactions.lookup (tx.calculateHash H)).isSome = true
  · rw [if_pos h1, if_pos h1]
  rw [if_neg h1, if_neg h1]
  by_cases h2 : (!s.validateTransaction (tx.hashed H)) = true
  · rw [if_pos h2, if_pos h2]
  rw [if_neg h2, if_neg h2, hroom (by simpa using h1) (by simpa using h2)]
  rfl

theorem addTransaction_accept (clock : Nat → UInt64) (tx : Transaction)
    (hfresh : s.transactions.lookup (tx.calculateHash H) = none)
    (hvalid : s.validateTransaction (tx.hashed H) = true)
    (hroom : s.isPoolFull (clock 2) = false) :
    s.addTransaction H clock tx = (.success, s.accept H clock tx) := by
  rw [addTransaction_room H s clock tx fun _ _ => hroom, hfresh, hvalid]
  rfl

theorem addTransaction_moves (clock : Nat → UInt64) (tx : Transaction) :
    (s.admissible H tx && s.hasRoom clock) = false ∧ Removals s (s.addTransaction H clock tx).2 ∨
      (s.admissible H tx && s.hasRoom clock) = true ∧
      ∃ t now, Removals s t ∧ t.transactions.lookup (tx.calculateHash H) = none ∧
        s.validateTransaction (tx.hashed H) = true ∧ t.isPoolFull now = false ∧
        (s.addTransaction H clock tx).2 = t.accept H clock tx := by
  have hcases := s.makeRoom_cases H clock tx
  rw [← s.makeRoom_isOk]
  unfold MempoolImpl.addTransaction
  cases hr : s.makeRoom H clock tx with
  | error r =>
    rw [hr] at hcases
    exact .inl ⟨rfl, hcases⟩
  | ok t =>
    rw [hr] at hcases
    obtain ⟨hfresh, hvalid, ht, now, hroom⟩ := hcases
    exact .inr ⟨rfl, t, now, ht, ht.drops.records_none hfresh, hvalid, hroom, rfl⟩

theorem step_settings (c : Call F) : settings (step H s c) = c.method.set (settings s) := by
  obtain ⟨m, clock⟩ := c
  cases m with
  | addTransaction tx =>
    show settings (s.addTransaction H clock tx).2 = _
    rcases addTransaction_moves H s clock tx with ⟨_, h⟩ | ⟨_, t, _, h, _, _, _, e⟩
    · exact h.settings_eq
    · rw [e, settings_accept]
      exact h.settings_eq
  | removeTransaction h => exact (s.removeTransaction_removals h).settings_eq
  | replaceTransaction tx =>
    show settings (s.replaceTransaction H clock tx).2 = _
    have hcases := s.replaceTransaction_cases H clock tx
    generalize s.replaceTransaction H clock tx = r at hcases ⊢
    cases hcases with
    | refused => rfl
    | lost oldHash old => exact settings_dropEntry s oldHash old
    | done oldHash old => exact settings_dropEntry s oldHash old
  | evictExpiredTransactions => exact (s.removeAll_removals _).settings_eq
  | evictLowFeeTransactions => exact (s.evictLowFeeTransactions_removals).settings_eq
  | clear => rfl
  | setConfig _ => rfl
  | setTransactionAddedCallback _ => rfl
  | setTransactionRemovedCallback _ => rfl

/-! ## all methods -/

/-- a replacement that goes through: its transaction, and the hash and entry that it takes out -/
def Call.replacement (c : Call F) : Option (Transaction × Hash × MempoolEntry F) :=
  match c.method with
  | .replaceTransaction tx => (s.replaces H tx).map fun old => (tx, old)
  | _ => none

/-- the transaction that a call takes in: an addition if the transaction passes the tests and finds
room, a replacement if it takes the place of an entry -/
def Call.takesIn (c : Call F) : Option Transaction :=
  match c.method with
  | .addTransaction tx => if s.admissible H tx && s.hasRoom c.clock then some tx else none
  | .replaceTransaction tx => if (s.replaces H tx).isSome then some tx else none
  | _ => none

/-- the transaction that a call offers to the pool -/
def Call.offered (c : Call F) : Option Transaction :=
  match c.method with
  | .addTransaction tx => some tx
  | .replaceTransaction tx => some tx
  | _ => none

/-- **All that a call can do to the pooled entries**: some are dropped; or, after some removals, a
valid transaction is entered under a free hash in a pool that is not full; or a replacement takes
one entry out and puts a valid one in, over whatever its hash holds. -/
inductive PoolStep (c : Call F) : UMap Hash (MempoolEntry F) → Prop
  | drops {m : UMap Hash (MempoolEntry F)}
      (hsub : ∀ k e, m.lookup k = some e → s.transactions.lookup k = some e)
      (htx : c.takesIn H s = none) (hc : c.replacement H s = none) : PoolStep c m
  | enters {t : MempoolImpl F} {now : UInt64} (tx : Transaction) (htx : c.takesIn H s = some tx)
      (hc : c.replacement H s = none) (hr : Removals s t)
      (hfresh : t.transactions.lookup (tx.calculateHash H) = none)
      (hvalid : s.validateTransaction (tx.hashed H) = true) (hroom : t.isPoolFull now = false) :
      PoolStep c (t.transactions.insert (tx.calculateHash H)
        (MempoolImpl.newEntry (tx.hashed H) c.clock))
  | replaces (tx : Transaction) (oldHash : Hash) (old : MempoolEntry F)
      (htx : c.takesIn H s = some tx) (hc : c.replacement H s = some (tx, oldHash, old))
      (hold : s.transactions.lookup oldHash = some old)
      (hvalid : (s.dropEntry oldHash old).validateTransaction (tx.hashed H) = true) :
      PoolStep c ((s.transactions.erase oldHash).insert (tx.calculateHash H)
        (MempoolImpl.newEntry (tx.hashed H) c.clock))

theorem addTransaction_pool (clock : Nat → UInt64) (tx : Transaction) :
    PoolStep H s ⟨.addTransaction tx, clock⟩ (s.addTransaction H clock tx).2.transactions := by
  have htakes : Call.takesIn H s ⟨.addTransaction tx, clock⟩
      = if s.admissible H tx && s.hasRoom clock then some tx else none := rfl
  rcases addTransaction_moves H s clock tx with
    ⟨hno, hr⟩ | ⟨hyes, t, now, hr, hfresh, hvalid, hroom, e⟩
  · rw [hno] at htakes
    exact .drops (fun _ _ h => hr.drops.records_sub h) htakes rfl
  · rw [hyes] at htakes
    rw [e, accept_transactions]
    exact .enters tx htakes rfl hr hfresh hvalid hroom

theorem replaceTransaction_pool (clock : Nat → UInt64) (tx : Transaction) :
    PoolStep H s ⟨.replaceTransaction tx, clock⟩ (s.replaceTransaction H clock tx).2.transactions := by
  have htakes : Call.takesIn H s ⟨.replaceTransaction tx, clock⟩
      = if (s.replaces H tx).isSome then some tx else none := rfl
  have hc : Call.replacement H s ⟨.replaceTransaction tx, clock⟩
      = (s.replaces H tx).map fun old => (tx, old) := rfl
  have hcases := s.replaceTransaction_cases H clock tx
  generalize s.replaceTransaction H clock tx = r at hcases ⊢
  cases hcases with
  | refused he hr hp =>
    rw [hp] at htakes hc
    exact .drops (fun _ _ h => h) htakes hc
  | lost oldHash old hold hr hp hv =>
    rw [hp] at htakes hc
    dsimp only
    rw [s.dropEntry_transactions]
    exact .drops (fun _ _ h => UMap.lookup_of_erase h) htakes hc
  | done oldHash old hold hr hp hv =>
    rw [hp] at htakes hc
    show PoolStep H s _ ((s.dropEntry oldHash old).transactions.insert (tx.calculateHash H)
      (MempoolImpl.newEntry (tx.hashed H) clock))
    rw [s.dropEntry_transactions]
    exact .replaces tx oldHash old htakes hc hold hv

theorem step_pool (c : Call F) : PoolStep H s c (step H s c).transactions := by
  have removed : ∀ {t : MempoolImpl F} {c : Call F}, Removals s t → c.takesIn H s = none →
      c.replacement H s = none → PoolStep H s c t.transactions :=
    fun hr htx hc => .drops (fun _ _ h => hr.drops.records_sub h) htx hc
  obtain ⟨m, clock⟩ := c
  cases m with
  | addTransaction tx => exact addTransaction_pool H s clock tx
  | removeTransaction h => exact removed (s.removeTransaction_removals h) rfl rfl
  | replaceTransaction tx => exact replaceTransaction_pool H s clock tx
  | evictExpiredTransactions => exact removed (s.removeAll_removals _) rfl rfl
  | evictLowFeeTransactions => exact removed (s.evictLowFeeTransactions_removals) rfl rfl
  | clear => exact .drops (fun _ _ h => by cases h) rfl rfl
  | setConfig _ => exact .drops (fun _ _ h => h) rfl rfl
  | setTransactionAddedCallback _ => exact .drops (fun _ _ h => h) rfl rfl
  | setTransactionRemovedCallback _ => exact .drops (fun _ _ h => h) rfl rfl

/-! ## new entries -/

variable {H s} {c : Call F}

theorem offered_of_takesIn {tx : Transaction} (h : c.takesIn H s = some tx) : c.offered = some tx := by
  obtain ⟨m, clock⟩ := c
  unfold Call.takesIn at h
  cases m with
  | addTransaction tx' => exact (Option.ite_none_right_eq_some.mp h).2
  | replaceTransaction tx' => exact (Option.ite_none_right_eq_some.mp h).2
  | _ => cases h

theorem validateTransaction_fee {tx : Transaction} (h : s.validateTransaction tx = true) :
    tx.isValid = true ∧ s.validateFee tx = true := by
  simp only [MempoolImpl.validateTransaction, MempoolImpl.validateBasicProperties,
    Bool.and_eq_true] at h
  exact ⟨h.1.1.1.1, h.1.1.1.2⟩

/-- the fee is checked against the configuration only -/
theorem validateTransaction_dropEntry_fee {tx : Transaction} {oldHash : Hash} {old : MempoolEntry F}
    (h : (s.dropEntry oldHash old).validateTransaction (tx.hashed H) = true) :
    tx.isValid = true ∧ s.validateFee tx = true := by
  obtain ⟨hv, hfee⟩ := validateTransaction_fee h
  have hconfig : (s.dropEntry oldHash old).config = s.config :=
    congrArg Prod.fst (settings_dropEntry s oldHash old)
  refine ⟨hv, ?_⟩
  unfold MempoolImpl.validateFee at hfee ⊢
  rw [hconfig] at hfee
  exact hfee

/-- **Where an entry comes from.** -/
theorem step_entry {k : Hash} {e : MempoolEntry F} (h : (step H s c).transactions.lookup k = some e) :
    s.transactions.lookup k = some e ∨
      ∃ tx, c.takesIn H s = some tx ∧ k = tx.calculateHash H ∧ e.transaction.data = tx.data ∧
        tx.isValid = true ∧ s.validateFee tx = true := by
  have hstep := step_pool H s c
  generalize (step H s c).transactions = m at h hstep
  cases hstep with
  | drops hsub _ _ => exact Or.inl (hsub k e h)
  | enters tx htx _ hr _ hvalid _ =>
    rw [UMap.lookup_insert] at h
    split at h
    · rename_i hk
      refine Or.inr ⟨tx, htx, hk, ?_, validateTransaction_fee hvalid⟩
      rw [← Option.some.inj h]
      rfl
    · exact Or.inl (hr.drops.records_sub h)
  | replaces tx oldHash old htx _ _ hvalid =>
    rw [UMap.lookup_insert] at h
    split at h
    · rename_i hk
      refine Or.inr ⟨tx, htx, hk, ?_, validateTransaction_dropEntry_fee hvalid⟩
      rw [← Option.some.inj h]
      rfl
    · exact Or.inl (UMap.lookup_of_erase h)

/-- **What is taken in is pooled.** -/
theorem step_takesIn {tx : Transaction} (h : c.takesIn H s = some tx) :
    ∃ e, (step H s c).transactions.lookup (tx.calculateHash H) = some e ∧
      e.transaction.data = tx.data := by
  have hnew : ∀ m : UMap Hash (MempoolEntry F), ∃ e, (m.insert (tx.calculateHash H)
      (MempoolImpl.newEntry (tx.hashed H) c.clock)).lookup (tx.calculateHash H) = some e ∧
        e.transaction.data = tx.data := by
    intro m
    refine ⟨MempoolImpl.newEntry (tx.hashed H) c.clock, ?_, rfl⟩
    rw [UMap.lookup_insert, if_pos rfl]
  have hstep := step_pool H s c
  generalize (step H s c).transactions = m at hstep ⊢
  cases hstep with
  | drops _ htx _ => cases htx.symm.trans h
  | enters tx' htx _ _ _ _ _ =>
    cases htx.symm.trans h
    exact hnew _
  | replaces tx' oldHash old htx _ _ _ =>
    cases htx.symm.trans h
    exact hnew _

end
end Mempool
end ChainForge
