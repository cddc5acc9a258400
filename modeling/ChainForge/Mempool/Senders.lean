import ChainForge.Mempool.Index
import ChainForge.Mempool.Moves

/-!
# Senders do not interfere

Below capacity the pool is a product of account machines, one for each sender.  `account B s` is
the part of the pool that belongs to `B`: the transactions under hashes that start with the bytes of
`B`, and the nonces of `B`.  The implemented hash starts with the bytes of the sender
(`leading_calculateHash`), so every key of the pool, and every hash in the index, leads to its own
sender (`Led`).

* `Account.act`           what a call does to an account, by the account alone;
* `step_account`          **one call**: it acts on the account that it concerns, and on no other;
* `account_run`           the account of `B` after a run is computed from the calls that concern `B`;
* `senders_independent`   two runs that agree on these calls agree on `B`, whatever else they do.
-/

set_option linter.unusedSectionVars false

namespace ChainForge
namespace Mempool
open Machine IndexedStore

section
variable {F : Type} [LinearOrder F] [Double F]

def leading (h : Hash) : Address := ⟨h.1.take 20, by rw [List.length_take, h.2]; rfl⟩

theorem leading_calculateHash {tx : Transaction} (h : tx.Coherent hashSha256) :
    leading (tx.calculateHash hashSha256) = tx.fromAddr :=
  Subtype.ext (Transaction.calculateHash_sender h)

/-! ## accounts -/

/-- what the pool holds of one sender -/
structure Account where
  pooled : Hash → Option Transaction
  nonces : Option (UMap UInt64 Hash)

namespace Account

def drop (a : Account) (h : Hash) (n : UInt64) : Account :=
  ⟨Function.update a.pooled h none, a.nonces.bind (MempoolImpl.withoutNonce · n)⟩

def put (a : Account) (h : Hash) (tx : Transaction) : Account :=
  ⟨Function.update a.pooled h (some tx), some ((a.nonces.getD ∅).insert tx.nonce h)⟩

/-- the validation of the pool reads the configuration and the nonces of the sender only -/
def validates (config : MempoolConfig F) (a : Account) (tx : Transaction) : Bool :=
  MempoolImpl.validateBasicProperties tx &&
    (tx.gasPrice ≥ config.minFeePerGas && tx.gasPrice ≤ config.maxFeePerGas) &&
    (match a.nonces.bind fun m => maxElement m.keys with
      | some n => !(n ≥ tx.nonce)
      | none => true) &&
    MempoolImpl.validateDependencies tx && MempoolImpl.validateSize tx

def add (config : MempoolConfig F) (a : Account) (tx : Transaction) : Account :=
  if (a.pooled (tx.calculateHash hashSha256)).isSome then a
  else if !a.validates config (tx.hashed hashSha256) then a
  else a.put (tx.calculateHash hashSha256) (tx.hashed hashSha256)

def remove (a : Account) (h : Hash) : Account :=
  match a.pooled h with
  | none => a
  | some tx => a.drop h tx.nonce

/-- the transaction that a replacement takes out -/
def replaced (F : Type) [Double F] (a : Account) (tx : Transaction) : Option (Hash × Transaction) :=
  match a.nonces.bind (·.lookup tx.nonce) with
  | none => none
  | some oldHash =>
    match a.pooled oldHash with
    | none => none
    | some old =>
      if MempoolImpl.checkReplacementPolicy F old tx = .success then some (oldHash, old) else none

def replace (config : MempoolConfig F) (a : Account) (tx : Transaction) : Account :=
  match a.replaced F (tx.hashed hashSha256) with
  | none => a
  | some (oldHash, old) =>
    if (a.drop oldHash old.nonce).validates config (tx.hashed hashSha256) then
      (a.drop oldHash old.nonce).put (tx.calculateHash hashSha256) (tx.hashed hashSha256)
    else a.drop oldHash old.nonce

def act (config : MempoolConfig F) (a : Account) : Mutator F → Account
  | .addTransaction tx => a.add config tx
  | .replaceTransaction tx => a.replace config tx
  | .removeTransaction h => a.remove h
  | _ => a

end Account

def account (B : Address) (s : MempoolImpl F) : Account :=
  ⟨fun h => if leading h = B then (s.transactions.lookup h).map (·.transaction) else none,
   s.accountNonces.lookup B⟩

structure Led (config : MempoolConfig F) (s : MempoolImpl F) : Prop where
  config_eq : s.config = config
  pooled : ∀ h e, s.transactions.lookup h = some e → leading h = e.transaction.fromAddr
  indexed : ∀ a n h, s.indexed a n = some h → leading h = a

/-! ## the two writes -/

section
variable {config : MempoolConfig F} {s : MempoolImpl F} {B : Address} {h : Hash}
  {e : MempoolEntry F}

theorem Led.dropEntry (hs : Led config s) : Led config (s.dropEntry h e) := by
  have hst := s.store_dropEntry h e
  refine ⟨(s.dropEntry_config h e).trans hs.config_eq, fun k r hk => ?_, fun a n k hk => ?_⟩
  · have hr : (store (s.dropEntry h e)).records k = some r := hk
    rw [hst, records_drop] at hr
    split at hr
    · cases hr
    · exact hs.pooled k r hr
  · have hi : (store (s.dropEntry h e)).index (a, n) = some k := hk
    rw [hst, index_drop] at hi
    split at hi
    · cases hi
    · exact hs.indexed a n k hi

theorem Led.putEntry (hs : Led config s) (hk : leading h = e.transaction.fromAddr) :
    Led config (s.putEntry h e) := by
  have hst := s.store_putEntry h e
  refine ⟨hs.config_eq, fun k r hr => ?_, fun a n k hi => ?_⟩
  · have hr' : (store (s.putEntry h e)).records k = some r := hr
    rw [hst, records_put] at hr'
    split at hr'
    · rename_i hkh
      rw [hkh, hk, Option.some.inj hr']
    · exact hs.pooled k r hr'
  · have hi' : (store (s.putEntry h e)).index (a, n) = some k := hi
    rw [hst, index_put] at hi'
    split at hi'
    · rename_i ha
      rw [← Option.some.inj hi', hk]
      exact (Prod.mk.inj ha).1.symm
    · exact hs.indexed a n k hi'

/-- a write at a hash that leads to `A` and at the nonces of `A` is a write to the account of `A` -/
theorem account_write {t : MempoolImpl F} {A : Address} (hk : leading h = A)
    {v : Option (MempoolEntry F)} {m : Option (UMap UInt64 Hash)}
    (htx : ∀ k, t.transactions.lookup k = if k = h then v else s.transactions.lookup k)
    (hnon : t.accountNonces.lookup B = if B = A then m else s.accountNonces.lookup B) :
    account B t = if A = B then
      ⟨Function.update (account B s).pooled h (v.map (·.transaction)), m⟩ else account B s := by
  unfold account
  rw [hnon]
  by_cases hB : A = B
  · subst hB
    rw [if_pos rfl, if_pos rfl]
    refine congrArg₂ Account.mk (funext fun k => ?_) rfl
    rw [htx, Function.update_apply]
    by_cases hkh : k = h
    · simp [hkh, hk]
    · simp [hkh]
  · rw [if_neg hB, if_neg (Ne.symm hB)]
    refine congrArg₂ Account.mk (funext fun k => ?_) rfl
    by_cases hkB : leading k = B
    · have hkh : k ≠ h := by
        intro hkh
        rw [hkh, hk] at hkB
        exact hB hkB
      rw [htx, if_neg hkh]
    · rw [if_neg hkB, if_neg hkB]

theorem account_dropEntry (hk : leading h = e.transaction.fromAddr) :
    account B (s.dropEntry h e) = if e.transaction.fromAddr = B then
      (account B s).drop h e.transaction.nonce else account B s := by
  have htx : ∀ k, (s.dropEntry h e).transactions.lookup k
      = if k = h then none else s.transactions.lookup k := by
    intro k
    rw [MempoolImpl.dropEntry_transactions, UMap.lookup_erase]
  rw [account_write hk htx (s.lookup_removeAccountNonce e.transaction.fromAddr B _)]
  by_cases hB : e.transaction.fromAddr = B
  · rw [if_pos hB, if_pos hB, hB]
    rfl
  · rw [if_neg hB, if_neg hB]

theorem account_putEntry (hk : leading h = e.transaction.fromAddr) :
    account B (s.putEntry h e) = if e.transaction.fromAddr = B then
      (account B s).put h e.transaction else account B s := by
  have htx : ∀ k, (s.putEntry h e).transactions.lookup k
      = if k = h then some e else s.transactions.lookup k := fun k => UMap.lookup_insert _ _ _ _
  rw [account_write hk htx (s.lookup_updateAccountNonce e.transaction.fromAddr B _ h)]
  by_cases hB : e.transaction.fromAddr = B
  · rw [if_pos hB, if_pos hB, hB]
    rfl
  · rw [if_neg hB, if_neg hB]

theorem account_notifyAdded : account B (s.notifyAdded h) = account B s := by
  unfold MempoolImpl.notifyAdded
  split <;> rfl

theorem account_notifyRemoved : account B (s.notifyRemoved h) = account B s := by
  unfold MempoolImpl.notifyRemoved
  split <;> rfl

theorem Led.notifyAdded (hs : Led config s) : Led config (s.notifyAdded h) := by
  unfold MempoolImpl.notifyAdded
  split
  · exact ⟨hs.config_eq, hs.pooled, hs.indexed⟩
  · exact hs

theorem Led.notifyRemoved (hs : Led config s) : Led config (s.notifyRemoved h) := by
  unfold MempoolImpl.notifyRemoved
  split
  · exact ⟨hs.config_eq, hs.pooled, hs.indexed⟩
  · exact hs

theorem validates_account (hs : Led config s) (tx : Transaction) :
    s.validateTransaction tx = (account tx.fromAddr s).validates config tx := by
  rw [← hs.config_eq]
  rfl

theorem pooled_account (hh : leading h = B) :
    (account B s).pooled h = (s.transactions.lookup h).map (·.transaction) := if_pos hh

end

/-! ## one call -/

/-- the calls that concern `B`: additions and replacements of transactions from `B`, and removals of
hashes that lead to `B` -/
def Call.concerns (B : Address) (c : Call F) : Bool :=
  match c.method with
  | .addTransaction tx => decide (tx.fromAddr = B)
  | .replaceTransaction tx => decide (tx.fromAddr = B)
  | .removeTransaction h => decide (leading h = B)
  | _ => false

/-- an addition, replacement or removal, with a coherent transaction, that does not find the pool
full where it checks this -/
def BelowCapacity (s : MempoolImpl F) (c : Call F) : Prop :=
  match c.method with
  | .addTransaction tx => tx.Coherent hashSha256 ∧
      (s.transactions.lookup (tx.calculateHash hashSha256) = none →
        s.validateTransaction (tx.hashed hashSha256) = true → s.isPoolFull (c.clock 2) = false)
  | .replaceTransaction tx => tx.Coherent hashSha256
  | .removeTransaction _ => True
  | _ => False

section
variable {config : MempoolConfig F} {s : MempoolImpl F} {B : Address}

theorem addTransaction_below {clock : Nat → UInt64} {tx : Transaction}
    (hroom : BelowCapacity s ⟨.addTransaction tx, clock⟩) :
    (s.addTransaction hashSha256 clock tx).2 =
      if (s.transactions.lookup (tx.calculateHash hashSha256)).isSome then s
      else if !s.validateTransaction (tx.hashed hashSha256) then s
      else s.accept hashSha256 clock tx := by
  rw [addTransaction_room hashSha256 s clock tx hroom.2, apply_ite Prod.snd, apply_ite Prod.snd]

theorem addTransaction_account (hs : Led config s) {clock : Nat → UInt64} {tx : Transaction}
    (hroom : BelowCapacity s ⟨.addTransaction tx, clock⟩) :
    Led config (s.addTransaction hashSha256 clock tx).2 ∧
      account B (s.addTransaction hashSha256 clock tx).2 =
        if tx.fromAddr = B then (account B s).add config tx else account B s := by
  have hkey : leading (tx.calculateHash hashSha256) = tx.fromAddr := leading_calculateHash hroom.1
  rw [addTransaction_below hroom]
  constructor
  · split
    · exact hs
    split
    · exact hs
    have hput := hs.putEntry (e := MempoolImpl.newEntry (tx.hashed hashSha256) clock) hkey
    exact Led.notifyAdded ⟨hput.config_eq, hput.pooled, hput.indexed⟩
  · have henter : account B (s.enter (tx.calculateHash hashSha256)
        (MempoolImpl.newEntry (tx.hashed hashSha256) clock)) = if tx.fromAddr = B then
          (account B s).put (tx.calculateHash hashSha256) (tx.hashed hashSha256)
        else account B s := account_putEntry hkey
    rw [apply_ite (account B), apply_ite (account B), MempoolImpl.accept, account_notifyAdded,
      henter]
    by_cases hB : tx.fromAddr = B
    · subst hB
      rw [if_pos rfl, if_pos rfl, Account.add, pooled_account hkey, Option.isSome_map,
        validates_account hs]
      rfl
    · rw [if_neg hB, if_neg hB, ite_self, ite_self]

theorem removeTransaction_account (hs : Led config s) (h : Hash) :
    Led config (s.removeTransaction h).2 ∧
      account B (s.removeTransaction h).2 =
        if leading h = B then (account B s).remove h else account B s := by
  unfold MempoolImpl.removeTransaction Account.remove
  cases he : s.transactions.lookup h with
  | none =>
    refine ⟨hs, ?_⟩
    by_cases hB : leading h = B
    · rw [if_pos hB, pooled_account hB, he]
      rfl
    · rw [if_neg hB]
  | some e =>
    have hkey := hs.pooled h e he
    have hdrop : Led config (s.dropEntry h e) := hs.dropEntry
    refine ⟨Led.notifyRemoved ⟨hdrop.config_eq, hdrop.pooled, hdrop.indexed⟩, ?_⟩
    show account B ((s.dropEntry h e).rebuildPriorityQueue.notifyRemoved h) = _
    rw [account_notifyRemoved]
    show account B (s.dropEntry h e) = _
    rw [account_dropEntry hkey, hkey]
    by_cases hB : e.transaction.fromAddr = B
    · rw [if_pos hB, if_pos hB, pooled_account (hkey.trans hB), he]
      rfl
    · rw [if_neg hB, if_neg hB]

theorem replaced_account (hs : Led config s) (tx : Transaction) :
    (account tx.fromAddr s).replaced F tx
      = (s.replaced tx).map fun p => (p.1, p.2.transaction) := by
  unfold Account.replaced MempoolImpl.replaced
  have hidx : (account tx.fromAddr s).nonces.bind (·.lookup tx.nonce)
      = s.indexed tx.fromAddr tx.nonce := rfl
  rw [hidx]
  cases hi : s.indexed tx.fromAddr tx.nonce with
  | none => rfl
  | some oldHash =>
    dsimp only
    rw [pooled_account (hs.indexed _ _ _ hi)]
    cases s.transactions.lookup oldHash with
    | none => rfl
    | some old =>
      dsimp only [Option.map_some]
      rw [apply_ite (Option.map _)]
      rfl

/-- the entry that a replacement takes out has the sender of the new transaction -/
theorem replaced_from (hs : Led config s) {tx : Transaction} {oldHash : Hash} {old : MempoolEntry F}
    (hr : s.replaced tx = some (oldHash, old)) :
    leading oldHash = old.transaction.fromAddr ∧ old.transaction.fromAddr = tx.fromAddr := by
  obtain ⟨hi, he⟩ := s.replaced_lookup _ hr
  have hold := hs.pooled oldHash old he
  exact ⟨hold, hold.symm.trans (hs.indexed _ _ _ hi)⟩

theorem account_dropReplaced (hs : Led config s) {tx : Transaction} {oldHash : Hash}
    {old : MempoolEntry F} (hr : s.replaced tx = some (oldHash, old)) :
    account B (s.dropEntry oldHash old) = if tx.fromAddr = B then
      (account B s).drop oldHash old.transaction.nonce else account B s := by
  obtain ⟨hold, hfrom⟩ := replaced_from hs hr
  rw [account_dropEntry hold, hfrom]

theorem Led.replaceTransaction (hs : Led config s) (clock : Nat → UInt64) {tx : Transaction}
    (hc : tx.Coherent hashSha256) : Led config (s.replaceTransaction hashSha256 clock tx).2 := by
  have hkey : leading (tx.calculateHash hashSha256) = tx.fromAddr := leading_calculateHash hc
  rw [MempoolImpl.replaceTransaction_state]
  cases s.replaced (tx.hashed hashSha256) with
  | none => exact hs
  | some p =>
    obtain ⟨oldHash, old⟩ := p
    have hdrop : Led config (s.dropEntry oldHash old) := hs.dropEntry
    have hled := hdrop.putEntry (e := MempoolImpl.newEntry (tx.hashed hashSha256) clock) hkey
    dsimp only
    split
    · exact ⟨hled.config_eq, hled.pooled, hled.indexed⟩
    · exact hdrop

/-- a replacement leaves the accounts of other senders alone -/
theorem replaceTransaction_other (hs : Led config s) (clock : Nat → UInt64) {tx : Transaction}
    (hc : tx.Coherent hashSha256) (hB : tx.fromAddr ≠ B) :
    account B (s.replaceTransaction hashSha256 clock tx).2 = account B s := by
  have hkey : leading (tx.calculateHash hashSha256) = tx.fromAddr := leading_calculateHash hc
  rw [MempoolImpl.replaceTransaction_state]
  cases hr : s.replaced (tx.hashed hashSha256) with
  | none => rfl
  | some p =>
    obtain ⟨oldHash, old⟩ := p
    have hacc : account B (s.dropEntry oldHash old) = account B s :=
      (account_dropReplaced hs hr).trans (if_neg hB)
    have hput : account B ((s.dropEntry oldHash old).putEntry (tx.calculateHash hashSha256)
        (MempoolImpl.newEntry (tx.hashed hashSha256) clock)) = account B (s.dropEntry oldHash old) :=
      (account_putEntry hkey).trans (if_neg hB)
    dsimp only
    rw [apply_ite (account B)]
    show (if _ then account B ((s.dropEntry oldHash old).putEntry _ _) else _) = _
    rw [hput, ite_self, hacc]

/-- on the account of its sender a replacement is that of the account -/
theorem replaceTransaction_own (hs : Led config s) (clock : Nat → UInt64) {tx : Transaction}
    (hc : tx.Coherent hashSha256) :
    account tx.fromAddr (s.replaceTransaction hashSha256 clock tx).2
      = (account tx.fromAddr s).replace config tx := by
  have hkey : leading (tx.calculateHash hashSha256) = tx.fromAddr := leading_calculateHash hc
  have hrep := replaced_account hs (tx.hashed hashSha256)
  rw [MempoolImpl.replaceTransaction_state]
  unfold Account.replace
  cases hr : s.replaced (tx.hashed hashSha256) with
  | none =>
    rw [hr] at hrep
    rw [show (account tx.fromAddr s).replaced F (tx.hashed hashSha256) = none from hrep]
  | some p =>
    obtain ⟨oldHash, old⟩ := p
    rw [hr] at hrep
    have hrep' : (account tx.fromAddr s).replaced F (tx.hashed hashSha256)
      = some (oldHash, old.transaction) := hrep
    have hacc : account tx.fromAddr (s.dropEntry oldHash old)
        = (account tx.fromAddr s).drop oldHash old.transaction.nonce :=
      (account_dropReplaced hs hr).trans (if_pos rfl)
    have hput : account tx.fromAddr ((s.dropEntry oldHash old).putEntry
        (tx.calculateHash hashSha256) (MempoolImpl.newEntry (tx.hashed hashSha256) clock))
        = (account tx.fromAddr (s.dropEntry oldHash old)).put (tx.calculateHash hashSha256)
            (tx.hashed hashSha256) :=
      (account_putEntry hkey).trans (if_pos rfl)
    have hval : (s.dropEntry oldHash old).validateTransaction (tx.hashed hashSha256)
        = ((account tx.fromAddr s).drop oldHash old.transaction.nonce).validates config
            (tx.hashed hashSha256) := by
      rw [validates_account hs.dropEntry, ← hacc]
      rfl
    dsimp only
    rw [apply_ite (account tx.fromAddr)]
    show (if _ then account _ ((s.dropEntry oldHash old).putEntry _ _) else _) = _
    rw [hput, hval, hacc, hrep']

theorem replaceTransaction_account (hs : Led config s) (clock : Nat → UInt64) {tx : Transaction}
    (hc : tx.Coherent hashSha256) :
    Led config (s.replaceTransaction hashSha256 clock tx).2 ∧
      account B (s.replaceTransaction hashSha256 clock tx).2 =
        if tx.fromAddr = B then (account B s).replace config tx else account B s := by
  refine ⟨hs.replaceTransaction clock hc, ?_⟩
  by_cases hB : tx.fromAddr = B
  · subst hB
    rw [if_pos rfl]
    exact replaceTransaction_own hs clock hc
  · rw [if_neg hB]
    exact replaceTransaction_other hs clock hc hB

/-- **One call acts on the account that it concerns, and on no other.** -/
theorem step_account (hs : Led config s) {c : Call F} (hc : BelowCapacity s c) :
    Led config (step hashSha256 s c) ∧
      account B (step hashSha256 s c) =
        if c.concerns B then (account B s).act config c.method else account B s := by
  obtain ⟨m, clock⟩ := c
  cases m with
  | addTransaction tx =>
    have h := addTransaction_account (B := B) hs hc
    refine ⟨h.1, h.2.trans ?_⟩
    simp only [Call.concerns, decide_eq_true_eq, Account.act]
  | removeTransaction k =>
    have h := removeTransaction_account (B := B) hs k
    refine ⟨h.1, h.2.trans ?_⟩
    simp only [Call.concerns, decide_eq_true_eq, Account.act]
  | replaceTransaction tx =>
    have h := replaceTransaction_account (B := B) hs clock hc
    refine ⟨h.1, h.2.trans ?_⟩
    simp only [Call.concerns, decide_eq_true_eq, Account.act]
  | evictExpiredTransactions => exact hc.elim
  | evictLowFeeTransactions => exact hc.elim
  | clear => exact hc.elim
  | setConfig _ => exact hc.elim
  | setTransactionAddedCallback _ => exact hc.elim
  | setTransactionRemovedCallback _ => exact hc.elim

end

/-! ## runs -/

theorem led_start (config : MempoolConfig F) : Led config (MempoolImpl.start config) where
  config_eq := rfl
  pooled _ _ h := by cases h
  indexed _ _ _ h := by cases h

theorem poolAfter_led (config : MempoolConfig F) (calls : List (Call F))
    (h : EveryStep (step hashSha256) BelowCapacity (MempoolImpl.start config) calls) :
    Led config (poolAfter hashSha256 config calls) :=
  run_inv_of (Led config) (fun _ _ hs hc => (step_account (B := Address.zero) hs hc).1) calls
    (led_start config) h

theorem account_run (config : MempoolConfig F) (B : Address) (calls : List (Call F))
    (h : EveryStep (step hashSha256) BelowCapacity (MempoolImpl.start config) calls) :
    account B (poolAfter hashSha256 config calls) =
      run (Account.act config) ⟨fun _ => none, none⟩
        ((calls.filter (Call.concerns B)).map (·.method)) := by
  have hstart : account B (MempoolImpl.start config) = ⟨fun _ => none, none⟩ := by
    refine congrArg₂ Account.mk (funext fun k => ?_) rfl
    exact ite_self none
  rw [← hstart]
  refine view_run (Led config) (Call.concerns B) (·.method) (account B) (Account.act config)
    ?_ ?_ ?_ calls (led_start config) h
  · exact fun s c hs hc => (step_account (B := B) hs hc).1
  · intro s c hs hc hown
    rw [(step_account hs hc).2, if_pos hown]
  · intro s c hs hc hother
    rw [(step_account hs hc).2, if_neg (by rw [hother]; exact Bool.false_ne_true)]

/-- the pooled transaction of sender `B` under `h` -/
def pooledFrom (B : Address) (s : MempoolImpl F) (h : Hash) : Option Transaction :=
  ((s.transactions.lookup h).map (·.transaction)).filter fun tx => decide (tx.fromAddr = B)

/-- by the leading bytes or by the sender: the account holds the same transactions -/
theorem pooledFrom_eq {config : MempoolConfig F} {s : MempoolImpl F} (hs : Led config s)
    (B : Address) (h : Hash) : pooledFrom B s h = (account B s).pooled h := by
  show _ = if leading h = B then _ else none
  unfold pooledFrom
  cases he : s.transactions.lookup h with
  | none => simp
  | some e =>
    rw [hs.pooled h e he]
    by_cases hB : e.transaction.fromAddr = B
    · simp [hB]
    · simp [hB]

/-- **Senders do not interfere below capacity**: two runs of additions, replacements and removals
that agree on the calls concerning `B` end with the same transactions and nonces of `B`. -/
theorem senders_independent (config : MempoolConfig F) (B : Address) (calls calls' : List (Call F))
    (h : EveryStep (step hashSha256) BelowCapacity (MempoolImpl.start config) calls)
    (h' : EveryStep (step hashSha256) BelowCapacity (MempoolImpl.start config) calls')
    (hB : (calls.filter (Call.concerns B)).map (·.method)
      = (calls'.filter (Call.concerns B)).map (·.method)) :
    (∀ k, pooledFrom B (poolAfter hashSha256 config calls) k
      = pooledFrom B (poolAfter hashSha256 config calls') k) ∧
    (poolAfter hashSha256 config calls).accountNonces.lookup B
      = (poolAfter hashSha256 config calls').accountNonces.lookup B := by
  have hacc : account B (poolAfter hashSha256 config calls)
      = account B (poolAfter hashSha256 config calls') := by
    rw [account_run config B calls h, account_run config B calls' h', hB]
  constructor
  · intro k
    rw [pooledFrom_eq (poolAfter_led config calls h), pooledFrom_eq (poolAfter_led config calls' h'),
      hacc]
  · exact congrArg Account.nonces hacc

end

/-- the sample transaction, sent from the address `77..7` -/
def otherTx : Transaction := (sampleTx 2 1 10).setFrom (Bytes.fill 20 7)

/-- alone, and after another sender -/
theorem senders_independent_sample :
    let alone : List (Call ℚ) := [⟨.addTransaction (sampleTx 2 1 10), fun _ => 5⟩]
    let after : List (Call ℚ) :=
      [⟨.addTransaction otherTx, fun _ => 0⟩, ⟨.addTransaction (sampleTx 2 1 10), fun _ => 9⟩]
    (∀ k, pooledFrom (sampleTx 2 1 10).fromAddr
        (poolAfter hashSha256 MempoolConfig.default alone) k
      = pooledFrom (sampleTx 2 1 10).fromAddr
        (poolAfter hashSha256 MempoolConfig.default after) k) ∧
    (poolAfter hashSha256 MempoolConfig.default alone).accountNonces.lookup
        (sampleTx 2 1 10).fromAddr
      = (poolAfter hashSha256 MempoolConfig.default after).accountNonces.lookup
        (sampleTx 2 1 10).fromAddr := by
  refine senders_independent MempoolConfig.default (sampleTx 2 1 10).fromAddr _ _ ?_ ?_ ?_
  · exact ⟨⟨.inl rfl, fun _ _ => by decide +kernel⟩, trivial⟩
  · exact ⟨⟨.inl rfl, fun _ _ => by decide +kernel⟩, ⟨.inl rfl, fun _ _ => by decide +kernel⟩, trivial⟩
  · rfl

end Mempool
end ChainForge
