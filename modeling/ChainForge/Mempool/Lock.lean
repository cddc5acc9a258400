import ChainForge.Lib.RwLock
import ChainForge.Mempool.Index

/-!
# The lock of the pool

The public methods of the pool with `mutex_`, as one thread executes them.  Methods that call other
public methods are written out call by call; a method that calls none of them is its own effect
under a guard (`atomically`).  `get_stats` and `remove_transaction` take the lock, and they are
also called by methods that hold it.

* `exec_ok`               an operation that does not reenter is the call without the lock;
* `exec_error`            the others request the lock that they hold;
* `lock_discipline_iff`   from every reachable state, a session of operations never requests the
                          lock while holding it exactly when none of them gets as far as a nested
                          call (`Request.reenters`);
* `first_addition_reenters`   a valid addition to the empty pool does.
-/

set_option linter.unusedSectionVars false

namespace ChainForge
namespace Mempool
open Machine RwLock

/-! ## the methods with the lock -/

namespace Locked

section
variable {F : Type} [LinearOrder F] [Double F]

/-- a guarded body that does not touch the lock -/
def atomically {α : Type} (m : Mode) (f : MempoolImpl F → α × MempoolImpl F) :
    LockM (MempoolImpl F) α :=
  guarded m do
    let s ← read
    write (f s).2
    return (f s).1

def getStats (now : UInt64) : LockM (MempoolImpl F) (MempoolStats F) :=
  atomically .shared fun s => (s.getStats now, s)

def isPoolFull (now : UInt64) : LockM (MempoolImpl F) Bool := do
  let s ← read
  if s.transactions.entries.length ≥ s.config.maxTransactions.toNat then return true
  else
    let stats ← getStats now
    return stats.totalSizeBytes ≥ s.config.maxSizeBytes.toNat

def removeTransaction (h : Hash) : LockM (MempoolImpl F) MempoolError :=
  guarded .exclusive do
    let s ← read
    match s.transactions.lookup h with
    | none => return .invalidTransaction
    | some e =>
      let s := (s.dropEntry h e).rebuildPriorityQueue
      write s
      if s.onTransactionRemoved then
        -- unlocked before the callback is called
        release
        write (s.notifyRemoved h)
      return .success

def removeAll : List Hash → LockM (MempoolImpl F) Unit
  | [] => return ()
  | h :: hashes => do
    let _ ← removeTransaction h
    removeAll hashes

def evictTransactionsByAge (now maxAge : UInt64) : LockM (MempoolImpl F) Unit := do
  let s ← read
  removeAll (s.expiredHashes now maxAge)

def evictTransactionsByFee (count : Nat) : LockM (MempoolImpl F) Unit := do
  let s ← read
  removeAll (s.selectTransactionsToEvict count)

def evictExpiredTransactions (now : UInt64) : LockM (MempoolImpl F) Unit :=
  guarded .exclusive (evictTransactionsByAge now 3600)

def evictLowFeeTransactions : LockM (MempoolImpl F) Unit :=
  guarded .exclusive do
    let s ← read
    if s.belowThreshold then return ()
    else evictTransactionsByFee s.evictionCount

/-- the capacity check of `add_transaction`: whether there is room -/
def checkCapacity (clock : Nat → UInt64) : LockM (MempoolImpl F) Bool := do
  let full ← isPoolFull (clock 2)
  if full then
    evictLowFeeTransactions
    let full ← isPoolFull (clock 3)
    return !full
  else return true

def addTransaction (H : List UInt8 → Hash) (clock : Nat → UInt64) (tx : Transaction) :
    LockM (MempoolImpl F) MempoolError :=
  guarded .exclusive do
    let s ← read
    let txHash := tx.calculateHash H
    if (s.transactions.lookup txHash).isSome then return .transactionExists
    else if !s.validateTransaction (tx.hashed H) then return .invalidTransaction
    else
      let room ← checkCapacity clock
      if !room then return .poolFull
      else
        let s ← read
        let s := s.enter txHash (MempoolImpl.newEntry (tx.hashed H) clock)
        write s
        if s.onTransactionAdded then
          release
          write (s.notifyAdded txHash)
        return .success

end

end Locked

/-! ## the public operations -/

section
variable {F : Type} [LinearOrder F] [Double F]

inductive Operation (F : Type) where
  | mutator (m : Mutator F)
  | getConfig
  | getTransaction (h : Hash)
  | hasTransaction (h : Hash)
  | getTopTransactions (count : Nat)
  | getTransactionsForBlock (maxCount : Nat) (maxGasLimit : UInt64)
  | getAllTransactionHashes
  | getStats
  | validateTransaction (tx : Transaction)
  | checkReplacementPolicy (oldTx newTx : Transaction)

structure Request (F : Type) where
  op : Operation F
  clock : Nat → UInt64

/-- the state after an operation, without the lock -/
def stepRequest (H : List UInt8 → Hash) (s : MempoolImpl F) (r : Request F) : MempoolImpl F :=
  match r.op with
  | .mutator m => step H s ⟨m, r.clock⟩
  | _ => s

/-- an operation with the lock, its result dropped -/
def exec (H : List UInt8 → Hash) (r : Request F) : LockM (MempoolImpl F) Unit :=
  match r.op with
  | .mutator (.addTransaction tx) => do let _ ← Locked.addTransaction H r.clock tx
  | .mutator (.removeTransaction h) => do let _ ← Locked.removeTransaction h
  | .mutator (.replaceTransaction tx) => do
    let _ ← Locked.atomically .exclusive (·.replaceTransaction H r.clock tx)
  | .mutator .evictExpiredTransactions => Locked.evictExpiredTransactions (r.clock 0)
  | .mutator .evictLowFeeTransactions => Locked.evictLowFeeTransactions
  | .mutator .clear => Locked.atomically .exclusive fun s => ((), s.clear)
  | .mutator (.setConfig config) => Locked.atomically .exclusive fun s => ((), { s with config })
  | .mutator (.setTransactionAddedCallback set) =>
    Locked.atomically .exclusive fun s => ((), { s with onTransactionAdded := set })
  | .mutator (.setTransactionRemovedCallback set) =>
    Locked.atomically .exclusive fun s => ((), { s with onTransactionRemoved := set })
  | .getConfig => do let _ ← Locked.atomically .shared fun s => (s.config, s)
  | .getTransaction h => do
    let _ ← Locked.atomically .shared fun s => ((s.transactions.lookup h).map (·.transaction), s)
  | .hasTransaction h => do
    let _ ← Locked.atomically .shared fun s => ((s.transactions.lookup h).isSome, s)
  | .getTopTransactions count => do
    let _ ← Locked.atomically .shared fun s => (s.getTopTransactions count, s)
  | .getTransactionsForBlock maxCount maxGasLimit => do
    let _ ← Locked.atomically .shared fun s => (s.getTransactionsForBlock maxCount maxGasLimit, s)
  | .getAllTransactionHashes => do
    let _ ← Locked.atomically .shared fun s => (s.getAllTransactionHashes, s)
  | .getStats => do let _ ← Locked.getStats (r.clock 0)
  -- the two checks do not take the lock
  | .validateTransaction tx => do let _ := (← read).validateTransaction tx
  | .checkReplacementPolicy oldTx newTx =>
    let _ := MempoolImpl.checkReplacementPolicy F oldTx newTx
    return ()

/-- the operation gets as far as a call that takes the lock again: an addition as far as the
capacity check, an eviction as far as a removal -/
def Request.reenters (H : List UInt8 → Hash) (s : MempoolImpl F) (r : Request F) : Bool :=
  match r.op with
  | .mutator (.addTransaction tx) => s.admissible H tx
  | .mutator .evictExpiredTransactions => !(s.expiredHashes (r.clock 0) 3600).isEmpty
  | .mutator .evictLowFeeTransactions => s.evicts
  | _ => false

/-! ## without the lock -/

namespace Locked
variable {s : MempoolImpl F} {m : Mode}

theorem run_removeTransaction (h : Hash) :
    (removeTransaction h).run ⟨none, s⟩
      = .ok ((s.removeTransaction h).1, ⟨none, (s.removeTransaction h).2⟩) := by
  unfold MempoolImpl.removeTransaction
  cases hl : s.transactions.lookup h with
  | none =>
    refine run_guarded_ok (u := ⟨some .exclusive, s⟩) ?_
    rw [run_read_bind]
    dsimp only
    rw [hl]
    rfl
  | some e =>
    -- the guard gives the lock back, unless the callback has been called
    by_cases hcb : (s.dropEntry h e).rebuildPriorityQueue.onTransactionRemoved = true
    · refine run_guarded_ok
        (u := ⟨none, (s.dropEntry h e).rebuildPriorityQueue.notifyRemoved h⟩) ?_
      rw [run_read_bind]
      dsimp only
      rw [hl]
      dsimp only
      rw [run_write_bind, if_pos hcb]
      rfl
    · have hn : (s.dropEntry h e).rebuildPriorityQueue.notifyRemoved h
          = (s.dropEntry h e).rebuildPriorityQueue := if_neg hcb
      dsimp only
      rw [hn]
      refine run_guarded_ok (u := ⟨some .exclusive, (s.dropEntry h e).rebuildPriorityQueue⟩) ?_
      rw [run_read_bind]
      dsimp only
      rw [hl]
      dsimp only
      rw [run_write_bind, if_neg hcb]
      rfl

/-! ## with the lock -/

/-- a removal of hashes under the lock reenters as soon as there is one -/
theorem removeAll_held_error {hashes : List Hash} (h : hashes.isEmpty = false) :
    (removeAll hashes).run ⟨some m, s⟩ = .error ⟨.exclusive, m⟩ := by
  cases hashes with
  | nil => cases h
  | cons _ _ => exact run_bind_error run_guarded_held

theorem run_removeAll_empty {hashes : List Hash} (h : hashes.isEmpty = true) {t} :
    (removeAll (F := F) hashes).run t = .ok ((), t) := by
  rw [List.isEmpty_iff.mp h]
  rfl

/-- the capacity check never passes under the lock: a pool that is not full by count is asked for
its statistics, the others are trimmed -/
theorem checkCapacity_held_error (clock : Nat → UInt64) :
    ∃ e, (checkCapacity clock).run ⟨some m, s⟩ = .error e := by
  by_cases hc : s.transactions.entries.length ≥ s.config.maxTransactions.toNat
  · refine ⟨⟨.exclusive, m⟩, ?_⟩
    have hfull : (isPoolFull (clock 2)).run ⟨some m, s⟩ = .ok (true, ⟨some m, s⟩) := by
      unfold isPoolFull
      rw [run_read_bind, if_pos hc]
      rfl
    unfold checkCapacity
    rw [run_bind_ok hfull, if_pos rfl]
    exact run_bind_error run_guarded_held
  · refine ⟨⟨.shared, m⟩, run_bind_error ?_⟩
    unfold isPoolFull
    rw [run_read_bind, if_neg hc]
    exact run_bind_error run_guarded_held

end Locked

/-! ## one operation -/

variable (H : List UInt8 → Hash) (s : MempoolImpl F)

theorem addTransaction_refused (clock : Nat → UInt64) (tx : Transaction)
    (h : s.admissible H tx = false) :
    (Locked.addTransaction H clock tx).run ⟨none, s⟩ = .ok ((s.addTransaction H clock tx).1, ⟨none, s⟩)
      ∧ (s.addTransaction H clock tx).2 = s := by
  unfold MempoolImpl.addTransaction MempoolImpl.makeRoom
  by_cases h1 : (s.transactions.lookup (tx.calculateHash H)).isSome = true
  · rw [if_pos h1]
    refine ⟨run_guarded_ok (u := ⟨some .exclusive, s⟩) ?_, rfl⟩
    rw [run_read_bind, if_pos h1]
    rfl
  have h2 : (!s.validateTransaction (tx.hashed H)) = true := by
    have hnone : (s.transactions.lookup (tx.calculateHash H)).isNone = true := by simpa using h1
    rw [MempoolImpl.admissible, hnone, Bool.true_and] at h
    rw [h]
    rfl
  rw [if_neg h1, if_pos h2]
  refine ⟨run_guarded_ok (u := ⟨some .exclusive, s⟩) ?_, rfl⟩
  rw [run_read_bind, if_neg h1, if_pos h2]
  rfl

theorem addTransaction_reenters (clock : Nat → UInt64) (tx : Transaction)
    (h : s.admissible H tx = true) :
    ∃ e, (Locked.addTransaction H clock tx).run ⟨none, s⟩ = .error e := by
  obtain ⟨h1, h2⟩ := (s.admissible_iff H tx).mp h
  obtain ⟨e, he⟩ := Locked.checkCapacity_held_error (s := s) (m := .exclusive) clock
  refine ⟨e, run_guarded_error ?_⟩
  rw [run_read_bind, if_neg (by rw [h1]; exact Bool.false_ne_true),
    if_neg (by rw [h2]; exact Bool.false_ne_true)]
  exact run_bind_error he

theorem evictExpired_ok (now : UInt64) (h : (s.expiredHashes now 3600).isEmpty = true) :
    (Locked.evictExpiredTransactions now).run ⟨none, s⟩ = .ok ((), ⟨none, s⟩) ∧
      s.evictExpiredTransactions now = s := by
  constructor
  · refine run_guarded_ok (u := ⟨some .exclusive, s⟩) ?_
    unfold Locked.evictTransactionsByAge
    rw [run_read_bind]
    exact Locked.run_removeAll_empty h
  · unfold MempoolImpl.evictExpiredTransactions MempoolImpl.evictTransactionsByAge
    rw [List.isEmpty_iff.mp h]
    rfl

theorem evictLowFee_ok (h : s.evicts = false) :
    Locked.evictLowFeeTransactions.run ⟨none, s⟩ = .ok ((), ⟨none, s⟩) ∧
      s.evictLowFeeTransactions = s := by
  refine ⟨run_guarded_ok (u := ⟨some .exclusive, s⟩) ?_, s.evictLowFeeTransactions_of_not_evicts h⟩
  by_cases hb : s.belowThreshold = true
  · rw [run_read_bind, if_pos hb]
    rfl
  · have he : (s.selectTransactionsToEvict s.evictionCount).isEmpty = true := by
      rw [MempoolImpl.evicts, Bool.eq_false_of_not_eq_true hb, Bool.not_false, Bool.true_and,
        Bool.not_eq_false'] at h
      exact h
    rw [run_read_bind, if_neg hb]
    unfold Locked.evictTransactionsByFee
    rw [run_read_bind]
    exact Locked.run_removeAll_empty he

/-- **An operation that does not reenter is the call without the lock.** -/
theorem exec_ok (r : Request F) (h : r.reenters H s = false) :
    (exec H r).run ⟨none, s⟩ = .ok ((), ⟨none, stepRequest H s r⟩) := by
  obtain ⟨op, clock⟩ := r
  cases op with
  | mutator m =>
    cases m with
    | addTransaction tx =>
      obtain ⟨hrun, hstate⟩ := addTransaction_refused H s clock tx h
      show (Locked.addTransaction H clock tx >>= fun _ => pure ()).run ⟨none, s⟩
        = .ok ((), ⟨none, (s.addTransaction H clock tx).2⟩)
      rw [run_bind_ok hrun, hstate]
      rfl
    | removeTransaction k =>
      show (Locked.removeTransaction k >>= fun _ => pure ()).run ⟨none, s⟩ = _
      rw [run_bind_ok (Locked.run_removeTransaction k)]
      rfl
    | evictExpiredTransactions =>
      obtain ⟨hrun, hstate⟩ := evictExpired_ok s (clock 0) (by simpa [Request.reenters] using h)
      show (Locked.evictExpiredTransactions (clock 0)).run ⟨none, s⟩
        = .ok ((), ⟨none, s.evictExpiredTransactions (clock 0)⟩)
      rw [hrun, hstate]
    | evictLowFeeTransactions =>
      obtain ⟨hrun, hstate⟩ := evictLowFee_ok s h
      show Locked.evictLowFeeTransactions.run ⟨none, s⟩
        = .ok ((), ⟨none, s.evictLowFeeTransactions⟩)
      rw [hrun, hstate]
    | replaceTransaction _ => rfl
    | clear => rfl
    | setConfig _ => rfl
    | setTransactionAddedCallback _ => rfl
    | setTransactionRemovedCallback _ => rfl
  | getConfig => rfl
  | getTransaction _ => rfl
  | hasTransaction _ => rfl
  | getTopTransactions _ => rfl
  | getTransactionsForBlock _ _ => rfl
  | getAllTransactionHashes => rfl
  | getStats => rfl
  | validateTransaction _ => rfl
  | checkReplacementPolicy _ _ => rfl

theorem exec_error (r : Request F) (h : r.reenters H s = true) :
    ∃ e, (exec H r).run ⟨none, s⟩ = .error e := by
  obtain ⟨op, clock⟩ := r
  cases op with
  | mutator m =>
    cases m with
    | addTransaction tx =>
      obtain ⟨e, he⟩ := addTransaction_reenters H s clock tx h
      exact ⟨e, run_bind_error he⟩
    | evictExpiredTransactions =>
      have hne : (s.expiredHashes (clock 0) 3600).isEmpty = false := by
        simpa [Request.reenters] using h
      refine ⟨⟨.exclusive, .exclusive⟩, run_guarded_error ?_⟩
      unfold Locked.evictTransactionsByAge
      rw [run_read_bind]
      exact Locked.removeAll_held_error hne
    | evictLowFeeTransactions =>
      have hevicts : s.evicts = true := h
      rw [MempoolImpl.evicts, Bool.and_eq_true, Bool.not_eq_true', Bool.not_eq_true'] at hevicts
      obtain ⟨hb, hne⟩ := hevicts
      refine ⟨⟨.exclusive, .exclusive⟩, run_guarded_error ?_⟩
      rw [run_read_bind, if_neg (by rw [hb]; exact Bool.false_ne_true)]
      unfold Locked.evictTransactionsByFee
      rw [run_read_bind]
      exact Locked.removeAll_held_error hne
    | _ => cases h
  | _ => cases h

/-- **The lock discipline**: from every reachable state, a session of public operations by one
thread never requests the lock while holding it exactly when none of its operations gets as far as
a nested call. -/
theorem lock_discipline_iff (config : MempoolConfig F) (calls : List (Call F))
    (requests : List (Request F)) :
    NoReentry (session (exec H) requests) ⟨none, poolAfter H config calls⟩ ↔
      EveryStep (stepRequest H) (fun s r => r.reenters H s = false)
        (poolAfter H config calls) requests :=
  session_iff (exec_ok H) (fun s r h => exec_error H s r (by simpa using h)) _ _

end

/-- one valid addition to an empty pool: the capacity check asks for the statistics -/
theorem first_addition_reenters :
    ¬ NoReentry (session (exec hashSha256) [⟨.mutator (.addTransaction (sampleTx 2 1 10)), fun _ => 0⟩])
      ⟨none, poolAfter hashSha256 (MempoolConfig.default : MempoolConfig ℚ) []⟩ := by
  rintro ⟨r, hr⟩
  have hrun : ((session (exec hashSha256)
      [⟨.mutator (.addTransaction (sampleTx 2 1 10)), fun _ => 0⟩]).run
      ⟨none, poolAfter hashSha256 (MempoolConfig.default : MempoolConfig ℚ) []⟩).isOk = false := by
    decide +kernel
  rw [hr] at hrun
  cases hrun

end Mempool
end ChainForge
