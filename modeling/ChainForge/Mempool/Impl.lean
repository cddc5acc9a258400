import ChainForge.Core.Block
import ChainForge.Lib.Double
import ChainForge.Lib.Machine
import ChainForge.Lib.Queue
import ChainForge.Lib.Store

/-!
# The transaction pool

`modules/mempool`: `mempool.hpp`, `mempool_impl.cpp`, with the mutex left out (the locks are put
back in `ChainForge.Mempool.Lock`).  `MempoolImpl F` is the state of the class, over a type `F` of
doubles; `H` is the function used in the place of `hash_sha256`.

A method that changes the pool takes the state and returns its result with the new state.  The
wall clock is an argument: `clock` holds the readings of a call, one index for each place that asks
for the time, and nothing is assumed about them.

* `Mutator`, `Call`    the methods that change the pool, and a call of one with its clock;
* `step H`             what a call does to the state;
* `start config`       the state of a new pool.

A callback is noted by the hash it is given (`notified`), if one is set.
-/

set_option linter.unusedSectionVars false

namespace ChainForge
namespace Mempool
open Machine

inductive MempoolError where
  | success
  | transactionExists
  | invalidTransaction
  | insufficientFee
  | poolFull
  | nonceTooLow
  | nonceTooHigh
  | replaceUnderpriced
  | dependencyMissing
  deriving DecidableEq, Repr

section Priority
variable {F : Type} [Double F]

structure TransactionPriority (F : Type) where
  feePerGas : F
  ageSeconds : UInt64
  sizeBytes : Nat

/-- score = (fee per gas * age bonus) / size penalty -/
def TransactionPriority.calculateScore (p : TransactionPriority F) : F :=
  let ageBonus := Double.add (Double.lit 1) (Double.div (Double.ofNat p.ageSeconds.toNat)
    (Double.lit 3600))
  let sizePenalty := Double.div (Double.ofNat p.sizeBytes) (Double.lit 1000)
  Double.div (Double.mul p.feePerGas ageBonus) (Double.max sizePenalty (Double.lit 1))

structure MempoolConfig (F : Type) where
  maxSizeBytes : UInt64
  maxTransactions : UInt64
  minFeePerGas : UInt64
  maxFeePerGas : UInt64
  evictionThresholdRatio : F

/-- the defaults of `MempoolConfig` -/
def MempoolConfig.default : MempoolConfig F where
  maxSizeBytes := 100 * 1024 * 1024
  maxTransactions := 10000
  minFeePerGas := 1
  maxFeePerGas := 1000000
  evictionThresholdRatio := Double.lit (9/10)

structure MempoolEntry (F : Type) where
  transaction : Transaction
  priority : TransactionPriority F
  addedTimestamp : UInt64
  lastSeenTimestamp : UInt64
  dependencies : List Hash

def MempoolEntry.isExpired (e : MempoolEntry F) (now maxAge : UInt64) : Bool :=
  now - e.addedTimestamp > maxAge

/-- the score under which an entry is queued -/
def MempoolEntry.score (e : MempoolEntry F) : F := e.priority.calculateScore

structure MempoolStats (F : Type) where
  transactionCount : Nat
  totalSizeBytes : Nat
  minFeePerGas : UInt64
  maxFeePerGas : UInt64
  avgFeePerGas : F
  oldestTransactionAge : UInt64

end Priority

/-- a callback and the hash it is called with -/
inductive Notification where
  | added (h : Hash)
  | removed (h : Hash)
  deriving DecidableEq, Repr

structure MempoolImpl (F : Type) [LinearOrder F] where
  config : MempoolConfig F
  transactions : UMap Hash (MempoolEntry F)
  accountNonces : UMap Address (UMap UInt64 Hash)
  /-- (score, hash) pairs, in lexicographic order -/
  priorityQueue : PriorityQueue (F ×ₗ Hash)
  /-- whether `on_transaction_added_` is set -/
  onTransactionAdded : Bool
  /-- whether `on_transaction_removed_` is set -/
  onTransactionRemoved : Bool
  notified : List Notification

/-- `std::max_element` of the keys of a map -/
def maxElement : List UInt64 → Option UInt64
  | [] => none
  | n :: l => some (l.foldl (fun a b => if a < b then b else a) n)

namespace MempoolImpl

section
variable {F : Type} [LinearOrder F] [Double F]

def start (config : MempoolConfig F) : MempoolImpl F where
  config
  transactions := ∅
  accountNonces := ∅
  priorityQueue := .empty
  onTransactionAdded := false
  onTransactionRemoved := false
  notified := []

/-! ## helper methods -/

/-- `account_nonces_[address][nonce]` -/
def indexed (s : MempoolImpl F) (a : Address) (n : UInt64) : Option Hash :=
  (s.accountNonces.lookup a).bind (·.lookup n)

def calculatePriority (tx : Transaction) (addedTime now : UInt64) : TransactionPriority F where
  feePerGas := Double.ofNat tx.gasPrice.toNat
  ageSeconds := now - addedTime
  sizeBytes := tx.size

def updateAccountNonce (s : MempoolImpl F) (a : Address) (n : UInt64) (h : Hash) :
    MempoolImpl F :=
  { s with accountNonces :=
      s.accountNonces.insert a (((s.accountNonces.lookup a).getD ∅).insert n h) }

def removeAccountNonce (s : MempoolImpl F) (a : Address) (n : UInt64) : MempoolImpl F :=
  match s.accountNonces.lookup a with
  | none => s
  | some m =>
    let m := m.erase n
    if m.entries.isEmpty then { s with accountNonces := s.accountNonces.erase a }
    else { s with accountNonces := s.accountNonces.insert a m }

def getAccountNonce (s : MempoolImpl F) (a : Address) : Option UInt64 :=
  (s.accountNonces.lookup a).bind fun m => maxElement m.keys

/-- the (score, hash) pairs of the pooled entries -/
def scoredHashes (s : MempoolImpl F) : List (F ×ₗ Hash) :=
  s.transactions.entries.map fun p => toLex (p.2.score, p.1)

def rebuildPriorityQueue (s : MempoolImpl F) : MempoolImpl F :=
  { s with priorityQueue := .ofList s.scoredHashes }

/-! ## statistics -/

/-- the body of the loop of `get_stats`; the average and the age are set after the loop -/
def statsStep (acc : MempoolStats F × UInt64) (tx : Transaction) : MempoolStats F × UInt64 :=
  let st := acc.1
  ({ st with
     totalSizeBytes := st.totalSizeBytes + tx.size
     minFeePerGas :=
       if st.minFeePerGas == 0 || tx.gasPrice < st.minFeePerGas then tx.gasPrice
       else st.minFeePerGas
     maxFeePerGas := if tx.gasPrice > st.maxFeePerGas then tx.gasPrice else st.maxFeePerGas },
   acc.2 + tx.gasPrice)

/-- `get_stats` at the time `now` -/
def getStats (s : MempoolImpl F) (now : UInt64) : MempoolStats F :=
  let st : MempoolStats F :=
    { transactionCount := s.transactions.entries.length, totalSizeBytes := 0, minFeePerGas := 0,
      maxFeePerGas := 0, avgFeePerGas := Double.lit 0, oldestTransactionAge := 0 }
  if s.transactions.entries.isEmpty then st
  else
    let r := s.transactions.entries.foldl (fun acc p => statsStep acc p.2.transaction) (st, 0)
    -- the source takes the minimum of the ages, under the name of the oldest
    let minAge := s.transactions.entries.foldl
      (fun a p => min a (now - p.2.addedTimestamp).toNat) (2^64 - 1)
    { r.1 with
      avgFeePerGas := Double.div (Double.ofNat r.2.toNat)
        (Double.ofNat s.transactions.entries.length)
      oldestTransactionAge := UInt64.ofNat minAge }

def isPoolFull (s : MempoolImpl F) (now : UInt64) : Bool :=
  s.transactions.entries.length ≥ s.config.maxTransactions.toNat ||
    (s.getStats now).totalSizeBytes ≥ s.config.maxSizeBytes.toNat

/-! ## validation -/

def validateBasicProperties (tx : Transaction) : Bool := tx.isValid

def validateFee (s : MempoolImpl F) (tx : Transaction) : Bool :=
  tx.gasPrice ≥ s.config.minFeePerGas && tx.gasPrice ≤ s.config.maxFeePerGas

/-- the nonce must be above all nonces of the sender in the pool -/
def validateNonce (s : MempoolImpl F) (tx : Transaction) : Bool :=
  match s.getAccountNonce tx.fromAddr with
  | some n => !(n ≥ tx.nonce)
  | none => true

/-- for now, no dependency validation -/
def validateDependencies (_ : Transaction) : Bool := true

def validateSize (tx : Transaction) : Bool := !tx.isTooLarge

def validateTransaction (s : MempoolImpl F) (tx : Transaction) : Bool :=
  validateBasicProperties tx && s.validateFee tx && s.validateNonce tx &&
    validateDependencies tx && validateSize tx

/-- the new fee must be at least 10% higher -/
def checkReplacementPolicy (F : Type) [Double F] (oldTx newTx : Transaction) : MempoolError :=
  if Double.lt (F := F) (Double.ofNat newTx.gasPrice.toNat)
      (Double.mul (Double.ofNat oldTx.gasPrice.toNat) (Double.lit (11/10))) then
    .replaceUnderpriced
  else .success

/-! ## removal and eviction -/

def notifyAdded (s : MempoolImpl F) (h : Hash) : MempoolImpl F :=
  if s.onTransactionAdded then { s with notified := s.notified ++ [.added h] } else s

def notifyRemoved (s : MempoolImpl F) (h : Hash) : MempoolImpl F :=
  if s.onTransactionRemoved then { s with notified := s.notified ++ [.removed h] } else s

/-- the index entry of `e` and the pooled entry `h` go; the queue is left as it is -/
def dropEntry (s : MempoolImpl F) (h : Hash) (e : MempoolEntry F) : MempoolImpl F :=
  let s := s.removeAccountNonce e.transaction.fromAddr e.transaction.nonce
  { s with transactions := s.transactions.erase h }

def removeTransaction (s : MempoolImpl F) (h : Hash) : MempoolError × MempoolImpl F :=
  match s.transactions.lookup h with
  | none => (.invalidTransaction, s)
  | some e => (.success, (s.dropEntry h e).rebuildPriorityQueue.notifyRemoved h)

/-- the loop `for (hash : hashes) remove_transaction(hash)` -/
def removeAll (s : MempoolImpl F) (hashes : List Hash) : MempoolImpl F :=
  hashes.foldl (fun s h => (s.removeTransaction h).2) s

/-- the hashes of the entries that are too old -/
def expiredHashes (s : MempoolImpl F) (now maxAge : UInt64) : List Hash :=
  (s.transactions.entries.filter fun p => p.2.isExpired now maxAge).map (·.1)

def evictTransactionsByAge (s : MempoolImpl F) (now maxAge : UInt64) : MempoolImpl F :=
  s.removeAll (s.expiredHashes now maxAge)

/-- the `count` lowest (score, hash) pairs, sorted -/
def selectTransactionsToEvict (s : MempoolImpl F) (count : Nat) : List Hash :=
  ((s.scoredHashes.insertionSort (· ≤ ·)).take (min count s.scoredHashes.length)).map
    fun p => (ofLex p).2

def evictTransactionsByFee (s : MempoolImpl F) (count : Nat) : MempoolImpl F :=
  s.removeAll (s.selectTransactionsToEvict count)

def evictExpiredTransactions (s : MempoolImpl F) (now : UInt64) : MempoolImpl F :=
  s.evictTransactionsByAge now 3600

/-- `transactions_.size() < max_transactions * eviction_threshold_ratio` -/
def belowThreshold (s : MempoolImpl F) : Bool :=
  Double.lt (Double.ofNat s.transactions.entries.length)
    (Double.mul (Double.ofNat s.config.maxTransactions.toNat) s.config.evictionThresholdRatio)

/-- `transactions_.size() - target_count`, modulo `2^64` -/
def evictionCount (s : MempoolImpl F) : Nat :=
  let targetCount : UInt64 := Double.toSize (F := F)
    (Double.mul (Double.ofNat s.config.maxTransactions.toNat) (Double.lit (8/10)))
  (UInt64.ofNat s.transactions.entries.length - targetCount).toNat

def evictLowFeeTransactions (s : MempoolImpl F) : MempoolImpl F :=
  if s.belowThreshold then s else s.evictTransactionsByFee s.evictionCount

/-- the callbacks are not told -/
def clear (s : MempoolImpl F) : MempoolImpl F :=
  { s with transactions := ∅, accountNonces := ∅, priorityQueue := .empty }

/-! ## adding and replacing -/

/-- the entry made for a transaction: `clock 0` is its time, `clock 1` the time at which its
priority is computed -/
def newEntry (tx : Transaction) (clock : Nat → UInt64) : MempoolEntry F where
  transaction := tx
  priority := calculatePriority tx (clock 0) (clock 1)
  addedTimestamp := clock 0
  lastSeenTimestamp := clock 0
  dependencies := []

/-- index and storage of a new entry; the queue is left as it is -/
def putEntry (s : MempoolImpl F) (h : Hash) (e : MempoolEntry F) : MempoolImpl F :=
  let s := s.updateAccountNonce e.transaction.fromAddr e.transaction.nonce h
  { s with transactions := s.transactions.insert h e }

section
variable (H : List UInt8 → Hash)

/-- the pool in which `add_transaction` finds room for the new entry, or the refusal.  A full pool
is trimmed first, and stays trimmed also when it is still full afterwards. -/
def makeRoom (s : MempoolImpl F) (clock : Nat → UInt64) (tx : Transaction) :
    Except (MempoolError × MempoolImpl F) (MempoolImpl F) :=
  if (s.transactions.lookup (tx.calculateHash H)).isSome then .error (.transactionExists, s)
  else if !s.validateTransaction (tx.hashed H) then .error (.invalidTransaction, s)
  else if s.isPoolFull (clock 2) then
    let s := s.evictLowFeeTransactions
    if s.isPoolFull (clock 3) then .error (.poolFull, s) else .ok s
  else .ok s

def addTransaction (s : MempoolImpl F) (clock : Nat → UInt64) (tx : Transaction) :
    MempoolError × MempoolImpl F :=
  match s.makeRoom H clock tx with
  | .error r => r
  | .ok s =>
    let txHash := tx.calculateHash H
    let entry : MempoolEntry F := newEntry (tx.hashed H) clock
    let s := s.putEntry txHash entry
    let s := { s with priorityQueue := s.priorityQueue.emplace (toLex (entry.score, txHash)) }
    (.success, s.notifyAdded txHash)

def replaceTransaction (s : MempoolImpl F) (clock : Nat → UInt64) (newTx : Transaction) :
    MempoolError × MempoolImpl F :=
  let newHash := newTx.calculateHash H
  let newTx := newTx.hashed H
  -- find the existing transaction by sender and nonce
  match s.indexed newTx.fromAddr newTx.nonce with
  | none => (.invalidTransaction, s)
  | some oldHash =>
    match s.transactions.lookup oldHash with
    | none => (.invalidTransaction, s)
    | some old =>
      if checkReplacementPolicy F old.transaction newTx != .success then
        (checkReplacementPolicy F old.transaction newTx, s)
      else
        let s := s.dropEntry oldHash old
        -- the old entry is gone for good, and the queue still holds it
        if !s.validateTransaction newTx then (.invalidTransaction, s)
        else
          (.success, (s.putEntry newHash (newEntry newTx clock)).rebuildPriorityQueue)

end

/-! ## selection -/

/-- the loop of `get_top_transactions` over what is left of the copied queue -/
def topLoop (s : MempoolImpl F) (count : Nat) :
    List (F ×ₗ Hash) → List Transaction → List Transaction
  | [], result => result
  | p :: queue, result =>
    if result.length < count then
      match s.transactions.lookup (ofLex p).2 with
      | some e => topLoop s count queue (result ++ [e.transaction])
      | none => topLoop s count queue result
    else result

def getTopTransactions (s : MempoolImpl F) (count : Nat) : List Transaction :=
  s.topLoop count s.priorityQueue.elems []

/-- the loop of `get_transactions_for_block`; the gas is summed modulo `2^64` -/
def blockLoop (s : MempoolImpl F) (maxCount : Nat) (maxGasLimit : UInt64) :
    List (F ×ₗ Hash) → UInt64 → List Transaction → List Transaction
  | [], _, result => result
  | p :: queue, totalGas, result =>
    if result.length < maxCount then
      match s.transactions.lookup (ofLex p).2 with
      | some e =>
        if totalGas + e.transaction.gasLimit ≤ maxGasLimit then
          blockLoop s maxCount maxGasLimit queue (totalGas + e.transaction.gasLimit)
            (result ++ [e.transaction])
        else blockLoop s maxCount maxGasLimit queue totalGas result
      | none => blockLoop s maxCount maxGasLimit queue totalGas result
    else result

def getTransactionsForBlock (s : MempoolImpl F) (maxCount : Nat) (maxGasLimit : UInt64) :
    List Transaction :=
  s.blockLoop maxCount maxGasLimit s.priorityQueue.elems 0 []

def getAllTransactionHashes (s : MempoolImpl F) : List Hash := s.transactions.keys

end

end MempoolImpl

/-! ## runs -/

section
variable {F : Type} [LinearOrder F] [Double F]

inductive Mutator (F : Type) where
  | addTransaction (tx : Transaction)
  | removeTransaction (h : Hash)
  | replaceTransaction (tx : Transaction)
  | evictExpiredTransactions
  | evictLowFeeTransactions
  | clear
  | setConfig (config : MempoolConfig F)
  | setTransactionAddedCallback (set : Bool)
  | setTransactionRemovedCallback (set : Bool)

structure Call (F : Type) where
  method : Mutator F
  clock : Nat → UInt64

def step (H : List UInt8 → Hash) (s : MempoolImpl F) (c : Call F) : MempoolImpl F :=
  match c.method with
  | .addTransaction tx => (s.addTransaction H c.clock tx).2
  | .removeTransaction h => (s.removeTransaction h).2
  | .replaceTransaction tx => (s.replaceTransaction H c.clock tx).2
  | .evictExpiredTransactions => s.evictExpiredTransactions (c.clock 0)
  | .evictLowFeeTransactions => s.evictLowFeeTransactions
  | .clear => s.clear
  | .setConfig config => { s with config }
  | .setTransactionAddedCallback set => { s with onTransactionAdded := set }
  | .setTransactionRemovedCallback set => { s with onTransactionRemoved := set }

/-- the pool after a run from an empty pool -/
def poolAfter (H : List UInt8 → Hash) (config : MempoolConfig F) (calls : List (Call F)) :
    MempoolImpl F :=
  run (step H) (MempoolImpl.start config) calls

end

end Mempool
end ChainForge
