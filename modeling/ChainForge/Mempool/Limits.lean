import ChainForge.Mempool.Moves
import ChainForge.Mempool.Index

/-!
# The limits of the pool

`max_transactions` and `max_size_bytes` are checked by `add_transaction` only.  A replacement takes
one entry out before it puts one in, so the number of entries does not grow; but their sizes may.

* `getStats_totalSizeBytes`   the size that `is_pool_full` looks at is the sum over the entries;
* `count_limit`               **at most `max_transactions` entries** in every run with a fixed
                              configuration;
* `bytes_limit_iff`           **the bytes stay below `max_size_bytes` plus one transaction exactly
                              when no replacement of the run outgrows this** (`Call.outgrows`);
* `replacement_outgrows`      one that does.
-/

set_option linter.unusedSectionVars false

namespace ChainForge
namespace Mempool
open Machine

section
variable {F : Type} [LinearOrder F] [Double F]

namespace MempoolImpl
variable (s : MempoolImpl F)

def count : Nat := s.transactions.entries.length

/-- the sum of `Transaction::size` over the pooled entries -/
def bytes : Nat := UMap.total (fun e => e.transaction.size) s.transactions

theorem foldl_statsStep (l : List (Sigma fun _ : Hash => MempoolEntry F))
    (acc : MempoolStats F × UInt64) :
    (l.foldl (fun acc p => statsStep acc p.2.transaction) acc).1.totalSizeBytes
      = acc.1.totalSizeBytes + (l.map fun p => p.2.transaction.size).sum := by
  induction l generalizing acc with
  | nil => rfl
  | cons p l ih =>
    rw [List.foldl_cons, ih, List.map_cons, List.sum_cons, ← Nat.add_assoc]
    rfl

theorem getStats_totalSizeBytes (now : UInt64) : (s.getStats now).totalSizeBytes = s.bytes := by
  unfold getStats bytes UMap.total
  by_cases h : s.transactions.entries.isEmpty = true
  · have hnil : s.transactions.entries = [] := List.isEmpty_iff.mp h
    rw [hnil]
    rfl
  · dsimp only
    rw [if_neg h]
    exact (foldl_statsStep _ _).trans (Nat.zero_add _)

theorem isPoolFull_iff (now : UInt64) : s.isPoolFull now = false ↔
    s.count < s.config.maxTransactions.toNat ∧ s.bytes < s.config.maxSizeBytes.toNat := by
  unfold isPoolFull
  rw [getStats_totalSizeBytes, Bool.or_eq_false_iff, decide_eq_false_iff_not,
    decide_eq_false_iff_not]
  exact and_congr Nat.not_le Nat.not_le

theorem validateTransaction_size {tx : Transaction} (h : s.validateTransaction tx = true) :
    tx.size ≤ maxTransactionSize := by
  simp only [validateTransaction, Bool.and_eq_true] at h
  have hsize := h.2
  simp only [validateSize, Transaction.isTooLarge, Bool.not_eq_true', decide_eq_false_iff_not] at hsize
  omega

/-- what validation asks of a transaction whose sender has nothing pooled -/
theorem validateTransaction_of_first (tx : Transaction) (hvalid : tx.isValid = true)
    (hfee : s.validateFee tx = true) (hnonce : s.getAccountNonce tx.fromAddr = none)
    (hsize : tx.size ≤ maxTransactionSize) : s.validateTransaction tx = true := by
  have hn : s.validateNonce tx = true := by
    unfold validateNonce
    rw [hnonce]
  have hs : validateSize tx = true := by
    unfold validateSize Transaction.isTooLarge
    rw [decide_eq_false (Nat.not_lt.mpr hsize)]
    rfl
  unfold validateTransaction validateBasicProperties
  rw [hvalid, hfee, hn, hs]
  rfl
end MempoolImpl

/-- the call is a replacement that goes through, and the new transaction and the entries that stay
reach the limit of the bytes -/
def Call.outgrows (H : List UInt8 → Hash) (s : MempoolImpl F) (c : Call F) : Bool :=
  match c.replacement H s with
  | none => false
  | some (tx, oldHash, _) =>
    s.config.maxSizeBytes.toNat + maxTransactionSize ≤
      tx.size + UMap.total (fun e => e.transaction.size)
        ((s.transactions.erase oldHash).erase (tx.calculateHash H))

/-- the call is not `set_config` with another configuration -/
def Call.keepsConfig (config : MempoolConfig F) (c : Call F) : Prop :=
  match c.method with
  | .setConfig config' => config' = config
  | _ => True

/-! ## one call -/

section
variable {H : List UInt8 → Hash} {s : MempoolImpl F} {config : MempoolConfig F} {c : Call F}
  {m : UMap Hash (MempoolEntry F)}

theorem step_config (hs : s.config = config) (hc : c.keepsConfig config) :
    (step H s c).config = config := by
  have h := congrArg Prod.fst (step_settings H s c)
  refine h.trans ?_
  obtain ⟨m, clock⟩ := c
  cases m with
  | setConfig config' => exact hc
  | _ => exact hs

theorem Removals.config_eq {t : MempoolImpl F} (h : Removals s t) : t.config = s.config :=
  congrArg Prod.fst h.settings_eq

theorem PoolStep.count_le {n : Nat} (hm : PoolStep H s c m)
    (hmax : s.config.maxTransactions.toNat ≤ n) (h : s.count ≤ n) : m.entries.length ≤ n := by
  unfold MempoolImpl.count at h
  rw [← UMap.total_one] at h ⊢
  cases hm with
  | drops hsub _ _ => exact (UMap.total_le_of_sub _ hsub).trans h
  | @enters t now tx _ _ hr hfresh _ hroom =>
    have hlt := ((t.isPoolFull_iff now).mp hroom).1
    rw [hr.config_eq] at hlt
    rw [UMap.total_one, UMap.insert_fresh _ hfresh]
    exact Nat.le_trans hlt hmax
  | replaces tx oldHash old _ _ hold _ =>
    -- the old entry makes place for the new one
    have hsub := UMap.total_le_of_sub (fun _ : MempoolEntry F => 1) fun _ _ hk =>
      UMap.lookup_of_erase (m := s.transactions.erase oldHash) (k := tx.calculateHash H) hk
    have herase := UMap.total_erase (fun _ => 1) hold
    rw [UMap.total_insert]
    omega

/-- **One call on the bytes.** -/
theorem PoolStep.bytes_iff (hm : PoolStep H s c m)
    (h : s.bytes < s.config.maxSizeBytes.toNat + maxTransactionSize) :
    UMap.total (fun e => e.transaction.size) m < s.config.maxSizeBytes.toNat + maxTransactionSize ↔
      c.outgrows H s = false := by
  unfold Call.outgrows
  cases hm with
  | drops hsub _ hc =>
    rw [hc]
    exact ⟨fun _ => rfl, fun _ => (UMap.total_le_of_sub _ hsub).trans_lt h⟩
  | @enters t now tx _ hc hr hfresh hvalid hroom =>
    have hlt := ((t.isPoolFull_iff now).mp hroom).2
    have hsize : tx.size ≤ maxTransactionSize := s.validateTransaction_size hvalid
    have hsub := UMap.total_le_of_sub (fun e : MempoolEntry F => e.transaction.size) fun _ _ hk =>
      UMap.lookup_of_erase (m := t.transactions) (k := tx.calculateHash H) hk
    rw [hr.config_eq] at hlt
    unfold MempoolImpl.bytes at hlt
    rw [hc, UMap.total_insert]
    refine ⟨fun _ => rfl, fun _ => ?_⟩
    show tx.size + _ < _
    omega
  | replaces tx oldHash old _ hc _ _ =>
    rw [hc, UMap.total_insert]
    dsimp only
    rw [decide_eq_false_iff_not]
    exact Nat.not_le.symm

end

/-! ## runs -/

/-- **At most `max_transactions` entries are pooled**, in every run that keeps the configuration. -/
theorem count_limit (H : List UInt8 → Hash) (config : MempoolConfig F) (calls : List (Call F))
    (hkeep : ∀ c ∈ calls, c.keepsConfig config) :
    (poolAfter H config calls).transactions.entries.length ≤ config.maxTransactions.toNat := by
  have hstep : ∀ (s : MempoolImpl F) (c : Call F),
      s.config = config ∧ s.count ≤ s.config.maxTransactions.toNat → c.keepsConfig config →
        (step H s c).config = config ∧
          (step H s c).count ≤ (step H s c).config.maxTransactions.toNat := by
    rintro s c ⟨hs, hcount⟩ hc
    have hconfig : (step H s c).config = config := step_config hs hc
    refine ⟨hconfig, ?_⟩
    rw [hconfig, ← hs]
    exact (step_pool H s c).count_le (Nat.le_refl _) hcount
  obtain ⟨hconfig, hcount⟩ := run_inv_of _ hstep (s := MempoolImpl.start config) calls
    ⟨rfl, Nat.zero_le _⟩ (everyStep_of_forall (fun _ => hkeep) _)
  rw [hconfig] at hcount
  exact hcount

/-- **The bytes stay below `max_size_bytes` plus the size of one transaction exactly when no
replacement of the run outgrows this**, in every run that keeps the configuration. -/
theorem bytes_limit_iff (H : List UInt8 → Hash) (config : MempoolConfig F) (calls : List (Call F))
    (hkeep : ∀ c ∈ calls, c.keepsConfig config) :
    EveryState (step H) (fun s => s.bytes < config.maxSizeBytes.toNat + maxTransactionSize)
        (MempoolImpl.start config) calls ↔
      EveryStep (step H) (fun s c => c.outgrows H s = false) (MempoolImpl.start config) calls := by
  refine everyState_iff_of (fun s => s.config = config) (D := fun _ c => c.keepsConfig config)
    (fun s c hs hc => step_config hs hc) ?_ calls rfl ?_ (everyStep_of_forall (fun _ => hkeep) _)
  · intro s c hs _ h
    rw [← hs] at h ⊢
    exact (step_pool H s c).bytes_iff h
  · show 0 < config.maxSizeBytes.toNat + 128 * 1024
    omega

end

/-! ## a replacement that outgrows the limit -/

/-- the default configuration with room for one transaction without a payload, and a byte -/
def tightConfig : MempoolConfig ℚ := { MempoolConfig.default with maxSizeBytes := 97 }

/-- a transaction from the address `33..3` with the given payload -/
def heavyTx (payload : List UInt8) : Transaction :=
  { data := { fromAddr := Bytes.fill 20 3, toAddr := Bytes.fill 20 2,
              value := 1, gasLimit := 21000, gasPrice := 10, data := payload, nonce := 1 } }

/-- the first transaction is replaced by one with a payload of one byte -/
def outgrowingRun (payload : List UInt8) : List (Call ℚ) :=
  [⟨.addTransaction (sampleTx 2 1 10), fun _ => 0⟩, ⟨.addTransaction (heavyTx payload), fun _ => 0⟩,
   ⟨.replaceTransaction ((sampleTx 2 1 20).setData [0]), fun _ => 0⟩]

theorem outgrowingRun_keepsConfig (config : MempoolConfig ℚ) (payload : List UInt8) :
    ∀ c ∈ outgrowingRun payload, c.keepsConfig config := by
  intro c hc
  simp only [outgrowingRun, List.mem_cons, List.not_mem_nil, or_false] at hc
  rcases hc with rfl | rfl | rfl <;> trivial

theorem count_limit_sample :
    (poolAfter hashSha256 tightConfig (outgrowingRun [])).transactions.entries.length
      ≤ tightConfig.maxTransactions.toNat :=
  count_limit hashSha256 tightConfig (outgrowingRun [])
    (outgrowingRun_keepsConfig tightConfig [])

theorem bytes_limit_sample :
    EveryState (step hashSha256)
        (fun s => s.bytes < tightConfig.maxSizeBytes.toNat + maxTransactionSize)
        (MempoolImpl.start tightConfig) (outgrowingRun []) ↔
      EveryStep (step hashSha256) (fun s c => c.outgrows hashSha256 s = false)
        (MempoolImpl.start tightConfig) (outgrowingRun []) :=
  bytes_limit_iff hashSha256 tightConfig (outgrowingRun [])
    (outgrowingRun_keepsConfig tightConfig [])

section
variable {payload : List UInt8}

/-- the hashes of the two transactions -/
def firstKey : Hash := Transaction.shortKey (sampleTx 2 1 10).data
def heavyKey : Hash := Transaction.shortKey (heavyTx []).data

theorem heavyTx_hash (payload : List UInt8) : (heavyTx payload).calculateHash hashSha256 = heavyKey :=
  Transaction.Coherent.calculateHash_shortKey (.inl rfl)

/-- the pool after the first call of `outgrowingRun` -/
def firstPool : MempoolImpl ℚ :=
  (MempoolImpl.start tightConfig).accept hashSha256 (fun _ => 0) (sampleTx 2 1 10)

/-- and after the second -/
def secondPool (payload : List UInt8) : MempoolImpl ℚ :=
  firstPool.accept hashSha256 (fun _ => 0) (heavyTx payload)

theorem firstPool_eq : step hashSha256 (MempoolImpl.start tightConfig)
    ⟨.addTransaction (sampleTx 2 1 10), fun _ => 0⟩ = firstPool :=
  congrArg Prod.snd (addTransaction_accept hashSha256 _ (fun _ => 0) (sampleTx 2 1 10) rfl
    (by decide +kernel) (by decide +kernel))

theorem secondPool_eq (hp : payload.length = 130976) : step hashSha256 firstPool
    ⟨.addTransaction (heavyTx payload), fun _ => 0⟩ = secondPool payload := by
  have hroom : firstPool.isPoolFull 0 = false := by decide +kernel
  have hfresh : firstPool.transactions.lookup heavyKey = none :=
    Option.isNone_iff_eq_none.mp (by decide +kernel)
  have hnonce : firstPool.getAccountNonce (Bytes.fill 20 3) = none := by decide +kernel
  have hfee : firstPool.validateFee (heavyTx []) = true := by decide +kernel
  have hsize : 96 + payload.length ≤ 128 * 1024 := by omega
  have hvalid := firstPool.validateTransaction_of_first ((heavyTx payload).hashed hashSha256) rfl hfee
    hnonce hsize
  rw [← heavyTx_hash payload] at hfresh
  exact congrArg Prod.snd (addTransaction_accept hashSha256 firstPool (fun _ => 0) (heavyTx payload)
    hfresh hvalid hroom)

theorem secondPool_lookup (k : Hash) : (secondPool payload).transactions.lookup k
    = if k = heavyKey then some (MempoolImpl.newEntry ((heavyTx payload).hashed hashSha256)
        fun _ => 0) else firstPool.transactions.lookup k := by
  unfold secondPool
  rw [accept_transactions, UMap.lookup_insert, heavyTx_hash]

/-- the first sender has its first transaction pooled still -/
theorem secondPool_nonces : (secondPool payload).accountNonces.lookup (Bytes.fill 20 1)
    = firstPool.accountNonces.lookup (Bytes.fill 20 1) := by
  have hne : (Bytes.fill 20 1 : Address) ≠ (heavyTx payload).fromAddr := by
    show Bytes.fill 20 1 ≠ Bytes.fill 20 3
    decide
  unfold secondPool
  rw [accept_accountNonces, MempoolImpl.lookup_updateAccountNonce, if_neg hne]

theorem firstPool_entry : ∃ old, firstPool.transactions.lookup firstKey = some old ∧
    old.transaction = (sampleTx 2 1 10).hashed hashSha256 := by
  obtain ⟨old, hold⟩ : ∃ old, firstPool.transactions.lookup firstKey = some old :=
    Option.isSome_iff_exists.mp (by decide +kernel)
  have h : (firstPool.transactions.lookup firstKey).map (·.transaction)
      = some ((sampleTx 2 1 10).hashed hashSha256) := by decide +kernel
  rw [hold] at h
  exact ⟨old, hold, Option.some.inj h⟩

/-- without the first entry its sender has nothing pooled -/
theorem secondPool_valid (payload : List UInt8) {old : MempoolEntry ℚ}
    (htx : old.transaction = (sampleTx 2 1 10).hashed hashSha256) :
    ((secondPool payload).dropEntry firstKey old).validateTransaction
      (((sampleTx 2 1 20).setData [0]).hashed hashSha256) = true := by
  have hconfig : ((secondPool payload).dropEntry firstKey old).config = tightConfig :=
    MempoolImpl.dropEntry_config _ _ _
  have hnonce : ((secondPool payload).dropEntry firstKey old).getAccountNonce (Bytes.fill 20 1)
      = none := by
    show (((secondPool payload).removeAccountNonce old.transaction.fromAddr
      old.transaction.nonce).accountNonces.lookup (Bytes.fill 20 1)).bind _ = none
    rw [htx, MempoolImpl.lookup_removeAccountNonce, if_pos (by rfl)]
    show ((secondPool payload).accountNonces.lookup (Bytes.fill 20 1) |>.bind _).bind _ = none
    rw [secondPool_nonces]
    decide +kernel
  refine MempoolImpl.validateTransaction_of_first _ _ (by decide +kernel) ?_ hnonce
    (by decide +kernel)
  unfold MempoolImpl.validateFee
  rw [hconfig]
  decide +kernel

theorem secondPool_replacement (payload : List UInt8) (clock : Nat → UInt64) :
    ∃ old, Call.replacement hashSha256 (secondPool payload)
      ⟨.replaceTransaction ((sampleTx 2 1 20).setData [0]), clock⟩
      = some ((sampleTx 2 1 20).setData [0], firstKey, old) := by
  obtain ⟨old, hold, htx⟩ := firstPool_entry
  have hidx : (secondPool payload).indexed (Bytes.fill 20 1) 1 = some firstKey := by
    unfold MempoolImpl.indexed
    rw [secondPool_nonces]
    decide +kernel
  have hlookup : (secondPool payload).transactions.lookup firstKey = some old := by
    rw [secondPool_lookup, if_neg (by decide +kernel), hold]
  have hreplaced := (secondPool payload).replaced_of_lookup
    (((sampleTx 2 1 20).setData [0]).hashed hashSha256) hidx hlookup
    (by rw [htx]; decide +kernel)
  refine ⟨old, ?_⟩
  unfold Call.replacement
  dsimp only
  rw [MempoolImpl.replaces_of_valid _ _ _ hreplaced (secondPool_valid payload htx)]
  rfl

theorem secondPool_outgrows (hp : payload.length = 130976) (clock : Nat → UInt64) :
    Call.outgrows hashSha256 (secondPool payload)
      ⟨.replaceTransaction ((sampleTx 2 1 20).setData [0]), clock⟩ = true := by
  obtain ⟨old, hr⟩ := secondPool_replacement payload clock
  have hhash : ((sampleTx 2 1 20).setData [0]).calculateHash hashSha256 = firstKey := by
    decide +kernel
  -- the heavy entry stays
  have hheavy : (((secondPool payload).transactions.erase firstKey).erase firstKey).lookup heavyKey
      = some (MempoolImpl.newEntry ((heavyTx payload).hashed hashSha256) fun _ => 0) := by
    have hne : heavyKey ≠ firstKey := by decide +kernel
    rw [UMap.lookup_erase, if_neg hne, UMap.lookup_erase, if_neg hne, secondPool_lookup, if_pos rfl]
  have htotal := UMap.total_erase (fun e => e.transaction.size) hheavy
  have hsize : (MempoolImpl.newEntry (F := ℚ) ((heavyTx payload).hashed hashSha256)
      fun _ => 0).transaction.size = 96 + payload.length := rfl
  unfold Call.outgrows
  rw [hr]
  dsimp only
  rw [hhash, htotal, hsize, hp]
  rw [decide_eq_true_iff]
  show 97 + 128 * 1024 ≤ 97 + _
  omega

/-- **One byte too much**: the smallest transaction, a largest one, and a payload of one byte for the
first. -/
theorem replacement_outgrows :
    ¬ EveryState (step hashSha256)
      (fun s => s.bytes < tightConfig.maxSizeBytes.toNat + maxTransactionSize)
      (MempoolImpl.start tightConfig) (outgrowingRun (List.replicate 130976 0)) := by
  have hp : (List.replicate 130976 (0 : UInt8)).length = 130976 := List.length_replicate
  generalize List.replicate 130976 (0 : UInt8) = payload at hp ⊢
  intro h
  obtain ⟨_, _, h2, h3⟩ := h
  rw [firstPool_eq, secondPool_eq hp] at h2 h3
  have hfalse := ((step_pool hashSha256 (secondPool payload) _).bytes_iff h2).mp h3
  rw [secondPool_outgrows hp] at hfalse
  cases hfalse

end

end Mempool
end ChainForge
