import ChainForge.Mempool.Limits
import ChainForge.Mempool.Refusals
import ChainForge.Mempool.Top
import Mathlib.Algebra.Order.Floor.Ring

/-!
# Eviction

Both evictions collect hashes first and call `remove_transaction` for each of them.

* `removeAll_count`       every hash of a pooled entry takes one entry out;
* `trimmed_of_lt`         below the target the number of entries to evict wraps around;
* `low_fee_eviction_iff`  **trimming goes to the target and no further**, except in a pool that is above
                          the threshold and below the target: there everything is evicted;
* `expiry_iff`            **expiry removes exactly the old entries**, except that an entry from the
                          future counts as old, and that the queue, rebuilt, loses the pairs of
                          surviving entries that it held from earlier insertions;
* `eviction_lowest`       **eviction by fee takes the lowest scores**, their index entries and nothing
                          else, in every state in which the entries are indexed.
-/

set_option linter.unusedSectionVars false

namespace ChainForge
namespace Mempool
open Machine IndexedStore

/-! ## counting -/

section
variable {F : Type} [LinearOrder F] [Double F] (s : MempoolImpl F)

namespace MempoolImpl

theorem removeEntry_count {h : Hash} {e : MempoolEntry F} (he : s.transactions.lookup h = some e) :
    (s.removeEntry h e).count + 1 = s.count := by
  unfold count
  rw [removeEntry_transactions, (UMap.erase_perm he).length_eq]
  rfl

theorem removeAll_count {hashes : List Hash} (hnodup : hashes.Nodup)
    (hpooled : ∀ h ∈ hashes, ∃ e, s.transactions.lookup h = some e) :
    (s.removeAll hashes).count + hashes.length = s.count := by
  induction hashes generalizing s with
  | nil => rfl
  | cons h hashes ih =>
    obtain ⟨hh, hnodup⟩ := List.nodup_cons.mp hnodup
    obtain ⟨e, he⟩ := hpooled h List.mem_cons_self
    have hone : (s.removeTransaction h).2 = s.removeEntry h e := by
      unfold removeTransaction
      rw [he]
      rfl
    have hrest : ∀ k ∈ hashes, ∃ e', (s.removeEntry h e).transactions.lookup k = some e' := by
      intro k hk
      rw [removeEntry_transactions, UMap.lookup_erase, if_neg (ne_of_mem_of_not_mem hk hh)]
      exact hpooled k (List.mem_cons_of_mem _ hk)
    have hcount := s.removeEntry_count he
    have hall := ih (s.removeEntry h e) hnodup hrest
    show ((s.removeTransaction h).2.removeAll hashes).count + (hashes.length + 1) = s.count
    rw [hone]
    omega

theorem selected_nodup (count : Nat) : (s.selectTransactionsToEvict count).Nodup := by
  unfold selectTransactionsToEvict
  have hsorted : ((s.scoredHashes.insertionSort (· ≤ ·)).map fun p => (ofLex p).2).Nodup :=
    ((List.perm_insertionSort (· ≤ ·) s.scoredHashes).map _).nodup_iff.mpr scoredHashes_nodup
  exact ((List.take_sublist _ _).map _).nodup hsorted

theorem selected_length (count : Nat) :
    (s.selectTransactionsToEvict count).length = min count s.count := by
  unfold selectTransactionsToEvict
  rw [List.length_map, List.length_take, List.length_insertionSort, scoredHashes_length,
    Nat.min_assoc, Nat.min_self]
  rfl

theorem evictTransactionsByFee_count (count : Nat) :
    (s.evictTransactionsByFee count).count = s.count - min count s.count := by
  have h := s.removeAll_count (s.selected_nodup count) fun _ hk => selected_pooled s hk
  rw [selected_length] at h
  exact Nat.eq_sub_of_add_eq h

theorem evictTransactionsByFee_of_empty (h : s.count = 0) (count : Nat) :
    s.evictTransactionsByFee count = s := by
  have hnil : s.selectTransactionsToEvict count = [] := by
    rw [← List.length_eq_zero_iff, s.selected_length, h]
    exact Nat.min_zero _
  unfold evictTransactionsByFee
  rw [hnil]
  rfl

end MempoolImpl

/-- the number of entries is a `size_t` in every run, whatever the configurations are -/
theorem poolAfter_count_lt (H : List UInt8 → Hash) (config : MempoolConfig F)
    (calls : List (Call F)) : (poolAfter H config calls).count < 2 ^ 64 := by
  have h : (poolAfter H config calls).count ≤ 2 ^ 64 - 1 :=
    run_inv (fun s : MempoolImpl F => s.count ≤ 2 ^ 64 - 1)
      (fun s c hs => (step_pool H s c).count_le
        (Nat.le_sub_one_of_lt s.config.maxTransactions.toNat_lt) hs) calls (Nat.zero_le _)
  omega

end

/-! ## trimming -/

section
variable (s : MempoolImpl ℚ)

/-- 80% of the capacity, rounded down -/
def MempoolImpl.targetCount : Nat := ⌊(s.config.maxTransactions.toNat : ℚ) * (8/10)⌋.toNat

theorem targetCount_lt : s.targetCount < 2 ^ 64 := by
  have hmax := s.config.maxTransactions.toNat_lt
  have hle : ⌊(s.config.maxTransactions.toNat : ℚ) * (8/10)⌋ ≤ s.config.maxTransactions.toNat := by
    rw [← Int.floor_natCast (R := ℚ) s.config.maxTransactions.toNat]
    refine Int.floor_mono (mul_le_of_le_one_right (Nat.cast_nonneg _) ?_)
    norm_num
  unfold MempoolImpl.targetCount
  omega

/-- `transactions_.size() - target_count` on `size_t` -/
theorem evictionCount_toNat (hcount : s.count < 2 ^ 64) :
    s.evictionCount = (2 ^ 64 - s.targetCount + s.count) % 2 ^ 64 := by
  show (UInt64.ofNat s.count - UInt64.ofNat s.targetCount).toNat = _
  rw [UInt64.toNat_sub, UInt64.toNat_ofNat_of_lt' hcount, UInt64.toNat_ofNat_of_lt' (targetCount_lt s)]

/-- from the target up, the pool is trimmed to it -/
theorem trimmed_of_le (hcount : s.count < 2 ^ 64) (h : s.targetCount ≤ s.count) :
    (s.evictTransactionsByFee s.evictionCount).count = s.targetCount := by
  have htarget := targetCount_lt s
  rw [s.evictTransactionsByFee_count, evictionCount_toNat s hcount]
  omega

/-- below the target the difference wraps around, and nothing is left -/
theorem trimmed_of_lt (hcount : s.count < 2 ^ 64) (h : s.count < s.targetCount) :
    (s.evictTransactionsByFee s.evictionCount).count = 0 := by
  have htarget := targetCount_lt s
  rw [s.evictTransactionsByFee_count, evictionCount_toNat s hcount]
  omega

theorem belowThreshold_iff : s.belowThreshold = true ↔
    (s.count : ℚ) < s.config.maxTransactions.toNat * s.config.evictionThresholdRatio :=
  decide_eq_true_iff

/-- **Low-fee eviction trims to the target and no further exactly when** the pool is below the
threshold, or not below the target, or empty. -/
theorem low_fee_eviction_iff (H : List UInt8 → Hash) (config : MempoolConfig ℚ)
    (calls : List (Call ℚ)) :
    let s := poolAfter H config calls
    (s.evictLowFeeTransactions = s ∨ s.evictLowFeeTransactions.count = s.targetCount) ∧
        min s.targetCount s.count ≤ s.evictLowFeeTransactions.count ↔
      (s.count : ℚ) < s.config.maxTransactions.toNat * s.config.evictionThresholdRatio ∨
        s.targetCount ≤ s.count ∨ s.count = 0 := by
  have hlt := poolAfter_count_lt H config calls
  intro s
  rw [← belowThreshold_iff]
  unfold MempoolImpl.evictLowFeeTransactions
  by_cases hb : s.belowThreshold = true
  · rw [if_pos hb]
    exact ⟨fun _ => Or.inl hb, fun _ => ⟨Or.inl rfl, Nat.min_le_right _ _⟩⟩
  rw [if_neg hb]
  by_cases ht : s.targetCount ≤ s.count
  · rw [trimmed_of_le s hlt ht]
    exact ⟨fun _ => Or.inr (Or.inl ht), fun _ => ⟨Or.inr rfl, Nat.min_le_left _ _⟩⟩
  · -- above the threshold and below the target: nothing is left
    rw [trimmed_of_lt s hlt (Nat.not_le.mp ht)]
    constructor
    · rintro ⟨_, hmin⟩
      right; right
      omega
    · rintro (h | h | h)
      · exact absurd h hb
      · exact absurd h ht
      · rw [s.evictTransactionsByFee_of_empty h, h, Nat.min_zero]
        exact ⟨Or.inl rfl, Nat.le_refl 0⟩

/-- every pool counts as full enough -/
def eagerConfig : MempoolConfig ℚ :=
  { (MempoolConfig.default : MempoolConfig ℚ) with
    maxTransactions := 10
    evictionThresholdRatio := 0 }

/-- one entry, a target of eight: the entry is evicted -/
theorem trimmed_to_nothing :
    let s := poolAfter hashSha256 eagerConfig oneAddition
    s.count = 1 ∧ s.targetCount = 8 ∧ s.evictLowFeeTransactions.count = 0 := by
  decide +kernel

end

/-! ## expiry -/

section
variable {F : Type} [LinearOrder F] [Double F]

/-- older than an hour, over the integers -/
def MempoolEntry.Old (now : UInt64) (e : MempoolEntry F) : Prop :=
  (now.toNat : Int) - e.addedTimestamp.toNat > 3600

/-- `t` is `s` without the entries that meet `old` and without their index entries -/
structure RemovesExactly (old : MempoolEntry F → Prop) (s t : MempoolImpl F) : Prop where
  entries : ∀ h e, t.transactions.lookup h = some e ↔ s.transactions.lookup h = some e ∧ ¬ old e
  index : ∀ a n h, t.indexed a n = some h ↔
    s.indexed a n = some h ∧ ¬ ∃ e, s.transactions.lookup h = some e ∧ old e ∧ slot e = (a, n)

/-- the pairs of the queue for one hash -/
def MempoolImpl.queueEntries (s : MempoolImpl F) (h : Hash) : List (F ×ₗ Hash) :=
  s.priorityQueue.elems.filter fun p => decide ((ofLex p).2 = h)

/-- the age wraps around for an entry that was added later than now -/
theorem isExpired_agrees (now : UInt64) (e : MempoolEntry F) :
    (e.isExpired now 3600 = true ↔ e.Old now) ↔
      e.addedTimestamp ≤ now ∨ now - e.addedTimestamp ≤ 3600 := by
  have hnow := now.toNat_lt
  have hadded := e.addedTimestamp.toNat_lt
  have hsub := UInt64.toNat_sub now e.addedTimestamp
  unfold MempoolEntry.isExpired MempoolEntry.Old
  rw [decide_eq_true_iff, gt_iff_lt, UInt64.lt_iff_toNat_lt, UInt64.le_iff_toNat_le,
    UInt64.le_iff_toNat_le, hsub]
  change (3600 < _ ↔ _) ↔ _ ∨ _ ≤ 3600
  omega

section
variable {old old' : MempoolEntry F → Prop} {s t : MempoolImpl F}

theorem RemovesExactly.congr (h : RemovesExactly old s t)
    (hold : ∀ k e, s.transactions.lookup k = some e → (old e ↔ old' e)) :
    RemovesExactly old' s t where
  entries k e := by
    rw [h.entries]
    refine and_congr_right fun he => ?_
    rw [hold k e he]
  index a n k := by
    rw [h.index]
    refine and_congr_right fun _ => not_congr (exists_congr fun e => and_congr_right fun he => ?_)
    rw [hold k e he]

/-- what is removed determines which of the pooled entries are old -/
theorem RemovesExactly.agree (h : RemovesExactly old s t) (h' : RemovesExactly old' s t) {k : Hash}
    {e : MempoolEntry F} (he : s.transactions.lookup k = some e) : old e ↔ old' e := by
  have hiff := (h.entries k e).symm.trans (h'.entries k e)
  rw [and_iff_right he, and_iff_right he] at hiff
  exact not_iff_not.mp hiff

theorem mem_expiredHashes {now maxAge : UInt64} {h : Hash} : h ∈ s.expiredHashes now maxAge ↔
    ∃ e, s.transactions.lookup h = some e ∧ e.isExpired now maxAge = true := by
  unfold MempoolImpl.expiredHashes
  rw [List.mem_map]
  constructor
  · rintro ⟨p, hp, rfl⟩
    obtain ⟨hp, hx⟩ := List.mem_filter.mp hp
    exact ⟨p.2, (UMap.mem_entries s.transactions p.1 p.2).mp hp, hx⟩
  · rintro ⟨e, he, hx⟩
    exact ⟨⟨h, e⟩, List.mem_filter.mpr ⟨(UMap.mem_entries _ _ _).mpr he, hx⟩, rfl⟩

theorem evictExpired_removes (hs : Indexed slot (store s)) (now : UInt64) :
    RemovesExactly (fun e => e.isExpired now 3600 = true) s (s.evictExpiredTransactions now) where
  entries h e := by
    unfold MempoolImpl.evictExpiredTransactions MempoolImpl.evictTransactionsByAge
    rw [s.removeAll_transactions, mem_expiredHashes]
    refine and_congr_right fun he => not_congr ⟨?_, fun hx => ⟨e, he, hx⟩⟩
    rintro ⟨e', he', hx⟩
    rw [he] at he'
    cases he'
    exact hx
  index a n h := by
    have hindex := hs.index_dropAll (s.expiredHashes now 3600) (a, n) h
    rw [← s.store_removeAll] at hindex
    refine hindex.trans (and_congr_right fun _ => not_congr ?_)
    rw [mem_expiredHashes]
    constructor
    · rintro ⟨⟨e, he, hx⟩, e', he', hslot⟩
      have hsame : some e = some e' := he.symm.trans he'
      cases hsame
      exact ⟨e, he, hx, hslot⟩
    · rintro ⟨e, he, hx, hslot⟩
      exact ⟨⟨e, he, hx⟩, e, he, hslot⟩

/-- a queue in step holds one pair for each pooled hash -/
theorem MempoolImpl.InStep.queueEntries (ht : t.InStep) {h : Hash} {e : MempoolEntry F}
    (he : t.transactions.lookup h = some e) : t.queueEntries h = [toLex (e.score, h)] := by
  have hmem : toLex (e.score, h) ∈ t.scoredHashes := mem_scoredHashes.mpr ⟨e, he, rfl⟩
  have hone : t.scoredHashes.filter (fun p => decide ((ofLex p).2 = h)) = [toLex (e.score, h)] :=
    UMap.filter_of_nodup_map scoredHashes_nodup hmem
  have hperm := List.Perm.filter (fun p => decide ((ofLex p).2 = h)) ht
  rw [hone] at hperm
  exact List.perm_singleton.mp hperm

/-- the code's test for expiry is the right one as long as no age wraps around past the limit -/
theorem removesOld_iff {now : UInt64}
    (hcode : RemovesExactly (fun e => e.isExpired now 3600 = true) s t) :
    RemovesExactly (·.Old now) s t ↔ ∀ h e, s.transactions.lookup h = some e →
      e.addedTimestamp ≤ now ∨ now - e.addedTimestamp ≤ 3600 := by
  constructor
  · intro h k e he
    exact (isExpired_agrees now e).mp (hcode.agree h he)
  · intro h
    exact hcode.congr fun k e he => (isExpired_agrees now e).mpr (h k e he)

theorem evictExpired_of_none {now : UInt64}
    (h : ∀ k e, s.transactions.lookup k = some e → ¬ e.isExpired now 3600 = true) :
    s.evictExpiredTransactions now = s := by
  have hnil : s.expiredHashes now 3600 = [] := by
    refine List.eq_nil_iff_forall_not_mem.mpr fun k hk => ?_
    obtain ⟨e, he, hx⟩ := mem_expiredHashes.mp hk
    exact h k e he hx
  show s.removeAll (s.expiredHashes now 3600) = s
  rw [hnil]
  rfl

/-- a removal rebuilds the queue from the surviving entries -/
theorem evictExpired_inStep {now : UInt64}
    (hold : RemovesExactly old s (s.evictExpiredTransactions now))
    (hsome : ¬ ∀ k e, s.transactions.lookup k = some e → ¬ old e) :
    (s.evictExpiredTransactions now).InStep := by
  refine (MempoolImpl.inStep_of_removals (s.removeAll_removals _)).resolve_left fun ht => ?_
  refine hsome fun k e he => ((hold.entries k e).mp ?_).2
  show (s.removeAll _).transactions.lookup k = some e
  rw [ht]
  exact he

end

/-- **Expiry removes exactly the old entries and leaves the rest in place exactly when** no pooled
entry counts as expired for being added later than now, and either nothing expires or every surviving
hash is queued once, under its score. -/
theorem expiry_iff (H : List UInt8 → Hash) (config : MempoolConfig F) (calls : List (Call F))
    (now : UInt64) :
    let s := poolAfter H config calls
    let t := s.evictExpiredTransactions now
    RemovesExactly (·.Old now) s t ∧
        (∀ h e, t.transactions.lookup h = some e → t.queueEntries h = s.queueEntries h) ↔
      (∀ h e, s.transactions.lookup h = some e →
        e.addedTimestamp ≤ now ∨ now - e.addedTimestamp ≤ 3600) ∧
      ((∀ h e, s.transactions.lookup h = some e → ¬ e.Old now) ∨
        ∀ h e, s.transactions.lookup h = some e → ¬ e.Old now →
          s.queueEntries h = [toLex (e.score, h)]) := by
  have hindexed := poolAfter_indexed H config calls
  intro s t
  have hcode : RemovesExactly (fun e => e.isExpired now 3600 = true) s t :=
    evictExpired_removes hindexed now
  rw [← removesOld_iff hcode]
  refine and_congr_right fun hold => ?_
  by_cases hnone : ∀ h e, s.transactions.lookup h = some e → ¬ e.Old now
  · have ht : t = s :=
      evictExpired_of_none fun k e he hx => hnone k e he ((hcode.agree hold he).mp hx)
    rw [ht]
    exact ⟨fun _ => Or.inl hnone, fun _ _ _ _ => rfl⟩
  · have hstep : t.InStep := evictExpired_inStep hold hnone
    rw [or_iff_right hnone]
    constructor
    · intro h k e he hyoung
      have hk := (hold.entries k e).mpr ⟨he, hyoung⟩
      rw [← h k e hk]
      exact hstep.queueEntries hk
    · intro h k e hk
      obtain ⟨he, hyoung⟩ := (hold.entries k e).mp hk
      rw [hstep.queueEntries hk, h k e he hyoung]

/-- one entry, added at time 100, and a clock that is then set back to 50 -/
theorem future_entry_expires :
    let s := poolAfter (F := ℚ) hashSha256 MempoolConfig.default
      [⟨.addTransaction (sampleTx 2 1 10), fun _ => 100⟩]
    s.count = 1 ∧ (s.evictExpiredTransactions 50).count = 0 := by
  decide +kernel

end

/-! ## lowest scores first -/

section
variable {F : Type} [LinearOrder F] [Double F] {s : MempoolImpl F}

/-- the selected pairs are the first ones of all pairs in order -/
theorem selected_lt {count : Nat} {h h' : Hash} {e e' : MempoolEntry F}
    (he : s.transactions.lookup h = some e) (he' : s.transactions.lookup h' = some e')
    (hin : h ∈ s.selectTransactionsToEvict count) (hout : h' ∉ s.selectTransactionsToEvict count) :
    toLex (e.score, h) < toLex (e'.score, h') := by
  unfold MempoolImpl.selectTransactionsToEvict at hin hout
  have hsorted : (s.scoredHashes.insertionSort (· ≤ ·)).Pairwise (· ≤ ·) :=
    List.pairwise_insertionSort _ _
  generalize hl : s.scoredHashes.insertionSort (· ≤ ·) = l at hin hout hsorted
  generalize min count s.scoredHashes.length = n at hin hout
  have hperm : l.Perm s.scoredHashes := hl ▸ List.perm_insertionSort _ _
  obtain ⟨p, hp, rfl⟩ := List.mem_map.mp hin
  -- a pair that is not among the first ones is among the others
  have hp' : toLex (e'.score, h') ∈ l.drop n := by
    have hmem : toLex (e'.score, h') ∈ l :=
      hperm.mem_iff.mpr (MempoolImpl.mem_scoredHashes.mpr ⟨e', he', rfl⟩)
    rw [← List.take_append_drop n l, List.mem_append] at hmem
    exact hmem.resolve_left fun hm => hout (List.mem_map.mpr ⟨_, hm, rfl⟩)
  have hscore : toLex (e.score, (ofLex p).2) = p := by
    obtain ⟨e₁, he₁, hs⟩ :=
      MempoolImpl.mem_scoredHashes.mp (hperm.mem_iff.mp (List.mem_of_mem_take hp))
    rw [he] at he₁
    rw [Option.some.inj he₁, ← hs]
    rfl
  rw [← List.take_append_drop n l, List.pairwise_append] at hsorted
  rw [hscore]
  refine lt_of_le_of_ne (hsorted.2.2 p hp _ hp') fun heq => hout (List.mem_map.mpr ⟨p, hp, ?_⟩)
  rw [heq]
  rfl

/-- `t` is `s` without its `count` lowest entries: as many of them as there are, none above an entry
that stays, each with its index entry and nothing else of the index, and with a queue in step -/
structure EvictsLowest (count : Nat) (s t : MempoolImpl F) : Prop where
  entries : ∀ h e, t.transactions.lookup h = some e → s.transactions.lookup h = some e
  number : t.count + min count s.count = s.count
  lowest : ∀ h e h' e', s.transactions.lookup h = some e → t.transactions.lookup h = none →
    t.transactions.lookup h' = some e' → toLex (e.score, h) < toLex (e'.score, h')
  index : ∀ a n k, t.indexed a n = some k ↔ s.indexed a n = some k ∧
    ¬ ∃ h e, s.transactions.lookup h = some e ∧ t.transactions.lookup h = none ∧
      e.transaction.fromAddr = a ∧ e.transaction.nonce = n
  queue : 0 < min count s.count → t.priorityQueue.elems.Perm t.scoredHashes

theorem removed_iff_selected {count : Nat} {h : Hash} {e : MempoolEntry F}
    (he : s.transactions.lookup h = some e) :
    (s.evictTransactionsByFee count).transactions.lookup h = none ↔
      h ∈ s.selectTransactionsToEvict count := by
  have hkept := s.removeAll_transactions (s.selectTransactionsToEvict count) h
  change ∀ e', (s.evictTransactionsByFee count).transactions.lookup h = some e' ↔ _ at hkept
  rw [Option.eq_none_iff_forall_ne_some]
  simp only [ne_eq, hkept, he]
  simp

theorem evicted_index (hs : Indexed slot (store s)) (count : Nat) (a : Address) (n : UInt64)
    (k : Hash) : (s.evictTransactionsByFee count).indexed a n = some k ↔ s.indexed a n = some k ∧
      ¬ ∃ h e, s.transactions.lookup h = some e ∧
        (s.evictTransactionsByFee count).transactions.lookup h = none ∧
        e.transaction.fromAddr = a ∧ e.transaction.nonce = n := by
  have hindex := hs.index_dropAll (s.selectTransactionsToEvict count) (a, n) k
  rw [← s.store_removeAll] at hindex
  refine hindex.trans (and_congr_right fun hk => not_congr ?_)
  constructor
  · rintro ⟨hsel, e, he, hslot⟩
    exact ⟨k, e, he, (removed_iff_selected he).mpr hsel, (Prod.mk.inj hslot).1, (Prod.mk.inj hslot).2⟩
  · rintro ⟨h, e, he, hgone, rfl, rfl⟩
    -- the slot of the removed entry names it
    have hh : h = k := Option.some.inj ((hs h e he).symm.trans hk)
    subst hh
    exact ⟨(removed_iff_selected he).mp hgone, e, he, rfl⟩

/-- **Eviction takes the lowest scores and cleans up after itself.** -/
theorem eviction_lowest (s : MempoolImpl F)
    (hs : ∀ h e, s.transactions.lookup h = some e →
      s.indexed e.transaction.fromAddr e.transaction.nonce = some h) (count : Nat) :
    EvictsLowest count s (s.evictTransactionsByFee count) where
  entries h e he := ((s.removeAll_transactions _ h e).mp he).1
  number := by
    have hmin := Nat.min_le_right count s.count
    rw [s.evictTransactionsByFee_count]
    omega
  lowest h e h' e' he hgone he' := by
    obtain ⟨he', hstays⟩ := (s.removeAll_transactions _ h' e').mp he'
    exact selected_lt he he' ((removed_iff_selected he).mp hgone) hstays
  index a n k := evicted_index hs count a n k
  queue hpos := by
    refine (MempoolImpl.inStep_of_removals (s.removeAll_removals _)).resolve_left fun heq => ?_
    have hcount := s.evictTransactionsByFee_count count
    change s.evictTransactionsByFee count = s at heq
    rw [heq] at hcount
    omega

/-- two transactions, with gas prices of 10 and 20 -/
theorem eviction_lowest_two :
    (poolAfter hashSha256 MempoolConfig.default (twoAdditions 20 0)).count = 2 ∧
      EvictsLowest 1 (poolAfter hashSha256 MempoolConfig.default (twoAdditions 20 0))
        ((poolAfter hashSha256 MempoolConfig.default (twoAdditions 20 0)).evictTransactionsByFee 1) :=
  ⟨by decide +kernel,
    eviction_lowest _ (poolAfter_indexed hashSha256 MempoolConfig.default (twoAdditions 20 0)) 1⟩

end

end Mempool
end ChainForge
