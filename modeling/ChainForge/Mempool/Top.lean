import ChainForge.Mempool.Index

/-!
# The queue and the pool

* `TopSpec`          what `get_top_transactions` is for: the best entries, once each, in order;
* `QueueStep`        all that a call can do to the pool and the queue;
* `top_spec_iff`     the selection meets `TopSpec` all along a run exactly when no addition of the
                     run finds the hash of its own transaction in the queue;
* `top_duplicates`   a replacement that fails validation leaves such a hash behind.

The queue is compared with the pool through its live part (`live`): the pairs whose hash is pooled.
Every pooled entry has its pair there (`Covered`); the selection is right when there are no others
(`QueueExact`).
-/

set_option linter.unusedSectionVars false

namespace ChainForge
namespace Mempool
open Machine IndexedStore

section
variable {F : Type} [LinearOrder F] [Double F]

namespace MempoolImpl
variable (s : MempoolImpl F)

/-- the hash of a queued pair is pooled -/
def pooled (p : F ×ₗ Hash) : Bool := (s.transactions.lookup (ofLex p).2).isSome

def live : List (F ×ₗ Hash) := s.priorityQueue.elems.filter s.pooled

def Covered : Prop := s.scoredHashes.Subperm s.priorityQueue.elems

def QueueExact : Prop := s.live.Perm s.scoredHashes

variable {s}

theorem mem_scoredHashes {p : F ×ₗ Hash} :
    p ∈ s.scoredHashes ↔ ∃ e, s.transactions.lookup (ofLex p).2 = some e ∧ (ofLex p).1 = e.score := by
  unfold scoredHashes
  rw [List.mem_map]
  constructor
  · rintro ⟨q, hq, rfl⟩
    exact ⟨q.2, (UMap.mem_entries s.transactions q.1 q.2).mp hq, rfl⟩
  · rintro ⟨e, he, hs⟩
    refine ⟨⟨(ofLex p).2, e⟩, (UMap.mem_entries _ _ _).mpr he, ?_⟩
    rw [← hs]
    rfl

theorem pooled_of_scored {p : F ×ₗ Hash} (h : p ∈ s.scoredHashes) : s.pooled p = true := by
  obtain ⟨e, he, _⟩ := mem_scoredHashes.mp h
  unfold pooled
  rw [he]
  rfl

theorem scoredHashes_length : s.scoredHashes.length = s.transactions.entries.length :=
  List.length_map _

theorem scoredHashes_nodup : (s.scoredHashes.map fun p => (ofLex p).2).Nodup := by
  unfold scoredHashes
  rw [List.map_map]
  exact s.transactions.nodupKeys

theorem scoredHashes_dropEntry {h : Hash} {e : MempoolEntry F}
    (he : s.transactions.lookup h = some e) :
    s.scoredHashes.Perm (toLex (e.score, h) :: (s.dropEntry h e).scoredHashes) := by
  have hp := (UMap.erase_perm he).map fun p => toLex (p.2.score, p.1)
  unfold scoredHashes
  rw [dropEntry_transactions]
  exact hp

theorem scoredHashes_putEntry {h : Hash} (e : MempoolEntry F)
    (hfree : s.transactions.lookup h = none) :
    (s.putEntry h e).scoredHashes = toLex (e.score, h) :: s.scoredHashes := by
  show ((s.transactions.insert h e).entries.map _) = _
  rw [UMap.insert_fresh e hfree]
  rfl

theorem pooled_putEntry (h : Hash) (e : MempoolEntry F) (p : F ×ₗ Hash) :
    (s.putEntry h e).pooled p = (decide ((ofLex p).2 = h) || s.pooled p) := by
  show ((s.transactions.insert h e).lookup (ofLex p).2).isSome = _
  rw [UMap.lookup_insert]
  by_cases hp : (ofLex p).2 = h
  · rw [if_pos hp, decide_eq_true hp]
    rfl
  · rw [if_neg hp, decide_eq_false hp]
    rfl

theorem pooled_dropEntry (h : Hash) (e : MempoolEntry F) (p : F ×ₗ Hash) :
    (s.dropEntry h e).pooled p = (decide ((ofLex p).2 ≠ h) && s.pooled p) := by
  unfold pooled
  rw [dropEntry_transactions, UMap.lookup_erase]
  by_cases hp : (ofLex p).2 = h
  · rw [if_pos hp, decide_eq_false (not_not.mpr hp)]
    rfl
  · rw [if_neg hp, decide_eq_true hp]
    rfl

/-! ### a queue in step with the pool -/

theorem filter_scoredHashes : s.scoredHashes.filter s.pooled = s.scoredHashes :=
  List.filter_eq_self.mpr fun _ hp => pooled_of_scored hp

/-- the queue holds the pairs of the pooled entries and nothing else -/
def InStep (s : MempoolImpl F) : Prop := s.priorityQueue.elems.Perm s.scoredHashes

theorem InStep.covered (h : InStep s) : Covered s := h.symm.subperm

theorem InStep.exact (h : InStep s) : QueueExact s := by
  have hf := h.filter s.pooled
  rwa [filter_scoredHashes] at hf

theorem Covered.live (h : Covered s) : s.scoredHashes.Subperm s.live := by
  have hf := h.filter s.pooled
  rwa [filter_scoredHashes] at hf

theorem rebuild_inStep : InStep s.rebuildPriorityQueue := PriorityQueue.ofList_perm _

/-- under `Covered`, exactness is a matter of counting -/
theorem Covered.exact_of_length (h : Covered s)
    (hl : s.live.length ≤ s.transactions.entries.length) : QueueExact s := by
  have := h.live.perm_of_length_le (by rw [scoredHashes_length]; exact hl)
  exact this.symm

/-- a drop without a rebuild leaves a stale pair, which is not live -/
theorem QueueExact.dropEntry (hs : QueueExact s) {h : Hash} {e : MempoolEntry F}
    (he : s.transactions.lookup h = some e) : QueueExact (s.dropEntry h e) := by
  have hlive : (s.dropEntry h e).live = s.live.filter fun p => decide ((ofLex p).2 ≠ h) := by
    unfold MempoolImpl.live
    rw [dropEntry_queue, List.filter_filter]
    exact List.filter_congr fun p _ => pooled_dropEntry h e p
  have hrest : ∀ p ∈ (s.dropEntry h e).scoredHashes, (ofLex p).2 ≠ h := by
    intro p hp
    have := pooled_of_scored hp
    rw [pooled_dropEntry, Bool.and_eq_true, decide_eq_true_eq] at this
    exact this.1
  have hperm := (hs.trans (scoredHashes_dropEntry he)).filter fun p => decide ((ofLex p).2 ≠ h)
  rw [← hlive, List.filter_cons_of_neg (by simp),
    List.filter_eq_self.mpr (fun p hp => decide_eq_true (hrest p hp))] at hperm
  exact hperm

def queued (s : MempoolImpl F) (h : Hash) : Bool :=
  s.priorityQueue.elems.any fun p => decide ((ofLex p).2 = h)

theorem Covered.dropEntry (hs : Covered s) {h : Hash} {e : MempoolEntry F}
    (he : s.transactions.lookup h = some e) : Covered (s.dropEntry h e) := by
  unfold Covered
  rw [dropEntry_queue]
  have h1 : (s.dropEntry h e).scoredHashes.Subperm (toLex (e.score, h) :: (s.dropEntry h e).scoredHashes) :=
    List.Subperm.cons_self
  exact (h1.trans (scoredHashes_dropEntry he).symm.subperm).trans hs

theorem Covered.enter (hs : Covered s) {h : Hash} (e : MempoolEntry F)
    (hfree : s.transactions.lookup h = none) : Covered (s.enter h e) := by
  show (s.putEntry h e).scoredHashes.Subperm (s.priorityQueue.emplace _).elems
  rw [scoredHashes_putEntry e hfree]
  exact ((List.subperm_cons _).mpr hs).trans (PriorityQueue.emplace_perm _ _).symm.subperm

/-- the live pairs after an admission: the new one, and besides the old ones whatever the queue
already held under the new hash -/
theorem live_enter (h : Hash) (e : MempoolEntry F) :
    (s.enter h e).live.Perm (toLex (e.score, h) ::
      s.priorityQueue.elems.filter fun p => decide ((ofLex p).2 = h) || s.pooled p) := by
  have hp : (s.enter h e).live = (s.priorityQueue.emplace (toLex (e.score, h))).elems.filter
      fun p => decide ((ofLex p).2 = h) || s.pooled p :=
    List.filter_congr fun p _ => pooled_putEntry h e p
  rw [hp]
  refine ((PriorityQueue.emplace_perm _ _).filter _).trans ?_
  rw [List.filter_cons_of_pos (by simp)]

/-- **An admission keeps the queue exact exactly when the hash was not in the queue.** -/
theorem QueueExact.enter_iff (hs : QueueExact s) {h : Hash} (e : MempoolEntry F)
    (hfree : s.transactions.lookup h = none) : QueueExact (s.enter h e) ↔ s.queued h = false := by
  have hsc : (s.enter h e).scoredHashes = toLex (e.score, h) :: s.scoredHashes :=
    scoredHashes_putEntry e hfree
  unfold QueueExact
  rw [hsc]
  constructor
  · intro hx
    have hrest := (List.perm_cons _).mp ((live_enter h e).symm.trans hx)
    rw [queued, List.any_eq_false]
    intro p hp hph
    have hmem : p ∈ s.scoredHashes := by
      rw [← hrest.mem_iff, List.mem_filter]
      exact ⟨hp, by rw [hph]; rfl⟩
    have hpool := pooled_of_scored hmem
    rw [pooled, of_decide_eq_true hph, hfree] at hpool
    cases hpool
  · intro hq
    rw [queued, List.any_eq_false] at hq
    refine (live_enter h e).trans ((List.perm_cons _).mpr ?_)
    have hsame : (s.priorityQueue.elems.filter fun p => decide ((ofLex p).2 = h) || s.pooled p)
        = s.live := by
      refine List.filter_congr fun p hp => ?_
      rw [Bool.eq_false_iff.mpr (hq p hp), Bool.false_or]
    rw [hsame]
    exact hs

/-! ### removals -/

theorem inStep_notifyRemoved {h : Hash} (hs : InStep s) : InStep (s.notifyRemoved h) := by
  unfold notifyRemoved
  split <;> exact hs

/-- every removal rebuilds the queue -/
theorem inStep_of_removals {t : MempoolImpl F} (h : Removals s t) : t = s ∨ InStep t := by
  cases h with
  | refl => exact .inl rfl
  | tail _ _ _ _ => exact .inr (inStep_notifyRemoved rebuild_inStep)

end MempoolImpl

/-! ## one call on the pool and the queue -/

section
open MempoolImpl

def SameQueue (s t : MempoolImpl F) : Prop :=
  t.transactions = s.transactions ∧ t.priorityQueue = s.priorityQueue

theorem SameQueue.covered_iff {s t : MempoolImpl F} (h : SameQueue s t) : Covered t ↔ Covered s := by
  unfold Covered MempoolImpl.scoredHashes
  rw [h.1, h.2]

theorem SameQueue.exact_iff {s t : MempoolImpl F} (h : SameQueue s t) :
    QueueExact t ↔ QueueExact s := by
  unfold QueueExact MempoolImpl.live MempoolImpl.pooled MempoolImpl.scoredHashes
  rw [h.1, h.2]

theorem sameQueue_notifyAdded (s : MempoolImpl F) (h : Hash) : SameQueue s (s.notifyAdded h) := by
  unfold MempoolImpl.notifyAdded
  split <;> exact ⟨rfl, rfl⟩

/-- the call adds a transaction whose hash is in the queue already -/
def Call.reinserts (H : List UInt8 → Hash) (s : MempoolImpl F) (c : Call F) : Bool :=
  match c.method with
  | .addTransaction tx =>
    match s.makeRoom H c.clock tx with
    | .ok s => s.queued (tx.calculateHash H)
    | .error _ => false
  | _ => false

/-- **All that a call can do to the pool and the queue.** -/
inductive QueueStep (s : MempoolImpl F) (reinserts : Bool) : MempoolImpl F → Prop
  | same {t} (h : SameQueue s t) (hr : reinserts = false) : QueueStep s reinserts t
  | rebuilt {t} (h : InStep t) (hr : reinserts = false) : QueueStep s reinserts t
  | dropped {h : Hash} {e : MempoolEntry F} (he : s.transactions.lookup h = some e)
      (hr : reinserts = false) : QueueStep s reinserts (s.dropEntry h e)
  | entered {t u} {h : Hash} (e : MempoolEntry F) (ht : t = s ∨ InStep t)
      (hfree : t.transactions.lookup h = none) (hr : t.queued h = reinserts)
      (hu : SameQueue (t.enter h e) u) : QueueStep s reinserts u

theorem QueueStep.covered {s t : MempoolImpl F} {b : Bool} (h : QueueStep s b t) (hs : Covered s) :
    Covered t := by
  cases h with
  | same h _ => exact h.covered_iff.mpr hs
  | rebuilt h _ => exact h.covered
  | dropped he _ => exact hs.dropEntry he
  | entered e ht hfree _ hu =>
    refine hu.covered_iff.mpr (Covered.enter ?_ e hfree)
    rcases ht with rfl | ht
    · exact hs
    · exact ht.covered

/-- from an exact queue, a step ends in one exactly when it does not queue a hash twice -/
theorem QueueStep.exact_iff {s t : MempoolImpl F} {b : Bool} (h : QueueStep s b t)
    (hs : QueueExact s) : QueueExact t ↔ b = false := by
  cases h with
  | same h hr => exact ⟨fun _ => hr, fun _ => h.exact_iff.mpr hs⟩
  | rebuilt h hr => exact ⟨fun _ => hr, fun _ => h.exact⟩
  | dropped he hr => exact ⟨fun _ => hr, fun _ => hs.dropEntry he⟩
  | entered e ht hfree hr hu =>
    rw [hu.exact_iff, ← hr]
    refine QueueExact.enter_iff ?_ e hfree
    rcases ht with rfl | ht
    · exact hs
    · exact ht.exact

theorem QueueStep.of_removals {s t : MempoolImpl F} (h : Removals s t) : QueueStep s false t := by
  rcases inStep_of_removals h with rfl | h
  · exact .same ⟨rfl, rfl⟩ rfl
  · exact .rebuilt h rfl

variable (H : List UInt8 → Hash) (s : MempoolImpl F)

theorem addTransaction_queue (clock : Nat → UInt64) (tx : Transaction) :
    QueueStep s (Call.reinserts H s ⟨.addTransaction tx, clock⟩) (s.addTransaction H clock tx).2 := by
  have hcases := s.makeRoom_cases H clock tx
  unfold MempoolImpl.addTransaction Call.reinserts
  dsimp only
  cases hr : s.makeRoom H clock tx with
  | error r =>
    rw [hr] at hcases
    exact .of_removals hcases
  | ok t =>
    rw [hr] at hcases
    obtain ⟨hfresh, _, ht, _⟩ := hcases
    have hfree : t.transactions.lookup (tx.calculateHash H) = none := ht.drops.records_none hfresh
    exact .entered _ (inStep_of_removals ht) hfree rfl (sameQueue_notifyAdded _ _)

theorem replaceTransaction_queue (clock : Nat → UInt64) (tx : Transaction) :
    QueueStep s false (s.replaceTransaction H clock tx).2 := by
  rw [MempoolImpl.replaceTransaction_state]
  cases hr : s.replaced (tx.hashed H) with
  | none => exact .same ⟨rfl, rfl⟩ rfl
  | some p =>
    obtain ⟨oldHash, old⟩ := p
    dsimp only
    split
    · exact .rebuilt rebuild_inStep rfl
    · exact .dropped (s.replaced_lookup _ hr).2 rfl

/-- **One call on the pool and the queue.** -/
theorem step_queue (c : Call F) : QueueStep s (c.reinserts H s) (step H s c) := by
  obtain ⟨m, clock⟩ := c
  cases m with
  | addTransaction tx => exact addTransaction_queue H s clock tx
  | removeTransaction h => exact .of_removals (s.removeTransaction_removals h)
  | replaceTransaction tx => exact replaceTransaction_queue H s clock tx
  | evictExpiredTransactions => exact .of_removals (s.removeAll_removals _)
  | evictLowFeeTransactions => exact .of_removals s.evictLowFeeTransactions_removals
  | clear => exact .rebuilt List.Perm.nil rfl
  | setConfig _ => exact .same ⟨rfl, rfl⟩ rfl
  | setTransactionAddedCallback _ => exact .same ⟨rfl, rfl⟩ rfl
  | setTransactionRemovedCallback _ => exact .same ⟨rfl, rfl⟩ rfl

end

/-! ## the selection -/

namespace MempoolImpl
variable (s : MempoolImpl F)

/-- the loop takes the live pairs in the order of the queue, up to the count -/
theorem topLoop_eq (count : Nat) (queue : List (F ×ₗ Hash)) (result : List Transaction) :
    (s.topLoop count queue result).map some = result.map some ++
      ((queue.filter s.pooled).take (count - result.length)).map
        fun p => (s.transactions.lookup (ofLex p).2).map (·.transaction) := by
  induction queue generalizing result with
  | nil => simp [topLoop]
  | cons p queue ih =>
    unfold topLoop
    by_cases hc : result.length < count
    · rw [if_pos hc]
      cases hl : s.transactions.lookup (ofLex p).2 with
      | none =>
        have hp : ¬ s.pooled p = true := by
          rw [pooled, hl]
          exact Bool.false_ne_true
        rw [List.filter_cons_of_neg hp]
        exact ih result
      | some e =>
        have hp : s.pooled p = true := by
          rw [pooled, hl]
          rfl
        obtain ⟨k, hk⟩ : ∃ k, count - result.length = k + 1 :=
          ⟨count - result.length - 1, by omega⟩
        have hk' : count - (result ++ [e.transaction]).length = k := by
          rw [List.length_append, List.length_singleton]
          omega
        rw [List.filter_cons_of_pos hp, hk, List.take_succ_cons, List.map_cons, hl]
        dsimp only
        rw [ih, hk', List.map_append, List.append_assoc]
        rfl
    · have hz : count - result.length = 0 := by omega
      rw [if_neg hc, hz, List.take_zero, List.map_nil, List.append_nil]

def topHashes (count : Nat) : List Hash := (s.live.take count).map fun p => (ofLex p).2

theorem getTopTransactions_eq (count : Nat) :
    (s.getTopTransactions count).map some
      = (s.topHashes count).map fun h => (s.transactions.lookup h).map (·.transaction) := by
  unfold getTopTransactions topHashes
  rw [topLoop_eq, List.map_map]
  rfl

theorem getTopTransactions_length (count : Nat) :
    (s.getTopTransactions count).length = min count s.live.length := by
  rw [← List.length_map some, getTopTransactions_eq, topHashes, List.length_map, List.length_map,
    List.length_take]

end MempoolImpl

/-- the entry of `h` scores at least as high as that of `h'` -/
def Outranks (s : MempoolImpl F) (h h' : Hash) : Prop :=
  ∀ e e', s.transactions.lookup h = some e → s.transactions.lookup h' = some e' → e'.score ≤ e.score

/-- the transactions `txs` are those of the `count` best entries, once each, in order of score -/
structure IsTop (s : MempoolImpl F) (count : Nat) (hashes : List Hash) (txs : List Transaction) :
    Prop where
  pooled : txs.map some = hashes.map fun h => (s.transactions.lookup h).map (·.transaction)
  length : txs.length = min count s.transactions.entries.length
  nodup : hashes.Nodup
  sorted : hashes.Pairwise (Outranks s)
  best : ∀ h ∈ hashes, ∀ h' ∉ hashes, Outranks s h h'

def TopSpec (s : MempoolImpl F) : Prop :=
  ∀ count, ∃ hashes, IsTop s count hashes (s.getTopTransactions count)

section
open MempoolImpl
variable {s : MempoolImpl F}

theorem MempoolImpl.QueueExact.hashes_nodup (hs : QueueExact s) : (s.live.map fun p => (ofLex p).2).Nodup :=
  ((hs.map _).nodup_iff).mpr scoredHashes_nodup

theorem MempoolImpl.QueueExact.score_eq (hs : QueueExact s) {p : F ×ₗ Hash} (hp : p ∈ s.live)
    {e : MempoolEntry F} (he : s.transactions.lookup (ofLex p).2 = some e) :
    (ofLex p).1 = e.score := by
  obtain ⟨e', he', hsc⟩ := mem_scoredHashes.mp (hs.mem_iff.mp hp)
  rw [hsc, Option.some.inj (he'.symm.trans he)]

theorem MempoolImpl.QueueExact.mem_live (hs : QueueExact s) {h : Hash} {e : MempoolEntry F}
    (he : s.transactions.lookup h = some e) : toLex (e.score, h) ∈ s.live :=
  hs.mem_iff.mpr (mem_scoredHashes.mpr ⟨e, he, rfl⟩)

theorem MempoolImpl.QueueExact.outranks (hs : QueueExact s) {p q : F ×ₗ Hash} (hp : p ∈ s.live)
    (hq : q ∈ s.live) (hle : q ≤ p) : Outranks s (ofLex p).2 (ofLex q).2 := by
  intro e e' he he'
  rw [← hs.score_eq hp he, ← hs.score_eq hq he']
  exact Prod.Lex.monotone_fst q p hle

theorem MempoolImpl.live_sorted : s.live.Pairwise (· ≥ ·) := s.priorityQueue.sorted.filter _

theorem MempoolImpl.QueueExact.topSpec (hs : QueueExact s) : TopSpec s := by
  intro count
  have hsplit : s.live.take count ++ s.live.drop count = s.live := List.take_append_drop _ _
  refine ⟨s.topHashes count, s.getTopTransactions_eq count, ?_, ?_, ?_, ?_⟩
  · rw [getTopTransactions_length, hs.length_eq, scoredHashes_length]
  · unfold topHashes
    rw [List.map_take]
    exact hs.hashes_nodup.sublist (List.take_sublist _ _)
  · unfold topHashes
    rw [List.pairwise_map]
    refine (live_sorted.sublist (List.take_sublist count _)).imp_of_mem ?_
    intro p q hp hq hle
    exact hs.outranks (List.mem_of_mem_take hp) (List.mem_of_mem_take hq) hle
  · intro h hh h' hh' e e' he he'
    obtain ⟨p, hp, rfl⟩ := List.mem_map.mp hh
    -- the entry left out has its pair in the rest of the queue
    have hq := hs.mem_live he'
    have hdrop : toLex (e'.score, h') ∈ s.live.drop count := by
      rw [← hsplit, List.mem_append] at hq
      rcases hq with hq | hq
      · exact absurd (List.mem_map_of_mem hq) hh'
      · exact hq
    have hsorted : (s.live.take count ++ s.live.drop count).Pairwise (· ≥ ·) := by
      rw [hsplit]
      exact live_sorted
    have hle := (List.pairwise_append.mp hsorted).2.2 p hp _ hdrop
    exact hs.outranks (List.mem_of_mem_take hp) hq hle e e' he he'

/-- **The selection is right exactly when the live pairs are those of the pool.** -/
theorem topSpec_iff_exact (hc : Covered s) : TopSpec s ↔ QueueExact s := by
  constructor
  · intro h
    obtain ⟨hashes, ht⟩ := h s.live.length
    have hl := ht.length
    rw [getTopTransactions_length, min_self] at hl
    exact hc.exact_of_length (hl.trans_le (min_le_right _ _))
  · exact QueueExact.topSpec

end

/-- **The selection is right all along a run exactly when no addition of the run puts a hash into
the queue that is still in it.** -/
theorem top_spec_iff (H : List UInt8 → Hash) (config : MempoolConfig F) (calls : List (Call F)) :
    EveryState (step H) TopSpec (MempoolImpl.start config) calls ↔
      EveryStep (step H) (fun s c => c.reinserts H s = false) (MempoolImpl.start config) calls := by
  have hstart : MempoolImpl.InStep (MempoolImpl.start config) := List.Perm.nil
  refine everyState_iff MempoolImpl.Covered (fun s c hs => (step_queue H s c).covered hs) ?_ calls
    hstart.covered ?_
  · intro s c hs hP
    rw [topSpec_iff_exact hs] at hP
    rw [topSpec_iff_exact ((step_queue H s c).covered hs)]
    exact (step_queue H s c).exact_iff hP
  · rw [topSpec_iff_exact hstart.covered]
    exact hstart.exact

end

/-! ## a hash queued twice -/

/-- an addition, a replacement priced above the maximum, and the addition again -/
def requeueingRun : List (Call ℚ) :=
  [⟨.addTransaction (sampleTx 2 1 10), fun _ => 0⟩,
   ⟨.replaceTransaction (sampleTx 2 1 2000000), fun _ => 0⟩,
   ⟨.addTransaction (sampleTx 2 1 10), fun _ => 0⟩]

theorem top_duplicates :
    ¬ EveryState (step hashSha256) TopSpec (MempoolImpl.start MempoolConfig.default)
      requeueingRun := by
  intro h
  have hlast : TopSpec (poolAfter hashSha256 MempoolConfig.default requeueingRun) := h.2.2.2
  have hpool : (poolAfter hashSha256 MempoolConfig.default requeueingRun).transactions.entries.length
      = 1 := by decide +kernel
  have htop : ((poolAfter hashSha256 MempoolConfig.default requeueingRun).getTopTransactions 2).length
      = 2 := by decide +kernel
  obtain ⟨hashes, ht⟩ := hlast 2
  have hl := ht.length
  rw [hpool, htop] at hl
  exact absurd hl (by decide)

end Mempool
end ChainForge
