import ChainForge.Mempool.Moves
import ChainForge.Mempool.Index

/-!
# What the callbacks tell

A subscriber that inserts every hash reported as added and deletes every hash reported as removed
holds the set `mirror` of the notifications.  `Mirrored s` says that this is the set of the pooled
hashes.

Additions, removals and evictions report what they do.  `replace_transaction` and `clear` report
nothing, so they keep the two sets in step only where they do not change the hashes.

* `Removals.mirrored`, `accept_mirrored`   the calls that report;
* `step_mirrored_iff`     **one call**;
* `callbacks_mirror_iff`  **a subscriber stays in step exactly when no call of the run is silent**;
* `silent_replacement`    a replacement by a transaction to another recipient.
-/

set_option linter.unusedSectionVars false

namespace ChainForge
namespace Mempool
open Machine

def Notification.tell (known : Finset Hash) : Notification → Finset Hash
  | added h => insert h known
  | removed h => known.erase h

/-- the hashes known to a subscriber after the notifications, the first one first -/
def mirror (l : List Notification) : Finset Hash := l.foldl Notification.tell ∅

theorem mirror_concat (l : List Notification) (n : Notification) :
    mirror (l ++ [n]) = n.tell (mirror l) := by
  unfold mirror
  rw [List.foldl_append]
  rfl

section
variable {F : Type} [LinearOrder F] [Double F]

def Mirrored (s : MempoolImpl F) : Prop := mirror s.notified = s.transactions.keySet

instance decidableMirrored (s : MempoolImpl F) : Decidable (Mirrored s) :=
  inferInstanceAs (Decidable (_ = _))

/-- both callbacks are set, and what they report is noted from now on -/
def watched (s : MempoolImpl F) : MempoolImpl F :=
  { s with onTransactionAdded := true, onTransactionRemoved := true, notified := [] }

/-- both callbacks are set -/
def Heard (s : MempoolImpl F) : Prop :=
  s.onTransactionAdded = true ∧ s.onTransactionRemoved = true

/-- the call does not take a callback away -/
def Call.keepsCallbacks (c : Call F) : Prop :=
  match c.method with
  | .setTransactionAddedCallback set => set = true
  | .setTransactionRemovedCallback set => set = true
  | _ => True

/-- the call changes the pooled hashes and reports nothing: `clear` of a pool that is not empty, or
a replacement that takes an entry out and then fails, or puts the new one under another hash -/
def Call.silent (H : List UInt8 → Hash) (s : MempoolImpl F) (c : Call F) : Bool :=
  match c.method with
  | .clear => !s.transactions.entries.isEmpty
  | .replaceTransaction tx =>
    s.losesOld H tx || (s.replaces H tx).any fun old => tx.calculateHash H != old.1
  | _ => false

/-! ## the calls that report -/

section
variable {H : List UInt8 → Hash} {s t : MempoolImpl F}

theorem dropEntry_notified (h : Hash) (e : MempoolEntry F) :
    (s.dropEntry h e).notified = s.notified := by
  show (s.removeAccountNonce _ _).notified = _
  rw [MempoolImpl.removeAccountNonce_frame]

theorem heard_iff_settings : Heard s ↔ (settings s).2 = (true, true) := by
  unfold Heard settings
  rw [Prod.mk.injEq]

theorem Removals.heard (h : Removals s t) (hs : Heard s) : Heard t := by
  rw [heard_iff_settings] at hs ⊢
  rw [h.settings_eq]
  exact hs

theorem Removals.mirrored (h : Removals s t) (hs : Heard s) (hm : Mirrored s) : Mirrored t := by
  induction h with
  | refl => exact hm
  | @tail t k e ht _ ih =>
    have hr : (t.dropEntry k e).rebuildPriorityQueue.onTransactionRemoved = true := by
      have hset : settings (t.dropEntry k e) = settings s :=
        (settings_dropEntry t k e).trans ht.settings_eq
      exact (congrArg (·.2.2) hset).trans hs.2
    have hn : (t.removeEntry k e).notified = t.notified ++ [.removed k] := by
      unfold MempoolImpl.removeEntry MempoolImpl.notifyRemoved
      rw [if_pos hr]
      show (t.dropEntry k e).notified ++ _ = _
      rw [dropEntry_notified]
    unfold Mirrored at ih ⊢
    rw [hn, mirror_concat, removeEntry_transactions, UMap.keySet_erase, ← ih]
    rfl

theorem accept_mirrored (clock : Nat → UInt64) (tx : Transaction) (hs : Heard s)
    (hm : Mirrored s) : Mirrored (s.accept H clock tx) := by
  have hn : (s.accept H clock tx).notified = s.notified ++ [.added (tx.calculateHash H)] := by
    unfold MempoolImpl.accept MempoolImpl.notifyAdded
    rw [if_pos (show (s.enter _ _).onTransactionAdded = true from hs.1)]
    rfl
  unfold Mirrored at hm ⊢
  rw [hn, mirror_concat, accept_transactions, UMap.keySet_insert, ← hm]
  rfl

/-! ## the calls that do not -/

theorem Mirrored.unreported_iff (hm : Mirrored s) (hn : t.notified = s.notified) :
    Mirrored t ↔ t.transactions.keySet = s.transactions.keySet := by
  unfold Mirrored at hm ⊢
  rw [hn, hm]
  exact eq_comm

theorem clear_mirrored_iff (hm : Mirrored s) :
    Mirrored s.clear ↔ (!s.transactions.entries.isEmpty) = false := by
  refine (hm.unreported_iff (t := s.clear) rfl).trans ?_
  show ∅ = s.transactions.keys.toFinset ↔ _
  rw [eq_comm, List.toFinset_eq_empty_iff, Bool.not_eq_false', List.isEmpty_iff]
  exact List.map_eq_nil_iff

theorem replaceTransaction_mirrored_iff (clock : Nat → UInt64) (tx : Transaction)
    (hm : Mirrored s) :
    Mirrored (s.replaceTransaction H clock tx).2 ↔
      Call.silent H s ⟨.replaceTransaction tx, clock⟩ = false := by
  have hcases := s.replaceTransaction_cases H clock tx
  unfold Call.silent MempoolImpl.losesOld
  dsimp only
  generalize s.replaceTransaction H clock tx = r at hcases ⊢
  cases hcases with
  | refused he hr hp =>
    rw [hr, hp]
    exact ⟨fun _ => rfl, fun _ => hm⟩
  | lost oldHash old hold hr hp hv =>
    rw [hr, hp, hm.unreported_iff (dropEntry_notified oldHash old), s.dropEntry_transactions,
      UMap.keySet_erase, Finset.erase_eq_self]
    exact ⟨fun h => absurd (UMap.mem_keySet.mpr ⟨old, hold⟩) h, fun h => by cases h⟩
  | done oldHash old hold hr hp hv =>
    rw [hr, hp]
    refine Iff.trans (hm.unreported_iff ?_) ?_
    · exact dropEntry_notified oldHash old
    show UMap.keySet ((s.dropEntry oldHash old).transactions.insert _ _) = _ ↔
      (tx.calculateHash H != oldHash) = false
    rw [s.dropEntry_transactions, UMap.keySet_exchange_iff hold, bne_eq_false_iff_eq]

end

/-! ## one call and runs -/

section
variable (H : List UInt8 → Hash) {s : MempoolImpl F} {c : Call F}

theorem step_heard (hs : Heard s) (hc : c.keepsCallbacks) : Heard (step H s c) := by
  rw [heard_iff_settings, step_settings]
  obtain ⟨m, clock⟩ := c
  cases m with
  | setTransactionAddedCallback set => exact Prod.ext hc hs.2
  | setTransactionRemovedCallback set => exact Prod.ext hs.1 hc
  | _ => exact heard_iff_settings.mp hs

/-- **One call**: from a pool that a subscriber knows, to one that it knows, exactly if the call is
not silent. -/
theorem step_mirrored_iff (hs : Heard s) (hm : Mirrored s) :
    Mirrored (step H s c) ↔ c.silent H s = false := by
  have reported : ∀ {t : MempoolImpl F}, Mirrored t → (Mirrored t ↔ false = false) :=
    fun h => ⟨fun _ => rfl, fun _ => h⟩
  obtain ⟨m, clock⟩ := c
  cases m with
  | addTransaction tx =>
    refine reported ?_
    show Mirrored (s.addTransaction H clock tx).2
    rcases addTransaction_moves H s clock tx with ⟨_, hr⟩ | ⟨_, t, _, hr, _, _, _, e⟩
    · exact hr.mirrored hs hm
    · rw [e]
      exact accept_mirrored clock tx (hr.heard hs) (hr.mirrored hs hm)
  | removeTransaction h => exact reported ((s.removeTransaction_removals h).mirrored hs hm)
  | replaceTransaction tx => exact replaceTransaction_mirrored_iff clock tx hm
  | evictExpiredTransactions => exact reported ((s.removeAll_removals _).mirrored hs hm)
  | evictLowFeeTransactions =>
    exact reported (s.evictLowFeeTransactions_removals.mirrored hs hm)
  | clear => exact clear_mirrored_iff hm
  | setConfig _ => exact reported hm
  | setTransactionAddedCallback _ => exact reported hm
  | setTransactionRemovedCallback _ => exact reported hm

end

/-- **The callbacks mirror the pool exactly as long as no call is silent**: in every run after both
are set on an empty pool. -/
theorem callbacks_mirror_iff (H : List UInt8 → Hash) (config : MempoolConfig F)
    (before calls : List (Call F)) (hempty : (poolAfter H config before).transactions = ∅)
    (hkeep : ∀ c ∈ calls, c.keepsCallbacks) :
    EveryState (step H) Mirrored (watched (poolAfter H config before)) calls ↔
      EveryStep (step H) (fun s c => c.silent H s = false) (watched (poolAfter H config before))
        calls := by
  refine everyState_iff_of Heard (D := fun _ c => c.keepsCallbacks)
    (fun s c hs hc => step_heard H hs hc) (fun s c hs _ hm => step_mirrored_iff H hs hm) calls
    ⟨rfl, rfl⟩ ?_ (everyStep_of_forall (fun _ => hkeep) _)
  show ∅ = UMap.keySet (poolAfter H config before).transactions
  rw [hempty]
  rfl

end

/-! ## a silent replacement -/

/-- a transaction is added, and replaced by one to another recipient -/
def silentRun : List (Call ℚ) :=
  oneAddition ++ [⟨.replaceTransaction (sampleTx 3 1 20), fun _ => 0⟩]

theorem callbacks_mirror_sample :
    EveryState (step hashSha256) Mirrored
        (watched (poolAfter hashSha256 (MempoolConfig.default (F := ℚ)) [])) silentRun ↔
      EveryStep (step hashSha256) (fun s c => c.silent hashSha256 s = false)
        (watched (poolAfter hashSha256 (MempoolConfig.default (F := ℚ)) [])) silentRun := by
  refine callbacks_mirror_iff hashSha256 MempoolConfig.default [] silentRun rfl ?_
  intro c hc
  rcases List.mem_append.mp hc with hc | hc
  · cases List.mem_singleton.mp hc
    trivial
  · cases List.mem_singleton.mp hc
    trivial

theorem silent_replacement :
    ¬ EveryState (step hashSha256) Mirrored
      (watched (poolAfter hashSha256 (MempoolConfig.default (F := ℚ)) [])) silentRun := by
  rintro ⟨_, _, h⟩
  refine absurd h ?_
  show ¬ Mirrored _
  decide +kernel

end Mempool
end ChainForge
