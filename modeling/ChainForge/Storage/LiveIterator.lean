import ChainForge.Storage.MemoryDatabase
import ChainForge.Lib.Machine

/-!
# An iterator over a database that changes

Calls of the database and of one of its iterators, in any order.  The state keeps every content that
the database has had since the iterator was created, those in the middle of a `write` included.

* `key_at_creation`   the keys are those of the creation: every key shown was stored then;
* `sound_iff`         a pair shown was stored, unless its key is gone and the empty value that stands in
                      for it was never stored under that key;
* `live_pairs_iff`    **the same for whole runs**.
-/

set_option linter.unusedSectionVars false

namespace ChainForge
namespace Storage
open Machine

inductive LiveCall where
  | put (key : Key) (value : Value)
  | remove (key : Key)
  | write (batch : Option MemoryWriteBatch)
  | seekToFirst
  | seekToLast
  | seek (key : Key)
  | next
  | prev

structure Live where
  db : MemoryDatabase
  it : MemoryIterator
  /-- the contents since the creation of the iterator -/
  contents : List (UMap Key Value)

namespace Live

def start (db : MemoryDatabase) : Option Live :=
  db.newIterator.map fun it => ⟨db, it, [db.data]⟩

/-- a batch is applied operation by operation -/
def batchContents (db : MemoryDatabase) : Option MemoryWriteBatch → List (UMap Key Value)
  | none => []
  | some operations => operations.scanl Operation.apply db.data

def step (s : Live) : LiveCall → Live
  | .put key value =>
    let db := (s.db.put key value).2
    { s with db, contents := db.data :: s.contents }
  | .remove key =>
    let db := (s.db.remove key).2
    { s with db, contents := db.data :: s.contents }
  | .write batch =>
    let db := (s.db.write batch).2
    { s with db, contents := db.data :: (batchContents s.db batch ++ s.contents) }
  | .seekToFirst => { s with it := s.it.seekToFirst }
  | .seekToLast => { s with it := s.it.seekToLast }
  | .seek key => { s with it := s.it.seek key }
  | .next => { s with it := s.it.next }
  | .prev => { s with it := s.it.prev }

/-- the pair was stored at some moment since the creation of the iterator -/
def WasStored (s : Live) (key : Key) (value : Value) : Prop :=
  ∃ data ∈ s.contents, data.lookup key = some value

instance decidableWasStored (s : Live) (key : Key) (value : Value) :
    Decidable (s.WasStored key value) :=
  inferInstanceAs (Decidable (∃ data ∈ s.contents, data.lookup key = some value))

/-- what the iterator shows was stored -/
def Sound (s : Live) : Prop :=
  s.it.valid = true → s.WasStored s.it.key (s.it.value s.db.data)

/-- the iterator stands on a key that is still there, or that once held the empty value -/
def Anchored (s : Live) : Prop :=
  s.it.valid = true →
    (∃ value, s.db.data.lookup s.it.key = some value) ∨ s.WasStored s.it.key []

/-! ## steps -/

/-- the present content is one of those kept -/
theorem step_present (s : Live) (c : LiveCall) (h : s.db.data ∈ s.contents) :
    (s.step c).db.data ∈ (s.step c).contents := by
  cases c with
  | put key value => exact List.mem_cons_self
  | remove key => exact List.mem_cons_self
  | write batch => exact List.mem_cons_self
  | seekToFirst => exact h
  | seekToLast => exact h
  | seek key => exact h
  | next => exact h
  | prev => exact h

theorem step_keys (s : Live) (c : LiveCall) : (s.step c).it.keys = s.it.keys := by
  cases c <;> rfl

theorem key_mem {it : MemoryIterator} (h : it.valid = true) : it.key ∈ it.keys := by
  have hlt : it.currentIndex.toNat < it.keys.length := by
    unfold MemoryIterator.valid at h
    rw [Bool.and_eq_true, decide_eq_true_iff, decide_eq_true_iff] at h
    exact h.2
  unfold MemoryIterator.key
  rw [h, List.getD_eq_getElem?_getD, List.getElem?_eq_getElem hlt]
  exact List.getElem_mem hlt

/-- the value is the one stored under the key, or the empty one -/
theorem value_eq {it : MemoryIterator} (h : it.valid = true) (data : UMap Key Value) :
    it.value data = (data.lookup it.key).getD [] := by
  have hkey : it.key = it.keys.getD it.currentIndex.toNat [] := by
    simp [MemoryIterator.key, h]
  rw [hkey]
  unfold MemoryIterator.value
  simp only [h, Bool.not_true, Bool.false_eq_true, if_false]
  cases data.lookup (it.keys.getD it.currentIndex.toNat []) <;> rfl

theorem sound_iff (s : Live) (h : s.db.data ∈ s.contents) : s.Sound ↔ s.Anchored := by
  refine forall_congr' fun hv => ?_
  rw [value_eq hv]
  cases hl : s.db.data.lookup s.it.key with
  | none =>
    constructor
    · intro hs
      exact Or.inr hs
    · rintro (⟨_, hk⟩ | hs)
      · cases hk
      · exact hs
  | some value =>
    constructor
    · intro _
      exact Or.inl ⟨value, rfl⟩
    · intro _
      exact ⟨s.db.data, h, hl⟩

/-! ## runs -/

/-- **No key is invented**: whatever happens to the database, a key shown is one that it held when the
iterator was created. -/
theorem key_at_creation (db : MemoryDatabase) (s : Live) (hs : start db = some s)
    (calls : List LiveCall) :
    EveryState step (fun t => t.it.valid = true → ∃ value, db.data.lookup t.it.key = some value)
      s calls := by
  unfold start MemoryDatabase.newIterator at hs
  split at hs
  · cases hs
  · cases Option.some.inj hs
    refine (everyState_of_inv (fun t : Live => t.it.keys = (MemoryIterator.make db.data).keys)
      (fun t c ht => (step_keys t c).trans ht) calls rfl).imp fun t ht hv => ?_
    have hk := key_mem hv
    rw [ht] at hk
    exact MemoryIterator.mem_make.mp hk

/-- **Values are invented for removed keys only**: along a run every pair shown was stored at some
moment exactly when the iterator is never seen on a key that is gone, unless the empty value was
stored under it. -/
theorem live_pairs_iff (db : MemoryDatabase) (s : Live) (hs : start db = some s)
    (calls : List LiveCall) :
    EveryState step Sound s calls ↔ EveryState step Anchored s calls := by
  have hpresent : s.db.data ∈ s.contents := by
    obtain ⟨it, _, e⟩ := Option.map_eq_some_iff.mp hs
    rw [← e]
    exact List.mem_cons_self
  exact everyState_congr (fun t => t.db.data ∈ t.contents) step_present sound_iff calls hpresent

/-! ## a key removed under the iterator -/

/-- a database with the key `[1]` -/
def oneKey : MemoryDatabase where
  data := (∅ : UMap Key Value).insert [1] [10]
  isOpen := true

theorem live_pairs_oneKey : ∃ s, start oneKey = some s ∧
    (EveryState step Sound s [.seekToFirst, .put [1] [11]] ↔
      EveryState step Anchored s [.seekToFirst, .put [1] [11]]) :=
  ⟨_, rfl, live_pairs_iff oneKey _ rfl [.seekToFirst, .put [1] [11]]⟩

/-- the key is removed under the iterator, which then shows the empty value -/
theorem removed_key_shown : ∃ s, start oneKey = some s ∧
    let t := run step s [.seekToFirst, .remove [1]]
    t.it.valid = true ∧ t.it.key = [1] ∧ t.it.value t.db.data = [] ∧ ¬ t.WasStored [1] [] := by
  refine ⟨_, rfl, ?_⟩
  decide +kernel

end Live

end Storage
end ChainForge
