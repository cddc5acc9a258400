import ChainForge.Storage.MemoryDatabase

/-!
# Scans of a database that nobody changes

The positions of an iterator over fewer than `2^31` keys are the numbers below the number of keys,
and one more where it is not valid (`MemoryIterator.position`).

* `next_position`, `prev_position`   the moves between them;
* `item_position`   the pair that is shown at each;
* `full_scans`      **`seek_to_first`/`next` and `seek_to_last`/`prev` show every stored pair once**, in
                    ascending and in descending order, and `prev` undoes `next`;
* `range_scan_iff`  **`seek` starts a range scan only at a stored key**: where the key is absent and a
                    larger one is stored, the iterator is not valid and nothing is shown.
-/

set_option linter.unusedSectionVars false

namespace ChainForge
namespace Storage
open Cursor

/-- the stored pairs whose key meets `p`, in ascending byte order of the keys -/
structure Ascending (data : UMap Key Value) (p : Key → Prop) (pairs : List (Key × Value)) : Prop where
  sorted : pairs.Pairwise fun a b => a.1 < b.1
  mem : ∀ key value, (key, value) ∈ pairs ↔ data.lookup key = some value ∧ p key

namespace MemoryIterator

/-! ## positions -/

/-- the iterator at its `i`-th key, or nowhere if there is none -/
def position (it : MemoryIterator) (i : Nat) : MemoryIterator :=
  { it with currentIndex := if i < it.keys.length then i else -1 }

section
variable {it : MemoryIterator} {data : UMap Key Value}

theorem position_of_lt {i : Nat} (h : i < it.keys.length) :
    it.position i = { it with currentIndex := i } := by
  unfold position
  rw [if_pos h]

theorem position_of_le {i : Nat} (h : it.keys.length ≤ i) :
    it.position i = { it with currentIndex := -1 } := by
  unfold position
  rw [if_neg (Nat.not_lt.mpr h)]

theorem valid_position (i : Nat) : (it.position i).valid = decide (i < it.keys.length) := by
  unfold valid position
  by_cases h : i < it.keys.length <;> simp [h]

theorem position_of_valid (h : it.valid = true) :
    ∃ i < it.keys.length, it = it.position i := by
  unfold valid at h
  rw [Bool.and_eq_true, decide_eq_true_iff, decide_eq_true_iff] at h
  refine ⟨it.currentIndex.toNat, h.2, ?_⟩
  rw [position_of_lt h.2, Int.toNat_of_nonneg h.1]

theorem seekToFirst_eq : it.seekToFirst = it.position 0 := by
  unfold seekToFirst position
  cases it.keys <;> rfl

theorem next_position (hsize : it.keys.length < 2 ^ 31) {i : Nat} (hi : i < it.keys.length) :
    (it.position i).next = it.position (i + 1) := by
  have hlast : (UInt64.ofNat it.keys.length - 1).toNat = it.keys.length - 1 := by
    have hlen : (UInt64.ofNat it.keys.length).toNat = it.keys.length :=
      UInt64.toNat_ofNat_of_lt' (by change it.keys.length < 2 ^ 64; omega)
    rw [UInt64.toNat_sub_of_le _ _ (by rw [UInt64.le_iff_toNat_le, hlen]; exact Nat.one_le_of_lt hi),
      hlen]
    rfl
  rw [position_of_lt hi]
  unfold next
  dsimp only
  rw [hlast, Int.toNat_natCast]
  by_cases h : i + 1 < it.keys.length
  · rw [position_of_lt h, if_pos ⟨Int.natCast_nonneg i, by omega⟩]
    exact congrArg (MemoryIterator.mk it.keys) (toInt_of_lt (n := i + 1) (by omega))
  · rw [position_of_le (by omega), if_neg (fun hc => h (by omega))]

theorem prev_position {i : Nat} (hi : i < it.keys.length) :
    (it.position i).prev = if i = 0 then it.position it.keys.length else it.position (i - 1) := by
  rw [position_of_lt hi]
  unfold prev
  dsimp only
  by_cases h : i = 0
  · rw [if_pos h, position_of_le (Nat.le_refl _), if_neg (by omega)]
  · rw [if_neg h, position_of_lt (by omega), if_pos (by omega)]
    congr 1
    omega

theorem seekToLast_eq (hsize : it.keys.length < 2 ^ 31) :
    it.seekToLast = it.position (it.keys.length - 1) := by
  unfold seekToLast
  cases hk : it.keys with
  | nil =>
    rw [position_of_le (by rw [hk]; exact Nat.zero_le _), hk]
    rfl
  | cons k l =>
    have hlt : (k :: l).length - 1 < it.keys.length := by
      rw [hk]
      exact Nat.lt_succ_self _
    rw [position_of_lt hlt, hk, toInt_of_lt (by omega)]
    rfl

/-- the position that `seek` finds, or none -/
theorem seek_eq (hsize : it.keys.length < 2 ^ 31) (hsorted : it.keys.Pairwise (· < ·)) (key : Key) :
    it.seek key
      = if key ∈ it.keys then it.position (lowerBound it.keys key) else it.position it.keys.length := by
  have hfound := getElem?_lowerBound (k := key) hsorted
  unfold seek
  dsimp only
  by_cases h : key ∈ it.keys
  · have hlt : lowerBound it.keys key < it.keys.length := by
      obtain ⟨hlt, _⟩ := List.getElem?_eq_some_iff.mp (hfound.mpr h)
      exact hlt
    rw [if_pos h, if_pos (hfound.mpr h), position_of_lt hlt, toInt_of_lt (by omega)]
  · rw [if_neg h, if_neg (mt hfound.mp h), position_of_le (Nat.le_refl _)]

/-! ## the pairs shown -/

/-- the keys of the iterator, each with what the data hold for it -/
def pairs (it : MemoryIterator) (data : UMap Key Value) : List (Key × Value) :=
  it.keys.map fun key => (key, (data.lookup key).getD [])

theorem pairs_length : (it.pairs data).length = it.keys.length := List.length_map _

theorem item_position (i : Nat) : (it.position i).item data = (it.pairs data)[i]? := by
  unfold item
  rw [valid_position, pairs, List.getElem?_map]
  by_cases h : i < it.keys.length
  · have hv : (it.position i).valid = true := by
      rw [valid_position, decide_eq_true_iff]
      exact h
    have hk : (it.position i).keys.getD (it.position i).currentIndex.toNat [] = it.keys[i] := by
      rw [position_of_lt h, List.getD_eq_getElem?_getD]
      exact congrArg (·.getD []) (List.getElem?_eq_getElem h)
    rw [if_pos (decide_eq_true h), List.getElem?_eq_getElem h, key, value, hv, hk]
    cases hl : data.lookup it.keys[i] with
    | none => simp [hl]
    | some v => simp [hl]
  · rw [if_neg (by simpa using h), List.getElem?_eq_none (Nat.not_lt.mp h)]
    rfl

/-- what is left of the pairs from a position on -/
theorem yields_next (hsize : it.keys.length < 2 ^ 31) {i : Nat} (hi : i ≤ it.keys.length) :
    Yields (item data) next (it.position i) ((it.pairs data).drop i) := by
  have hi' : i ≤ (it.pairs data).length := by rwa [pairs_length]
  refine yields_drop (fun i _ => item_position i) (fun i hi => ?_) hi'
  rw [pairs_length] at hi
  exact next_position hsize hi

theorem yields_prev (hsize : it.keys.length < 2 ^ 31) :
    Yields (item data) prev it.seekToLast (it.pairs data).reverse := by
  -- the positions from the last one down, then the one that is not valid
  let back : Nat → MemoryIterator := fun j =>
    if j < it.keys.length then it.position (it.keys.length - 1 - j) else it.position it.keys.length
  have hstart : it.seekToLast = back 0 := by
    rw [seekToLast_eq hsize]
    show _ = if 0 < it.keys.length then _ else _
    split
    · rfl
    · rw [position_of_le (by omega), position_of_le (Nat.le_refl _)]
  rw [hstart]
  apply yields_all
  · intro j _
    show item data (if j < it.keys.length then _ else _) = _
    split
    case isTrue hj =>
      rw [item_position, List.getElem?_reverse (by rwa [pairs_length]), pairs_length]
    case isFalse hj =>
      rw [item_position, List.getElem?_eq_none (by rw [pairs_length]),
        List.getElem?_eq_none (by rw [List.length_reverse, pairs_length]; omega)]
  · intro j hj
    rw [List.length_reverse, pairs_length] at hj
    show prev (if j < it.keys.length then _ else _) = if j + 1 < it.keys.length then _ else _
    rw [if_pos hj, prev_position (by omega)]
    by_cases h : j + 1 < it.keys.length
    · rw [if_neg (by omega), if_pos h]
      congr 1
    · rw [if_pos (by omega), if_neg h]

/-- `prev` undoes `next` -/
theorem prev_next (hsize : it.keys.length < 2 ^ 31) (hv : it.valid = true)
    (hv' : it.next.valid = true) : it.next.prev = it := by
  obtain ⟨i, hi, e⟩ := position_of_valid hv
  rw [e, next_position hsize hi] at hv' ⊢
  rw [valid_position, decide_eq_true_iff] at hv'
  rw [prev_position hv', if_neg (Nat.succ_ne_zero i)]
  rfl

end

/-! ## a new iterator -/

section
variable {data : UMap Key Value}

theorem pairs_eq_iff (key : Key) (value : Value) :
    (key, value) ∈ (make data).pairs data ↔ data.lookup key = some value := by
  unfold pairs
  rw [List.mem_map]
  constructor
  · rintro ⟨k, hk, e⟩
    obtain ⟨v, hv⟩ := mem_make.mp hk
    rw [hv] at e
    cases e
    exact hv
  · intro h
    exact ⟨key, mem_make.mpr ⟨value, h⟩, by rw [h]; rfl⟩

theorem pairs_sorted : ((make data).pairs data).Pairwise fun a b => a.1 < b.1 :=
  List.pairwise_map.mpr (make_sorted data)

theorem ascending_pairs : Ascending data (fun _ => True) ((make data).pairs data) where
  sorted := pairs_sorted
  mem key value := by rw [pairs_eq_iff, and_true]

theorem ascending_nil_iff {p : Key → Prop} :
    Ascending data p [] ↔ ∀ key value, data.lookup key = some value → ¬ p key := by
  constructor
  · intro h key value hl hp
    exact List.not_mem_nil ((h.mem key value).mpr ⟨hl, hp⟩)
  · intro h
    refine ⟨List.Pairwise.nil, fun key value => ?_⟩
    simp only [List.not_mem_nil, false_iff, not_and]
    exact h key value

/-- from the lower bound on, the pairs are those with a key that is not smaller -/
theorem ascending_drop (key : Key) : Ascending data (key ≤ ·)
    (((make data).pairs data).drop (lowerBound (make data).keys key)) where
  sorted := pairs_sorted.drop
  mem k v := by
    have hdrop : ((make data).pairs data).drop (lowerBound (make data).keys key)
        = ((make data).pairs data).filter fun p => decide (key ≤ p.1) := by
      unfold pairs
      rw [← List.map_drop, drop_lowerBound (make_sorted data), List.filter_map]
      rfl
    rw [hdrop, List.mem_filter, pairs_eq_iff, decide_eq_true_iff]

end

end MemoryIterator

open MemoryIterator

theorem MemoryDatabase.newIterator_eq {db : MemoryDatabase} {it : MemoryIterator}
    (h : db.newIterator = some it) : it = MemoryIterator.make db.data := by
  unfold newIterator at h
  split at h
  · cases h
  · exact (Option.some.inj h).symm

/-! ## scans -/

/-- **Full scans are complete in both directions**, and `next` followed by `prev` returns. -/
theorem full_scans (db : MemoryDatabase) (it : MemoryIterator) (hopen : db.newIterator = some it)
    (hsize : db.data.entries.length < 2 ^ 31) :
    (∃ pairs, Ascending db.data (fun _ => True) pairs ∧
      Yields (item db.data) next it.seekToFirst pairs ∧
      Yields (item db.data) prev it.seekToLast pairs.reverse) ∧
    ∀ pos : MemoryIterator, pos.keys = it.keys → pos.valid = true → pos.next.valid = true →
      pos.next.prev = pos := by
  have e := db.newIterator_eq hopen
  have hlen : it.keys.length < 2 ^ 31 := by
    rw [e, make_length]
    exact hsize
  refine ⟨⟨it.pairs db.data, ?_, ?_, yields_prev hlen⟩, ?_⟩
  · rw [e]
    exact ascending_pairs
  · rw [seekToFirst_eq]
    exact yields_next hlen (Nat.zero_le _)
  · intro pos hkeys hv hv'
    exact prev_next (by rw [hkeys]; exact hlen) hv hv'

/-- **A range scan from `seek(key)` is complete exactly when the key is stored or nothing lies above
it.** -/
theorem range_scan_iff (db : MemoryDatabase) (it : MemoryIterator) (hopen : db.newIterator = some it)
    (hsize : db.data.entries.length < 2 ^ 31) (key : Key) :
    (∃ pairs, Yields (item db.data) next (it.seek key) pairs ∧ Ascending db.data (key ≤ ·) pairs) ↔
      (∃ value, db.data.lookup key = some value) ∨
        ∀ key' value, db.data.lookup key' = some value → key' < key := by
  have e := db.newIterator_eq hopen
  have hlen : it.keys.length < 2 ^ 31 := by
    rw [e, make_length]
    exact hsize
  have hsorted : it.keys.Pairwise (· < ·) := by
    rw [e]
    exact make_sorted db.data
  have hmem : ∀ k, k ∈ it.keys ↔ ∃ value, db.data.lookup k = some value := by
    intro k
    rw [e]
    exact mem_make
  rw [seek_eq hlen hsorted, ← hmem key]
  by_cases h : key ∈ it.keys
  · rw [if_pos h]
    refine ⟨fun _ => Or.inl h, fun _ => ⟨_, yields_next hlen (lowerBound_le _ _), ?_⟩⟩
    rw [e]
    exact ascending_drop key
  · -- the iterator is not valid, so the scan shows nothing
    have hnone : item db.data (it.position it.keys.length) = none := by
      rw [item_position, List.getElem?_eq_none (by rw [pairs_length])]
    simp only [if_neg h, or_iff_right h, yields_of_none hnone, exists_eq_left]
    rw [ascending_nil_iff]
    simp only [not_le]

/-! ## two keys -/

/-- a database with the keys `[1]` and `[3]` -/
def twoKeys : MemoryDatabase where
  data := ((∅ : UMap Key Value).insert [1] [10]).insert [3] [30]
  isOpen := true

theorem full_scans_twoKeys :
    (∃ pairs, Ascending twoKeys.data (fun _ => True) pairs ∧
      Yields (item twoKeys.data) next (make twoKeys.data).seekToFirst pairs ∧
      Yields (item twoKeys.data) prev (make twoKeys.data).seekToLast pairs.reverse) ∧
    ∀ pos : MemoryIterator, pos.keys = (make twoKeys.data).keys → pos.valid = true →
      pos.next.valid = true → pos.next.prev = pos :=
  full_scans twoKeys (make twoKeys.data) rfl (by decide)

theorem range_scan_twoKeys :
    (∃ pairs, Yields (item twoKeys.data) next ((make twoKeys.data).seek [3]) pairs ∧
      Ascending twoKeys.data ([3] ≤ ·) pairs) ↔
      (∃ value, twoKeys.data.lookup [3] = some value) ∨
        ∀ key' value, twoKeys.data.lookup key' = some value → key' < [3] :=
  range_scan_iff twoKeys (make twoKeys.data) rfl (by decide) [3]

/-- from key `[2]`, which is not stored, the scan misses the pair at `[3]` -/
theorem range_scan_misses :
    twoKeys.newIterator = some (make twoKeys.data) ∧
    twoKeys.data.lookup [3] = some [30] ∧ ([2] : Key) ≤ [3] ∧
      Yields (item twoKeys.data) next ((make twoKeys.data).seek [2]) [] := by
  refine ⟨rfl, rfl, by decide, ?_⟩
  show item twoKeys.data ((make twoKeys.data).seek [2]) = none
  decide +kernel

end Storage
end ChainForge
