import Mathlib.Data.List.AList
import Mathlib.Data.List.Perm.Subperm
import Mathlib.Data.Finset.Dedup
import Mathlib.Data.Finset.Insert
import Mathlib.Data.Finset.Basic
import Mathlib.Algebra.Order.BigOperators.Group.List
import Mathlib.Algebra.Order.Group.Nat
import Mathlib.Algebra.GroupWithZero.Nat
import Mathlib.Logic.Function.Basic

/-!
# Keyed records with a secondary index

* `UMap κ α`           a map with unique keys, held in the order in which it is iterated;
* `UMap.keySet m`      the keys of a map as a finite set;
* `UMap.total w m`     the sum of the weights `w` of the values of a map;
* `IndexedStore κ ι α` records under keys `κ`, and next to them an index from an attribute of the
                       record (`attr : α → ι`) back to the key.  The two parts are written
                       separately: `drop` takes a record and its index entry out, `put` writes
                       both, whatever the key held before;
* `Indexed`            every record is found through its own attribute;
* `Exact`              every index entry names a record with that attribute;
* `Drops s t`          `t` comes from `s` by dropping records;
* `dropAll ks s`       the records under the keys `ks` are dropped, one after the other.

`Indexed` survives every drop and every `put` under an unused attribute.  `Exact` survives every
drop, and it survives such a `put` exactly when the key was free (`Exact.put_iff`).
-/

set_option linter.unusedSectionVars false

abbrev UMap (κ α : Type) := AList (fun _ : κ => α)

namespace UMap
variable {κ α : Type} [DecidableEq κ]

theorem lookup_insert (m : UMap κ α) (k k' : κ) (v : α) :
    (m.insert k v).lookup k' = if k' = k then some v else m.lookup k' := by
  by_cases h : k' = k
  · subst h
    rw [if_pos rfl, AList.lookup_insert]
  · rw [if_neg h, AList.lookup_insert_ne h]

theorem lookup_erase (m : UMap κ α) (k k' : κ) :
    (m.erase k).lookup k' = if k' = k then none else m.lookup k' := by
  by_cases h : k' = k
  · subst h
    rw [if_pos rfl, AList.lookup_erase]
  · rw [if_neg h, AList.lookup_erase_ne h]

theorem mem_entries (m : UMap κ α) (k : κ) (v : α) :
    (⟨k, v⟩ : Sigma fun _ : κ => α) ∈ m.entries ↔ m.lookup k = some v :=
  AList.mem_lookup_iff.symm

theorem mem_keys (m : UMap κ α) (k : κ) : k ∈ m.keys ↔ ∃ v, m.lookup k = some v := by
  rw [← AList.mem_keys, ← AList.lookup_isSome, Option.isSome_iff_exists]

theorem lookup_of_isEmpty (m : UMap κ α) (h : m.entries.isEmpty = true) (k : κ) :
    m.lookup k = none := by
  have e : m.entries = [] := List.isEmpty_iff.mp h
  rw [AList.lookup_eq_none, AList.mem_keys, AList.keys, e]
  exact List.not_mem_nil

theorem erase_perm {m : UMap κ α} {k : κ} {v : α} (h : m.lookup k = some v) :
    m.entries.Perm (⟨k, v⟩ :: (m.erase k).entries) := by
  have hk : k ∈ m.entries.keys := (mem_keys m k).mpr ⟨v, h⟩
  obtain ⟨b, l₁, l₂, _, he, hk'⟩ := List.exists_of_kerase hk
  have hb : m.lookup k = some b := by
    rw [← mem_entries, he]
    exact List.mem_append_right _ List.mem_cons_self
  have hbv : b = v := Option.some.inj (hb.symm.trans h)
  show m.entries.Perm (⟨k, v⟩ :: m.entries.kerase k)
  rw [hk', he, hbv]
  exact List.perm_middle

theorem insert_fresh {m : UMap κ α} {k : κ} (v : α) (h : m.lookup k = none) :
    (m.insert k v).entries = ⟨k, v⟩ :: m.entries :=
  AList.entries_insert_of_notMem (AList.lookup_eq_none.mp h)

theorem erase_of_none {m : UMap κ α} {k : κ} (h : m.lookup k = none) : m.erase k = m :=
  AList.ext (List.kerase_of_notMem_keys (AList.lookup_eq_none.mp h))

theorem lookup_of_erase {m : UMap κ α} {k k' : κ} {v : α} (h : (m.erase k).lookup k' = some v) :
    m.lookup k' = some v := by
  rw [lookup_erase] at h
  split at h
  · cases h
  · exact h

/-- pairs put into a map one after the other: the last one with a key wins -/
theorem lookup_foldl_insert [BEq κ] [LawfulBEq κ] (l : List (κ × α)) (m : UMap κ α) (k : κ) :
    (l.foldl (fun m p => m.insert p.1 p.2) m).lookup k = (l.reverse.lookup k).or (m.lookup k) := by
  induction l using List.reverseRecOn with
  | nil => rfl
  | append_singleton l p ih =>
    rw [List.foldl_append, List.foldl_cons, List.foldl_nil, lookup_insert, ih, List.reverse_append,
      List.reverse_singleton, List.singleton_append, List.lookup_cons]
    by_cases e : k = p.1
    · simp [e]
    · rw [if_neg e, beq_eq_false_iff_ne.mpr e]

/-- a map copied entry by entry -/
theorem lookup_copy (m : UMap κ α) (k : κ) :
    AList.lookup k (m.entries.foldl (fun n p => AList.insert p.1 p.2 n) (∅ : UMap κ α)) = m.lookup k := by
  have key : ∀ (l : List (Sigma fun _ : κ => α)) (n : UMap κ α), l.NodupKeys →
      AList.lookup k (l.foldl (fun n p => AList.insert p.1 p.2 n) n)
        = (l.dlookup k).or (n.lookup k) := by
    intro l
    induction l with
    | nil => exact fun n _ => rfl
    | cons p l ih =>
      intro n hl
      obtain ⟨hp, hl⟩ := List.nodupKeys_cons.mp hl
      rw [List.foldl_cons, ih _ hl, lookup_insert]
      by_cases e : k = p.1
      · subst e
        rw [List.dlookup_eq_none.mpr hp, if_pos rfl, List.dlookup_cons_eq]
        rfl
      · rw [if_neg e, List.dlookup_cons_ne _ _ e]
  rw [key m.entries ∅ m.nodupKeys, AList.lookup_empty, Option.or_none]
  rfl

/-- with keys that are told apart, a key selects one element -/
theorem filter_of_nodup_map {β : Type} {key : β → κ} {l : List β} (hl : (l.map key).Nodup) {a : β}
    (ha : a ∈ l) : l.filter (fun b => decide (key b = key a)) = [a] := by
  induction l with
  | nil => cases ha
  | cons b l ih =>
    rw [List.map_cons, List.nodup_cons] at hl
    rcases List.mem_cons.mp ha with rfl | ha
    · have hrest : l.filter (fun b => decide (key b = key a)) = [] := by
        refine List.filter_eq_nil_iff.mpr fun c hc heq => hl.1 ?_
        exact List.mem_map.mpr ⟨c, hc, of_decide_eq_true heq⟩
      rw [List.filter_cons_of_pos (by simp), hrest]
    · have hne : key b ≠ key a := fun e => hl.1 (e ▸ List.mem_map.mpr ⟨a, ha, rfl⟩)
      rw [List.filter_cons_of_neg (by simpa using hne), ih hl.2 ha]

/-! ### the set of keys -/

def keySet (m : UMap κ α) : Finset κ := m.keys.toFinset

theorem mem_keySet {m : UMap κ α} {k : κ} : k ∈ m.keySet ↔ ∃ v, m.lookup k = some v := by
  rw [keySet, List.mem_toFinset, mem_keys]

theorem keySet_erase (m : UMap κ α) (k : κ) : keySet (m.erase k) = (keySet m).erase k := by
  ext k'
  rw [Finset.mem_erase, mem_keySet, mem_keySet, lookup_erase]
  by_cases h : k' = k <;> simp [h]

theorem keySet_insert (m : UMap κ α) (k : κ) (v : α) :
    keySet (m.insert k v) = insert k (keySet m) := by
  ext k'
  rw [Finset.mem_insert, mem_keySet, mem_keySet, lookup_insert]
  by_cases h : k' = k <;> simp [h]

/-- an entry is exchanged for another one: the keys are the same only if its key is -/
theorem keySet_exchange_iff {m : UMap κ α} {old new : κ} {u v : α} (h : m.lookup old = some u) :
    keySet ((m.erase old).insert new v) = keySet m ↔ new = old := by
  have hold : old ∈ keySet m := mem_keySet.mpr ⟨u, h⟩
  rw [keySet_insert, keySet_erase]
  constructor
  · intro e
    by_contra hne
    rw [← e, Finset.mem_insert, Finset.mem_erase] at hold
    rcases hold with e' | ⟨e', _⟩
    · exact hne e'.symm
    · exact e' rfl
  · rintro rfl
    exact Finset.insert_erase hold

/-! ### weights -/

def total (w : α → Nat) (m : UMap κ α) : Nat := (m.entries.map fun p => w p.2).sum

theorem total_one (m : UMap κ α) : total (fun _ => 1) m = m.entries.length := by
  unfold total
  rw [List.map_const', List.sum_replicate_nat, Nat.mul_one]

variable (w : α → Nat)

theorem total_erase {m : UMap κ α} {k : κ} {v : α} (h : m.lookup k = some v) :
    total w m = w v + total w (m.erase k) := by
  unfold total
  rw [((erase_perm h).map fun p => w p.2).sum_eq, List.map_cons, List.sum_cons]

/-- a part of a map weighs no more -/
theorem total_le_of_sub {m m' : UMap κ α}
    (h : ∀ k v, m.lookup k = some v → m'.lookup k = some v) : total w m ≤ total w m' := by
  have hsub : m.entries ⊆ m'.entries := by
    intro p hp
    exact (mem_entries m' p.1 p.2).mpr (h p.1 p.2 ((mem_entries m p.1 p.2).mp hp))
  obtain ⟨l, hp, hs⟩ := List.subperm_of_subset m.nodupKeys.nodup hsub
  unfold total
  rw [← (hp.map fun p => w p.2).sum_eq]
  exact (hs.map _).sum_le_sum fun _ _ => Nat.zero_le _

theorem total_insert (m : UMap κ α) (k : κ) (v : α) :
    total w (m.insert k v) = w v + total w (m.erase k) := by
  unfold total
  rw [AList.entries_insert, List.map_cons, List.sum_cons]
  rfl

end UMap

structure IndexedStore (κ ι α : Type*) where
  records : κ → Option α
  index : ι → Option κ

namespace IndexedStore

section
variable {κ ι α : Type*} [DecidableEq κ] [DecidableEq ι] (attr : α → ι)

def empty : IndexedStore κ ι α := ⟨fun _ => none, fun _ => none⟩

def drop (s : IndexedStore κ ι α) (k : κ) (i : ι) : IndexedStore κ ι α :=
  ⟨Function.update s.records k none, Function.update s.index i none⟩

def put (s : IndexedStore κ ι α) (k : κ) (r : α) : IndexedStore κ ι α :=
  ⟨Function.update s.records k (some r), Function.update s.index (attr r) (some k)⟩

def Indexed (s : IndexedStore κ ι α) : Prop :=
  ∀ k r, s.records k = some r → s.index (attr r) = some k

def Exact (s : IndexedStore κ ι α) : Prop :=
  ∀ i k, s.index i = some k → ∃ r, s.records k = some r ∧ attr r = i

inductive Drops (s : IndexedStore κ ι α) : IndexedStore κ ι α → Prop
  | refl : Drops s s
  | tail {t : IndexedStore κ ι α} (k : κ) (r : α) :
      Drops s t → t.records k = some r → Drops s (t.drop k (attr r))

/-- a record is dropped, if there is one -/
def dropKey (s : IndexedStore κ ι α) (k : κ) : IndexedStore κ ι α :=
  match s.records k with
  | none => s
  | some r => s.drop k (attr r)

def dropAll (s : IndexedStore κ ι α) (ks : List κ) : IndexedStore κ ι α := ks.foldl (dropKey attr) s

variable {attr} {s t : IndexedStore κ ι α}

theorem records_drop (k k' : κ) (i : ι) :
    (s.drop k i).records k' = if k' = k then none else s.records k' := by
  show Function.update s.records k none k' = _
  rw [Function.update_apply]

theorem index_drop (k : κ) (i i' : ι) :
    (s.drop k i).index i' = if i' = i then none else s.index i' := by
  show Function.update s.index i none i' = _
  rw [Function.update_apply]

theorem records_put (k k' : κ) (r : α) :
    (s.put attr k r).records k' = if k' = k then some r else s.records k' := by
  show Function.update s.records k (some r) k' = _
  rw [Function.update_apply]

theorem index_put (k : κ) (r : α) (i : ι) :
    (s.put attr k r).index i = if i = attr r then some k else s.index i := by
  show Function.update s.index (attr r) (some k) i = _
  rw [Function.update_apply]

theorem Indexed.empty : Indexed attr (empty : IndexedStore κ ι α) := by
  intro k r h
  cases h

theorem Exact.empty : Exact attr (empty : IndexedStore κ ι α) := by
  intro i k h
  cases h

/-- two records never share their attribute -/
theorem Indexed.key_unique (hs : Indexed attr s) {k k' : κ} {r r' : α} (h : s.records k = some r)
    (h' : s.records k' = some r') (e : attr r = attr r') : k = k' := by
  have h1 := hs k r h
  rw [e, hs k' r' h'] at h1
  exact (Option.some.inj h1).symm

theorem Indexed.drop (hs : Indexed attr s) {k : κ} {r : α} (hk : s.records k = some r) :
    Indexed attr (s.drop k (attr r)) := by
  intro k' r' h
  rw [records_drop] at h
  by_cases e : k' = k
  · rw [if_pos e] at h
    cases h
  · rw [if_neg e] at h
    have hne : attr r' ≠ attr r := fun ea => e (hs.key_unique h hk ea)
    rw [index_drop, if_neg hne]
    exact hs k' r' h

theorem Indexed.put (hs : Indexed attr s) (k : κ) {r : α} (hfree : s.index (attr r) = none) :
    Indexed attr (s.put attr k r) := by
  intro k' r' h
  rw [records_put] at h
  rw [index_put]
  by_cases e : k' = k
  · rw [if_pos e] at h
    rw [← Option.some.inj h, if_pos rfl, e]
  · rw [if_neg e] at h
    have h1 := hs k' r' h
    have hne : attr r' ≠ attr r := by
      intro ea
      rw [ea, hfree] at h1
      cases h1
    rw [if_neg hne]
    exact h1

theorem Exact.drop (hs : Exact attr s) {k : κ} {r : α} (hk : s.records k = some r) :
    Exact attr (s.drop k (attr r)) := by
  intro i k' h
  rw [index_drop] at h
  by_cases e : i = attr r
  · rw [if_pos e] at h
    cases h
  · rw [if_neg e] at h
    obtain ⟨r', hr', hi⟩ := hs i k' h
    have hne : k' ≠ k := by
      intro ek
      rw [ek, hk] at hr'
      rw [← hi, ← Option.some.inj hr'] at e
      exact e rfl
    refine ⟨r', ?_, hi⟩
    rw [records_drop, if_neg hne]
    exact hr'

theorem Exact.put_free (hs : Exact attr s) {k : κ} (r : α) (hk : s.records k = none) :
    Exact attr (s.put attr k r) := by
  intro i k' h
  rw [index_put] at h
  by_cases e : i = attr r
  · rw [if_pos e] at h
    refine ⟨r, ?_, e.symm⟩
    rw [records_put, if_pos (Option.some.inj h).symm]
  · rw [if_neg e] at h
    obtain ⟨r', hr', hi⟩ := hs i k' h
    have hne : k' ≠ k := by
      intro ek
      rw [ek, hk] at hr'
      cases hr'
    refine ⟨r', ?_, hi⟩
    rw [records_put, if_neg hne]
    exact hr'

/-- **Overwriting a record leaves its index entry behind**: under an unused attribute, `put`
keeps the index exact exactly when the key is free. -/
theorem Exact.put_iff (hi : Indexed attr s) (hs : Exact attr s) {k : κ} {r : α}
    (hfree : s.index (attr r) = none) : Exact attr (s.put attr k r) ↔ s.records k = none := by
  refine ⟨fun h => ?_, hs.put_free r⟩
  cases hk : s.records k with
  | none => rfl
  | some r₀ =>
    have h0 := hi k r₀ hk
    have hne : attr r₀ ≠ attr r := by
      intro ea
      rw [ea, hfree] at h0
      cases h0
    have h1 : (s.put attr k r).index (attr r₀) = some k := by rw [index_put, if_neg hne, h0]
    obtain ⟨r', hr', ea⟩ := h _ _ h1
    rw [records_put, if_pos rfl] at hr'
    rw [← Option.some.inj hr'] at ea
    exact absurd ea.symm hne

/-! ### dropping records -/

theorem Drops.single {k : κ} {r : α} (hk : s.records k = some r) :
    Drops attr s (s.drop k (attr r)) :=
  Drops.tail k r .refl hk

theorem Drops.trans {u : IndexedStore κ ι α} (h : Drops attr s t) (h' : Drops attr t u) :
    Drops attr s u := by
  induction h' with
  | refl => exact h
  | tail k r _ hk ih => exact Drops.tail k r ih hk

theorem Drops.indexed (h : Drops attr s t) (hs : Indexed attr s) : Indexed attr t := by
  induction h with
  | refl => exact hs
  | tail k r _ hk ih => exact ih.drop hk

theorem Drops.exact (h : Drops attr s t) (hs : Exact attr s) : Exact attr t := by
  induction h with
  | refl => exact hs
  | tail k r _ hk ih => exact ih.drop hk

/-- what is left was there before -/
theorem Drops.records_sub (h : Drops attr s t) {k : κ} {r : α} (hk : t.records k = some r) :
    s.records k = some r := by
  induction h with
  | refl => exact hk
  | tail k' r' _ _ ih =>
    rw [records_drop] at hk
    by_cases e : k = k'
    · rw [if_pos e] at hk
      cases hk
    · rw [if_neg e] at hk
      exact ih hk

theorem Drops.records_none (h : Drops attr s t) {k : κ} (hk : s.records k = none) :
    t.records k = none := by
  cases ht : t.records k with
  | none => rfl
  | some r =>
    rw [h.records_sub ht] at hk
    cases hk

theorem Drops.index_none (h : Drops attr s t) {i : ι} (hi : s.index i = none) :
    t.index i = none := by
  induction h with
  | refl => exact hi
  | tail k r _ _ ih =>
    rw [index_drop]
    by_cases e : i = attr r
    · rw [if_pos e]
    · rw [if_neg e]
      exact ih

/-! ### several keys -/

theorem dropKey_none {k : κ} (h : s.records k = none) : s.dropKey attr k = s := by
  unfold dropKey
  rw [h]

theorem dropKey_some {k : κ} {r : α} (h : s.records k = some r) :
    s.dropKey attr k = s.drop k (attr r) := by
  unfold dropKey
  rw [h]

theorem records_dropKey (k k' : κ) :
    (s.dropKey attr k).records k' = if k' = k then none else s.records k' := by
  cases h : s.records k with
  | none =>
    rw [dropKey_none h]
    by_cases e : k' = k
    · rw [if_pos e, e, h]
    · rw [if_neg e]
  | some r => rw [dropKey_some h, records_drop]

theorem Indexed.dropKey (hs : Indexed attr s) (k : κ) : Indexed attr (s.dropKey attr k) := by
  cases h : s.records k with
  | none => rwa [dropKey_none h]
  | some r =>
    rw [dropKey_some h]
    exact hs.drop h

/-- only the own index entry of the record goes -/
theorem Indexed.index_dropKey (hs : Indexed attr s) (k : κ) (i : ι) (k' : κ) :
    (s.dropKey attr k).index i = some k' ↔
      s.index i = some k' ∧ ¬ (k' = k ∧ ∃ r, s.records k' = some r ∧ attr r = i) := by
  cases h : s.records k with
  | none =>
    rw [dropKey_none h]
    refine (and_iff_left ?_).symm
    rintro ⟨e, r, hr, _⟩
    rw [e, h] at hr
    cases hr
  | some r =>
    rw [dropKey_some h, index_drop]
    by_cases e : i = attr r
    · rw [if_pos e]
      constructor
      · intro hk
        cases hk
      · rintro ⟨hi, hne⟩
        have hk : k' = k := by
          rw [e, hs k r h] at hi
          exact (Option.some.inj hi).symm
        exact absurd ⟨hk, r, by rw [hk]; exact h, e.symm⟩ hne
    · rw [if_neg e]
      refine (and_iff_left ?_).symm
      rintro ⟨rfl, r', hr', hi⟩
      rw [h] at hr'
      cases hr'
      exact e hi.symm

theorem records_dropAll (ks : List κ) (k : κ) (r : α) :
    (s.dropAll attr ks).records k = some r ↔ s.records k = some r ∧ k ∉ ks := by
  induction ks generalizing s with
  | nil => exact (and_iff_left List.not_mem_nil).symm
  | cons k' ks ih =>
    show ((s.dropKey attr k').dropAll attr ks).records k = some r ↔ _
    rw [ih, records_dropKey, List.mem_cons]
    by_cases e : k = k'
    · simp [e]
    · simp [e]

/-- **Exactly the index entries of the dropped records go.** -/
theorem Indexed.index_dropAll (hs : Indexed attr s) (ks : List κ) (i : ι) (k : κ) :
    (s.dropAll attr ks).index i = some k ↔
      s.index i = some k ∧ ¬ (k ∈ ks ∧ ∃ r, s.records k = some r ∧ attr r = i) := by
  induction ks generalizing s with
  | nil =>
    refine (and_iff_left ?_).symm
    rintro ⟨hk, _⟩
    cases hk
  | cons k' ks ih =>
    show ((s.dropKey attr k').dropAll attr ks).index i = some k ↔ _
    rw [ih (hs.dropKey k'), hs.index_dropKey, records_dropKey, and_assoc, ← not_or, List.mem_cons]
    by_cases e : k = k'
    · simp [e]
    · simp [e]

end

end IndexedStore
