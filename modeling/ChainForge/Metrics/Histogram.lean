import ChainForge.Lib.Store
import ChainForge.Lib.Text
import Mathlib.Data.List.Sort
import Mathlib.Data.Rat.Defs
import Mathlib.Algebra.GroupWithZero.Nat

/-!
# Histograms

`SimpleHistogram` of `modules/metrics/src/simple_metrics.cpp`, and the lines of it in
`SimpleRegistry::export_metrics`.  Bounds and values are of any linear order, `defaults` are the
bounds that an empty list is replaced by, and the sum is taken with any addition.

The list of the bounds keeps repetitions, the map of the counters does not: a counter is raised once
for every occurrence of its bound.

* `lookup_observe`        what one observation does to a counter;
* `lookup_observed`       **what a counter holds**: its bound's number of occurrences times the number
                          of values up to it, modulo `2^64`;
* `cumulative_of_nodup`   different bounds have cumulative counts;
* `cumulative_iff`        **when the counters are cumulative counts**.
-/

set_option linter.unusedSectionVars false

namespace ChainForge
namespace Metrics
open Text

structure SimpleHistogram (α : Type) where
  buckets : List α
  bucketCounts : UMap α UInt64
  count : UInt64
  sum : α

structure Stats (α : Type) where
  count : UInt64
  sum : α
  buckets : UMap α UInt64

namespace SimpleHistogram

section
variable {α : Type} [LinearOrder α] [Add α] [Zero α]

/-- the bounds that are taken -/
def boundsOf (defaults buckets : List α) : List α := if buckets.isEmpty then defaults else buckets

def make (defaults buckets : List α) : SimpleHistogram α :=
  let buckets := (boundsOf defaults buckets).insertionSort (· ≤ ·)
  { buckets, bucketCounts := buckets.foldl (fun m b => m.insert b 0) ∅, count := 0, sum := 0 }

/-- `bucket_counts_[bucket].fetch_add(1)` -/
def raise (m : UMap α UInt64) (b : α) : UMap α UInt64 := m.insert b ((m.lookup b).getD 0 + 1)

def observe (h : SimpleHistogram α) (value : α) : SimpleHistogram α :=
  { h with
    count := h.count + 1
    sum := h.sum + value
    bucketCounts := h.buckets.foldl (fun m b => if value ≤ b then raise m b else m) h.bucketCounts }

def getStats (h : SimpleHistogram α) : Stats α where
  count := h.count
  sum := h.sum
  buckets := h.bucketCounts.entries.foldl (fun m p => m.insert p.1 p.2) ∅

/-- a histogram after a sequence of observations -/
def observed (defaults buckets values : List α) : SimpleHistogram α :=
  values.foldl observe (make defaults buckets)

end

end SimpleHistogram

/-! ## the export -/

section
variable {α : Type} [LinearOrder α]

/-- a bucket of the map, or the one with the label `+Inf` -/
inductive Le (α : Type) where
  | bound (b : α)
  | inf

/-- the entries of the map in the order of the bounds -/
def Stats.sortedBuckets (st : Stats α) : List (α × UInt64) :=
  (st.buckets.entries.map fun p => (p.1, p.2)).insertionSort fun p q => p.1 ≤ q.1

/-- the buckets as they are exported -/
def Stats.rows (st : Stats α) : List (Le α × UInt64) :=
  st.sortedBuckets.map (fun p => (.bound p.1, p.2)) ++ [(.inf, st.count)]

variable (print : α → Str)

/-- `print` is the `<<` of a number -/
def Le.label : Le α → Str
  | bound b => print b
  | inf => str "+Inf"

/-- the lines of one histogram in `export_metrics` -/
def exportHistogram (name : Str) (st : Stats α) : Str :=
  str "# TYPE " ++ name ++ str " histogram\n" ++
    st.rows.flatMap (fun p => name ++ str "_bucket\x7ble=\"" ++ p.1.label print ++ str "\"\x7d " ++
      toDecimal p.2.toNat ++ str "\n") ++
    name ++ str "_count " ++ toDecimal st.count.toNat ++ str "\n" ++
    name ++ str "_sum " ++ print st.sum ++ str "\n"

end

/-! ## what a counter holds -/

/-- the number of values up to a bound -/
def atMost {α : Type} [LinearOrder α] (values : List α) (b : α) : Nat := values.countP (· ≤ b)

namespace SimpleHistogram

section
variable {α : Type} [LinearOrder α] [Add α] [Zero α]

theorem lookup_raise (m : UMap α UInt64) (b b' : α) :
    (raise m b).lookup b' = if b' = b then some ((m.lookup b).getD 0 + 1) else m.lookup b' :=
  UMap.lookup_insert _ _ _ _

/-- the other counters, and those of lower bounds, stay as they are -/
theorem lookup_raise_of_not {value a b : α} (h : ¬ (value ≤ b ∧ b = a)) (m : UMap α UInt64) :
    (if value ≤ a then raise m a else m).lookup b = m.lookup b := by
  split
  · rename_i ha
    rw [lookup_raise, if_neg]
    rintro rfl
    exact h ⟨ha, rfl⟩
  · rfl

theorem add_ofNat_succ (x : UInt64) (n : Nat) : x + 1 + UInt64.ofNat n = x + UInt64.ofNat (n + 1) := by
  rw [UInt64.ofNat_add, UInt64.add_comm (UInt64.ofNat n), UInt64.add_assoc]
  rfl

/-- one observation raises a counter once for every occurrence of its bound -/
theorem lookup_observe (value : α) (bounds : List α) (m : UMap α UInt64) (b : α) :
    (bounds.foldl (fun m b => if value ≤ b then raise m b else m) m).lookup b =
      if value ≤ b ∧ b ∈ bounds then some ((m.lookup b).getD 0 + UInt64.ofNat (bounds.count b))
      else m.lookup b := by
  induction bounds generalizing m with
  | nil => simp
  | cons a bounds ih =>
    rw [List.foldl_cons, ih]
    by_cases h : value ≤ b ∧ b = a
    · obtain ⟨hv, rfl⟩ := h
      rw [if_pos hv, lookup_raise, if_pos rfl, List.count_cons_self, ← add_ofNat_succ,
        if_pos (And.intro hv List.mem_cons_self)]
      by_cases hb : b ∈ bounds
      · rw [if_pos ⟨hv, hb⟩]
        rfl
      · rw [if_neg fun hc => hb hc.2, List.count_eq_zero_of_not_mem hb]
        simp
    · rw [lookup_raise_of_not h]
      by_cases hv : value ≤ b
      · have hne : b ≠ a := fun e => h ⟨hv, e⟩
        rw [List.count_cons_of_ne (Ne.symm hne)]
        simp [hne]
      · simp [hv]

theorem lookup_make (defaults buckets : List α) (b : α) :
    (make defaults buckets).bucketCounts.lookup b
      = if b ∈ boundsOf defaults buckets then some 0 else none := by
  have key : ∀ (l : List α) (m : UMap α UInt64),
      AList.lookup b (l.foldl (fun m b => AList.insert b 0 m) m)
        = if b ∈ l then some 0 else m.lookup b := by
    intro l
    induction l with
    | nil => simp
    | cons a l ih =>
      intro m
      rw [List.foldl_cons, ih, UMap.lookup_insert]
      by_cases e : b = a
      · simp [e]
      · simp [e]
  unfold make
  dsimp only
  rw [key, AList.lookup_empty]
  simp [List.mem_insertionSort]

theorem observed_concat (defaults buckets values : List α) (value : α) :
    observed defaults buckets (values ++ [value])
      = (observed defaults buckets values).observe value := by
  unfold observed
  rw [List.foldl_append]
  rfl

theorem observed_buckets (defaults buckets values : List α) :
    (observed defaults buckets values).buckets
      = (boundsOf defaults buckets).insertionSort (· ≤ ·) := by
  induction values using List.reverseRecOn with
  | nil => rfl
  | append_singleton values value ih =>
    rw [observed_concat]
    exact ih

theorem observed_count (defaults buckets values : List α) :
    (observed defaults buckets values).count = UInt64.ofNat values.length := by
  induction values using List.reverseRecOn with
  | nil => rfl
  | append_singleton values value ih =>
    rw [observed_concat, List.length_append, List.length_singleton, UInt64.ofNat_add, ← ih]
    rfl

theorem atMost_concat (values : List α) (value b : α) :
    atMost (values ++ [value]) b = atMost values b + if value ≤ b then 1 else 0 := by
  unfold atMost
  rw [List.countP_append, List.countP_singleton]
  simp

/-- **What a counter holds**, by induction on the observations. -/
theorem lookup_observed (defaults buckets values : List α) (b : α) :
    (observed defaults buckets values).bucketCounts.lookup b =
      if b ∈ boundsOf defaults buckets then
        some (UInt64.ofNat ((boundsOf defaults buckets).count b * atMost values b))
      else none := by
  induction values using List.reverseRecOn with
  | nil => exact lookup_make defaults buckets b
  | append_singleton values value ih =>
    have hcount : ((boundsOf defaults buckets).insertionSort (· ≤ ·)).count b
        = (boundsOf defaults buckets).count b :=
      (List.perm_insertionSort (· ≤ ·) (boundsOf defaults buckets)).count_eq b
    rw [observed_concat, atMost_concat]
    unfold observe
    dsimp only
    rw [lookup_observe, ih, observed_buckets, hcount]
    simp only [List.mem_insertionSort]
    by_cases hb : b ∈ boundsOf defaults buckets
    · by_cases hv : value ≤ b
      · simp [hb, hv, Nat.mul_add, UInt64.ofNat_add]
      · simp [hb, hv]
    · simp [hb]

end

end SimpleHistogram

/-! ## cumulative counts -/

section
variable {α : Type} [LinearOrder α] [Add α] [Zero α]
open SimpleHistogram

/-- what is reported of a bound is the number of values up to it, and the exported numbers do not
decrease, up to that of `+Inf` -/
structure Cumulative (bounds values : List α) (st : Stats α) : Prop where
  reported : ∀ b ∈ bounds, ∃ n, st.buckets.lookup b = some n ∧ n.toNat = atMost values b
  exported : st.rows.Pairwise fun p q => p.2 ≤ q.2

theorem mem_sortedBuckets {st : Stats α} {p : α × UInt64} :
    p ∈ st.sortedBuckets ↔ st.buckets.lookup p.1 = some p.2 := by
  unfold Stats.sortedBuckets
  rw [List.mem_insertionSort, List.mem_map]
  constructor
  · rintro ⟨q, hq, rfl⟩
    exact (UMap.mem_entries _ _ _).mp hq
  · intro h
    exact ⟨⟨p.1, p.2⟩, (UMap.mem_entries _ _ _).mpr h, rfl⟩

/-- the rows do not decrease exactly if the buckets do not, and none exceeds the last one -/
theorem rows_pairwise_iff (st : Stats α) : (st.rows.Pairwise fun p q => p.2 ≤ q.2) ↔
    (st.sortedBuckets.Pairwise fun p q => p.2 ≤ q.2) ∧ ∀ p ∈ st.sortedBuckets, p.2 ≤ st.count := by
  unfold Stats.rows
  rw [List.pairwise_append, List.pairwise_map]
  constructor
  · intro h
    refine ⟨h.1, fun p hp => ?_⟩
    exact h.2.2 _ (List.mem_map.mpr ⟨p, hp, rfl⟩) _ (List.mem_singleton.mpr rfl)
  · intro h
    refine ⟨h.1, List.pairwise_singleton _ _, fun p hp q hq => ?_⟩
    obtain ⟨r, hr, rfl⟩ := List.mem_map.mp hp
    rw [List.mem_singleton.mp hq]
    exact h.2 r hr

theorem atMost_mono (values : List α) {b b' : α} (h : b ≤ b') : atMost values b ≤ atMost values b' := by
  unfold atMost
  refine List.countP_mono_left fun v _ hv => ?_
  simp only [decide_eq_true_eq] at hv ⊢
  exact hv.trans h

/-- a counter modulo `2^64` is right exactly if the superfluous counts are a multiple of `2^64` -/
theorem repeated_mod_iff {k n : Nat} (hk : 0 < k) (hn : n < 2^64) :
    k * n % 2^64 = n ↔ 2^64 ∣ (k - 1) * n := by
  obtain ⟨j, rfl⟩ : ∃ j, k = j + 1 := ⟨k - 1, by omega⟩
  rw [Nat.succ_mul, Nat.add_sub_cancel]
  generalize j * n = x
  omega

section
variable {defaults buckets values : List α}

theorem lookup_getStats (defaults buckets values : List α) (b : α) :
    (observed defaults buckets values).getStats.buckets.lookup b =
      if b ∈ boundsOf defaults buckets then
        some (UInt64.ofNat ((boundsOf defaults buckets).count b * atMost values b))
      else none :=
  (UMap.lookup_copy _ b).trans (lookup_observed defaults buckets values b)

theorem getStats_count (defaults buckets values : List α) :
    (observed defaults buckets values).getStats.count.toNat = values.length % 2^64 := by
  show (observed defaults buckets values).count.toNat = _
  rw [observed_count, UInt64.toNat_ofNat']

theorem reported_iff {b : α} (hb : b ∈ boundsOf defaults buckets) :
    (∃ n, (observed defaults buckets values).getStats.buckets.lookup b = some n ∧
        n.toNat = atMost values b) ↔
      (boundsOf defaults buckets).count b * atMost values b % 2^64 = atMost values b := by
  rw [lookup_getStats, if_pos hb, ← UInt64.toNat_ofNat']
  simp

theorem bound_of_bucket {p : α × UInt64}
    (hp : p ∈ (observed defaults buckets values).getStats.sortedBuckets) :
    p.1 ∈ boundsOf defaults buckets := by
  by_contra hb
  have hlookup := mem_sortedBuckets.mp hp
  rw [lookup_getStats, if_neg hb] at hlookup
  cases hlookup

section
variable (h : ∀ b ∈ boundsOf defaults buckets,
  ∃ n, (observed defaults buckets values).getStats.buckets.lookup b = some n ∧
    n.toNat = atMost values b)
include h

theorem bucket_right {p : α × UInt64}
    (hp : p ∈ (observed defaults buckets values).getStats.sortedBuckets) :
    p.2.toNat = atMost values p.1 := by
  obtain ⟨n, hn, hright⟩ := h p.1 (bound_of_bucket hp)
  rw [mem_sortedBuckets.mp hp] at hn
  rw [Option.some.inj hn, hright]

/-- with the right numbers for all bounds, the buckets do not decrease -/
theorem sortedBuckets_mono :
    (observed defaults buckets values).getStats.sortedBuckets.Pairwise fun p q => p.2 ≤ q.2 := by
  have hsorted : (observed defaults buckets values).getStats.sortedBuckets.Pairwise
      fun p q => p.1 ≤ q.1 := List.pairwise_insertionSort _ _
  refine hsorted.imp_of_mem fun hp hq hle => ?_
  rw [UInt64.le_iff_toNat_le, bucket_right h hp, bucket_right h hq]
  exact atMost_mono values hle

end

/-- right counters that do not exceed the total are exported as cumulative counts -/
theorem cumulative_of (h : ∀ b ∈ boundsOf defaults buckets,
    atMost values b ≤ values.length % 2^64 ∧
      (boundsOf defaults buckets).count b * atMost values b % 2^64 = atMost values b) :
    Cumulative (boundsOf defaults buckets) values (observed defaults buckets values).getStats := by
  have hreported : ∀ b ∈ boundsOf defaults buckets,
      ∃ n, (observed defaults buckets values).getStats.buckets.lookup b = some n ∧
        n.toNat = atMost values b := fun b hb => (reported_iff hb).mpr (h b hb).2
  refine ⟨hreported, (rows_pairwise_iff _).mpr ⟨sortedBuckets_mono hreported, ?_⟩⟩
  intro p hp
  rw [UInt64.le_iff_toNat_le, bucket_right hreported hp, getStats_count]
  exact (h p.1 (bound_of_bucket hp)).1

/-- **Different bounds give cumulative counts**, as long as the total does not overflow. -/
theorem cumulative_of_nodup (hbounds : (boundsOf defaults buckets).Nodup)
    (hvalues : values.length < 2^64) :
    Cumulative (boundsOf defaults buckets) values (observed defaults buckets values).getStats := by
  refine cumulative_of fun b hb => ?_
  have hle : atMost values b ≤ values.length := List.countP_le_length
  rw [List.count_eq_one_of_mem hbounds hb, Nat.one_mul, Nat.mod_eq_of_lt hvalues,
    Nat.mod_eq_of_lt (lt_of_le_of_lt hle hvalues)]
  exact ⟨hle, rfl⟩

end

/-- **Which bounds and values give cumulative counts.**  Of a bound that occurs `k` times the counter
is `k` times too fast: it is right exactly if the superfluous counts are a multiple of `2^64`, and it
is no more than the total if that has not overflowed. -/
theorem cumulative_iff (defaults buckets values : List α) :
    Cumulative (boundsOf defaults buckets) values (observed defaults buckets values).getStats ↔
      ∀ b ∈ boundsOf defaults buckets, atMost values b ≤ values.length % 2^64 ∧
        2^64 ∣ ((boundsOf defaults buckets).count b - 1) * atMost values b := by
  have hpos : ∀ b ∈ boundsOf defaults buckets, 0 < (boundsOf defaults buckets).count b :=
    fun b hb => List.count_pos_iff.mpr hb
  have hlt : ∀ b, atMost values b ≤ values.length % 2^64 → atMost values b < 2^64 :=
    fun b h => lt_of_le_of_lt h (Nat.mod_lt _ (by decide))
  constructor
  · rintro ⟨hreported, hexported⟩ b hb
    obtain ⟨n, hn, hright⟩ := hreported b hb
    have hle := ((rows_pairwise_iff _).mp hexported).2 (b, n) (mem_sortedBuckets.mpr hn)
    rw [UInt64.le_iff_toNat_le, hright, getStats_count] at hle
    refine ⟨hle, (repeated_mod_iff (hpos b hb) (hlt b hle)).mp ?_⟩
    exact (reported_iff hb).mp (hreported b hb)
  · intro h
    refine cumulative_of fun b hb => ⟨(h b hb).1, ?_⟩
    exact (repeated_mod_iff (hpos b hb) (hlt b (h b hb).1)).mpr (h b hb).2

end

/-- the bounds that an empty list is replaced by -/
def defaultBuckets : List ℚ := [1/1000, 1/100, 1/10, 1, 10, 100, 1000]

/-- the bound 1, given twice, counts the value 1/2 twice -/
theorem repeated_bound_counts_twice :
    (SimpleHistogram.observed defaultBuckets [1, 1] [1/2]).getStats.buckets.lookup 1 = some 2 ∧
      (SimpleHistogram.observed defaultBuckets [1, 1] [1/2]).getStats.count = 1 ∧
      atMost ([1/2] : List ℚ) 1 = 1 := by
  decide +kernel

end Metrics
end ChainForge
