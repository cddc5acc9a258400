import ChainForge.Core.TransactionObjects
import ChainForge.Mempool.Limits
import ChainForge.Mempool.Selection
import Mathlib.Order.Bounds.Basic

/-!
# Statistics

`get_stats` keeps its aggregates in one loop over the pool.  A minimum of zero stands for "not set",
which no pooled transaction can be confused with, since a valid one has a positive gas price.

* `foldl_minSet`    the minimum with zero as "not set";
* `getStats_age`    the age reported is the smallest of the ages;
* `stats_iff`       **the statistics describe the pool exactly when all entries are of one age**: number,
                    bytes, smallest and largest price are right, and the age is that of the newest
                    entry.
-/

set_option linter.unusedSectionVars false

namespace ChainForge
namespace Mempool
open Machine

/-! ## loops -/

/-- a running minimum that starts at zero for "not set" -/
theorem foldl_minSet {l : List UInt64} (hpos : ∀ b ∈ l, b ≠ 0) (hne : l ≠ []) :
    l.foldl (fun a b => if a == 0 || b < a then b else a) 0 ∈ l ∧
      ∀ b ∈ l, l.foldl (fun a b => if a == 0 || b < a then b else a) 0 ≤ b := by
  induction l using List.reverseRecOn with
  | nil => exact absurd rfl hne
  | append_singleton l c ih =>
    rw [List.foldl_append, List.foldl_cons, List.foldl_nil]
    by_cases hnil : l = []
    · rw [hnil]
      refine ⟨List.mem_singleton.mpr rfl, fun b hb => ?_⟩
      rw [List.mem_singleton.mp hb]
      exact UInt64.le_refl c
    · obtain ⟨hmem, hle⟩ := ih (fun b hb => hpos b (List.mem_append_left _ hb)) hnil
      generalize l.foldl (fun a b => if a == 0 || b < a then b else a) 0 = m at hmem hle
      have hset : (m == 0) = false :=
        beq_eq_false_iff_ne.mpr (hpos m (List.mem_append_left _ hmem))
      rw [hset, Bool.false_or]
      by_cases hlt : c < m
      · rw [if_pos (decide_eq_true hlt)]
        refine ⟨List.mem_append_right _ List.mem_cons_self, fun b hb => ?_⟩
        rcases List.mem_append.mp hb with hb | hb
        · exact UInt64.le_trans (UInt64.le_of_lt hlt) (hle b hb)
        · rw [List.mem_singleton.mp hb]
          exact UInt64.le_refl c
      · rw [if_neg (by simpa using hlt)]
        refine ⟨List.mem_append_left _ hmem, fun b hb => ?_⟩
        rcases List.mem_append.mp hb with hb | hb
        · exact hle b hb
        · rw [List.mem_singleton.mp hb]
          exact UInt64.not_lt.mp hlt

/-- a minimum that starts from an upper bound -/
theorem foldl_min_isLeast {l : List Nat} {b : Nat} (hne : l ≠ []) (hb : ∀ x ∈ l, x ≤ b) :
    IsLeast {x | x ∈ l} (l.foldl min b) := by
  have hmin : (b :: l).min? = some (l.foldl min b) := List.min?_cons'
  obtain ⟨hmem, hle⟩ := List.min?_eq_some_iff.mp hmin
  refine ⟨?_, fun x hx => hle x (List.mem_cons_of_mem _ hx)⟩
  rcases List.mem_cons.mp hmem with e | h
  · -- the bound is no smaller than an element, so it is one
    obtain ⟨x, hx⟩ := List.exists_mem_of_ne_nil l hne
    have hbx := hle x (List.mem_cons_of_mem _ hx)
    rw [e] at hbx
    rw [e, Nat.le_antisymm hbx (hb x hx)]
    exact hx
  · exact h

section
variable {F : Type} [LinearOrder F] [Double F]

namespace MempoolImpl

/-- the loop body works on each of its aggregates apart -/
theorem foldl_statsStep_fields (l : List (Sigma fun _ : Hash => MempoolEntry F))
    (acc : MempoolStats F × UInt64) :
    let r := (l.foldl (fun acc p => statsStep acc p.2.transaction) acc).1
    let prices := l.map fun p => p.2.transaction.gasPrice
    r.transactionCount = acc.1.transactionCount ∧
      r.minFeePerGas
        = prices.foldl (fun a b => if a == 0 || b < a then b else a) acc.1.minFeePerGas ∧
      r.maxFeePerGas = prices.foldl (fun a b => if a < b then b else a) acc.1.maxFeePerGas := by
  induction l generalizing acc with
  | nil => exact ⟨rfl, rfl, rfl⟩
  | cons p l ih => exact ih (statsStep acc p.2.transaction)

end MempoolImpl

/-! ## the statistics of a pool -/

section
variable (s : MempoolImpl F) (now : UInt64)

/-- the numbers that `f` reads off the pooled entries -/
def MempoolImpl.readings (f : MempoolEntry F → Nat) : Set Nat :=
  {x | ∃ h e, s.transactions.lookup h = some e ∧ f e = x}

def MempoolEntry.price (e : MempoolEntry F) : Nat := e.transaction.gasPrice.toNat

def MempoolEntry.age (now : UInt64) (e : MempoolEntry F) : Nat :=
  now.toNat - e.addedTimestamp.toNat

structure Describes (st : MempoolStats F) : Prop where
  count : st.transactionCount = s.count
  bytes : st.totalSizeBytes = s.bytes
  minFee : IsLeast (s.readings MempoolEntry.price) st.minFeePerGas.toNat
  maxFee : IsGreatest (s.readings MempoolEntry.price) st.maxFeePerGas.toNat
  oldest : IsGreatest (s.readings (MempoolEntry.age now)) st.oldestTransactionAge.toNat

variable {s now}

theorem mem_readings {f : MempoolEntry F → Nat} {x : Nat} :
    x ∈ s.readings f ↔ ∃ p ∈ s.transactions.entries, f p.2 = x := by
  constructor
  · rintro ⟨h, e, he, hx⟩
    exact ⟨⟨h, e⟩, (UMap.mem_entries _ _ _).mpr he, hx⟩
  · rintro ⟨p, hp, hx⟩
    exact ⟨p.1, p.2, (UMap.mem_entries s.transactions p.1 p.2).mp hp, hx⟩

/-- the gas prices of the entries, in the order of the loop -/
def MempoolImpl.prices (s : MempoolImpl F) : List UInt64 :=
  s.transactions.entries.map fun p => p.2.transaction.gasPrice

theorem mem_readings_price {x : Nat} :
    x ∈ s.readings MempoolEntry.price ↔ ∃ b ∈ s.prices, b.toNat = x := by
  rw [mem_readings]
  constructor
  · rintro ⟨p, hp, hx⟩
    exact ⟨_, List.mem_map.mpr ⟨p, hp, rfl⟩, hx⟩
  · rintro ⟨b, hb, hx⟩
    obtain ⟨p, hp, rfl⟩ := List.mem_map.mp hb
    exact ⟨p, hp, hx⟩

theorem isLeast_price {m : UInt64} (hm : m ∈ s.prices) (hle : ∀ b ∈ s.prices, m ≤ b) :
    IsLeast (s.readings MempoolEntry.price) m.toNat := by
  refine ⟨mem_readings_price.mpr ⟨m, hm, rfl⟩, fun x hx => ?_⟩
  obtain ⟨b, hb, rfl⟩ := mem_readings_price.mp hx
  exact UInt64.le_iff_toNat_le.mp (hle b hb)

theorem isGreatest_price {m : UInt64} (hm : m ∈ s.prices) (hle : ∀ b ∈ s.prices, b ≤ m) :
    IsGreatest (s.readings MempoolEntry.price) m.toNat := by
  refine ⟨mem_readings_price.mpr ⟨m, hm, rfl⟩, fun x hx => ?_⟩
  obtain ⟨b, hb, rfl⟩ := mem_readings_price.mp hx
  exact UInt64.le_iff_toNat_le.mp (hle b hb)

/-- the aggregates of a pool that is not empty -/
theorem getStats_fields (hne : s.transactions.entries ≠ []) :
    (s.getStats now).transactionCount = s.count ∧
      (s.getStats now).minFeePerGas
        = s.prices.foldl (fun a b => if a == 0 || b < a then b else a) 0 ∧
      (s.getStats now).maxFeePerGas = s.prices.foldl (fun a b => if a < b then b else a) 0 ∧
      (s.getStats now).oldestTransactionAge = UInt64.ofNat (s.transactions.entries.foldl
        (fun a p => min a (now - p.2.addedTimestamp).toNat) (2^64 - 1)) := by
  obtain ⟨hcount, hmin, hmax⟩ := MempoolImpl.foldl_statsStep_fields (F := F) s.transactions.entries
    (⟨s.transactions.entries.length, 0, 0, 0, Double.lit 0, 0⟩, 0)
  unfold MempoolImpl.getStats
  dsimp only
  rw [if_neg (by simpa using hne)]
  exact ⟨hcount, hmin, hmax, rfl⟩

theorem getStats_minFee (hpos : ∀ b ∈ s.prices, b ≠ 0) (hne : s.transactions.entries ≠ []) :
    IsLeast (s.readings MempoolEntry.price) (s.getStats now).minFeePerGas.toNat := by
  have hprices : s.prices ≠ [] := fun e => hne (List.map_eq_nil_iff.mp e)
  obtain ⟨hmem, hle⟩ := foldl_minSet hpos hprices
  rw [(getStats_fields hne).2.1]
  exact isLeast_price hmem hle

theorem getStats_maxFee (hpos : ∀ b ∈ s.prices, b ≠ 0) (hne : s.transactions.entries ≠ []) :
    IsGreatest (s.readings MempoolEntry.price) (s.getStats now).maxFeePerGas.toNat := by
  have hprices : s.prices ≠ [] := fun e => hne (List.map_eq_nil_iff.mp e)
  have hle := (MempoolImpl.le_foldl_max s.prices 0).2
  have hmem : s.prices.foldl (fun a b => if a < b then b else a) 0 ∈ s.prices := by
    -- the start value is below every price
    refine (List.mem_cons.mp (MempoolImpl.foldl_max_mem s.prices 0)).resolve_left fun e => ?_
    obtain ⟨b, hb⟩ := List.exists_mem_of_ne_nil s.prices hprices
    have hb0 := hle b hb
    rw [e] at hb0
    exact hpos b hb (UInt64.le_zero_iff.mp hb0)
  rw [(getStats_fields hne).2.2.1]
  exact isGreatest_price hmem hle

/-- **The age reported is the smallest one.** -/
theorem getStats_age (hnow : ∀ h e, s.transactions.lookup h = some e → e.addedTimestamp ≤ now)
    (hne : s.transactions.entries ≠ []) :
    IsLeast (s.readings (MempoolEntry.age now)) (s.getStats now).oldestTransactionAge.toNat := by
  let ages := s.transactions.entries.map fun p => p.2.age now
  have hages : s.transactions.entries.foldl
      (fun a p => min a (now - p.2.addedTimestamp).toNat) (2^64 - 1) = ages.foldl min (2^64 - 1) := by
    rw [List.foldl_map]
    refine List.foldl_ext _ _ _ fun a p hp => ?_
    have hle := hnow p.1 p.2 ((UMap.mem_entries s.transactions p.1 p.2).mp hp)
    rw [UInt64.toNat_sub_of_le _ _ hle]
    rfl
  have hbound : ∀ x ∈ ages, x ≤ 2^64 - 1 := by
    intro x hx
    obtain ⟨p, _, rfl⟩ := List.mem_map.mp hx
    have := now.toNat_lt
    unfold MempoolEntry.age
    omega
  have hreadings : s.readings (MempoolEntry.age now) = {x | x ∈ ages} := by
    ext x
    exact mem_readings.trans List.mem_map.symm
  have hleast := foldl_min_isLeast (fun e => hne (List.map_eq_nil_iff.mp e)) hbound
  have hlt : ages.foldl min (2^64 - 1) < 2^64 :=
    Nat.lt_of_le_of_lt (hbound _ hleast.1) (by decide)
  rw [(getStats_fields hne).2.2.2, hages, UInt64.toNat_ofNat_of_lt' hlt, hreadings]
  exact hleast

/-- the smallest reading is the largest one only if there is one reading -/
theorem isGreatest_least_iff {t : Set Nat} {m : Nat} (h : IsLeast t m) :
    IsGreatest t m ↔ ∀ x ∈ t, ∀ y ∈ t, x = y := by
  constructor
  · intro hg x hx y hy
    have h1 := h.2 hx
    have h2 := hg.2 hx
    have h3 := h.2 hy
    have h4 := hg.2 hy
    omega
  · intro hone
    exact ⟨h.1, fun x hx => (hone x hx m h.1).le⟩

end

/-- **The statistics describe the pool exactly when all entries were added at the same time**: the
age is that of the newest entry, not of the oldest. -/
theorem stats_iff (H : List UInt8 → Hash) (config : MempoolConfig F) (calls : List (Call F))
    (now : UInt64) (hne : (poolAfter H config calls).transactions.entries ≠ [])
    (hnow : ∀ h e, (poolAfter H config calls).transactions.lookup h = some e →
      e.addedTimestamp ≤ now) :
    Describes (poolAfter H config calls) now ((poolAfter H config calls).getStats now) ↔
      ∀ h e h' e', (poolAfter H config calls).transactions.lookup h = some e →
        (poolAfter H config calls).transactions.lookup h' = some e' →
          e.addedTimestamp = e'.addedTimestamp := by
  have hvalid := poolAfter_allValid H config calls
  generalize poolAfter H config calls = s at *
  have hpos : ∀ b ∈ s.prices, b ≠ 0 := by
    intro b hb e
    obtain ⟨p, hp, rfl⟩ := List.mem_map.mp hb
    have hv := hvalid p.1 p.2 ((UMap.mem_entries s.transactions p.1 p.2).mp hp)
    have hprice := ((Transaction.isValid_iff _).mp hv).2.1.2
    rw [e] at hprice
    exact absurd hprice (UInt64.lt_irrefl 0)
  have hage := getStats_age hnow hne
  have hrest : Describes s now (s.getStats now) ↔
      IsGreatest (s.readings (MempoolEntry.age now)) (s.getStats now).oldestTransactionAge.toNat :=
    ⟨fun h => h.oldest, fun h => ⟨(getStats_fields hne).1, s.getStats_totalSizeBytes now,
      getStats_minFee hpos hne, getStats_maxFee hpos hne, h⟩⟩
  rw [hrest, isGreatest_least_iff hage]
  constructor
  · intro h k e k' e' he he'
    have hk := hnow k e he
    have hk' := hnow k' e' he'
    have hsame := h _ ⟨k, e, he, rfl⟩ _ ⟨k', e', he', rfl⟩
    unfold MempoolEntry.age at hsame
    rw [UInt64.le_iff_toNat_le] at hk hk'
    exact UInt64.toNat_inj.mp (by omega)
  · rintro h x ⟨k, e, he, rfl⟩ y ⟨k', e', he', rfl⟩
    unfold MempoolEntry.age
    rw [h k e k' e' he he']

end

/-! ## two entries -/

/-- two entries, the second one added 100 seconds after the first -/
theorem twoAges_before {h : Hash} {e : MempoolEntry ℚ}
    (he : (poolAfter hashSha256 MempoolConfig.default (twoAdditions 20 100)).transactions.lookup h = some e) :
    e.addedTimestamp ≤ 100 := by
  have hall : ∀ p ∈ (poolAfter hashSha256 MempoolConfig.default (twoAdditions 20 100)).transactions.entries,
      p.2.addedTimestamp ≤ 100 := by decide +kernel
  exact hall ⟨h, e⟩ ((UMap.mem_entries _ _ _).mpr he)

theorem stats_twoAges :
    Describes (poolAfter hashSha256 MempoolConfig.default (twoAdditions 20 100)) 100
        ((poolAfter hashSha256 MempoolConfig.default (twoAdditions 20 100)).getStats 100) ↔
      ∀ h e h' e', (poolAfter hashSha256 MempoolConfig.default (twoAdditions 20 100)).transactions.lookup h = some e →
        (poolAfter hashSha256 MempoolConfig.default (twoAdditions 20 100)).transactions.lookup h' = some e' →
          e.addedTimestamp = e'.addedTimestamp :=
  stats_iff hashSha256 MempoolConfig.default (twoAdditions 20 100) 100 (by decide +kernel)
    fun _ _ he => twoAges_before he

/-- at time 100 one entry is 100 seconds old, and the oldest age reported is 0 -/
theorem newest_age_reported :
    let s := poolAfter (F := ℚ) hashSha256 MempoolConfig.default (twoAdditions 20 100)
    s.count = 2 ∧ (∃ p ∈ s.transactions.entries, p.2.age 100 = 100) ∧
      (s.getStats 100).oldestTransactionAge = 0 := by
  decide +kernel

end Mempool
end ChainForge
