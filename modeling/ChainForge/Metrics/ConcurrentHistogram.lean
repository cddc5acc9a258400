import ChainForge.Lib.Schedule
import ChainForge.Metrics.Histogram

/-!
# Histograms that several threads observe

`SimpleHistogram::observe` takes no lock: it is a sequence of atomic additions, and those of several
threads may come in any order.

* `observeOps`, `observe_eq_run`   the additions of one call, which make up `observe`;
* `concurrent_observations`        **no observation is lost**: when all threads have ended, count and
                                   buckets are those of the same observations one after the other, and
                                   the sum was taken in some order.
-/

set_option linter.unusedSectionVars false

namespace ChainForge
namespace Metrics
open Machine Schedule

inductive Atomic (α : Type) where
  | count
  | sum (value : α)
  | bucket (b : α)

namespace SimpleHistogram

section
variable {α : Type} [LinearOrder α] [Add α] [Zero α]

/-- one `fetch_add` -/
def perform (h : SimpleHistogram α) : Atomic α → SimpleHistogram α
  | .count => { h with count := h.count + 1 }
  | .sum value => { h with sum := h.sum + value }
  | .bucket b => { h with bucketCounts := raise h.bucketCounts b }

/-- the additions of `observe`, with the bounds of the histogram -/
def observeOps (bounds : List α) (value : α) : List (Atomic α) :=
  .count :: .sum value :: (bounds.filter (value ≤ ·)).map .bucket

theorem run_buckets (bounds : List α) (value : α) (h : SimpleHistogram α) :
    run perform h ((bounds.filter (value ≤ ·)).map .bucket)
      = { h with bucketCounts :=
          bounds.foldl (fun m b => if value ≤ b then raise m b else m) h.bucketCounts } := by
  induction bounds generalizing h with
  | nil => rfl
  | cons b bounds ih =>
    by_cases hb : value ≤ b
    · rw [List.filter_cons_of_pos (by simpa using hb), List.map_cons, run_cons, ih, List.foldl_cons,
        if_pos hb]
      rfl
    · rw [List.filter_cons_of_neg (by simpa using hb), ih, List.foldl_cons, if_neg hb]

/-- the additions of a call, with no other thread in between, are the call -/
theorem observe_eq_run (h : SimpleHistogram α) (value : α) :
    h.observe value = run perform h (observeOps h.buckets value) := by
  unfold observeOps
  rw [run_cons, run_cons, run_buckets]
  rfl

theorem perform_bounds (h : SimpleHistogram α) (a : Atomic α) : (h.perform a).buckets = h.buckets := by
  cases a <;> rfl

theorem run_observeOps (values : List α) (h : SimpleHistogram α) :
    run perform h (values.flatMap (observeOps h.buckets)) = values.foldl observe h := by
  induction values generalizing h with
  | nil => rfl
  | cons value values ih =>
    rw [List.flatMap_cons, run_append, ← observe_eq_run, List.foldl_cons]
    exact ih (h.observe value)

/-! ## count and buckets -/

/-- count and buckets, without the order in which the map has its entries -/
def counts (h : SimpleHistogram α) : UInt64 × (α → Option UInt64) :=
  (h.count, fun b => h.bucketCounts.lookup b)

def addCount (v : UInt64 × (α → Option UInt64)) : Atomic α → UInt64 × (α → Option UInt64)
  | .count => (v.1 + 1, v.2)
  | .sum _ => v
  | .bucket b => (v.1, Function.update v.2 b (some ((v.2 b).getD 0 + 1)))

theorem counts_perform (h : SimpleHistogram α) (a : Atomic α) :
    (h.perform a).counts = addCount h.counts a := by
  cases a with
  | count => rfl
  | sum value => rfl
  | bucket b =>
    refine Prod.ext rfl (funext fun b' => (lookup_raise h.bucketCounts b b').trans ?_)
    show _ = Function.update (fun b => h.bucketCounts.lookup b) b (some _) b'
    rw [Function.update_apply]
    rfl

theorem addCount_comm (v : UInt64 × (α → Option UInt64)) (a a' : Atomic α) :
    addCount (addCount v a) a' = addCount (addCount v a') a := by
  cases a with
  | count => cases a' <;> rfl
  | sum value => cases a' <;> rfl
  | bucket b =>
    cases a' with
    | count => rfl
    | sum value => rfl
    | bucket b' =>
      by_cases h : b = b'
      · rw [h]
      · have hb : (addCount v (.bucket b')).2 b = v.2 b := Function.update_of_ne h _ _
        have hb' : (addCount v (.bucket b)).2 b' = v.2 b' := Function.update_of_ne (Ne.symm h) _ _
        refine Prod.ext rfl ?_
        show Function.update (Function.update v.2 b _) b' (some (((addCount v _).2 b').getD 0 + 1))
          = Function.update (Function.update v.2 b' _) b (some (((addCount v _).2 b).getD 0 + 1))
        rw [hb, hb', Function.update_comm h]

/-! ## the sum -/

/-- what an addition adds to the sum -/
def summand : Atomic α → Option α
  | .sum value => some value
  | _ => none

theorem run_sum (ops : List (Atomic α)) (h : SimpleHistogram α) :
    (run perform h ops).sum = (ops.filterMap summand).foldl (· + ·) h.sum := by
  induction ops generalizing h with
  | nil => rfl
  | cons a ops ih =>
    rw [run_cons, ih]
    cases a <;> rfl

theorem summands_observeOps (bounds values : List α) :
    (values.flatMap (observeOps bounds)).filterMap summand = values := by
  induction values with
  | nil => rfl
  | cons value values ih =>
    have hone : (observeOps bounds value).filterMap summand = [value] := by
      show value :: ((bounds.filter (value ≤ ·)).map Atomic.bucket).filterMap summand = [value]
      rw [List.filterMap_map]
      simp [Function.comp_def, summand]
    rw [List.flatMap_cons, List.filterMap_append, hone, ih]
    rfl

theorem run_bounds (ops : List (Atomic α)) (h : SimpleHistogram α) :
    (run perform h ops).buckets = h.buckets := by
  refine run_inv (fun h' : SimpleHistogram α => h'.buckets = h.buckets) ?_ ops rfl
  intro h' a hb
  exact (perform_bounds h' a).trans hb

/-- a histogram and the threads that observe it, each with its values in turn -/
def observers (h : SimpleHistogram α) (threads : List (List α)) : Pool (SimpleHistogram α) (Atomic α) :=
  ⟨h, threads.map fun values => values.flatMap (observeOps h.buckets)⟩

/-- **Concurrent observations.**  Threads observe a histogram, each of them any number of values and
all of them without a lock.  For every order in which their additions come: when all threads have
ended, the count and the buckets are those of the same observations one after the other, and the sum
is that of all values, added in some order. -/
theorem concurrent_observations (defaults buckets : List α) (threads : List (List α))
    (schedule : List Nat)
    (hdone : (run (Pool.next perform) (observers (make defaults buckets) threads) schedule).Done) :
    let h := (run (Pool.next perform) (observers (make defaults buckets) threads) schedule).shared
    let plain := observed defaults buckets threads.flatten
    h.buckets = plain.buckets ∧ h.count = plain.count ∧
      (∀ b, h.bucketCounts.lookup b = plain.bucketCounts.lookup b) ∧
      ∃ values : List α, values.Perm threads.flatten ∧ h.sum = values.foldl (· + ·) 0 := by
  intro h plain
  let h₀ := make defaults buckets
  have hops : (observers h₀ threads).programs.flatten
      = threads.flatten.flatMap (observeOps h₀.buckets) := by
    show (threads.map fun values => values.flatMap (observeOps h₀.buckets)).flatten = _
    rw [← List.flatMap_def, ← List.flatMap_id, List.flatMap_assoc]
    rfl
  have hplain : run perform h₀ (observers h₀ threads).programs.flatten = plain := by
    rw [hops]
    exact run_observeOps _ _
  have hcounts : h.counts = plain.counts := by
    rw [← hplain]
    exact view_of_done counts_perform addCount_comm hdone
  obtain ⟨trace, htrace, hperm⟩ := trace_of_done hdone
  refine ⟨?_, congrArg Prod.fst hcounts, fun b => congrFun (congrArg Prod.snd hcounts) b,
    trace.filterMap summand, ?_, ?_⟩
  · exact (congrArg SimpleHistogram.buckets htrace).trans
      ((run_bounds trace _).trans (observed_buckets defaults buckets _).symm)
  · have h := hperm.filterMap summand
    rwa [hops, summands_observeOps] at h
  · exact (congrArg SimpleHistogram.sum htrace).trans (run_sum trace _)

end

/-- two threads: the second one observes while the first one is between its additions -/
theorem concurrent_observations_two :
    let h := (run (Pool.next perform) (observers (make [] [1, 5]) [[3], [7, 0]])
      [0, 1, 1, 1, 0, 0, 1, 1, 1, 1] : Pool (SimpleHistogram ℕ) (Atomic ℕ)).shared
    h.count = 3 ∧ h.bucketCounts.lookup 1 = some 1 ∧ h.bucketCounts.lookup 5 = some 2 := by
  intro h
  obtain ⟨-, hcount, hbuckets, -⟩ := concurrent_observations ([] : List ℕ) [1, 5] [[3], [7, 0]]
    [0, 1, 1, 1, 0, 0, 1, 1, 1, 1] (by
      show ∀ l ∈ _, l = _
      decide)
  exact ⟨hcount.trans (by decide), (hbuckets 1).trans (by decide), (hbuckets 5).trans (by decide)⟩

end SimpleHistogram
end Metrics
end ChainForge
