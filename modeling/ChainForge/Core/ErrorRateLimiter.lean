import ChainForge.Lib.Chrono
import ChainForge.Lib.Machine
import Mathlib.Data.Rat.Cast.Order
import Mathlib.Data.List.Induction
import Mathlib.Order.Basic

/-!
# The error rate limiter

`monitoring::ErrorRateLimiter` of `modules/core/include/chainforge/core/error_utils.hpp`: a queue of
the times of errors, from which a query drops what has left the window.  Times are readings of
`steady_clock` in nanoseconds; the window is in milliseconds, and its start is computed in 64 bits.
Rates are exact.

The queue forgets errors, but only those that no later query would count.

* `kept_eq`         what the queue holds of a window, it holds of the whole history;
* `answer_iff`      **a query counts the errors of the whole history that are in its window**, if the
                    window fits into 64 bits as nanoseconds;
* `longest_window_forgets`   `milliseconds::max()` does not.
-/

set_option linter.unusedSectionVars false

namespace ChainForge
namespace Monitoring
open Machine Chrono

/-! ## ordered queues -/

section
variable {α τ : Type*} [LinearOrder τ] (time : α → τ)

/-- `while (!q.empty() && q.front() < start) q.pop_front()` -/
def expire (start : τ) (q : List α) : List α := q.dropWhile (time · < start)

variable {time}

/-- from an ordered queue everything before `start` is gone, and nothing else -/
theorem expire_eq_filter (start : τ) {q : List α} (h : q.Pairwise (time · ≤ time ·)) :
    expire time start q = q.filter (start ≤ time ·) := by
  induction q with
  | nil => rfl
  | cons t q ih =>
    obtain ⟨ht, hq⟩ := List.pairwise_cons.mp h
    unfold expire
    by_cases hlt : time t < start
    · have hout : ¬ start ≤ time t := not_le.mpr hlt
      rw [List.dropWhile_cons, decide_eq_true hlt, List.filter_cons, decide_eq_false hout]
      exact ih hq
    · have hall : ∀ u ∈ t :: q, decide (start ≤ time u) = true := by
        intro u hu
        rcases List.mem_cons.mp hu with rfl | hu
        · exact decide_eq_true (not_lt.mp hlt)
        · exact decide_eq_true ((not_lt.mp hlt).trans (ht u hu))
      rw [List.dropWhile_cons, decide_eq_false hlt, List.filter_eq_self.mpr hall]
      rfl

/-- a later window sees the same of the queue before and after -/
theorem filter_expire {start start' : τ} (hle : start ≤ start') {q : List α}
    (h : q.Pairwise (time · ≤ time ·)) :
    (expire time start q).filter (start' ≤ time ·) = q.filter (start' ≤ time ·) := by
  rw [expire_eq_filter start h, List.filter_filter]
  refine List.filter_congr fun t _ => ?_
  by_cases ht : start' ≤ time t
  · rw [decide_eq_true ht, decide_eq_true (hle.trans ht)]
    rfl
  · rw [decide_eq_false ht, Bool.false_and]

end

/-! ## the limiter -/

structure ErrorRateLimiter where
  /-- errors per second -/
  maxErrorRate : ℚ
  /-- in milliseconds -/
  windowSize : Int64
  positive : 0 < windowSize.toInt
  errorTimes : List Instant

namespace ErrorRateLimiter

def make (maxErrorRate : ℚ) (windowSize : Int64) (positive : 0 < windowSize.toInt) :
    ErrorRateLimiter :=
  { maxErrorRate, windowSize, positive, errorTimes := [] }

/-- where the window of a query begins -/
def windowStart (windowSize : Int64) (now : Instant) : Int := (before now windowSize).toInt

/-- `current_rate <= max_error_rate_` for a number of errors -/
def within (maxErrorRate : ℚ) (windowSize : Int64) (errors : Nat) : Bool :=
  (errors : ℚ) / ((windowSize.toInt : ℚ) / 1000) ≤ maxErrorRate

def shouldAllowOperation (l : ErrorRateLimiter) (now : Instant) : Bool × ErrorRateLimiter :=
  let l := { l with
    errorTimes := expire (fun t : Instant => (t : Int)) (windowStart l.windowSize now) l.errorTimes }
  (within l.maxErrorRate l.windowSize l.errorTimes.length, l)

def recordError (l : ErrorRateLimiter) (now : Instant) : ErrorRateLimiter :=
  { l with errorTimes := l.errorTimes ++ [now] }

end ErrorRateLimiter

open ErrorRateLimiter

/-- a call, with its reading of the clock -/
inductive Call where
  | recordError (now : Instant)
  | shouldAllowOperation (now : Instant)
  deriving DecidableEq, Repr

def Call.now : Call → Instant
  | .recordError now => now
  | .shouldAllowOperation now => now

def ErrorRateLimiter.step (l : ErrorRateLimiter) : Call → ErrorRateLimiter
  | .recordError now => l.recordError now
  | .shouldAllowOperation now => (l.shouldAllowOperation now).2

/-- the errors that were ever recorded -/
def recorded : List Call → List Instant
  | [] => []
  | .recordError now :: calls => now :: recorded calls
  | .shouldAllowOperation _ :: calls => recorded calls

theorem recorded_append (calls calls' : List Call) :
    recorded (calls ++ calls') = recorded calls ++ recorded calls' := by
  induction calls with
  | nil => rfl
  | cons c calls ih =>
    cases c with
    | recordError now =>
      show now :: recorded (calls ++ calls') = now :: (recorded calls ++ recorded calls')
      rw [ih]
    | shouldAllowOperation now => exact ih

section
variable (maxErrorRate : ℚ) (windowSize : Int64) (positive : 0 < windowSize.toInt)

/-- a new limiter after some calls -/
def afterCalls (calls : List Call) : ErrorRateLimiter :=
  run step (ErrorRateLimiter.make maxErrorRate windowSize positive) calls

theorem afterCalls_concat (calls : List Call) (c : Call) :
    afterCalls maxErrorRate windowSize positive (calls ++ [c])
      = (afterCalls maxErrorRate windowSize positive calls).step c :=
  run_concat _ _ _ _

theorem afterCalls_parameters (calls : List Call) :
    (afterCalls maxErrorRate windowSize positive calls).maxErrorRate = maxErrorRate ∧
      (afterCalls maxErrorRate windowSize positive calls).windowSize = windowSize := by
  refine run_inv (fun l : ErrorRateLimiter => l.maxErrorRate = maxErrorRate ∧ l.windowSize = windowSize)
    ?_ calls ⟨rfl, rfl⟩
  intro l c h
  cases c with
  | recordError now => exact h
  | shouldAllowOperation now => exact h

/-- the queue holds readings of the clock in their order -/
theorem errorTimes_sublist (calls : List Call) :
    (afterCalls maxErrorRate windowSize positive calls).errorTimes.Sublist (calls.map Call.now) := by
  induction calls using List.reverseRecOn with
  | nil => exact List.Sublist.refl []
  | append_singleton calls c ih =>
    rw [afterCalls_concat, List.map_append]
    cases c with
    | recordError now => exact ih.append (List.Sublist.refl [now])
    | shouldAllowOperation now =>
      exact ((List.dropWhile_sublist _).trans ih).trans (List.sublist_append_left _ _)

theorem errorTimes_sorted (calls : List Call) (h : (calls.map Call.now).Pairwise (· ≤ ·)) :
    (afterCalls maxErrorRate windowSize positive calls).errorTimes.Pairwise
      (fun t u : Instant => (t : Int) ≤ (u : Int)) := by
  refine (List.Pairwise.sublist
    (errorTimes_sublist maxErrorRate windowSize positive calls) h).imp fun hle => ?_
  exact Int.ofNat_le.mpr hle

variable {windowSize} in
theorem windowStart_mono (positive : 0 < windowSize.toInt) (hfits : Fits windowSize)
    {t now : Instant} (h : t ≤ now) : windowStart windowSize t ≤ windowStart windowSize now := by
  have hle : (t : Nat) ≤ now := h
  rw [windowStart, windowStart, toInt_before t hfits positive, toInt_before now hfits positive]
  omega

/-- **What the queue has lost does not count any more.** -/
theorem kept_eq (calls : List Call) (hfits : Fits windowSize)
    (h : (calls.map Call.now).Pairwise (· ≤ ·)) {now : Instant} (hnow : ∀ c ∈ calls, c.now ≤ now) :
    (afterCalls maxErrorRate windowSize positive calls).errorTimes.filter
        (fun t : Instant => windowStart windowSize now ≤ (t : Int))
      = (recorded calls).filter (fun t : Instant => windowStart windowSize now ≤ (t : Int)) := by
  induction calls using List.reverseRecOn with
  | nil => rfl
  | append_singleton calls c ih =>
    rw [List.map_append] at h
    have hcalls := (List.pairwise_append.mp h).1
    have ih := ih hcalls fun c' hc' => hnow c' (List.mem_append_left _ hc')
    have hc : c.now ≤ now := hnow c (List.mem_append_right _ List.mem_cons_self)
    rw [afterCalls_concat, recorded_append]
    cases c with
    | recordError t =>
      show ((afterCalls maxErrorRate windowSize positive calls).errorTimes ++ [t]).filter _ = _
      rw [List.filter_append, List.filter_append, ih]
      rfl
    | shouldAllowOperation t =>
      have hsorted := errorTimes_sorted maxErrorRate windowSize positive calls hcalls
      have hle : windowStart windowSize t ≤ windowStart windowSize now :=
        windowStart_mono positive hfits hc
      have hw := (afterCalls_parameters maxErrorRate windowSize positive calls).2
      show (expire _ (windowStart (afterCalls maxErrorRate windowSize positive calls).windowSize t)
        (afterCalls maxErrorRate windowSize positive calls).errorTimes).filter _ = _
      rw [hw, filter_expire hle hsorted, ih]
      exact congrArg _ (List.append_nil _).symm

end

/-- **The answer of a query**, after any calls, with readings of the clock that do not decrease and a
window that fits into 64 bits as nanoseconds: the operation is allowed exactly if the errors recorded
so far that are in the window, divided by the window in seconds, are at most the maximum rate. -/
theorem answer_iff (maxErrorRate : ℚ) (windowSize : Int64) (positive : 0 < windowSize.toInt)
    (hfits : Fits windowSize) (calls : List Call) (now : Instant)
    (h : (calls.map Call.now ++ [now]).Pairwise (· ≤ ·)) :
    ((afterCalls maxErrorRate windowSize positive calls).shouldAllowOperation now).1 = true ↔
      ((recorded calls).countP (fun t : Instant => (now : Int) - windowSize.toInt * 1000000 ≤ (t : Int)) : ℚ)
        / ((windowSize.toInt : ℚ) / 1000) ≤ maxErrorRate := by
  obtain ⟨hcalls, _, hnow⟩ := List.pairwise_append.mp h
  have hsorted := errorTimes_sorted maxErrorRate windowSize positive calls hcalls
  have hbefore : ∀ c ∈ calls, c.now ≤ now := fun c hc =>
    hnow c.now (List.mem_map_of_mem hc) now List.mem_cons_self
  obtain ⟨hrate, hw⟩ := afterCalls_parameters maxErrorRate windowSize positive calls
  have hlen : (expire (fun t : Instant => (t : Int)) (windowStart windowSize now)
      (afterCalls maxErrorRate windowSize positive calls).errorTimes).length
      = (recorded calls).countP
        (fun t : Instant => (now : Int) - windowSize.toInt * 1000000 ≤ (t : Int)) := by
    rw [expire_eq_filter _ hsorted,
      kept_eq maxErrorRate windowSize positive calls hfits hcalls hbefore,
      ← List.countP_eq_length_filter, windowStart, toInt_before now hfits positive]
  show within (afterCalls maxErrorRate windowSize positive calls).maxErrorRate
    (afterCalls maxErrorRate windowSize positive calls).windowSize (expire _ (windowStart
      (afterCalls maxErrorRate windowSize positive calls).windowSize now)
      (afterCalls maxErrorRate windowSize positive calls).errorTimes).length = true ↔ _
  rw [hrate, hw, hlen]
  exact decide_eq_true_iff

/-- two errors in 100 ms are 20 errors a second; after 200 ms they count no more -/
def twoErrors : List Call :=
  [.shouldAllowOperation 0, .recordError 1000000, .recordError 2000000,
   .shouldAllowOperation 50000000]

theorem answer_iff_twoErrors :
    ((afterCalls 15 100 (by decide) twoErrors).shouldAllowOperation 200000000).1 = true ↔
      ((recorded twoErrors).countP (fun t : Instant =>
          ((200000000 : Instant) : Int) - (100 : Int64).toInt * 1000000 ≤ (t : Int)) : ℚ)
        / (((100 : Int64).toInt : ℚ) / 1000) ≤ 15 :=
  answer_iff 15 100 (by decide) (by decide) twoErrors 200000000 (by decide)

example : ((afterCalls 15 100 (by decide) twoErrors).shouldAllowOperation 60000000).1 = false := by
  decide +kernel

/-- the window `milliseconds::max()` is converted to -1000000 ns and begins a millisecond after the
query: at a maximum rate of zero an operation is allowed one nanosecond after an error -/
theorem longest_window_forgets :
    let windowSize : Int64 := 9223372036854775807
    let calls : List Call := [.recordError 1]
    windowStart windowSize 2 = 1000002 ∧
      ((afterCalls 0 windowSize (by decide) calls).shouldAllowOperation 2).1 = true ∧
      ¬ ((recorded calls).countP
          (fun t : Instant => ((2 : Instant) : Int) - windowSize.toInt * 1000000 ≤ (t : Int)) : ℚ)
        / ((windowSize.toInt : ℚ) / 1000) ≤ 0 := by
  decide +kernel

end Monitoring
end ChainForge
