import ChainForge.Lib.Chrono
import ChainForge.Lib.Machine
import Mathlib.Algebra.GroupWithZero.Nat
import Mathlib.Data.Int.Basic

/-!
# The circuit breaker

`recovery::CircuitBreaker` of `modules/core/include/chainforge/core/error_utils.hpp`, with the
history of its calls beside it.  Times are readings of `steady_clock` in nanoseconds, the timeout is in
milliseconds and converted in 64 bits; `execute` reads the clock when it finds the circuit open, and
again after a failed invocation.

The counter is a 32-bit `int` that is not reset when the circuit opens, so a failed probe from
`HALF_OPEN` finds it at or above the threshold and opens the circuit again.

* `failures h`     the failed invocations since the last success or reset of the history `h`;
* `Law`            what counter and state are, in terms of the history;
* `call_law`       every call keeps it, and `afterCalls_law` every run;
* `breaker_law`    **the law holds after every run**, and it says which calls are refused, for a
                   timeout that fits into 64 bits as nanoseconds;
* `longest_timeout_refuses_nothing`   `milliseconds::max()` does not.
-/

set_option linter.unusedSectionVars false

namespace ChainForge
namespace Recovery
open Machine Chrono

inductive State where
  | closed
  | opened
  | halfOpen
  deriving DecidableEq, Repr

structure ErrorInfo where
  code : Int32
  message : String
  deriving DecidableEq, Repr

/-- `ErrorCode::SERVICE_UNAVAILABLE` -/
def serviceUnavailable : Int32 := 10004

structure CircuitBreaker where
  failureThreshold : Int32
  /-- in milliseconds -/
  timeout : Int64
  failureCount : Int32
  lastFailureTime : Instant
  state : State
  deriving DecidableEq, Repr

/-- a call of `execute`: the reading of the clock at the check, what the function returns when it is
invoked, and the reading after a failure -/
structure Invocation (α : Type) where
  now : Instant
  result : Except ErrorInfo α
  failedAt : Instant

namespace CircuitBreaker
variable {α : Type}

def make (failureThreshold : Int32) (timeout : Int64) (now : Instant) : CircuitBreaker :=
  { failureThreshold, timeout, failureCount := 0, lastFailureTime := now, state := .closed }

def onSuccess (b : CircuitBreaker) : CircuitBreaker := { b with failureCount := 0, state := .closed }

def onFailure (b : CircuitBreaker) (now : Instant) : CircuitBreaker :=
  let b := { b with failureCount := b.failureCount + 1, lastFailureTime := now }
  if b.failureCount ≥ b.failureThreshold then { b with state := .opened } else b

/-- the check of `execute`: the breaker with which the function is invoked, if it is invoked; the
comparison converts the timeout to nanoseconds -/
def pass? (b : CircuitBreaker) (now : Instant) : Option CircuitBreaker :=
  if b.state = .opened then
    if (now : Int) - b.lastFailureTime ≥ (nanoseconds b.timeout).toInt then
      some { b with state := .halfOpen }
    else none
  else some b

def settle (b : CircuitBreaker) (i : Invocation α) : CircuitBreaker :=
  match i.result with
  | .ok _ => b.onSuccess
  | .error _ => b.onFailure i.failedAt

def execute (b : CircuitBreaker) (i : Invocation α) : Except ErrorInfo α × CircuitBreaker :=
  match b.pass? i.now with
  | none => (.error ⟨serviceUnavailable, "Circuit breaker is open"⟩, b)
  | some b => (i.result, b.settle i)

def reset (b : CircuitBreaker) : CircuitBreaker := { b with state := .closed, failureCount := 0 }

end CircuitBreaker

/-! ## histories -/

inductive Call (α : Type) where
  | execute (i : Invocation α)
  | reset

inductive Event where
  | refused
  | succeeded
  | failed (time : Instant)
  | reset
  deriving DecidableEq, Repr

/-- the failed invocations since the last successful one or the last reset; the last event first -/
def failures : List Event → Nat
  | [] => 0
  | .refused :: h => failures h
  | .succeeded :: _ => 0
  | .failed _ :: h => failures h + 1
  | .reset :: _ => 0

/-- the time of the last failed invocation -/
def lastFailed : List Event → Option Instant
  | [] => none
  | .failed time :: _ => some time
  | _ :: h => lastFailed h

/-- all failed invocations -/
def failedInAll : List Event → Nat
  | [] => 0
  | .failed _ :: h => failedInAll h + 1
  | _ :: h => failedInAll h

theorem failures_le_failedInAll (h : List Event) : failures h ≤ failedInAll h := by
  induction h with
  | nil => exact le_rfl
  | cons e h ih => cases e <;> simp only [failures, failedInAll] <;> omega

theorem lastFailed_ne_none {h : List Event} (hf : failures h ≠ 0) : lastFailed h ≠ none := by
  induction h with
  | nil => exact absurd rfl hf
  | cons e h ih =>
    cases e with
    | refused => exact ih hf
    | succeeded => exact absurd rfl hf
    | failed time => exact Option.some_ne_none time
    | reset => exact absurd rfl hf

section
variable {α : Type}

/-- what a call is in the history -/
def Call.event (b : CircuitBreaker) : Call α → Event
  | .execute i =>
    match b.pass? i.now, i.result with
    | none, _ => .refused
    | some _, .ok _ => .succeeded
    | some _, .error _ => .failed i.failedAt
  | .reset => .reset

/-- a breaker and its history -/
def call (p : CircuitBreaker × List Event) (c : Call α) : CircuitBreaker × List Event :=
  (match c with
    | .execute i => (p.1.execute i).2
    | .reset => p.1.reset,
   c.event p.1 :: p.2)

def afterCalls (failureThreshold : Int32) (timeout : Int64) (start : Instant)
    (calls : List (Call α)) : CircuitBreaker × List Event :=
  run call (CircuitBreaker.make failureThreshold timeout start, []) calls

end

/-! ## the law -/

/-- counter and state in terms of the history -/
structure Law (failureThreshold : Int32) (timeout : Int64) (b : CircuitBreaker) (h : List Event) :
    Prop where
  threshold : b.failureThreshold = failureThreshold
  timeout : b.timeout = timeout
  count : b.failureCount.toInt = failures h
  state : b.state = if failureThreshold.toInt ≤ failures h then .opened else .closed
  last : ∀ t, lastFailed h = some t → b.lastFailureTime = t

section
variable {α : Type} {failureThreshold : Int32} {timeout : Int64} {b : CircuitBreaker} {h : List Event}

theorem pass?_eq_none_iff (now : Instant) : b.pass? now = none ↔
    b.state = .opened ∧ (now : Int) - b.lastFailureTime < (nanoseconds b.timeout).toInt := by
  unfold CircuitBreaker.pass?
  by_cases h1 : b.state = .opened
  · rw [if_pos h1]
    by_cases h2 : (now : Int) - b.lastFailureTime ≥ (nanoseconds b.timeout).toInt
    · rw [if_pos h2]
      exact ⟨fun e => (nomatch e), fun e => absurd e.2 (Int.not_lt.mpr h2)⟩
    · rw [if_neg h2]
      exact ⟨fun _ => ⟨h1, Int.not_le.mp h2⟩, fun _ => rfl⟩
  · rw [if_neg h1]
    exact ⟨fun e => (nomatch e), fun e => absurd e.1 h1⟩

/-- a call that passes finds the counter as it was, and an open circuit only as a probe -/
theorem pass?_eq_some {now : Instant} {b' : CircuitBreaker} (e : b.pass? now = some b') :
    b' = b ∧ b.state ≠ .opened ∨ b' = { b with state := .halfOpen } ∧ b.state = .opened := by
  unfold CircuitBreaker.pass? at e
  by_cases h1 : b.state = .opened
  · rw [if_pos h1] at e
    split at e
    · exact .inr ⟨(Option.some.inj e).symm, h1⟩
    · cases e
  · rw [if_neg h1] at e
    exact .inl ⟨(Option.some.inj e).symm, h1⟩

theorem event_eq_refused_iff (i : Invocation α) :
    (Call.execute i).event b = .refused ↔ b.pass? i.now = none := by
  unfold Call.event
  dsimp only
  cases b.pass? i.now with
  | none => exact ⟨fun _ => rfl, fun _ => rfl⟩
  | some b' =>
    cases i.result with
    | ok v => exact ⟨fun e => (nomatch e), fun e => (nomatch e)⟩
    | error e => exact ⟨fun e => (nomatch e), fun e => (nomatch e)⟩

theorem toInt_succ {n : Int32} {k : Nat} (hn : n.toInt = k) (hk : k + 1 < 2 ^ 31) :
    (n + 1).toInt = k + 1 := by
  rw [Int32.toInt_add, hn]
  show ((k : Int) + 1).bmod (2 ^ 32) = k + 1
  rw [Int.bmod_eq_of_le_mul_two] <;> omega

/-- a failed invocation, of a closed circuit or of a probe -/
theorem Law.onFailure (hl : Law failureThreshold timeout b h) {b' : CircuitBreaker}
    {now time : Instant} (hpass : b.pass? now = some b') (hfew : failures h + 1 < 2 ^ 31) :
    Law failureThreshold timeout (b'.onFailure time) (.failed time :: h) := by
  -- the state matters only where the counter stays below the threshold, and then it was closed
  have hb' : b'.failureThreshold = failureThreshold ∧ b'.timeout = timeout ∧
      b'.failureCount.toInt = failures h ∧
      (¬ failureThreshold.toInt ≤ failures h → b'.state = .closed) := by
    rcases pass?_eq_some hpass with ⟨rfl, _⟩ | ⟨rfl, hopen⟩
    · refine ⟨hl.threshold, hl.timeout, hl.count, fun hlt => ?_⟩
      rw [hl.state, if_neg hlt]
    · refine ⟨hl.threshold, hl.timeout, hl.count, fun hlt => ?_⟩
      rw [hl.state, if_neg hlt] at hopen
      cases hopen
  obtain ⟨hthreshold, htimeout, hcount, hclosed⟩ := hb'
  have hsucc := toInt_succ hcount hfew
  have hge : b'.failureCount + 1 ≥ b'.failureThreshold ↔
      failureThreshold.toInt ≤ ((failures h + 1 : Nat) : Int) := by
    rw [ge_iff_le, Int32.le_iff_toInt_le, hthreshold, hsucc]
    push_cast
    exact Iff.rfl
  unfold CircuitBreaker.onFailure
  by_cases hopen : b'.failureCount + 1 ≥ b'.failureThreshold
  · rw [if_pos hopen]
    refine ⟨hthreshold, htimeout, ?_, ?_, ?_⟩
    · exact hsucc
    · exact (if_pos (hge.mp hopen)).symm
    · rintro t ⟨⟩
      rfl
  · rw [if_neg hopen]
    have hlt : ¬ failureThreshold.toInt ≤ failures h := fun hle => hopen (hge.mpr (by omega))
    refine ⟨hthreshold, htimeout, ?_, ?_, ?_⟩
    · exact hsucc
    · exact (hclosed hlt).trans (if_neg (mt hge.mpr hopen)).symm
    · rintro t ⟨⟩
      rfl

/-- a success or a reset: nothing has failed since -/
theorem Law.cleared (hpos : 1 ≤ failureThreshold.toInt) (hl : Law failureThreshold timeout b h)
    {b' : CircuitBreaker} {e : Event} (hthreshold : b'.failureThreshold = b.failureThreshold)
    (htimeout : b'.timeout = b.timeout) (hlast : b'.lastFailureTime = b.lastFailureTime)
    (hcount : b'.failureCount = 0) (hstate : b'.state = .closed)
    (he : failures (e :: h) = 0) (he' : lastFailed (e :: h) = lastFailed h) :
    Law failureThreshold timeout b' (e :: h) := by
  refine ⟨hthreshold.trans hl.threshold, htimeout.trans hl.timeout, ?_, ?_, ?_⟩
  · rw [hcount, he]
    rfl
  · rw [hstate, he, if_neg (by omega)]
  · intro t ht
    rw [hlast]
    exact hl.last t (he' ▸ ht)

/-- **One call.** -/
theorem call_law (hpos : 1 ≤ failureThreshold.toInt) (c : Call α)
    (hl : Law failureThreshold timeout b h) (hfew : failedInAll (c.event b :: h) < 2 ^ 31) :
    Law failureThreshold timeout (call (b, h) c).1 (c.event b :: h) := by
  cases c with
  | reset => exact hl.cleared hpos rfl rfl rfl rfl rfl rfl rfl
  | execute i =>
    unfold call CircuitBreaker.execute
    unfold Call.event at hfew ⊢
    dsimp only at hfew ⊢
    cases ha : b.pass? i.now with
    | none => exact ⟨hl.threshold, hl.timeout, hl.count, hl.state, hl.last⟩
    | some b' =>
      rw [ha] at hfew
      unfold CircuitBreaker.settle
      cases hr : i.result with
      | ok v =>
        rcases pass?_eq_some ha with ⟨rfl, _⟩ | ⟨rfl, _⟩
        · exact hl.cleared hpos rfl rfl rfl rfl rfl rfl rfl
        · exact hl.cleared hpos rfl rfl rfl rfl rfl rfl rfl
      | error e =>
        rw [hr] at hfew
        have hle := failures_le_failedInAll h
        have hall : failedInAll h + 1 < 2 ^ 31 := hfew
        exact hl.onFailure ha (by omega)

theorem make_law (hpos : 1 ≤ failureThreshold.toInt) (now : Instant) :
    Law failureThreshold timeout (CircuitBreaker.make failureThreshold timeout now) [] := by
  refine ⟨rfl, rfl, rfl, ?_, fun t ht => nomatch ht⟩
  rw [if_neg (by simp only [failures]; omega)]
  rfl

theorem failedInAll_le_call (p : CircuitBreaker × List Event) (c : Call α) :
    failedInAll p.2 ≤ failedInAll (call p c).2 := by
  show failedInAll p.2 ≤ failedInAll (c.event p.1 :: p.2)
  cases c.event p.1 <;> simp only [failedInAll] <;> omega

/-- **A run.** -/
theorem afterCalls_law (hpos : 1 ≤ failureThreshold.toInt) (start : Instant)
    (calls : List (Call α))
    (hfew : failedInAll (afterCalls failureThreshold timeout start calls).2 < 2 ^ 31) :
    Law failureThreshold timeout (afterCalls failureThreshold timeout start calls).1
      (afterCalls failureThreshold timeout start calls).2 := by
  refine run_inv (fun p : CircuitBreaker × List Event =>
    failedInAll p.2 < 2 ^ 31 → Law failureThreshold timeout p.1 p.2) ?_ calls
    (fun _ => make_law hpos start) hfew
  intro p c ih hfew
  exact call_law hpos c (ih (Nat.lt_of_le_of_lt (failedInAll_le_call p c) hfew)) hfew

/-- an open circuit has seen a failure -/
theorem Law.lastFailed_of_opened (hpos : 1 ≤ failureThreshold.toInt)
    (hl : Law failureThreshold timeout b h) (hopen : b.state = .opened) :
    lastFailed h = some b.lastFailureTime := by
  have hne : failures h ≠ 0 := by
    intro h0
    rw [hl.state, h0, if_neg (by omega)] at hopen
    cases hopen
  obtain ⟨t, ht⟩ := Option.ne_none_iff_exists'.mp (lastFailed_ne_none hne)
  rw [hl.last t ht, ht]

end

/-- **The law of the circuit breaker.**  For a timeout that fits into 64 bits as nanoseconds, after
every run with fewer than `2^31` failed invocations the counter is the number of failures since the
last success or reset, the circuit is open exactly if this number has reached the threshold and closed
otherwise, and the next call of `execute` leaves its function uninvoked exactly if the circuit is open
and less than `timeout` has passed since the last failed invocation. -/
theorem breaker_law {α : Type} (failureThreshold : Int32) (timeout : Int64) (start : Instant)
    (calls : List (Call α)) (hpos : 1 ≤ failureThreshold.toInt) (hfits : Fits timeout)
    (hfew : failedInAll (afterCalls failureThreshold timeout start calls).2 < 2 ^ 31) :
    let b := (afterCalls failureThreshold timeout start calls).1
    let h := (afterCalls failureThreshold timeout start calls).2
    b.failureCount.toInt = failures h ∧
      b.state = (if failureThreshold.toInt ≤ failures h then .opened else .closed) ∧
      ∀ i : Invocation α, (Call.execute i).event b = .refused ↔
        b.state = .opened ∧ ∃ t, lastFailed h = some t ∧
          (i.now : Int) - (t : Int) < timeout.toInt * 1000000 := by
  have hlaw := afterCalls_law hpos start calls hfew
  refine ⟨hlaw.count, hlaw.state, fun i => ?_⟩
  rw [event_eq_refused_iff, pass?_eq_none_iff, hlaw.timeout, toInt_nanoseconds hfits]
  refine and_congr_right fun hopen => ?_
  rw [hlaw.lastFailed_of_opened hpos hopen]
  constructor
  · intro hlt
    exact ⟨_, rfl, hlt⟩
  · rintro ⟨t, e, hlt⟩
    rwa [Option.some.inj e]

def down : Except ErrorInfo Unit := .error ⟨serviceUnavailable, "Service down"⟩

/-- a breaker for two failures and 100 ms: both failures, a call that comes too early, and a probe
after 150 ms that fails -/
def failedProbe : List (Call Unit) :=
  [.execute ⟨0, down, 1⟩, .execute ⟨2, down, 3⟩, .execute ⟨4, down, 5⟩,
   .execute ⟨150000003, down, 150000004⟩]

theorem breaker_law_failedProbe :
    let b := (afterCalls 2 100 0 failedProbe).1
    let h := (afterCalls 2 100 0 failedProbe).2
    b.failureCount.toInt = failures h ∧
      b.state = (if (2 : Int32).toInt ≤ failures h then .opened else .closed) ∧
      ∀ i : Invocation Unit, (Call.execute i).event b = .refused ↔
        b.state = .opened ∧ ∃ t, lastFailed h = some t ∧
          (i.now : Int) - (t : Int) < (100 : Int64).toInt * 1000000 :=
  breaker_law 2 100 0 failedProbe (by decide) (by decide) (by decide +kernel)

/-- the timeout `milliseconds::max()` is converted to -1000000 ns: a breaker for one failure opens
after it at 1 ns and invokes the function again at 2 ns -/
theorem longest_timeout_refuses_nothing :
    let timeout : Int64 := 9223372036854775807
    let b := (afterCalls 1 timeout 0 [.execute ⟨0, down, 1⟩]).1
    let h := (afterCalls 1 timeout 0 [.execute ⟨0, down, 1⟩]).2
    let i : Invocation Unit := ⟨2, down, 3⟩
    b.state = .opened ∧ lastFailed h = some 1 ∧
      (i.now : Int) - ((1 : Instant) : Int) < timeout.toInt * 1000000 ∧
      (nanoseconds timeout).toInt = -1000000 ∧ (Call.execute i).event b = .failed 3 := by
  decide +kernel

-- the failed probe leaves the circuit open, not half open
example : (afterCalls 2 100 0 failedProbe).1.state = .opened := by decide +kernel

end Recovery
end ChainForge
