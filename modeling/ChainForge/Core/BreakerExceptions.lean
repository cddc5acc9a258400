import ChainForge.Core.CircuitBreaker
import Mathlib.Algebra.Ring.Int.Defs

/-!
# The circuit breaker and functions that throw

`CircuitBreaker::execute` with a function that may throw.  `HALF_OPEN` is set before the function
is invoked and taken back by `on_success` or `on_failure` after it, so that an exception leaves it
behind: from then on every call is let through.

Beside the breaker stands the time until which no function should be invoked (`quietUntil`): a probe
that fails, by an error or by an exception, sets it one timeout ahead.  This is not computed by the
code, and exact; the code converts the timeout in 64 bits.

* `executeOrThrow_returned`   without exceptions this is `execute`;
* `failed_probe_opens`        a probe that returns an error opens the circuit again, unless the
                              counter overflows;
* `survives_iff`              **which runs leave no `HALF_OPEN` and keep every quiet time**, for a
                              timeout that fits into 64 bits as nanoseconds.
-/

set_option linter.unusedSectionVars false

namespace ChainForge
namespace Recovery
open Machine Chrono

/-- how the invocation of a function ends -/
inductive Outcome (α : Type) where
  | returned (r : Except ErrorInfo α)
  | threw

/-- a call of `execute`: the reading of the clock at the check, how the function ends when it is
invoked, and the reading after that -/
structure Attempt (α : Type) where
  now : Instant
  outcome : Outcome α
  endedAt : Instant

def Attempt.fails {α : Type} (a : Attempt α) : Bool :=
  match a.outcome with
  | .returned (.ok _) => false
  | .returned (.error _) => true
  | .threw => true

namespace CircuitBreaker
variable {α : Type}

/-- the result, none if the exception leaves `execute`, and the breaker -/
def executeOrThrow (b : CircuitBreaker) (a : Attempt α) :
    Option (Except ErrorInfo α) × CircuitBreaker :=
  match b.pass? a.now with
  | none => (some (.error ⟨serviceUnavailable, "Circuit breaker is open"⟩), b)
  | some b =>
    match a.outcome with
    | .returned r => (some r, b.settle ⟨a.now, r, a.endedAt⟩)
    | .threw => (none, b)

theorem executeOrThrow_returned (b : CircuitBreaker) (now endedAt : Instant)
    (r : Except ErrorInfo α) : b.executeOrThrow ⟨now, .returned r, endedAt⟩
      = (some (b.execute ⟨now, r, endedAt⟩).1, (b.execute ⟨now, r, endedAt⟩).2) := by
  unfold executeOrThrow execute
  cases b.pass? now with
  | none => rfl
  | some b' => rfl

/-- the call finds the circuit open, and its timeout passed -/
def probes (b : CircuitBreaker) (now : Instant) : Bool :=
  b.state == .opened && (b.pass? now).isSome

theorem probes_iff (b : CircuitBreaker) (now : Instant) : b.probes now = true ↔
    b.state = .opened ∧ b.pass? now = some { b with state := .halfOpen } := by
  unfold probes
  rw [Bool.and_eq_true, beq_iff_eq]
  refine and_congr_right fun hopen => ?_
  cases hp : b.pass? now with
  | none => exact ⟨fun h => (nomatch h), fun h => (nomatch h)⟩
  | some b' =>
    rcases pass?_eq_some hp with ⟨_, hne⟩ | ⟨rfl, _⟩
    · exact absurd hopen hne
    · exact ⟨fun _ => rfl, fun _ => rfl⟩

theorem onFailure_of_ge {b : CircuitBreaker} (h : b.failureThreshold ≤ b.failureCount + 1)
    (now : Instant) : b.onFailure now
      = { b with failureCount := b.failureCount + 1, lastFailureTime := now, state := .opened } :=
  if_pos h

theorem onFailure_of_lt {b : CircuitBreaker} (h : ¬ b.failureThreshold ≤ b.failureCount + 1)
    (now : Instant) : b.onFailure now
      = { b with failureCount := b.failureCount + 1, lastFailureTime := now } :=
  if_neg h

end CircuitBreaker

/-! ## the counter of a probe -/

theorem toInt_succ_overflow {n : Int32} (h : 2 ^ 31 ≤ n.toInt + 1) : (n + 1).toInt = - 2 ^ 31 := by
  have hlt := n.toInt_lt
  have hn : n.toInt = 2147483647 := by omega
  rw [Int32.toInt_add, hn]
  rfl

/-- a counter at or above a positive threshold is above it after one more failure, unless it
overflows -/
theorem threshold_le_succ_iff {failureThreshold n : Int32} (hpos : 1 ≤ failureThreshold.toInt)
    (hn : failureThreshold ≤ n) : failureThreshold ≤ n + 1 ↔ n.toInt + 1 < 2 ^ 31 := by
  rw [Int32.le_iff_toInt_le] at hn ⊢
  by_cases hfew : n.toInt + 1 < 2 ^ 31
  · obtain ⟨k, hk⟩ := Int.eq_ofNat_of_zero_le (show 0 ≤ n.toInt by omega)
    have hsucc := toInt_succ hk (by omega)
    omega
  · have hover := toInt_succ_overflow (Int.not_lt.mp hfew)
    omega

/-! ## runs -/

inductive ThrowingCall (α : Type) where
  | execute (a : Attempt α)
  | reset

/-- a breaker, and the time until which a failed probe should keep it quiet -/
structure Watched where
  breaker : CircuitBreaker
  quietUntil : Option Int

section
variable {α : Type}

/-- a failed probe begins a quiet time; a call that comes after it, or a reset, ends it -/
def Watched.step (w : Watched) : ThrowingCall α → Watched
  | .execute a =>
    { breaker := (w.breaker.executeOrThrow a).2
      quietUntil :=
        if w.breaker.probes a.now && a.fails then
          some (a.endedAt + w.breaker.timeout.toInt * 1000000)
        else w.quietUntil.filter ((a.now : Int) < ·) }
  | .reset => { breaker := w.breaker.reset, quietUntil := none }

def watched (failureThreshold : Int32) (timeout : Int64) (start : Instant) : Watched :=
  { breaker := .make failureThreshold timeout start, quietUntil := none }

/-- the call does not leave `HALF_OPEN` behind, and in a quiet time it invokes nothing -/
def Survives (w : Watched) (c : ThrowingCall α) : Prop :=
  (w.step c).breaker.state ≠ .halfOpen ∧
    ∀ a, c = .execute a → ∀ t, w.quietUntil = some t → (a.now : Int) < t →
      w.breaker.pass? a.now = none

/-- a probe returns, and where it returns an error the counter is not at its greatest value -/
def ProbeReturns (w : Watched) (c : ThrowingCall α) : Prop :=
  ∀ a, c = .execute a → w.breaker.probes a.now = true →
    ∃ r, a.outcome = .returned r ∧ ∀ e, r = .error e → w.breaker.failureCount.toInt + 1 < 2 ^ 31

/-- between the calls of a run in which all probes return -/
structure Settled (failureThreshold : Int32) (w : Watched) : Prop where
  threshold : w.breaker.failureThreshold = failureThreshold
  fits : Fits w.breaker.timeout
  count : w.breaker.state = .opened → failureThreshold ≤ w.breaker.failureCount
  state : w.breaker.state ≠ .halfOpen
  quiet : ∀ t, w.quietUntil = some t → w.breaker.state = .opened ∧
    t = w.breaker.lastFailureTime + w.breaker.timeout.toInt * 1000000

section
variable {failureThreshold : Int32} {w : Watched}

/-- a call before the end of the timeout -/
theorem Settled.refuses (hw : Settled failureThreshold w) (hopen : w.breaker.state = .opened)
    {now : Instant}
    (hnow : (now : Int) < w.breaker.lastFailureTime + w.breaker.timeout.toInt * 1000000) :
    w.breaker.pass? now = none := by
  refine (pass?_eq_none_iff now).mpr ⟨hopen, ?_⟩
  rw [toInt_nanoseconds hw.fits]
  omega

theorem Settled.refused (hw : Settled failureThreshold w) {a : Attempt α}
    (hp : w.breaker.pass? a.now = none) : w.step (.execute a) = w := by
  obtain ⟨_, hlt⟩ := (pass?_eq_none_iff a.now).mp hp
  rw [toInt_nanoseconds hw.fits] at hlt
  have hquiet : w.quietUntil.filter (fun t => decide ((a.now : Int) < t)) = w.quietUntil := by
    cases hq : w.quietUntil with
    | none => rfl
    | some t =>
      obtain ⟨_, rfl⟩ := hw.quiet t hq
      have hnow : (a.now : Int) < w.breaker.lastFailureTime + w.breaker.timeout.toInt * 1000000 := by
        omega
      rw [Option.filter_some, decide_eq_true hnow]
      rfl
  unfold Watched.step CircuitBreaker.executeOrThrow CircuitBreaker.probes
  dsimp only
  rw [hp]
  simp only [Option.isSome_none, Bool.and_false, Bool.false_and, Bool.false_eq_true, if_false, hquiet]

/-- a call that finds the circuit closed -/
theorem Settled.closed (hw : Settled failureThreshold w) (a : Attempt α)
    (hopen : w.breaker.state ≠ .opened) : Settled failureThreshold (w.step (.execute a)) := by
  have hp : w.breaker.pass? a.now = some w.breaker := if_neg hopen
  have hprobe : w.breaker.probes a.now = false := by
    unfold CircuitBreaker.probes
    rw [beq_eq_false_iff_ne.mpr hopen, Bool.false_and]
  have hquiet : w.quietUntil = none := by
    refine Option.eq_none_iff_forall_not_mem.mpr fun t ht => hopen (hw.quiet t ht).1
  have hstep : w.step (.execute a)
      = { breaker := (w.breaker.executeOrThrow a).2, quietUntil := none } := by
    unfold Watched.step
    dsimp only
    rw [hprobe, hquiet]
    rfl
  have hnone : ∀ (b : CircuitBreaker) (t : Int), (none : Option Int) = some t →
      b.state = .opened ∧ t = b.lastFailureTime + b.timeout.toInt * 1000000 := fun _ _ h => (nomatch h)
  rw [hstep]
  unfold CircuitBreaker.executeOrThrow
  rw [hp]
  cases a.outcome with
  | threw => exact ⟨hw.threshold, hw.fits, hw.count, hw.state, hnone _⟩
  | returned r =>
    cases r with
    | ok v => exact ⟨hw.threshold, hw.fits, fun h => (nomatch h), fun h => (nomatch h), hnone _⟩
    | error e =>
      show Settled failureThreshold ⟨w.breaker.onFailure a.endedAt, none⟩
      by_cases hge : w.breaker.failureThreshold ≤ w.breaker.failureCount + 1
      · rw [CircuitBreaker.onFailure_of_ge hge]
        exact ⟨hw.threshold, hw.fits, fun _ => hw.threshold ▸ hge, fun h => (nomatch h), hnone _⟩
      · rw [CircuitBreaker.onFailure_of_lt hge]
        exact ⟨hw.threshold, hw.fits, fun h => absurd h hopen, hw.state, hnone _⟩

/-- what a probe leaves, by its outcome -/
def Watched.afterProbe (w : Watched) (a : Attempt α) : Watched :=
  match a.outcome with
  | .returned (.ok _) =>
    { breaker := ({ w.breaker with state := .halfOpen } : CircuitBreaker).onSuccess
      quietUntil := w.quietUntil.filter ((a.now : Int) < ·) }
  | .returned (.error _) =>
    { breaker := ({ w.breaker with state := .halfOpen } : CircuitBreaker).onFailure a.endedAt
      quietUntil := some (a.endedAt + w.breaker.timeout.toInt * 1000000) }
  | .threw =>
    { breaker := { w.breaker with state := .halfOpen }
      quietUntil := some (a.endedAt + w.breaker.timeout.toInt * 1000000) }

theorem probe_step {a : Attempt α} (hprobe : w.breaker.probes a.now = true) :
    w.step (.execute a) = w.afterProbe a := by
  have hp := ((w.breaker.probes_iff a.now).mp hprobe).2
  unfold Watched.step CircuitBreaker.executeOrThrow Watched.afterProbe Attempt.fails
  dsimp only
  rw [hp, hprobe]
  cases a.outcome with
  | threw => rfl
  | returned r =>
    cases r with
    | ok v => rfl
    | error e => rfl

/-- **A probe that returns an error** opens the circuit again if the counter does not overflow, and
otherwise leaves it half open. -/
theorem failed_probe_opens (hpos : 1 ≤ failureThreshold.toInt) (hw : Settled failureThreshold w)
    (hopen : w.breaker.state = .opened) (now : Instant) :
    (({ w.breaker with state := .halfOpen } : CircuitBreaker).onFailure now).state
      = if w.breaker.failureCount.toInt + 1 < 2 ^ 31 then .opened else .halfOpen := by
  have hiff := threshold_le_succ_iff hpos (hw.count hopen)
  rw [← hw.threshold] at hiff
  by_cases hfew : w.breaker.failureCount.toInt + 1 < 2 ^ 31
  · rw [if_pos hfew, CircuitBreaker.onFailure_of_ge]
    exact hiff.mpr hfew
  · rw [if_neg hfew, CircuitBreaker.onFailure_of_lt]
    exact mt hiff.mp hfew

theorem Settled.probe (hpos : 1 ≤ failureThreshold.toInt) (hw : Settled failureThreshold w)
    {a : Attempt α} (hprobe : w.breaker.probes a.now = true)
    (hc : ProbeReturns w (.execute a)) : Settled failureThreshold (w.step (.execute a)) := by
  obtain ⟨hopen, hp⟩ := (w.breaker.probes_iff a.now).mp hprobe
  obtain ⟨r, hr, hfew⟩ := hc a rfl hprobe
  rw [probe_step hprobe, Watched.afterProbe, hr]
  cases r with
  | ok v =>
    refine ⟨hw.threshold, hw.fits, fun h => (nomatch h), fun h => (nomatch h), fun t ht => ?_⟩
    -- the call was let through, so the quiet time is over
    obtain ⟨hq, hlt⟩ := Option.filter_eq_some_iff.mp ht
    obtain ⟨_, rfl⟩ := hw.quiet t hq
    have hnone := hw.refuses hopen (of_decide_eq_true hlt)
    rw [hp] at hnone
    cases hnone
  | error e =>
    have hge : failureThreshold ≤ w.breaker.failureCount + 1 :=
      (threshold_le_succ_iff hpos (hw.count hopen)).mpr (hfew e rfl)
    have hb := CircuitBreaker.onFailure_of_ge (b := { w.breaker with state := .halfOpen })
      (hw.threshold ▸ hge) a.endedAt
    show Settled failureThreshold ⟨_, some _⟩
    rw [hb]
    refine ⟨hw.threshold, hw.fits, fun _ => hge, fun h => (nomatch h), fun t ht => ?_⟩
    cases ht
    exact ⟨rfl, rfl⟩

/-- **One call.** -/
theorem Settled.step (hpos : 1 ≤ failureThreshold.toInt) (hw : Settled failureThreshold w)
    (c : ThrowingCall α) (hc : ProbeReturns w c) : Settled failureThreshold (w.step c) := by
  cases c with
  | reset =>
    exact ⟨hw.threshold, hw.fits, fun h => (nomatch h), fun h => (nomatch h), fun t h => (nomatch h)⟩
  | execute a =>
    by_cases hopen : w.breaker.state = .opened
    · cases hp : w.breaker.pass? a.now with
      | none =>
        rw [hw.refused hp]
        exact hw
      | some b =>
        refine hw.probe hpos ?_ hc
        unfold CircuitBreaker.probes
        rw [hopen, hp]
        rfl
    · exact hw.closed a hopen

theorem Settled.survives_iff_probe (hpos : 1 ≤ failureThreshold.toInt)
    (hw : Settled failureThreshold w) (c : ThrowingCall α) : Survives w c ↔ ProbeReturns w c := by
  constructor
  · rintro ⟨hstate, _⟩ a rfl hprobe
    obtain ⟨hopen, _⟩ := (w.breaker.probes_iff a.now).mp hprobe
    rw [probe_step hprobe, Watched.afterProbe] at hstate
    cases ho : a.outcome with
    | threw =>
      rw [ho] at hstate
      exact absurd rfl hstate
    | returned r =>
      refine ⟨r, rfl, fun e he => ?_⟩
      rw [ho, he] at hstate
      dsimp only at hstate
      rw [failed_probe_opens hpos hw hopen] at hstate
      by_contra hover
      exact hstate (if_neg hover)
  · intro hc
    refine ⟨(hw.step hpos c hc).state, ?_⟩
    intro a _ t ht hnow
    obtain ⟨hopen, rfl⟩ := hw.quiet t ht
    exact hw.refuses hopen hnow

end

/-- **Which runs survive exceptions.**  For a threshold of at least one and a timeout that fits into
64 bits as nanoseconds, `HALF_OPEN` is never left behind and every failed probe is followed by a full
timeout in which no function is invoked, exactly if no probe throws and none returns an error with the
counter at its greatest value. -/
theorem survives_iff (failureThreshold : Int32) (timeout : Int64) (start : Instant)
    (calls : List (ThrowingCall α)) (hpos : 1 ≤ failureThreshold.toInt) (hfits : Fits timeout) :
    EveryStep Watched.step Survives (watched failureThreshold timeout start) calls ↔
      EveryStep Watched.step ProbeReturns (watched failureThreshold timeout start) calls :=
  everyStep_iff_of (Settled failureThreshold) (fun _ c hw hc => hw.step hpos c hc)
    (fun _ c hw => hw.survives_iff_probe hpos c) calls
    ⟨rfl, hfits, fun h => (nomatch h), fun h => (nomatch h), fun _ h => (nomatch h)⟩

end

/-- a breaker for one failure and 100 ms: a failure, and after 150 ms a probe that throws -/
def thrownProbe : List (ThrowingCall Unit) :=
  [.execute ⟨0, .returned down, 1⟩, .execute ⟨150000000, .threw, 150000001⟩]

theorem survives_iff_thrownProbe :
    1 ≤ (1 : Int32).toInt ∧ Fits 100 ∧
      (EveryStep Watched.step Survives (watched 1 100 0) thrownProbe ↔
        EveryStep Watched.step ProbeReturns (watched 1 100 0) thrownProbe) :=
  ⟨by decide, by decide, survives_iff 1 100 0 thrownProbe (by decide) (by decide)⟩

/-- the probe that throws leaves the circuit half open, and a call one nanosecond later is let
through, though the quiet time has just begun -/
theorem thrownProbe_stays_halfOpen :
    (run Watched.step (watched 1 100 0) thrownProbe).breaker.state = .halfOpen ∧
      (run Watched.step (watched 1 100 0) thrownProbe).quietUntil = some 250000001 ∧
      ((run Watched.step (watched 1 100 0) thrownProbe).breaker.pass? 150000002).isSome = true ∧
      ¬ EveryStep Watched.step Survives (watched 1 100 0) thrownProbe := by
  refine ⟨by decide +kernel, by decide +kernel, by decide +kernel, ?_⟩
  rintro ⟨_, ⟨hstate, _⟩, _⟩
  exact hstate (by decide +kernel)

end Recovery
end ChainForge
