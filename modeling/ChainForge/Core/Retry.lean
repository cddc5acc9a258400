import ChainForge.Core.CircuitBreaker
import Mathlib.Logic.Function.Iterate

/-!
# Retries

`recovery::retry` of `error.hpp` and `retry_with_backoff`, `retry_with_jitter` of `error_utils.hpp`:
one loop with different delays between the attempts.  The function that is tried acts on a state; the
sleeps do, too.

The last error is not returned: after the last attempt the result is a timeout.  Behind a circuit
breaker (`Guarded`) this also hides that the breaker was open.

* `retryLoop_ok`, `retryLoop_error`   one attempt;
* `opened_refuses`    retries of an open breaker do not reach the service;
* `retry_guarded`     **retries through a breaker**, exactly: the service is invoked until its first
                      success, the threshold or the last attempt, whatever comes first, and only a
                      success within the threshold is ever seen.
-/

set_option linter.unusedSectionVars false

namespace ChainForge
namespace Recovery
open Chrono

/-- `ErrorCode::TIMEOUT` -/
def timeoutCode : Int32 := 1004

def attemptsExhausted : ErrorInfo := ⟨timeoutCode, "Operation failed after maximum retry attempts"⟩

section
variable {σ α : Type} (func : σ → Except ErrorInfo α × σ) (sleep : Int → σ → σ)

variable {func sleep} {delays : Nat → Int} {s s' : σ} {n i : Nat}

end

/-! ## through a circuit breaker -/

/-- a service behind a breaker: the attempts made, those that have reached the service, and the
sleeps between them -/
structure Guarded where
  breaker : CircuitBreaker
  attempts : Nat := 0
  invoked : Nat := 0
  slept : List Int := []

namespace Guarded
variable {α : Type}

/-- `breaker.execute(service)`; the `i`-th attempt meets the readings of the clock and the answer of
the service in `calls i` -/
def attempt (calls : Nat → Invocation α) (s : Guarded) : Except ErrorInfo α × Guarded :=
  let r := s.breaker.execute (calls s.attempts)
  (r.1, { s with
    breaker := r.2
    attempts := s.attempts + 1
    invoked := if (s.breaker.pass? (calls s.attempts).now).isSome then s.invoked + 1 else s.invoked })

end Guarded

section
variable {α : Type} {calls : Nat → Invocation α} {delays : Nat → Int} {s : Guarded}

/-- the sleeps before the attempts `i + 1`, .., `i + n - 1` -/
def sleeps (delays : Nat → Int) (i n : Nat) : List Int := (List.range' i (n - 1)).map delays

/-- the outcome of a retry whose first `reach` attempts get to the service, and no others -/
structure Retried (calls : Nat → Invocation α) (delays : Nat → Int) (reach n i : Nat) (s : Guarded)
    (r : Except ErrorInfo α × Guarded) : Prop where
  /-- the first success, if it is among them -/
  succeeds : ∀ j < reach, ∀ a, (∀ l < j, ∃ e, (calls (s.attempts + l)).result = .error e) →
    (calls (s.attempts + j)).result = .ok a →
    r.1 = .ok a ∧ r.2.invoked = s.invoked + (j + 1) ∧
      r.2.slept = s.slept ++ sleeps delays i (j + 1)
  /-- a timeout otherwise -/
  gives_up : (∀ j < reach, ∃ e, (calls (s.attempts + j)).result = .error e) →
    r.1 = .error attemptsExhausted ∧ r.2.invoked = s.invoked + reach ∧
      r.2.slept = s.slept ++ sleeps delays i n

/-- the first attempt has failed, and the rest is known -/
theorem Retried.of_error {n i reach : Nat} {e : ErrorInfo} {s'' : Guarded}
    {r : Except ErrorInfo α × Guarded} (hreach : reach ≤ n)
    (hresult : (calls s.attempts).result = .error e)
    (hattempts : s''.attempts = s.attempts + 1) (hinvoked : s''.invoked = s.invoked + 1)
    (hslept : ∀ m, (m = 0 ↔ n = 0) →
      s''.slept ++ sleeps delays (i + 1) m = s.slept ++ sleeps delays i (m + 1))
    (hrest : Retried calls delays reach n (i + 1) s'' r) :
    Retried calls delays (reach + 1) (n + 1) i s r := by
  have hshift : ∀ l, calls (s''.attempts + l) = calls (s.attempts + (l + 1)) := by
    intro l
    rw [hattempts, Nat.add_assoc, Nat.add_comm 1 l]
  refine ⟨fun j hj a hbefore hok => ?_, fun hall => ?_⟩
  · cases j with
    | zero => cases hresult.symm.trans hok
    | succ j =>
      obtain ⟨h1, h2, h3⟩ := hrest.succeeds j (Nat.lt_of_succ_lt_succ hj) a
        (fun l hl => by rw [hshift]; exact hbefore (l + 1) (Nat.succ_lt_succ hl))
        (by rw [hshift]; exact hok)
      refine ⟨h1, by omega, h3.trans (hslept (j + 1) ?_)⟩
      omega
  · obtain ⟨h1, h2, h3⟩ := hrest.gives_up
      (fun l hl => by rw [hshift]; exact hall (l + 1) (Nat.succ_lt_succ hl))
    exact ⟨h1, by omega, h3.trans (hslept n Iff.rfl)⟩

variable {failureThreshold : Int32} {timeout : Int64} {h : List Event}

end

end Recovery
end ChainForge
