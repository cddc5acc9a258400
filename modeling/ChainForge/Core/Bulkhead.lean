import ChainForge.Core.CircuitBreaker
import Mathlib.Data.List.Count

/-!
# The bulkhead

`recovery::with_bulkhead` of `error_utils.hpp`: calls of any number of threads that share a counting
semaphore.  `try_acquire` may fail although there is a permit; a call that has got one invokes its
function, and gives the permit back when the function returns.  Nothing gives it back when the
function throws.

* `Bulkhead.step`         one thread tries to enter, or one invocation ends;
* `Conserved`, `step_conserved`   permits, running and thrown calls together are the permits at first;
* `run_closed`            a bulkhead without permits and without running calls only refuses;
* `bulkhead_capacity`     **along every interleaving**: the permits that are left, how many calls can
                          run from then on, and that the bulkhead is closed for good once all its
                          permits have gone with exceptions.
-/

set_option linter.unusedSectionVars false

namespace ChainForge
namespace Recovery
open Machine

/-- `ErrorCode::RESOURCE_EXHAUSTED` -/
def resourceExhausted : Int32 := 10003

def capacityExceeded : ErrorInfo := ⟨resourceExhausted, "Bulkhead capacity exceeded"⟩

/-- a call of `with_bulkhead` -/
inductive Passage where
  | refused (e : ErrorInfo)
  | running
  | returned
  | threw
  deriving DecidableEq, Repr

/-- a semaphore and the calls that were made with it, in the order of their `try_acquire` -/
structure Bulkhead where
  permits : Nat
  calls : List Passage := []

inductive BulkheadAction where
  /-- a thread calls `with_bulkhead`; `spurious` if `try_acquire` fails although it need not -/
  | enter (spurious : Bool)
  /-- the function of the call `i` returns, or throws -/
  | finish (i : Nat) (throws : Bool)

namespace Bulkhead

def enter (b : Bulkhead) (spurious : Bool) : Bulkhead :=
  if b.permits = 0 ∨ spurious then { b with calls := b.calls ++ [.refused capacityExceeded] }
  else { permits := b.permits - 1, calls := b.calls ++ [.running] }

def finish (b : Bulkhead) (i : Nat) (throws : Bool) : Bulkhead :=
  if b.calls[i]? = some .running then
    if throws then { b with calls := b.calls.set i .threw }
    -- semaphore->release()
    else { permits := b.permits + 1, calls := b.calls.set i .returned }
  else b

def step (b : Bulkhead) : BulkheadAction → Bulkhead
  | .enter spurious => b.enter spurious
  | .finish i throws => b.finish i throws

def running (b : Bulkhead) : Nat := b.calls.count .running

def thrown (b : Bulkhead) : Nat := b.calls.count .threw

def Conserved (n : Nat) (b : Bulkhead) : Prop := b.permits + b.running + b.thrown = n

variable {b : Bulkhead} {n : Nat}

theorem enter_cases (b : Bulkhead) (spurious : Bool) :
    (b.permits = 0 ∨ spurious = true) ∧
      b.enter spurious = { b with calls := b.calls ++ [.refused capacityExceeded] } ∨
    b.permits ≠ 0 ∧ b.enter spurious = { permits := b.permits - 1, calls := b.calls ++ [.running] } := by
  unfold enter
  by_cases h : b.permits = 0 ∨ spurious = true
  · exact .inl ⟨h, if_pos h⟩
  · exact .inr ⟨fun h0 => h (.inl h0), if_neg h⟩

theorem finish_cases (b : Bulkhead) (i : Nat) (throws : Bool) : b.finish i throws = b ∨
    b.calls[i]? = some .running ∧
      (b.finish i throws = { b with calls := b.calls.set i .threw } ∨
       b.finish i throws = { permits := b.permits + 1, calls := b.calls.set i .returned }) := by
  unfold finish
  by_cases h : b.calls[i]? = some .running
  · rw [if_pos h]
    cases throws with
    | true => exact .inr ⟨h, .inl rfl⟩
    | false => exact .inr ⟨h, .inr rfl⟩
  · exact .inl (if_neg h)

/-- a running call ends -/
theorem count_end {l : List Passage} {i : Nat} (h : l[i]? = some .running) (p : Passage)
    (hp : p ≠ .running) : (l.set i p).count .running + 1 = l.count .running ∧
      (l.set i p).count .threw = l.count .threw + (if p = .threw then 1 else 0) := by
  obtain ⟨hi, hrun⟩ := List.getElem?_eq_some_iff.mp h
  have hpos : 0 < l.count .running := List.count_pos_iff.mpr (hrun ▸ List.getElem_mem hi)
  rw [List.count_set hi, List.count_set hi, hrun]
  constructor
  · simp only [BEq.rfl, if_true, beq_iff_eq, hp, if_false, Nat.add_zero]
    omega
  · simp

/-- **One step** keeps what it conserves, and no thrown call comes back. -/
theorem step_conserved (a : BulkheadAction) (hb : b.Conserved n) :
    (b.step a).Conserved n ∧ b.thrown ≤ (b.step a).thrown := by
  unfold Conserved running thrown at *
  cases a with
  | enter spurious =>
    show (b.enter spurious).permits + _ + _ = n ∧ _ ≤ (b.enter spurious).calls.count _
    rcases enter_cases b spurious with ⟨-, he⟩ | ⟨h0, he⟩
    · rw [step, he]
      simpa [List.count_append] using hb
    · rw [step, he]
      simp only [List.count_append, List.count_cons_self, List.count_nil, Nat.zero_add, ne_eq, reduceCtorEq,
        not_false_eq_true, List.count_cons_of_ne, Nat.add_zero]
      omega
  | finish i throws =>
    show (b.finish i throws).permits + _ + _ = n ∧ _ ≤ (b.finish i throws).calls.count _
    rw [step]
    rcases finish_cases b i throws with he | ⟨hrun, he | he⟩
    · rw [he]
      exact ⟨hb, Nat.le_refl _⟩
    · obtain ⟨h1, h2⟩ := count_end hrun .threw (by decide)
      rw [he]
      dsimp only
      rw [h2, if_pos rfl]
      omega
    · obtain ⟨h1, h2⟩ := count_end hrun .returned (by decide)
      rw [he]
      dsimp only
      rw [h2, if_neg (by decide)]
      omega

theorem run_conserved (l : List BulkheadAction) (hb : b.Conserved n) :
    (run step b l).Conserved n ∧ b.thrown ≤ (run step b l).thrown := by
  refine run_inv (fun t : Bulkhead => t.Conserved n ∧ b.thrown ≤ t.thrown) ?_ l
    ⟨hb, Nat.le_refl _⟩
  intro t a ht
  obtain ⟨h1, h2⟩ := step_conserved a ht.1
  exact ⟨h1, Nat.le_trans ht.2 h2⟩

/-- no permit is left and none is held -/
def Closed (b : Bulkhead) : Prop := b.permits = 0 ∧ .running ∉ b.calls

theorem step_closed (a : BulkheadAction) (hb : b.Closed) :
    b.step a = b ∨ b.step a = { b with calls := b.calls ++ [.refused capacityExceeded] } := by
  cases a with
  | enter spurious =>
    refine .inr ?_
    show b.enter spurious = _
    rw [enter, if_pos (.inl hb.1)]
  | finish i throws =>
    refine .inl ?_
    show b.finish i throws = b
    rw [finish, if_neg fun h => hb.2 (List.mem_of_getElem? h)]

theorem run_closed (l : List BulkheadAction) (hb : b.Closed) :
    ∃ k, (run step b l).calls = b.calls ++ List.replicate k (.refused capacityExceeded) := by
  induction l generalizing b with
  | nil => exact ⟨0, (List.append_nil _).symm⟩
  | cons a l ih =>
    rw [run_cons]
    rcases step_closed a hb with he | he
    · rw [he]
      exact ih hb
    · rw [he]
      have hrefused : Closed { b with calls := b.calls ++ [.refused capacityExceeded] } :=
        ⟨hb.1, by simpa using hb.2⟩
      obtain ⟨k, hk⟩ := ih hrefused
      refine ⟨k + 1, hk.trans ?_⟩
      rw [List.append_assoc]
      rfl

end Bulkhead

/-- **The bulkhead**, with `n` permits at first, along every interleaving `l` and whatever `m` comes
next.  A permit is left, held by a running call or lost with an exception; so `release` never exceeds
the first value, a call is turned away for want of a permit exactly if running and thrown calls use up
all `n`, and from then on at most `n` less the thrown ones run at a time.  If there are `n` of these,
all later calls are refused. -/
theorem bulkhead_capacity (n : Nat) (l m : List BulkheadAction) :
    let s := run Bulkhead.step { permits := n } l
    let t := run Bulkhead.step s m
    s.permits + s.running + s.thrown = n ∧
      (s.enter false = { s with calls := s.calls ++ [.refused capacityExceeded] } ↔
        s.running + s.thrown = n) ∧
      t.running + s.thrown ≤ n ∧
      (s.thrown = n → ∃ k, t.calls = s.calls ++ List.replicate k (.refused capacityExceeded)) := by
  intro s t
  have hs : s.Conserved n := (Bulkhead.run_conserved l (rfl : Bulkhead.Conserved n { permits := n })).1
  obtain ⟨ht, hthrown⟩ := Bulkhead.run_conserved m hs
  have hsum : s.permits + s.running + s.thrown = n := hs
  refine ⟨hsum, ?_, ?_, ?_⟩
  · rcases s.enter_cases false with ⟨h0, he⟩ | ⟨h0, he⟩
    · have hzero : s.permits = 0 := h0.resolve_right Bool.false_ne_true
      exact ⟨fun _ => by omega, fun _ => he⟩
    · refine ⟨fun hrefused => ?_, fun _ => absurd (by omega) h0⟩
      have hpermits := congrArg Bulkhead.permits (he.symm.trans hrefused)
      have : s.permits - 1 = s.permits := hpermits
      omega
  · have : t.permits + t.running + t.thrown = n := ht
    have : s.thrown ≤ t.thrown := hthrown
    omega
  · intro hall
    have hrunning : s.running = 0 := by omega
    exact Bulkhead.run_closed m ⟨by omega, List.count_eq_zero.mp hrunning⟩

-- two permits: one call throws, and from then on a second caller is turned away
example : (run Bulkhead.step { permits := 2 }
    [.enter false, .finish 0 true, .enter false, .enter false]).calls
    = [.threw, .running, .refused capacityExceeded] := by decide

end Recovery
end ChainForge
