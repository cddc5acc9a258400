import ChainForge.Lib.Machine
import Mathlib.Data.List.Perm.Basic
import Mathlib.Data.List.TakeDrop

/-!
# Threads of atomic updates

Threads that run straight programs of atomic updates of a shared state.  A schedule says which thread
is next.

* `Pool`, `Pool.next`   the shared state and what is left of the programs;
* `exists_trace`        after a schedule the state is that of a sequence of the updates, and these and
                        the remaining ones are all the updates of the programs;
* `view_of_done`        **commuting updates are not lost**: a part of the state on which they commute
                        is, at the end of all threads, as if these had run one after the other.
-/

set_option linter.unusedSectionVars false

namespace Schedule
open Machine

structure Pool (σ ι : Type*) where
  shared : σ
  programs : List (List ι)

section
variable {σ ι ν : Type*} (apply : σ → ι → σ)

/-- the next update of the thread `i`, if it has one -/
def Pool.next (p : Pool σ ι) (i : Nat) : Pool σ ι :=
  match p.programs[i]? with
  | some (a :: rest) => ⟨apply p.shared a, p.programs.set i rest⟩
  | _ => p

/-- all threads have ended -/
def Pool.Done (p : Pool σ ι) : Prop := ∀ l ∈ p.programs, l = []

theorem next_cases (p : Pool σ ι) (i : Nat) : p.next apply i = p ∨
    ∃ a rest, p.programs[i]? = some (a :: rest) ∧
      p.next apply i = ⟨apply p.shared a, p.programs.set i rest⟩ := by
  unfold Pool.next
  split
  · next a rest h => exact .inr ⟨a, rest, h, rfl⟩
  · exact .inl rfl

theorem flatten_set_perm {ps : List (List ι)} {i : Nat} {a : ι} {rest : List ι}
    (h : ps[i]? = some (a :: rest)) : (a :: (ps.set i rest).flatten).Perm ps.flatten := by
  obtain ⟨hi, hat⟩ := List.getElem?_eq_some_iff.mp h
  have hps : ps = ps.take i ++ (a :: rest) :: ps.drop (i + 1) := by
    rw [← hat, ← List.drop_eq_getElem_cons hi, List.take_append_drop]
  rw [List.set_eq_take_append_cons_drop, if_pos hi]
  conv_rhs => rw [hps]
  rw [List.flatten_append, List.flatten_append, List.flatten_cons, List.flatten_cons]
  exact List.perm_middle.symm

/-- **The trace of a schedule.** -/
theorem exists_trace (p : Pool σ ι) (schedule : List Nat) :
    ∃ trace, (run (Pool.next apply) p schedule).shared = run apply p.shared trace ∧
      (trace ++ (run (Pool.next apply) p schedule).programs.flatten).Perm p.programs.flatten := by
  induction schedule generalizing p with
  | nil => exact ⟨[], rfl, .refl _⟩
  | cons i schedule ih =>
    rw [run_cons]
    rcases next_cases apply p i with he | ⟨a, rest, h, he⟩
    · rw [he]
      exact ih p
    · rw [he]
      obtain ⟨trace, hshared, hperm⟩ := ih ⟨apply p.shared a, p.programs.set i rest⟩
      exact ⟨a :: trace, hshared, (hperm.cons a).trans (flatten_set_perm h)⟩

variable {apply} {p : Pool σ ι}

theorem trace_of_done {schedule : List Nat} (hdone : (run (Pool.next apply) p schedule).Done) :
    ∃ trace, (run (Pool.next apply) p schedule).shared = run apply p.shared trace ∧
      trace.Perm p.programs.flatten := by
  obtain ⟨trace, hshared, hperm⟩ := exists_trace apply p schedule
  have hnil : (run (Pool.next apply) p schedule).programs.flatten = [] :=
    List.flatten_eq_nil_iff.mpr hdone
  rw [hnil, List.append_nil] at hperm
  exact ⟨trace, hshared, hperm⟩

/-- **Commuting updates are not lost.** -/
theorem view_of_done {view : σ → ν} {update : ν → ι → ν}
    (hview : ∀ s a, view (apply s a) = update (view s) a)
    (hcomm : ∀ v a b, update (update v a) b = update (update v b) a)
    {schedule : List Nat} (hdone : (run (Pool.next apply) p schedule).Done) :
    view (run (Pool.next apply) p schedule).shared = view (run apply p.shared p.programs.flatten) := by
  have hrun : ∀ (l : List ι) (s : σ), view (run apply s l) = l.foldl update (view s) := by
    intro l
    induction l with
    | nil => exact fun _ => rfl
    | cons a l ih =>
      intro s
      rw [run_cons, ih, hview]
      rfl
  obtain ⟨trace, hshared, hperm⟩ := trace_of_done hdone
  rw [hshared, hrun, hrun]
  exact hperm.foldl_eq' (fun a _ b _ v => hcomm v a b) _

end

end Schedule
