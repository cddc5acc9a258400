import ChainForge.Lib.Machine

/-!
# Threads and a mutex

Threads that share a state and a non-recursive mutex.  Each thread has a stack of instructions: to
lock, to unlock, or to perform an action on the shared state.  An action may call further code,
which is then pushed on the stack of the thread that performs it; whether it does can depend on the
shared state, as with a callback that was stored there.

* `Keeps may held code`   code that locks only what is free and unlocks only what is held, and whose
                          actions may be performed where they stand;
* `Discipline`            a program of such code, but for actions that call code that locks
                          (`reenter`) where the mutex may be held;
* `self_request_iff`      **no thread asks for the mutex while it holds it**, in a whole run, exactly
                          if no thread performs such an action while it holds the mutex;
* `exists_idle`           after finitely many events some thread has nothing to do;
* `Leads P t Q s`         the thread `t` alone comes from `s` to a state with `Q`.
-/

set_option linter.unusedSectionVars false

namespace Threads
open Machine

inductive Instr (ι : Type*) where
  | lock
  | unlock
  | act (i : ι)

/-- what an action does, the code it calls, and the code of the calls a thread can start with -/
structure Program (σ ι γ : Type*) where
  exec : σ → ι → σ × List (Instr ι)
  code : γ → List (Instr ι)

structure System (σ ι : Type*) where
  shared : σ
  owner : Option Nat := none
  stack : Nat → List (Instr ι) := fun _ => []

inductive Event (γ : Type*) where
  | call (t : Nat) (c : γ)
  | step (t : Nat)

section
variable {σ ι γ : Type*}

def System.setStack (s : System σ ι) (t : Nat) (k : List (Instr ι)) : System σ ι :=
  { s with stack := Function.update s.stack t k }

/-- what a step of the thread `t` depends on -/
structure Seen (s : System σ ι) (t : Nat) (x : σ) (owner : Option Nat) (k : List (Instr ι)) :
    Prop where
  shared : s.shared = x
  owner : s.owner = owner
  stack : s.stack t = k

/-- a thread that asks for the mutex waits until it is free -/
def Program.next (P : Program σ ι γ) (s : System σ ι) : Event γ → System σ ι
  | .call t c => if (s.stack t).isEmpty then s.setStack t (P.code c) else s
  | .step t =>
    match s.stack t with
    | [] => s
    | .lock :: k => if s.owner = none then { s.setStack t k with owner := some t } else s
    | .unlock :: k => { s.setStack t k with owner := none }
    | .act i :: k =>
      { s.setStack t ((P.exec s.shared i).2 ++ k) with shared := (P.exec s.shared i).1 }

/-- the thread holds the mutex and asks for it -/
def SelfRequest (s : System σ ι) (t : Nat) : Prop :=
  s.owner = some t ∧ ∃ k, s.stack t = .lock :: k

/-- the thread that holds the mutex performs a reentering action -/
def reenters (reenter : σ → ι → Bool) (s : System σ ι) : Event γ → Bool
  | .step t =>
    match s.stack t with
    | .act i :: _ => s.owner == some t && reenter s.shared i
    | _ => false
  | .call _ _ => false

variable (may : Bool → ι → Bool)

/-- `held` says whether the thread holds the mutex when it comes to the code -/
def Keeps : Bool → List (Instr ι) → Prop
  | held, [] => held = false
  | held, .lock :: k => held = false ∧ Keeps true k
  | held, .unlock :: k => held = true ∧ Keeps false k
  | held, .act i :: k => may held i = true ∧ Keeps held k

structure Discipline (P : Program σ ι γ) (reenter : σ → ι → Bool) : Prop where
  code : ∀ c, Keeps may false (P.code c)
  free : ∀ x i k, may false i = true → Keeps may false k → Keeps may false ((P.exec x i).2 ++ k)
  held : ∀ x i k, may true i = true → reenter x i = false → Keeps may true k →
    Keeps may true ((P.exec x i).2 ++ k)
  locks : ∀ x i, may true i = true → reenter x i = true → ∃ k, (P.exec x i).2 = .lock :: k

/-- every thread has code in front of it that keeps the discipline -/
def Good (s : System σ ι) : Prop := ∀ t, Keeps may (s.owner == some t) (s.stack t)

variable {may} {P : Program σ ι γ} {reenter : σ → ι → Bool} {s : System σ ι}

/-! ## one step -/

section
variable {t : Nat} {k : List (Instr ι)}

@[simp] theorem setStack_same : (s.setStack t k).stack t = k := by
  simp [System.setStack]

theorem setStack_ne {u : Nat} (h : u ≠ t) : (s.setStack t k).stack u = s.stack u := by
  simp [System.setStack, h]

theorem next_nil (hs : s.stack t = []) : P.next s (.step t) = s := by
  simp only [Program.next, hs]

theorem next_lock (hs : s.stack t = .lock :: k) :
    P.next s (.step t) = if s.owner = none then { s.setStack t k with owner := some t } else s := by
  simp only [Program.next, hs]

theorem next_unlock (hs : s.stack t = .unlock :: k) :
    P.next s (.step t) = { s.setStack t k with owner := none } := by
  simp only [Program.next, hs]

theorem next_act {i : ι} (hs : s.stack t = .act i :: k) :
    P.next s (.step t)
      = { s.setStack t ((P.exec s.shared i).2 ++ k) with shared := (P.exec s.shared i).1 } := by
  simp only [Program.next, hs]

variable {x : σ} {o : Option Nat}

theorem Seen.call (h : Seen s t x o []) (c : γ) : Seen (P.next s (.call t c)) t x o (P.code c) := by
  have hnext : P.next s (.call t c) = s.setStack t (P.code c) := by
    simp only [Program.next, h.stack, List.isEmpty_nil, if_true]
  rw [hnext]
  exact ⟨h.shared, h.owner, setStack_same⟩

theorem Seen.lock (h : Seen s t x none (.lock :: k)) :
    Seen (P.next s (.step t)) t x (some t) k := by
  rw [next_lock h.stack, if_pos h.owner]
  exact ⟨h.shared, rfl, setStack_same⟩

theorem Seen.unlock (h : Seen s t x o (.unlock :: k)) :
    Seen (P.next s (.step t)) t x none k := by
  rw [next_unlock h.stack]
  exact ⟨h.shared, rfl, setStack_same⟩

theorem Seen.act {i : ι} (h : Seen s t x o (.act i :: k)) :
    Seen (P.next s (.step t)) t (P.exec x i).1 o ((P.exec x i).2 ++ k) := by
  rw [next_act h.stack, h.shared]
  exact ⟨rfl, h.owner, setStack_same⟩

theorem reenters_act {i : ι} (hs : s.stack t = .act i :: k) :
    reenters reenter s (.step t : Event γ) = (s.owner == some t && reenter s.shared i) := by
  simp only [reenters, hs]

theorem reenters_never (s : System σ ι) (e : Event γ) :
    reenters (fun _ _ => false) s e = false := by
  cases e with
  | call t c => rfl
  | step t =>
    unfold reenters
    dsimp only
    split
    · exact Bool.and_false _
    · rfl

end

def Event.thread : Event γ → Nat
  | call t _ => t
  | step t => t

/-- an event moves one thread -/
theorem next_stack_ne {e : Event γ} {u : Nat} (h : u ≠ e.thread) :
    (P.next s e).stack u = s.stack u := by
  cases e with
  | call t c =>
    unfold Program.next
    dsimp only
    split
    · exact setStack_ne h
    · rfl
  | step t =>
    cases hs : s.stack t with
    | nil => rw [next_nil hs]
    | cons i k =>
      cases i with
      | lock =>
        rw [next_lock hs]
        split
        · exact setStack_ne h
        · rfl
      | unlock =>
        rw [next_unlock hs]
        exact setStack_ne h
      | act i =>
        rw [next_act hs]
        exact setStack_ne h

/-- after finitely many events, some thread other than `t` has nothing to do -/
theorem exists_idle (hs : ∀ u, s.stack u = []) (events : List (Event γ)) (t : Nat) :
    ∃ u, u ≠ t ∧ (run P.next s events).stack u = [] := by
  have hbound : ∃ N, ∀ u, N ≤ u → (run P.next s events).stack u = [] := by
    refine run_inv (fun s : System σ ι => ∃ N, ∀ u, N ≤ u → s.stack u = []) ?_ events
      ⟨0, fun u _ => hs u⟩
    rintro s e ⟨N, hN⟩
    refine ⟨N + (e.thread + 1), fun u hu => ?_⟩
    rw [next_stack_ne (by omega)]
    exact hN u (by omega)
  obtain ⟨N, hN⟩ := hbound
  exact ⟨N + (t + 1), by omega, hN _ (by omega)⟩

theorem some_beq_ne {t u : Nat} (h : u ≠ t) : (some t == some u) = false :=
  beq_eq_false_iff_ne.mpr fun e => h (Option.some.inj e).symm

theorem Good.not_selfRequest (h : Good may s) (t : Nat) : ¬ SelfRequest s t := by
  rintro ⟨ho, k, hk⟩
  have hs := h t
  rw [hk, ho, beq_self_eq_true] at hs
  cases hs.1

/-- a thread goes on, and the others hold the mutex as before -/
theorem Good.update (h : Good may s) {t : Nat} {k : List (Instr ι)} (x : σ) (owner : Option Nat)
    (hk : Keeps may (owner == some t) k)
    (hothers : ∀ u, u ≠ t → (owner == some u) = (s.owner == some u)) :
    Good may { s.setStack t k with shared := x, owner } := by
  intro u
  show Keeps may (owner == some u) ((s.setStack t k).stack u)
  by_cases hu : u = t
  · rw [hu, setStack_same]
    exact hk
  · rw [setStack_ne hu, hothers u hu]
    exact h u

theorem Good.step (D : Discipline may P reenter) (h : Good may s) (t : Nat)
    (hr : reenters reenter s (.step t : Event γ) = false) : Good may (P.next s (.step t)) := by
  have ht := h t
  cases hs : s.stack t with
  | nil =>
    rw [next_nil hs]
    exact h
  | cons i k =>
    rw [hs] at ht
    cases i with
    | lock =>
      rw [next_lock hs]
      split
      · rename_i ho
        refine h.update s.shared (some t) ?_ fun u hu => ?_
        · rw [beq_self_eq_true]
          exact ht.2
        · rw [ho, some_beq_ne hu]
          rfl
      · exact h
    | unlock =>
      have ho : s.owner = some t := beq_iff_eq.mp ht.1
      rw [next_unlock hs]
      refine h.update s.shared none ht.2 fun u hu => ?_
      rw [ho, some_beq_ne hu]
      rfl
    | act i =>
      rw [reenters_act hs] at hr
      rw [next_act hs]
      refine h.update _ s.owner ?_ fun u _ => rfl
      obtain ⟨hmay, hk⟩ := ht
      cases ho : s.owner == some t with
      | true =>
        rw [ho] at hmay hk hr
        exact D.held _ i k hmay hr hk
      | false =>
        rw [ho] at hmay hk
        exact D.free _ i k hmay hk

theorem Good.call (D : Discipline may P reenter) (h : Good may s) (t : Nat) (c : γ) :
    Good may (P.next s (.call t c)) := by
  unfold Program.next
  dsimp only
  split
  · rename_i he
    have ht := h t
    rw [List.isEmpty_iff.mp he] at ht
    -- a thread with nothing to do does not hold the mutex
    have ho : (s.owner == some t) = false := ht
    refine h.update s.shared s.owner ?_ fun u _ => rfl
    rw [ho]
    exact D.code c
  · exact h

/-- a reentering action ends in a request of the thread that holds the mutex -/
theorem Good.selfRequest (D : Discipline may P reenter) (h : Good may s) {t : Nat}
    (hr : reenters reenter s (.step t : Event γ) = true) : SelfRequest (P.next s (.step t)) t := by
  have ht := h t
  cases hs : s.stack t with
  | nil =>
    simp only [reenters, hs] at hr
    cases hr
  | cons i k =>
    cases i with
    | lock =>
      simp only [reenters, hs] at hr
      cases hr
    | unlock =>
      simp only [reenters, hs] at hr
      cases hr
    | act i =>
      rw [reenters_act hs] at hr
      obtain ⟨ho, hr⟩ := Bool.and_eq_true_iff.mp hr
      rw [hs, ho] at ht
      obtain ⟨rest, hrest⟩ := D.locks s.shared i ht.1 hr
      rw [next_act hs]
      refine ⟨beq_iff_eq.mp ho, rest ++ k, ?_⟩
      show (s.setStack t _).stack t = _
      rw [setStack_same, hrest]
      rfl

/-! ## runs -/

/-- some steps of the thread `t` alone lead to `Q` -/
def Leads (P : Program σ ι γ) (t : Nat) (Q : System σ ι → Prop) (s : System σ ι) : Prop :=
  ∃ n, Q (run P.next s (List.replicate n (.step t)))

theorem Leads.done {t : Nat} {Q : System σ ι → Prop} (h : Q s) : Leads P t Q s := ⟨0, h⟩

theorem Leads.step {t : Nat} {Q : System σ ι → Prop} (h : Leads P t Q (P.next s (.step t))) :
    Leads P t Q s := by
  obtain ⟨n, hn⟩ := h
  exact ⟨n + 1, hn⟩

/-- **Lock discipline of a run.** -/
theorem self_request_iff (D : Discipline may P reenter) (h : Good may s)
    (events : List (Event γ)) :
    EveryState P.next (fun s => ∀ t, ¬ SelfRequest s t) s events ↔
      EveryStep P.next (fun s e => reenters reenter s e = false) s events := by
  induction events generalizing s with
  | nil => exact ⟨fun _ => trivial, fun _ => h.not_selfRequest⟩
  | cons e events ih =>
    cases e with
    | call t c =>
      have hnext := ih (h.call D t c)
      exact ⟨fun hs => ⟨rfl, hnext.mp hs.2⟩, fun hs => ⟨h.not_selfRequest, hnext.mpr hs.2⟩⟩
    | step t =>
      constructor
      · intro hs
        have hr : reenters reenter s (.step t : Event γ) = false := by
          by_contra hr
          exact hs.2.head t (h.selfRequest D ((Bool.not_eq_false _).mp hr))
        exact ⟨hr, (ih (h.step D t hr)).mp hs.2⟩
      · intro hs
        exact ⟨h.not_selfRequest, (ih (h.step D t hs.1)).mpr hs.2⟩

end

end Threads
