import ChainForge.Lib.Machine

/-!
# A reader/writer lock, seen from one thread

A program of the monad `LockM σ` is what one thread does with a non-recursive lock and the data
`σ` that the lock protects.  A request for the lock, shared or exclusive, by the thread that holds
it already is the failure `Reentry`; there is no other.

* `guarded m body`   a scope with a lock guard: the lock is taken, and given back at the end if the
                     body has not done so before;
* `NoReentry x t`    the program never requests the lock while it holds it;
* `session_iff`      **a session of operations**: if an operation that starts without the lock is
                     free of reentry exactly under `C`, and is then the pure step `step`, a session
                     is free of reentry exactly when every operation meets `C` where it starts.
-/

set_option linter.unusedSectionVars false

namespace RwLock
open Machine

inductive Mode where
  | shared
  | exclusive
  deriving DecidableEq, Repr

/-- a request by the holder -/
structure Reentry where
  requested : Mode
  held : Mode
  deriving DecidableEq, Repr

/-- what the thread holds, and the data -/
structure Thread (σ : Type) where
  held : Option Mode
  data : σ

abbrev LockM (σ : Type) := StateT (Thread σ) (Except Reentry)

section
variable {σ α β : Type}

def acquire (m : Mode) : LockM σ Unit := fun t =>
  match t.held with
  | none => .ok ((), { t with held := some m })
  | some held => .error ⟨m, held⟩

def release : LockM σ Unit := fun t => .ok ((), { t with held := none })

def read : LockM σ σ := fun t => .ok (t.data, t)

def write (s : σ) : LockM σ Unit := fun t => .ok ((), { t with data := s })

def guarded (m : Mode) (body : LockM σ α) : LockM σ α := do
  acquire m
  let a ← body
  release
  return a

def NoReentry (x : LockM σ α) (t : Thread σ) : Prop := ∃ r, x.run t = .ok r

variable {x : LockM σ α} {f : α → LockM σ β} {t u : Thread σ} {a : α} {e : Reentry} {s : σ}
  {m m' : Mode}

theorem run_pure : (pure a : LockM σ α).run t = .ok (a, t) := rfl

theorem run_read_bind {f : σ → LockM σ β} : (read >>= f).run t = (f t.data).run t := rfl

theorem run_write_bind {f : Unit → LockM σ β} :
    (write s >>= f).run t = (f ()).run { t with data := s } := rfl

theorem run_bind_ok (h : x.run t = .ok (a, u)) : (x >>= f).run t = (f a).run u := by
  rw [StateT.run_bind, h]
  rfl

theorem run_bind_error (h : x.run t = .error e) : (x >>= f).run t = .error e := by
  rw [StateT.run_bind, h]
  rfl

theorem run_guarded_held : (guarded m x).run ⟨some m', s⟩ = .error ⟨m, m'⟩ := rfl

theorem run_guarded_ok (h : x.run ⟨some m, s⟩ = .ok (a, u)) :
    (guarded m x).run ⟨none, s⟩ = .ok (a, ⟨none, u.data⟩) := by
  show (x >>= fun a => release >>= fun _ => pure a).run ⟨some m, s⟩ = _
  rw [run_bind_ok h]
  rfl

theorem run_guarded_error (h : x.run ⟨some m, s⟩ = .error e) :
    (guarded m x).run ⟨none, s⟩ = .error e := by
  show (x >>= fun a => release >>= fun _ => pure a).run ⟨some m, s⟩ = _
  exact run_bind_error h

end

/-! ## sessions -/

section
variable {σ ι : Type} (exec : ι → LockM σ Unit)

def session : List ι → LockM σ Unit
  | [] => pure ()
  | i :: l => do
    exec i
    session l

variable {exec} {step : σ → ι → σ} {C : σ → ι → Prop}

theorem session_iff
    (hok : ∀ s i, C s i → (exec i).run ⟨none, s⟩ = .ok ((), ⟨none, step s i⟩))
    (herr : ∀ s i, ¬ C s i → ∃ e, (exec i).run ⟨none, s⟩ = .error e) (s : σ) (l : List ι) :
    NoReentry (session exec l) ⟨none, s⟩ ↔ EveryStep step C s l := by
  induction l generalizing s with
  | nil => exact ⟨fun _ => trivial, fun _ => ⟨_, run_pure⟩⟩
  | cons i l ih =>
    by_cases hC : C s i
    · have hrun : (session exec (i :: l)).run ⟨none, s⟩ = (session exec l).run ⟨none, step s i⟩ :=
        run_bind_ok (hok s i hC)
      have htail : NoReentry (session exec (i :: l)) ⟨none, s⟩
          ↔ NoReentry (session exec l) ⟨none, step s i⟩ := by
        unfold NoReentry
        rw [hrun]
      rw [htail, ih]
      exact ⟨fun h => ⟨hC, h⟩, fun h => h.2⟩
    · obtain ⟨e, he⟩ := herr s i hC
      have hrun : (session exec (i :: l)).run ⟨none, s⟩ = .error e := run_bind_error he
      constructor
      · rintro ⟨r, hr⟩
        rw [hrun] at hr
        cases hr
      · exact fun h => absurd h.1 hC

end

end RwLock
