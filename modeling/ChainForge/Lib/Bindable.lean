import ChainForge.Lib.Machine

/-!
# Sockets that are opened and then bound

A socket is brought up in two steps that may both fail: it is opened, which works on a closed socket
only, and then bound.  A refusal of the second step leaves it open, and only a socket that is up is
closed again.

* `Clean b`, `Stuck b`   closed unless it is up; open and not up;
* `clean_run_iff`        **a run stays clean exactly when no attempt of it is refused**, for every
                         machine that has such a socket in its state (`view`);
* `stuck_run`            no run leads out of a stuck state.
-/

set_option linter.unusedSectionVars false

structure Bindable where
  up : Bool
  isOpen : Bool
  deriving DecidableEq

namespace Bindable
open Machine

inductive Answer where
  | ok
  | invalid
  | refused
  deriving DecidableEq

inductive Op where
  | attempt (answer : Answer)
  | release
  | other
  deriving DecidableEq

/-- the address is looked at first, then the socket is opened, then it is bound -/
def attempt (b : Bindable) (answer : Answer) : Bindable :=
  if b.up then b
  else
    match answer with
    | .invalid => b
    | .ok => if b.isOpen then b else ⟨true, true⟩
    | .refused => ⟨false, true⟩

def release (b : Bindable) : Bindable := if b.up then ⟨false, false⟩ else b

def step (b : Bindable) : Op → Bindable
  | .attempt answer => b.attempt answer
  | .release => b.release
  | .other => b

def Clean (b : Bindable) : Prop := b.up = false → b.isOpen = false

def Stuck (b : Bindable) : Prop := b.up = false ∧ b.isOpen = true

theorem clean_step {b : Bindable} (h : b.Clean) (op : Op) :
    (b.step op).Clean ↔ (b.up = false → op ≠ .attempt .refused) := by
  obtain ⟨up, isOpen⟩ := b
  cases up with
  | true =>
    refine ⟨fun _ hu => (nomatch hu), fun _ => ?_⟩
    cases op with
    | attempt answer => exact h
    | release => exact fun _ => rfl
    | other => exact h
  | false =>
    obtain rfl : isOpen = false := h rfl
    cases op with
    | attempt answer =>
      cases answer with
      | ok => exact ⟨fun _ _ => nofun, fun _ hu => nomatch hu⟩
      | invalid => exact ⟨fun _ _ => nofun, fun _ _ => rfl⟩
      | refused =>
        refine ⟨fun hc => ?_, fun hne => absurd rfl (hne rfl)⟩
        cases hc rfl
    | release => exact ⟨fun _ _ => nofun, fun _ _ => rfl⟩
    | other => exact ⟨fun _ _ => nofun, fun _ _ => rfl⟩

theorem stuck_step {b : Bindable} (h : b.Stuck) (op : Op) : (b.step op).Stuck := by
  obtain ⟨up, isOpen⟩ := b
  obtain ⟨rfl, rfl⟩ : up = false ∧ isOpen = true := h
  cases op with
  | attempt answer => cases answer <;> exact ⟨rfl, rfl⟩
  | release => exact ⟨rfl, rfl⟩
  | other => exact ⟨rfl, rfl⟩

/-! ## machines with such a socket -/

section
variable {σ ι : Type*} {next : σ → ι → σ} {view : σ → Bindable} {op : ι → Op}
  (hview : ∀ s i, view (next s i) = (view s).step (op i)) {s : σ} (l : List ι)
include hview

/-- **Clean runs.** -/
theorem clean_run_iff (hs : (view s).Clean) :
    EveryState next (fun s => (view s).Clean) s l ↔
      EveryStep next (fun s i => (view s).up = false → op i ≠ .attempt .refused) s l := by
  refine everyState_iff (fun _ => True) (fun _ _ _ => trivial) ?_ l trivial hs
  intro s i _ h
  rw [hview]
  exact clean_step h (op i)

theorem stuck_run (hs : (view s).Stuck) : (view (run next s l)).Stuck := by
  refine run_inv (fun s => (view s).Stuck) ?_ l hs
  intro s i h
  show (view (next s i)).Stuck
  rw [hview]
  exact stuck_step h (op i)

end

end Bindable
