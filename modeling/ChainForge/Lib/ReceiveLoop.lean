import ChainForge.Lib.Machine

/-!
# A receive loop that arms itself

A transport with two flags: `up` says that it is bound or connected, `receiving` that it should
receive.  An asynchronous receive is in flight until the system finishes it; then its result is
ready until the completion handler runs.  The handler of a received datum arms the loop again; the
handler of an error does not, and the errors that `loses` names clear the flag `up`.

* `outstanding l`   the receives whose handler has not run yet;
* `Armed l`         a transport that is up and receiving has exactly one of them;
* `Op.disarms`      the operations that break this: a second start, a start before the transport is
                    up, and an error that leaves both flags set;
* `armed_iff`       **a run stays armed exactly when none of its operations is of this kind**.
-/

set_option linter.unusedSectionVars false

namespace ReceiveLoop
open Machine

/-- what distinguishes one transport from another: the error of a cancelled receive, the errors
that mean the end of the connection, and the data that are not passed on -/
structure Kind (ε δ : Type) where
  aborted : ε
  loses : ε → Bool
  empty : δ → Bool

structure Loop (ε δ : Type) where
  up : Bool := false
  receiving : Bool := false
  /-- a receive callback is set -/
  callback : Bool := false
  inFlight : Nat := 0
  /-- finished receives, whose handlers are still to run -/
  ready : List (Except ε δ) := []
  /-- what was passed to the callback, the last one first -/
  received : List δ := []

section
variable {ε δ : Type} (K : Kind ε δ)

namespace Loop
variable (l : Loop ε δ)

def arm : Loop ε δ :=
  if !l.receiving || !l.up then l else { l with inFlight := l.inFlight + 1 }

def start (callback : Bool) : Loop ε δ := arm { l with callback, receiving := true }

def stop : Loop ε δ := { l with receiving := false }

def bringUp : Loop ε δ := { l with up := true }

/-- receives in flight are cancelled; those that are ready keep their results -/
def close : Loop ε δ :=
  if !l.up then l
  else { l with up := false, receiving := false, inFlight := 0,
                ready := l.ready ++ List.replicate l.inFlight (.error K.aborted) }

def finish (r : Except ε δ) : Loop ε δ :=
  if l.inFlight = 0 then l else { l with inFlight := l.inFlight - 1, ready := l.ready ++ [r] }

def handle : Except ε δ → Loop ε δ
  | .error e => if K.loses e then { l with up := false } else l
  | .ok d => arm (if l.callback && !K.empty d then { l with received := d :: l.received } else l)

/-- the handler of the `i`-th finished receive -/
def deliver (i : Nat) : Loop ε δ :=
  match l.ready[i]? with
  | none => l
  | some r => handle K { l with ready := l.ready.eraseIdx i } r

/-- the `i`-th finished receive has met the end of the connection -/
def ends (i : Nat) : Bool :=
  match l.ready[i]? with
  | some (.error e) => K.loses e
  | _ => false

def outstanding : Nat := l.inFlight + l.ready.length

end Loop

def Armed (l : Loop ε δ) : Prop := l.receiving = true → l.up = true → l.outstanding = 1

instance decidableArmed (l : Loop ε δ) : Decidable (Armed l) :=
  inferInstanceAs (Decidable (_ → _))

inductive Op (ε δ : Type) where
  | bringUp
  | start (callback : Bool)
  | stop
  | close
  | finish (r : Except ε δ)
  | deliver (i : Nat)

def exec (l : Loop ε δ) : Op ε δ → Loop ε δ
  | .bringUp => l.bringUp
  | .start callback => l.start callback
  | .stop => l.stop
  | .close => l.close K
  | .finish r => l.finish r
  | .deliver i => l.deliver K i

/-- the operation leaves a transport that is up and receiving with no receive, or with several -/
def Op.disarms (l : Loop ε δ) : Op ε δ → Bool
  | .bringUp => !l.up && l.receiving && l.outstanding != 1
  | .start _ => l.up && l.outstanding != 0
  | .deliver i =>
    match l.ready[i]? with
    | some (.error e) => !K.loses e && l.receiving && l.up
    | _ => false
  | _ => false

/-! ## one operation -/

section
variable {K} {l : Loop ε δ}

theorem armed_of_not_receiving (h : l.receiving = false) : Armed l := by
  intro hr
  rw [h] at hr
  cases hr

theorem armed_of_down (h : l.up = false) : Armed l := by
  intro _ hu
  rw [h] at hu
  cases hu

@[simp] theorem arm_up : l.arm.up = l.up := by
  unfold Loop.arm
  split <;> rfl

@[simp] theorem arm_ready : l.arm.ready = l.ready := by
  unfold Loop.arm
  split <;> rfl

/-- a receive is added where both flags are set -/
theorem arm_armed_iff :
    Armed l.arm ↔ (l.receiving = true → l.up = true → l.outstanding = 0) := by
  unfold Loop.arm
  by_cases hf : l.receiving = true ∧ l.up = true
  · rw [if_neg (by rw [hf.1, hf.2]; exact Bool.false_ne_true)]
    have hlen : { l with inFlight := l.inFlight + 1 }.outstanding = l.outstanding + 1 := by
      show l.inFlight + 1 + l.ready.length = l.inFlight + l.ready.length + 1
      omega
    unfold Armed
    rw [hlen]
    simp only [Nat.add_eq_right]
  · have hno : (!l.receiving || !l.up) = true := by
      cases hr : l.receiving with
      | false => rfl
      | true =>
        cases hu : l.up with
        | false => rfl
        | true => exact absurd ⟨hr, hu⟩ hf
    rw [if_pos hno]
    exact ⟨fun _ hr hu => absurd ⟨hr, hu⟩ hf, fun _ hr hu => absurd ⟨hr, hu⟩ hf⟩

theorem bringUp_armed_iff (h : Armed l) :
    Armed l.bringUp ↔ Op.disarms K l (.bringUp) = false := by
  show (l.receiving = true → true = true → l.outstanding = 1) ↔
    (!l.up && l.receiving && l.outstanding != 1) = false
  cases hr : l.receiving with
  | false => simp
  | true =>
    cases hu : l.up with
    | false => simp
    | true => simp [h hr hu]

theorem start_armed_iff (callback : Bool) :
    Armed (l.start callback) ↔ Op.disarms K l (.start callback) = false := by
  unfold Loop.start
  rw [arm_armed_iff]
  show (true = true → l.up = true → l.outstanding = 0) ↔ (l.up && l.outstanding != 0) = false
  cases l.up <;> simp

theorem close_armed (h : Armed l) : Armed (l.close K) := by
  unfold Loop.close
  split
  · exact h
  · exact armed_of_down rfl

theorem finish_armed (h : Armed l) (r : Except ε δ) : Armed (l.finish r) := by
  unfold Loop.finish
  split
  · exact h
  · intro hr hu
    have h1 : l.inFlight + l.ready.length = 1 := h hr hu
    show l.inFlight - 1 + (l.ready ++ [r]).length = 1
    rw [List.length_append, List.length_singleton]
    omega

theorem handle_lost {e : ε} (h : K.loses e = true) :
    l.handle K (.error e) = { l with up := false } := if_pos h

theorem handle_kept {e : ε} (h : K.loses e = false) : l.handle K (.error e) = l :=
  if_neg (by rw [h]; exact Bool.false_ne_true)

/-- a datum: the receive that has ended is replaced by a new one -/
theorem handle_ok_armed (d : δ) {i : Nat} (hi : i < l.ready.length) (h : Armed l) :
    Armed (Loop.handle K { l with ready := l.ready.eraseIdx i } (.ok d)) := by
  have hlen : (l.ready.eraseIdx i).length = l.ready.length - 1 := List.length_eraseIdx_of_lt hi
  have h0 : l.receiving = true → l.up = true → l.inFlight + (l.ready.eraseIdx i).length = 0 := by
    intro hr hu
    have h1 : l.inFlight + l.ready.length = 1 := h hr hu
    omega
  show Armed (Loop.arm _)
  rw [arm_armed_iff]
  split
  · exact h0
  · exact h0

/-- an error: the receive that has ended is not replaced -/
theorem handle_error_armed_iff (e : ε) {i : Nat} (hi : i < l.ready.length) (h : Armed l) :
    Armed (Loop.handle K { l with ready := l.ready.eraseIdx i } (.error e)) ↔
      (!K.loses e && l.receiving && l.up) = false := by
  have hlen : (l.ready.eraseIdx i).length = l.ready.length - 1 := List.length_eraseIdx_of_lt hi
  cases hl : K.loses e with
  | true =>
    rw [handle_lost hl]
    exact ⟨fun _ => rfl, fun _ => armed_of_down rfl⟩
  | false =>
    rw [handle_kept hl]
    show (l.receiving = true → l.up = true → l.inFlight + (l.ready.eraseIdx i).length = 1) ↔
      (l.receiving && l.up) = false
    constructor
    · intro ha
      refine Bool.eq_false_iff.mpr fun hf => ?_
      obtain ⟨hr, hu⟩ := Bool.and_eq_true_iff.mp hf
      have h1 : l.inFlight + l.ready.length = 1 := h hr hu
      have h0 := ha hr hu
      omega
    · intro hf hr hu
      rw [hr, hu] at hf
      cases hf

theorem deliver_armed_iff (i : Nat) (h : Armed l) :
    Armed (l.deliver K i) ↔ Op.disarms K l (.deliver i) = false := by
  unfold Loop.deliver Op.disarms
  dsimp only
  cases hr : l.ready[i]? with
  | none => exact ⟨fun _ => rfl, fun _ => h⟩
  | some r =>
    have hi : i < l.ready.length := (List.getElem?_eq_some_iff.mp hr).1
    cases r with
    | ok d => exact ⟨fun _ => rfl, fun _ => handle_ok_armed d hi h⟩
    | error e => exact handle_error_armed_iff e hi h

@[simp] theorem finish_up (r : Except ε δ) : (l.finish r).up = l.up := by
  unfold Loop.finish
  split <;> rfl

/-- a handler clears `up` at the end of the connection -/
theorem deliver_up_eq (i : Nat) : (l.deliver K i).up = (l.up && !l.ends K i) := by
  unfold Loop.deliver Loop.ends
  cases l.ready[i]? with
  | none => simp
  | some r =>
    cases r with
    | error e =>
      dsimp only [Loop.handle]
      split <;> simp [*]
    | ok d =>
      dsimp only [Loop.handle]
      rw [arm_up]
      split <;> simp

/-- a handler brings no transport up -/
theorem deliver_up {i : Nat} (h : (l.deliver K i).up = true) : l.up = true := by
  rw [deliver_up_eq, Bool.and_eq_true_iff] at h
  exact h.1

theorem exec_armed_iff (op : Op ε δ) (h : Armed l) :
    Armed (exec K l op) ↔ op.disarms K l = false := by
  cases op with
  | bringUp => exact bringUp_armed_iff h
  | start callback => exact start_armed_iff callback
  | stop => exact ⟨fun _ => rfl, fun _ => armed_of_not_receiving rfl⟩
  | close => exact ⟨fun _ => rfl, fun _ => close_armed h⟩
  | finish r => exact ⟨fun _ => rfl, fun _ => finish_armed h r⟩
  | deliver i => exact deliver_armed_iff i h

end

/-- **Runs of a receive loop.** -/
theorem armed_iff (ops : List (Op ε δ)) {l : Loop ε δ} (h : Armed l) :
    EveryState (exec K) Armed l ops ↔ EveryStep (exec K) (fun l op => op.disarms K l = false) l ops :=
  everyState_iff (fun _ => True) (fun _ _ _ => trivial) (fun _ op _ h => exec_armed_iff op h) ops
    trivial h

end

end ReceiveLoop
