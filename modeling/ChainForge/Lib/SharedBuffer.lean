import ChainForge.Lib.ReceiveLoop
import Mathlib.Data.List.InsertIdx

/-!
# A receive loop over one buffer

The loop of `Lib.ReceiveLoop` passes each datum from the system to the callback by value.  Real loops
have one buffer: a finished receive leaves its datum there and only hands its size to the handler,
which reads the buffer when it runs.

* `Cell`            a buffer, with the law that a datum reads back right after it was written;
* `Shared`          the loop over a cell;
* `Op.overlaps`     a start while a receive is outstanding;
* `Shared.refines`  **without overlaps both loops pass the same data on**;
* `Shared.in_order` and these are data that have arrived, in their order and each of them once.
-/

set_option linter.unusedSectionVars false

namespace ReceiveLoop
open Machine

/-- a buffer of type `γ` for data of type `δ`; a datum is read back with its size -/
structure Cell (δ γ ν : Type) where
  write : γ → δ → γ
  size : δ → ν
  read : γ → ν → δ
  read_write : ∀ c d, read (write c d) (size d) = d

/-- a start while a receive is outstanding -/
def Op.overlaps {ε δ : Type} (l : Loop ε δ) : Op ε δ → Bool
  | .start _ => l.up && l.outstanding != 0
  | _ => false

/-- the datum that the system brings -/
def Op.arrival {ε δ : Type} : Op ε δ → Option δ
  | .finish (.ok d) => some d
  | _ => none

/-- what the callback got, the first one first, and what it will still get -/
def Loop.flow {ε δ : Type} (l : Loop ε δ) : List δ :=
  l.received.reverse ++ l.ready.filterMap Except.toOption

/-- the flags and the counts of a loop, with its data replaced -/
def Loop.map {ε δ ν : Type} (f : δ → ν) (l : Loop ε δ) : Loop ε ν where
  up := l.up
  receiving := l.receiving
  callback := l.callback
  inFlight := l.inFlight
  ready := l.ready.map (Except.map f)
  received := l.received.map f

section
variable {ε δ γ ν : Type} (K : Kind ε δ) (empty : ν → Bool) (C : Cell δ γ ν)

/-- the same transport, when only the size of a datum is known -/
def Kind.sized : Kind ε ν := ⟨K.aborted, K.loses, empty⟩

structure Shared (ε δ γ ν : Type) where
  /-- the loop, which has the sizes of the finished receives -/
  loop : Loop ε ν := {}
  cell : γ
  /-- what was passed to the callback, the last one first -/
  passed : List δ := []

namespace Shared
variable (s : Shared ε δ γ ν)

/-- the system writes into the buffer when a receive is in flight -/
def finish : Except ε δ → Shared ε δ γ ν
  | .error e => { s with loop := s.loop.finish (.error e) }
  | .ok d =>
    if s.loop.inFlight = 0 then s
    else { s with loop := s.loop.finish (.ok (C.size d)), cell := C.write s.cell d }

/-- the handler reads the buffer when it runs -/
def deliver (i : Nat) : Shared ε δ γ ν :=
  let loop := s.loop.deliver (K.sized empty) i
  match s.loop.ready[i]? with
  | some (.ok n) =>
    { s with loop, passed :=
        if s.loop.callback && !empty n then C.read s.cell n :: s.passed else s.passed }
  | _ => { s with loop }

def exec : Op ε δ → Shared ε δ γ ν
  | .bringUp => { s with loop := s.loop.bringUp }
  | .start callback => { s with loop := s.loop.start callback }
  | .stop => { s with loop := s.loop.stop }
  | .close => { s with loop := s.loop.close (K.sized empty) }
  | .finish r => s.finish C r
  | .deliver i => s.deliver K empty C i

end Shared

/-- the two loops run alike, and the one datum that is ready stands in the buffer -/
structure Alike (s : Shared ε δ γ ν) (l : Loop ε δ) : Prop where
  loop : s.loop = l.map C.size
  passed : s.passed = l.received
  single : l.outstanding ≤ 1
  stands : ∀ d, .ok d ∈ l.ready → C.read s.cell (C.size d) = d

/-! ## the operations on the mapped loop -/

section
variable {K empty C} {l : Loop ε δ} (f : δ → ν)

@[simp] theorem map_arm : l.arm.map f = (l.map f).arm := by
  unfold Loop.arm Loop.map
  by_cases h : (!l.receiving || !l.up) = true
  · rw [if_pos h, if_pos h]
  · rw [if_neg h, if_neg h]

theorem map_start (callback : Bool) : (l.start callback).map f = (l.map f).start callback := by
  unfold Loop.start
  rw [map_arm]
  rfl

theorem map_close : (l.close K).map f = (l.map f).close (K.sized empty) := by
  unfold Loop.close
  by_cases h : (!l.up) = true
  · have h' : (!(l.map f).up) = true := h
    rw [if_pos h, if_pos h']
  · have h' : ¬ (!(l.map f).up) = true := h
    rw [if_neg h, if_neg h']
    simp [Loop.map, Kind.sized, Except.map]

theorem map_finish (r : Except ε δ) : (l.finish r).map f = (l.map f).finish (r.map f) := by
  unfold Loop.finish
  by_cases h : l.inFlight = 0
  · have h' : (l.map f).inFlight = 0 := h
    rw [if_pos h, if_pos h']
  · have h' : ¬ (l.map f).inFlight = 0 := h
    rw [if_neg h, if_neg h']
    simp [Loop.map]

theorem map_handle (hempty : ∀ d, empty (f d) = K.empty d) (r : Except ε δ) :
    (l.handle K r).map f = (l.map f).handle (K.sized empty) (r.map f) := by
  cases r with
  | error e =>
    show (if K.loses e then _ else l).map f = if K.loses e then _ else l.map f
    by_cases h : K.loses e = true
    · rw [if_pos h, if_pos h]
      rfl
    · rw [if_neg h, if_neg h]
  | ok d =>
    show (Loop.arm _).map f = Loop.arm _
    have hk : ((l.map f).callback && !(K.sized empty).empty (f d)) = (l.callback && !K.empty d) :=
      congrArg (l.callback && !·) (hempty d)
    rw [map_arm, hk]
    by_cases h : (l.callback && !K.empty d) = true
    · rw [if_pos h, if_pos h]
      rfl
    · rw [if_neg h, if_neg h]

theorem map_deliver (hempty : ∀ d, empty (f d) = K.empty d) (i : Nat) :
    (l.deliver K i).map f = (l.map f).deliver (K.sized empty) i := by
  have hi : (l.map f).ready[i]? = l.ready[i]?.map (Except.map f) := List.getElem?_map
  unfold Loop.deliver
  rw [hi]
  cases l.ready[i]? with
  | none => rfl
  | some r =>
    show (Loop.handle K _ r).map f = Loop.handle _ _ (r.map f)
    rw [map_handle f hempty]
    congr 1
    simp [Loop.map, List.eraseIdx_map]

end

/-! ## at most one receive -/

section
variable {K} {l : Loop ε δ}

theorem outstanding_arm : l.arm.outstanding ≤ l.outstanding + 1 := by
  unfold Loop.arm
  split
  · exact Nat.le_succ _
  · show l.inFlight + 1 + l.ready.length ≤ l.inFlight + l.ready.length + 1
    omega

theorem outstanding_start (h : l.outstanding ≤ 1) {callback : Bool}
    (ho : Op.overlaps l (.start callback) = false) : (l.start callback).outstanding ≤ 1 := by
  change (l.up && l.outstanding != 0) = false at ho
  cases hup : l.up with
  | false =>
    have harm : l.start callback = { l with callback, receiving := true } := by
      simp [Loop.start, Loop.arm, hup]
    rw [harm]
    exact h
  | true =>
    have h0 : l.outstanding = 0 := by simpa [hup] using ho
    exact Nat.le_trans outstanding_arm (Nat.le_of_eq (congrArg (· + 1) h0))

theorem outstanding_close : (l.close K).outstanding = l.outstanding := by
  unfold Loop.close
  split
  · rfl
  · simp [Loop.outstanding, Nat.add_comm]

theorem outstanding_finish (r : Except ε δ) : (l.finish r).outstanding = l.outstanding := by
  unfold Loop.finish
  split
  · rfl
  · simp only [Loop.outstanding, List.length_append, List.length_singleton]
    omega

/-- the receive of the handler is over, and at most one takes its place -/
theorem outstanding_deliver (i : Nat) : (l.deliver K i).outstanding ≤ l.outstanding := by
  unfold Loop.deliver
  cases hi : l.ready[i]? with
  | none => exact Nat.le_refl _
  | some r =>
    have hlt : i < l.ready.length := (List.getElem?_eq_some_iff.mp hi).1
    have hlen : ({ l with ready := l.ready.eraseIdx i } : Loop ε δ).outstanding + 1
        = l.outstanding := by
      simp only [Loop.outstanding, List.length_eraseIdx_of_lt hlt]
      omega
    cases r with
    | error e =>
      show (if K.loses e then _ else _ : Loop ε δ).outstanding ≤ _
      split
      · exact Nat.le_of_succ_le (Nat.le_of_eq hlen)
      · exact Nat.le_of_succ_le (Nat.le_of_eq hlen)
    | ok d =>
      refine Nat.le_trans outstanding_arm ?_
      rw [← hlen]
      split <;> exact Nat.le_refl _

/-- a handler leaves no datum that was not ready before -/
theorem mem_ready_deliver {i : Nat} {r : Except ε δ} (h : r ∈ (l.deliver K i).ready) :
    r ∈ l.ready := by
  unfold Loop.deliver at h
  cases hi : l.ready[i]? with
  | none =>
    rw [hi] at h
    exact h
  | some q =>
    rw [hi] at h
    have hsub : r ∈ l.ready.eraseIdx i := by
      cases q with
      | error e =>
        change r ∈ (if K.loses e then _ else _ : Loop ε δ).ready at h
        split at h <;> exact h
      | ok d =>
        change r ∈ (Loop.arm _).ready at h
        rw [arm_ready] at h
        split at h <;> exact h
    exact List.mem_of_mem_eraseIdx hsub

@[simp] theorem arm_received : l.arm.received = l.received := by
  unfold Loop.arm
  split <;> rfl

theorem received_deliver_ok {i : Nat} {d : δ} (h : l.ready[i]? = some (.ok d)) :
    (l.deliver K i).received
      = if l.callback && !K.empty d then d :: l.received else l.received := by
  unfold Loop.deliver
  rw [h]
  show (Loop.arm _).received = _
  rw [arm_received]
  dsimp only
  split <;> rfl

/-- an error, or no receive of that number -/
theorem received_deliver_other {i : Nat} (h : ∀ d, l.ready[i]? ≠ some (.ok d)) :
    (l.deliver K i).received = l.received := by
  unfold Loop.deliver
  cases hi : l.ready[i]? with
  | none => rfl
  | some r =>
    cases r with
    | error e =>
      show (if K.loses e then _ else _ : Loop ε δ).received = _
      split <;> rfl
    | ok d => exact absurd hi (h d)

end

/-! ## the order -/

section
variable {K} {l : Loop ε δ}

theorem outstanding_exec (h : l.outstanding ≤ 1) {op : Op ε δ} (ho : op.overlaps l = false) :
    (ReceiveLoop.exec K l op).outstanding ≤ 1 := by
  cases op with
  | bringUp => exact h
  | start callback => exact outstanding_start h ho
  | stop => exact h
  | close => exact Nat.le_trans (Nat.le_of_eq outstanding_close) h
  | finish r => exact Nat.le_trans (Nat.le_of_eq (outstanding_finish r)) h
  | deliver i => exact Nat.le_trans (outstanding_deliver i) h

theorem flow_deliver (h : l.outstanding ≤ 1) (i : Nat) :
    (l.deliver K i).flow.Sublist l.flow := by
  cases hi : l.ready[i]? with
  | none =>
    have hl : l.deliver K i = l := by
      unfold Loop.deliver
      rw [hi]
    rw [hl]
  | some r =>
    -- the receive of the handler is the only one
    have hlt := (List.getElem?_eq_some_iff.mp hi).1
    have h1 : l.inFlight + l.ready.length ≤ 1 := h
    obtain ⟨q, hq⟩ := List.length_eq_one_iff.mp (show l.ready.length = 1 by omega)
    have hi0 : i = 0 := by omega
    have hr : q = r := by simpa [hq, hi0] using hi
    have hready : (l.deliver K i).ready = [] := by
      refine List.eq_nil_iff_forall_not_mem.mpr fun p hp => ?_
      unfold Loop.deliver at hp
      rw [hi] at hp
      cases r with
      | error e =>
        change p ∈ (if K.loses e then _ else _ : Loop ε δ).ready at hp
        split at hp <;> simp [hq, hi0] at hp
      | ok d =>
        change p ∈ (Loop.arm _).ready at hp
        rw [arm_ready] at hp
        split at hp <;> simp [hq, hi0] at hp
    unfold Loop.flow
    rw [hready, hq, hr, List.filterMap_nil, List.append_nil]
    cases r with
    | error e =>
      rw [received_deliver_other (by simp [hi])]
      exact List.sublist_append_left _ _
    | ok d =>
      rw [received_deliver_ok hi]
      split
      · rw [List.reverse_cons]
        exact List.Sublist.refl _
      · exact List.sublist_append_left _ _

theorem flow_exec (h : l.outstanding ≤ 1) (op : Op ε δ) :
    (ReceiveLoop.exec K l op).flow.Sublist (l.flow ++ op.arrival.toList) := by
  have hleft : l.flow.Sublist (l.flow ++ op.arrival.toList) := List.sublist_append_left _ _
  cases op with
  | bringUp => exact hleft
  | start callback =>
    have hstart : (l.start callback).flow = l.flow := by
      unfold Loop.flow Loop.start
      rw [arm_received, arm_ready]
    exact hstart ▸ hleft
  | stop => exact hleft
  | close =>
    have hclose : (l.close K).flow = l.flow := by
      unfold Loop.close
      split
      · rfl
      · simp [Loop.flow, List.filterMap_replicate, Except.toOption]
    exact hclose ▸ hleft
  | finish r =>
    show (l.finish r).flow.Sublist _
    unfold Loop.finish
    split
    · exact hleft
    · cases r with
      | error e => simp [Loop.flow, Except.toOption, Op.arrival]
      | ok d => simp [Loop.flow, Except.toOption, Op.arrival]
  | deliver i => exact (flow_deliver h i).trans hleft

theorem flow_run (ops : List (Op ε δ)) (h : l.outstanding ≤ 1)
    (ho : EveryStep (ReceiveLoop.exec K) (fun l op => op.overlaps l = false) l ops) :
    (run (ReceiveLoop.exec K) l ops).flow.Sublist (l.flow ++ ops.filterMap Op.arrival) := by
  induction ops generalizing l with
  | nil => simp [run]
  | cons op ops ih =>
    have hrest := ih (outstanding_exec h ho.1) ho.2
    have hcons : (op :: ops).filterMap Op.arrival
        = op.arrival.toList ++ ops.filterMap Op.arrival := by
      cases hop : op.arrival <;> simp [hop]
    rw [run_cons, hcons, ← List.append_assoc]
    exact hrest.trans ((flow_exec h op).append_right _)

end

/-! ## the simulation -/

section
variable {K empty C} {s : Shared ε δ γ ν} {l : Loop ε δ}

theorem Alike.finish (h : Alike C s l) (r : Except ε δ) : Alike C (s.finish C r) (l.finish r) := by
  have hsingle : (l.finish r).outstanding ≤ 1 := by
    rw [outstanding_finish]
    exact h.single
  have hreceived : (l.finish r).received = l.received := by
    unfold Loop.finish
    split <;> rfl
  cases r with
  | error e =>
    refine ⟨?_, h.passed.trans hreceived.symm, hsingle, ?_⟩
    · show s.loop.finish (.error e) = _
      rw [h.loop, map_finish]
      rfl
    · intro d hd
      refine h.stands d ?_
      unfold Loop.finish at hd
      split at hd
      · exact hd
      · simpa using hd
  | ok d =>
    have hflight : s.loop.inFlight = l.inFlight := by rw [h.loop]; rfl
    unfold Shared.finish
    by_cases h0 : l.inFlight = 0
    · have hl : l.finish (.ok d) = l := if_pos h0
      rw [hl]
      dsimp only
      rw [if_pos (hflight.trans h0)]
      exact h
    · dsimp only
      rw [if_neg (by rwa [hflight])]
      refine ⟨?_, h.passed.trans hreceived.symm, hsingle, ?_⟩
      · show s.loop.finish (.ok (C.size d)) = _
        rw [h.loop, map_finish]
        rfl
      · -- the only receive is the one that has finished, so nothing else was ready
        intro d' hd'
        have hready : l.ready = [] := by
          have h1 : l.inFlight + l.ready.length ≤ 1 := h.single
          exact List.eq_nil_of_length_eq_zero (by omega)
        have hd : d' = d := by
          unfold Loop.finish at hd'
          rw [if_neg h0] at hd'
          simpa [hready] using hd'
        rw [hd]
        exact C.read_write _ _

theorem Alike.deliver (h : Alike C s l) (hempty : ∀ d, empty (C.size d) = K.empty d) (i : Nat) :
    Alike C (s.deliver K empty C i) (l.deliver K i) := by
  have hloop : s.loop.deliver (K.sized empty) i = (l.deliver K i).map C.size := by
    rw [h.loop, map_deliver C.size hempty]
  have hready : s.loop.ready[i]? = l.ready[i]?.map (Except.map C.size) := by
    rw [h.loop]
    exact List.getElem?_map
  have hcallback : s.loop.callback = l.callback := by rw [h.loop]; rfl
  have hsingle := Nat.le_trans (outstanding_deliver (K := K) i) h.single
  have hstands : ∀ d, .ok d ∈ (l.deliver K i).ready → C.read s.cell (C.size d) = d :=
    fun d hd => h.stands d (mem_ready_deliver hd)
  unfold Shared.deliver
  rw [hready]
  cases hi : l.ready[i]? with
  | none =>
    have hreceived := received_deliver_other (K := K) (i := i) (l := l) (by simp [hi])
    exact ⟨hloop, h.passed.trans hreceived.symm, hsingle, hstands⟩
  | some r =>
    cases r with
    | error e =>
      have hreceived := received_deliver_other (K := K) (i := i) (l := l) (by simp [hi])
      exact ⟨hloop, h.passed.trans hreceived.symm, hsingle, hstands⟩
    | ok d =>
      refine ⟨hloop, ?_, hsingle, hstands⟩
      show (if s.loop.callback && !empty (C.size d) then C.read s.cell (C.size d) :: s.passed
        else s.passed) = _
      rw [received_deliver_ok hi, hcallback, hempty, h.stands d (List.mem_of_getElem? hi), h.passed]

theorem Alike.exec (h : Alike C s l) (hempty : ∀ d, empty (C.size d) = K.empty d) {op : Op ε δ}
    (ho : op.overlaps l = false) : Alike C (s.exec K empty C op) (ReceiveLoop.exec K l op) := by
  cases op with
  | bringUp => exact ⟨by rw [Shared.exec, h.loop]; rfl, h.passed, h.single, h.stands⟩
  | start callback =>
    have hready : (l.start callback).ready = l.ready := arm_ready
    have hreceived : (l.start callback).received = l.received := by
      unfold Loop.start Loop.arm
      split <;> rfl
    refine ⟨?_, h.passed.trans hreceived.symm, outstanding_start h.single ho, ?_⟩
    · show s.loop.start callback = _
      rw [h.loop, ← map_start]
      rfl
    · intro d hd
      exact h.stands d (hready ▸ hd)
  | stop => exact ⟨by rw [Shared.exec, h.loop]; rfl, h.passed, h.single, h.stands⟩
  | close =>
    have hreceived : (l.close K).received = l.received := by
      unfold Loop.close
      split <;> rfl
    refine ⟨?_, h.passed.trans hreceived.symm, Nat.le_trans (Nat.le_of_eq outstanding_close) h.single, ?_⟩
    · show s.loop.close (K.sized empty) = _
      rw [h.loop, ← map_close]
      rfl
    · intro d hd
      refine h.stands d ?_
      change .ok d ∈ (l.close K).ready at hd
      unfold Loop.close at hd
      split at hd
      · exact hd
      · simpa [List.mem_replicate] using hd
  | finish r => exact h.finish r
  | deliver i => exact h.deliver hempty i

/-- **Refinement**: as long as no start finds a receive outstanding, the loop over one buffer passes
on what the loop by value does, and has its flags. -/
theorem Shared.refines (hempty : ∀ d, empty (C.size d) = K.empty d) (cell : γ) (ops : List (Op ε δ))
    (ho : EveryStep (ReceiveLoop.exec K) (fun l op => op.overlaps l = false) {} ops) :
    (run (Shared.exec K empty C) { cell } ops).passed = (run (ReceiveLoop.exec K) {} ops).received ∧
      (run (Shared.exec K empty C) { cell } ops).loop
        = (run (ReceiveLoop.exec K) {} ops).map C.size := by
  have hstart : Alike C ({ cell } : Shared ε δ γ ν) ({} : Loop ε δ) :=
    ⟨rfl, rfl, Nat.zero_le _, fun _ h => nomatch h⟩
  have hstep : ∀ (s : Shared ε δ γ ν) (l : Loop ε δ) (op : Op ε δ), Alike C s l →
      op.overlaps l = false → Alike C (s.exec K empty C op) (ReceiveLoop.exec K l op) :=
    fun _ _ _ h ho => h.exec hempty ho
  have h := run_sim (Alike C) hstep ops hstart ho
  exact ⟨h.passed, h.loop⟩

/-- **Order**: without overlaps the callback gets data that have arrived, in their order, each of them
at most once. -/
theorem Shared.in_order (hempty : ∀ d, empty (C.size d) = K.empty d) (cell : γ)
    (ops : List (Op ε δ))
    (ho : EveryStep (ReceiveLoop.exec K) (fun l op => op.overlaps l = false) {} ops) :
    (run (Shared.exec K empty C) { cell } ops).passed.reverse.Sublist (ops.filterMap Op.arrival) := by
  rw [(Shared.refines hempty cell ops ho).1]
  exact (List.sublist_append_left _ _).trans (flow_run ops (Nat.zero_le _) ho)

end

end

end ReceiveLoop
