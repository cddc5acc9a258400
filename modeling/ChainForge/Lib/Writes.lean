import ChainForge.Lib.Machine
import Mathlib.Data.List.Basic

/-!
# Writes on a stream, one at a time

A write passes a message on to the system, which takes the next bytes of it as it likes.  It ends when
all of them were taken, or with an error, and its handler is then told how many were taken.  A stream
has one write at a time: nothing is said about a stream on which a write was started while another
one was outstanding (`none`).

* `Stream.step`   a write is started, bytes are taken, an error occurs;
* `Sound`         the wire is what was taken of the messages, one after the other, and this is what the
                  handlers were told; `step_sound`: every step keeps it, and the messages are those
                  that were started;
* `step_start`    **a write can be started** exactly if none is outstanding;
* `Complete`      all writes have ended without an error; `Sound.complete`: the wire is then the
                  messages.
-/

set_option linter.unusedSectionVars false

namespace Writes

/-- a write that has ended: how many bytes were taken is what its handler is told -/
structure Done (β : Type) where
  message : List β
  ok : Bool
  sent : Nat

structure Stream (β : Type) where
  done : List (Done β) := []
  /-- the message of the outstanding write, and how many of its bytes were taken -/
  current : Option (List β × Nat) := none
  wire : List β := []

inductive Op (β : Type) where
  | start (message : List β)
  | take (n : Nat)
  | fail

section
variable {β : Type}

def Op.message : Op β → Option (List β)
  | .start m => some m
  | _ => none

def Done.taken (d : Done β) : List β := d.message.take d.sent

namespace Stream
variable (s : Stream β)

/-- `n` bytes more of the outstanding write, or as many as it has -/
def advance (n : Nat) (w : List β × Nat) : Stream β :=
  let chunk := (w.1.drop w.2).take n
  let sent := w.2 + chunk.length
  if sent = w.1.length then
    { done := s.done ++ [⟨w.1, true, sent⟩], current := none, wire := s.wire ++ chunk }
  else { s with current := some (w.1, sent), wire := s.wire ++ chunk }

def abandon (w : List β × Nat) : Stream β :=
  { s with done := s.done ++ [⟨w.1, false, w.2⟩], current := none }

def step : Op β → Option (Stream β)
  | .start m => if s.current.isSome then none else some { s with current := some (m, 0) }
  | .take n => some (s.current.elim s (s.advance n))
  | .fail => some (s.current.elim s s.abandon)

def messages : List (List β) := s.done.map (·.message) ++ s.current.toList.map (·.1)

/-- no write is outstanding, and all have succeeded -/
def Complete : Prop := s.current = none ∧ ∀ d ∈ s.done, d.ok = true

end Stream

/-- what is true of a stream in every state -/
structure Sound (s : Stream β) : Prop where
  wire : s.wire = s.done.flatMap Done.taken ++ s.current.toList.flatMap fun w => w.1.take w.2
  done : ∀ d ∈ s.done, d.sent ≤ d.message.length ∧ (d.ok = true → d.sent = d.message.length)
  current : ∀ w ∈ s.current, w.2 ≤ w.1.length

theorem sound_empty : Sound ({} : Stream β) := ⟨rfl, nofun, nofun⟩

variable {s t : Stream β}

theorem step_start (s : Stream β) (m : List β) :
    (s.step (.start m)).isSome = true ↔ s.current = none := by
  show (if s.current.isSome then none else some _ : Option (Stream β)).isSome = true ↔ _
  cases s.current <;> simp

theorem take_append_chunk (m : List β) (k n : Nat) :
    m.take (k + ((m.drop k).take n).length) = m.take k ++ (m.drop k).take n := by
  rw [List.take_add, List.append_cancel_left_eq, List.take_eq_take_iff, List.length_take]
  omega

theorem Sound.advance (hs : Sound s) {w : List β × Nat} (hw : s.current = some w) (n : Nat) :
    Sound (s.advance n w) ∧ (s.advance n w).messages = s.messages := by
  have hle : w.2 ≤ w.1.length := hs.current w hw
  have hwire : s.wire ++ (w.1.drop w.2).take n
      = s.done.flatMap Done.taken ++ w.1.take (w.2 + ((w.1.drop w.2).take n).length) := by
    rw [take_append_chunk, hs.wire, hw, List.append_assoc]
    simp
  have hsent : w.2 + ((w.1.drop w.2).take n).length ≤ w.1.length := by
    rw [List.length_take, List.length_drop]
    omega
  unfold Stream.advance Stream.messages
  dsimp only
  split
  · rename_i hend
    refine ⟨⟨?_, ?_, nofun⟩, ?_⟩
    · rw [hwire, List.flatMap_append, Option.toList_none, List.flatMap_nil, List.append_nil]
      simp [Done.taken]
    · intro d hd
      rcases List.mem_append.mp hd with hd | hd
      · exact hs.done d hd
      · rw [List.mem_singleton.mp hd]
        exact ⟨hsent, fun _ => hend⟩
    · rw [hw]
      simp
  · refine ⟨⟨?_, hs.done, ?_⟩, ?_⟩
    · rw [hwire]
      simp
    · rintro v hv
      cases hv
      exact hsent
    · rw [hw]
      simp

theorem Sound.abandon (hs : Sound s) {w : List β × Nat} (hw : s.current = some w) :
    Sound (s.abandon w) ∧ (s.abandon w).messages = s.messages := by
  have hle : w.2 ≤ w.1.length := hs.current w hw
  refine ⟨⟨?_, fun d hd => ?_, nofun⟩, ?_⟩
  · show s.wire = _
    rw [hs.wire, hw]
    simp [Stream.abandon, Done.taken]
  · rcases List.mem_append.mp hd with hd | hd
    · exact hs.done d hd
    · rw [List.mem_singleton.mp hd]
      exact ⟨hle, nofun⟩
  · unfold Stream.abandon Stream.messages
    rw [hw]
    simp

/-- **What a step can do.** -/
theorem step_cases {op : Op β} (h : s.step op = some t) :
    (∃ m, op = .start m ∧ s.current = none ∧ t = { s with current := some (m, 0) }) ∨
    (op.message = none ∧ t = s) ∨
    ∃ w, s.current = some w ∧
      ((∃ n, op = .take n ∧ t = s.advance n w) ∨ op = .fail ∧ t = s.abandon w) := by
  cases op with
  | start m =>
    have hnone : s.current = none := (step_start s m).mp (by rw [h]; rfl)
    unfold Stream.step at h
    rw [hnone] at h
    cases h
    exact .inl ⟨m, rfl, hnone, rfl⟩
  | take n =>
    have ht : s.current.elim s (s.advance n) = t := Option.some.inj h
    cases hw : s.current with
    | none =>
      rw [hw] at ht
      exact .inr (.inl ⟨rfl, ht.symm⟩)
    | some w =>
      rw [hw] at ht
      exact .inr (.inr ⟨w, rfl, .inl ⟨n, rfl, ht.symm⟩⟩)
  | fail =>
    have ht : s.current.elim s s.abandon = t := Option.some.inj h
    cases hw : s.current with
    | none =>
      rw [hw] at ht
      exact .inr (.inl ⟨rfl, ht.symm⟩)
    | some w =>
      rw [hw] at ht
      exact .inr (.inr ⟨w, rfl, .inr ⟨rfl, ht.symm⟩⟩)

/-- **What a step keeps**, and what it adds to the messages. -/
theorem step_sound (hs : Sound s) {op : Op β} (h : s.step op = some t) :
    Sound t ∧ t.messages = s.messages ++ op.message.toList := by
  rcases step_cases h with ⟨m, rfl, hnone, rfl⟩ | ⟨hmessage, rfl⟩ | ⟨w, hw, ⟨n, rfl, rfl⟩ | ⟨rfl, rfl⟩⟩
  · refine ⟨⟨?_, hs.done, ?_⟩, ?_⟩
    · rw [hs.wire, hnone]
      simp
    · rintro w hw
      cases hw
      exact Nat.zero_le _
    · unfold Stream.messages
      rw [hnone]
      simp [Op.message]
  · rw [hmessage]
    exact ⟨hs, (List.append_nil _).symm⟩
  · obtain ⟨hsound, hmessages⟩ := hs.advance hw n
    exact ⟨hsound, hmessages.trans (List.append_nil _).symm⟩
  · obtain ⟨hsound, hmessages⟩ := hs.abandon hw
    exact ⟨hsound, hmessages.trans (List.append_nil _).symm⟩

/-- **If all writes have succeeded** the wire is their messages. -/
theorem Sound.complete (hs : Sound s) (h : s.Complete) : s.wire = s.messages.flatten := by
  have htaken : ∀ d ∈ s.done, d.taken = d.message := fun d hd => by
    unfold Done.taken
    rw [(hs.done d hd).2 (h.2 d hd), List.take_length]
  rw [hs.wire]
  unfold Stream.messages
  rw [h.1, List.flatMap_def, List.map_congr_left htaken]
  simp

end

end Writes
