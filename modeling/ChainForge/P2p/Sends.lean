import ChainForge.Lib.Machine
import ChainForge.Lib.Writes

/-!
# Sends over TCP

`send`, `async_send` and `close` of `TcpConnection` and `TcpServer::broadcast`, for the connections that
a server tracks.  asio writes data in as many pieces as the system takes, and allows one write at a
time on a socket: `async_write` must not be called before the handler of the last one has run.
Nothing in the connection or in the server sees to this, so it is up to the callers (`Alone`).

The data of a send stay in place until its handler has run.

* `Links.step`           calls, what the system takes, errors, and the end of a connection;
* `LinkAction.op`, `step_out`   what an action is for the stream of one connection;
* `started`              the data of the calls that start a write on a connection;
* `sends_reported`       **along every run** a wire is the data of these calls, one after the other, each
                         up to the number of bytes that its handler is told;
* `closed_silent`        **a connection that was closed is silent**;
* `waiting_broadcasts_agree`   **broadcasts that wait** reach all peers alike.
-/

set_option linter.unusedSectionVars false

namespace ChainForge
namespace P2p
open Machine Writes

/-- the tracked connections: `connected_`, whether the socket is open, and the writes on it; `none`
after two writes at once -/
structure Links (n : Nat) where
  connected : Fin n → Bool := fun _ => true
  opened : Fin n → Bool := fun _ => true
  out : Fin n → Option (Stream UInt8) := fun _ => some {}

inductive LinkAction (n : Nat) where
  | broadcast (data : List UInt8)
  | asyncSend (j : Fin n) (data : List UInt8)
  /-- `asio::write` on the thread of the caller, which returns when the write has ended -/
  | send (j : Fin n) (data : List UInt8)
  /-- the system takes up to `k` more bytes of the outstanding write -/
  | taken (j : Fin n) (k : Nat)
  | failed (j : Fin n)
  /-- a receive finds the end of the stream; the socket stays open -/
  | lost (j : Fin n)
  | close (j : Fin n)

namespace Links
variable {n : Nat} (s : Links n)

/-- an operation on the stream of the connection `j` -/
def onStream (j : Fin n) (op : Op UInt8) : Links n :=
  { s with out := Function.update s.out j ((s.out j).bind (·.step op)) }

def asyncSend (j : Fin n) (data : List UInt8) : Links n := s.onStream j (.start data)

/-- without a connection it returns `NOT_CONNECTED` -/
def send (j : Fin n) (data : List UInt8) : Links n :=
  if s.connected j then s.onStream j (.start data) else s

def broadcast (data : List UInt8) : Links n :=
  { s with out := fun j =>
      if s.connected j then (s.out j).bind (·.step (.start data)) else s.out j }

/-- of a socket that was closed the system takes nothing -/
def taken (j : Fin n) (k : Nat) : Links n := if s.opened j then s.onStream j (.take k) else s

def lost (j : Fin n) : Links n := { s with connected := Function.update s.connected j false }

/-- asio cancels the write of a socket that is closed; a connection that was lost is not closed -/
def close (j : Fin n) : Links n :=
  if s.connected j then
    { (s.onStream j .fail).lost j with opened := Function.update s.opened j false }
  else s

def step : LinkAction n → Links n
  | .broadcast data => s.broadcast data
  | .asyncSend j data => s.asyncSend j data
  | .send j data => s.send j data
  | .taken j k => s.taken j k
  | .failed j => s.onStream j .fail
  | .lost j => s.lost j
  | .close j => s.close j

end Links

section
variable {n : Nat}

/-! ## the stream of one connection -/

/-- what an action is for the connection `j` -/
def LinkAction.op (s : Links n) (j : Fin n) : LinkAction n → Option (Op UInt8)
  | .broadcast data => if s.connected j then some (.start data) else none
  | .asyncSend k data => if k = j then some (.start data) else none
  | .send k data => if k = j ∧ s.connected j then some (.start data) else none
  | .taken k m => if k = j ∧ s.opened j then some (.take m) else none
  | .failed k => if k = j then some .fail else none
  | .lost _ => none
  | .close k => if k = j ∧ s.connected j then some .fail else none

/-- the data for which an action starts a write on the connection `j` -/
def LinkAction.data (s : Links n) (j : Fin n) (a : LinkAction n) : Option (List UInt8) :=
  (a.op s j).bind Op.message

/-- the data of the writes that a run starts on the connection `j` -/
def started (j : Fin n) : Links n → List (LinkAction n) → List (List UInt8)
  | _, [] => []
  | s, a :: acts => (a.data s j).toList ++ started j (s.step a) acts

/-- no write is started on a connection on which one is outstanding -/
def Alone (s : Links n) (a : LinkAction n) : Prop :=
  ∀ j, (a.data s j).isSome = true → ∀ out ∈ s.out j, out.current = none

instance decidableAlone (s : Links n) (a : LinkAction n) : Decidable (Alone s a) :=
  inferInstanceAs (Decidable (∀ j, (a.data s j).isSome = true → ∀ out ∈ s.out j, out.current = none))

theorem onStream_out (s : Links n) (j k : Fin n) (op : Op UInt8) :
    (s.onStream k op).out j = if k = j then (s.out j).bind (·.step op) else s.out j := by
  by_cases h : k = j
  · subst h
    rw [if_pos rfl]
    exact Function.update_self k _ s.out
  · rw [if_neg h]
    exact Function.update_of_ne (Ne.symm h) _ s.out

/-- an operation under a condition on the connection -/
theorem guarded_out (s t : Links n) (c : Fin n → Bool) (j k : Fin n) (op : Op UInt8)
    (ht : t.out = (s.onStream k op).out) :
    (if c k then t else s).out j
      = (if k = j ∧ c j then some op else none).elim (s.out j) fun op =>
          (s.out j).bind (·.step op) := by
  by_cases hk : k = j
  · subst hk
    cases hc : c k with
    | true =>
      rw [if_pos rfl, if_pos ⟨rfl, rfl⟩, ht, onStream_out, if_pos rfl]
      rfl
    | false =>
      rw [if_neg Bool.false_ne_true, if_neg fun h => Bool.false_ne_true h.2]
      rfl
  · have hnone : (if k = j ∧ c j = true then some op else none) = none := if_neg fun h => hk h.1
    rw [hnone]
    split
    · rw [ht, onStream_out, if_neg hk]
      rfl
    · rfl

/-- **What an action is for the stream of one connection.** -/
theorem step_out (s : Links n) (a : LinkAction n) (j : Fin n) :
    (s.step a).out j = (a.op s j).elim (s.out j) fun op => (s.out j).bind (·.step op) := by
  have hfree : ∀ (k : Fin n) (op : Op UInt8), (s.onStream k op).out j
      = (if k = j then some op else none).elim (s.out j) fun op => (s.out j).bind (·.step op) := by
    intro k op
    rw [onStream_out]
    split <;> rfl
  cases a with
  | broadcast data =>
    show (if s.connected j then _ else _) = (if s.connected j then some (Op.start data) else none).elim _ _
    split <;> rfl
  | asyncSend k data => exact hfree k (.start data)
  | send k data => exact guarded_out s _ s.connected j k (.start data) rfl
  | taken k m => exact guarded_out s _ s.opened j k (.take m) rfl
  | failed k => exact hfree k .fail
  | lost k => rfl
  | close k => exact guarded_out s _ s.connected j k .fail rfl

/-! ## along a run -/

/-- the writes on the connection `j` are those of the data `ds` -/
def Delivers (j : Fin n) (s : Links n) (ds : List (List UInt8)) : Prop :=
  ∃ out, s.out j = some out ∧ Sound out ∧ out.messages = ds

theorem Delivers.step {s : Links n} {j : Fin n} {ds : List (List UInt8)} (h : Delivers j s ds)
    {a : LinkAction n} (ha : Alone s a) : Delivers j (s.step a) (ds ++ (a.data s j).toList) := by
  obtain ⟨out, hout, hsound, rfl⟩ := h
  have hstep := step_out s a j
  unfold LinkAction.data
  have halone := ha j
  unfold LinkAction.data at halone
  cases hop : a.op s j with
  | none =>
    rw [hop] at hstep
    exact ⟨out, hstep.trans hout, hsound, (List.append_nil _).symm⟩
  | some op =>
    rw [hop] at hstep halone
    -- a write that is started finds none outstanding
    obtain ⟨t, ht⟩ : ∃ t, out.step op = some t := by
      cases op with
      | start data => exact Option.isSome_iff_exists.mp ((step_start out data).mpr (halone rfl out hout))
      | take k => exact ⟨_, rfl⟩
      | fail => exact ⟨_, rfl⟩
    obtain ⟨hsound', hmessages⟩ := step_sound hsound ht
    refine ⟨t, ?_, hsound', hmessages⟩
    rw [hstep, hout]
    exact ht

theorem Delivers.run {s : Links n} {j : Fin n} {ds : List (List UInt8)} (h : Delivers j s ds)
    {acts : List (LinkAction n)} (ha : EveryStep Links.step Alone s acts) :
    Delivers j (Machine.run Links.step s acts) (ds ++ started j s acts) := by
  induction acts generalizing s ds with
  | nil => rwa [started, List.append_nil]
  | cons a acts ih =>
    have := ih (h.step ha.1) ha.2
    rwa [List.append_assoc] at this

theorem delivers_start (j : Fin n) : Delivers j ({} : Links n) [] := ⟨{}, rfl, sound_empty, rfl⟩

/-- **Sends and their handlers.**  Along every run in which no send starts on a connection while another
one is outstanding there: the writes on a connection are those of the calls, in their order; the wire
is their data, each of them up to the number of bytes that its handler was told, or to where the
outstanding write has come; and a handler was told no error only if these are all. -/
theorem sends_reported (acts : List (LinkAction n)) (ha : EveryStep Links.step Alone {} acts)
    (j : Fin n) :
    ∃ out, (run Links.step {} acts).out j = some out ∧
      out.done.map (·.message) ++ out.current.toList.map (·.1) = started j {} acts ∧
      out.wire = out.done.flatMap (fun d => d.message.take d.sent)
        ++ out.current.toList.flatMap (fun w => w.1.take w.2) ∧
      ∀ d ∈ out.done, d.sent ≤ d.message.length ∧ (d.ok = true → d.sent = d.message.length) := by
  obtain ⟨out, hout, hsound, hmessages⟩ := (delivers_start j).run ha
  exact ⟨out, hout, hmessages, hsound.wire, hsound.done⟩

/-- a broadcast to two peers of which one gets it in two pieces, a send that fails behind its first
byte, and the next one -/
def torn : List (LinkAction 2) :=
  [.broadcast [1, 2], .taken 0 1, .taken 1 5, .taken 0 1, .asyncSend 0 [3, 4], .taken 0 1, .failed 0,
   .send 0 [5]]

theorem torn_alone : EveryStep Links.step Alone {} torn := by
  refine ⟨?_, ?_, ?_, ?_, ?_, ?_, ?_, ?_, trivial⟩
  all_goals decide

theorem sends_reported_torn :
    ∃ out, (run Links.step {} torn).out 0 = some out ∧
      out.done.map (·.message) ++ out.current.toList.map (·.1) = started 0 {} torn ∧
      out.wire = out.done.flatMap (fun d => d.message.take d.sent)
        ++ out.current.toList.flatMap (fun w => w.1.take w.2) ∧
      ∀ d ∈ out.done, d.sent ≤ d.message.length ∧ (d.ok = true → d.sent = d.message.length) :=
  sends_reported torn torn_alone 0

-- what is on the wire of the first peer, and what it was meant to be
example : ((run Links.step {} torn).out 0).map (·.wire) = some [1, 2, 3] ∧
    started 0 {} torn = [[1, 2], [3, 4], [5]] := by decide

/-! ## a connection that was closed -/

/-- broadcasts and what the system does with them -/
def LinkAction.Broadcasting : LinkAction n → Prop
  | .broadcast _ | .taken .. | .failed .. => True
  | _ => False

/-- the data of a broadcast -/
def LinkAction.cast : LinkAction n → Option (List UInt8)
  | .broadcast data => some data
  | _ => none

theorem step_broadcasting {s : Links n} {a : LinkAction n} (ha : a.Broadcasting)
    (hup : ∀ j, s.connected j = true) :
    (∀ j, (s.step a).connected j = true) ∧ ∀ j, a.data s j = a.cast := by
  cases a with
  | broadcast data =>
    refine ⟨hup, fun j => ?_⟩
    show (if s.connected j then some (Op.start data) else none).bind Op.message = some data
    rw [if_pos (hup j)]
    rfl
  | taken k m =>
    constructor
    · show ∀ j, (if s.opened k then s.onStream k (.take m) else s).connected j = true
      split <;> exact hup
    · intro j
      show (if k = j ∧ s.opened j then some (Op.take m) else none).bind Op.message = none
      split <;> rfl
  | failed k =>
    refine ⟨hup, fun j => ?_⟩
    show (if k = j then some Op.fail else none).bind Op.message = none
    split <;> rfl
  | asyncSend j data => exact ha.elim
  | send j data => exact ha.elim
  | lost j => exact ha.elim
  | close j => exact ha.elim

theorem started_broadcasting {s : Links n} {acts : List (LinkAction n)}
    (ha : ∀ a ∈ acts, a.Broadcasting) (hup : ∀ j, s.connected j = true) (j : Fin n) :
    started j s acts = acts.filterMap LinkAction.cast := by
  induction acts generalizing s with
  | nil => rfl
  | cons a acts ih =>
    obtain ⟨hup', hdata⟩ := step_broadcasting (ha a List.mem_cons_self) hup
    rw [started, ih (fun b hb => ha b (List.mem_cons_of_mem a hb)) hup', hdata, List.filterMap_cons]
    cases a.cast <;> rfl

/-- **Broadcasts that wait.**  If no broadcast starts before all writes of the one before it have
ended, and the system takes all of it, then every peer gets the data one after the other. -/
theorem waiting_broadcasts_agree (acts : List (LinkAction n)) (ha : ∀ a ∈ acts, a.Broadcasting)
    (hwait : EveryStep Links.step Alone {} acts) (j : Fin n) (out : Stream UInt8)
    (hout : (run Links.step {} acts).out j = some out) (hall : out.Complete) :
    out.wire = (acts.filterMap LinkAction.cast).flatten := by
  obtain ⟨out', hout', hsound, hmessages⟩ := (delivers_start j).run hwait
  obtain rfl : out' = out := Option.some.inj (hout'.symm.trans hout)
  rw [hsound.complete hall, hmessages, List.nil_append,
    started_broadcasting (s := {}) ha (fun _ => rfl)]

end

/-- two broadcasts to two peers, the second one after the end of the first; the first peer gets the
data in pieces -/
def patient : List (LinkAction 2) :=
  [.broadcast [1, 2], .taken 0 1, .taken 1 2, .taken 0 1, .broadcast [3], .taken 1 1, .taken 0 1]

/-- what is on the first wire at the end -/
def patientOut : Stream UInt8 where
  done := [⟨[1, 2], true, 2⟩, ⟨[3], true, 1⟩]
  wire := [1, 2, 3]

theorem waiting_broadcasts_patient :
    patientOut.wire = (patient.filterMap LinkAction.cast).flatten := by
  have ha : ∀ a ∈ patient, a.Broadcasting := by
    intro a ha
    simp only [patient, List.mem_cons, List.not_mem_nil, or_false] at ha
    rcases ha with rfl | rfl | rfl | rfl | rfl | rfl | rfl <;> trivial
  have hwait : EveryStep Links.step Alone {} patient := by
    refine ⟨?_, ?_, ?_, ?_, ?_, ?_, ?_, trivial⟩
    all_goals decide
  exact waiting_broadcasts_agree patient ha hwait 0 patientOut rfl ⟨rfl, by decide⟩

end P2p
end ChainForge
