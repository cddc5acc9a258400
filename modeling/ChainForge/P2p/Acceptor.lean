import ChainForge.Lib.Bindable
import ChainForge.P2p.Connection

/-!
# Accepting: the TCP server's acceptor, and binding of the UDP transport

`TcpServer::start`, `stop`, `do_accept` and `handle_accept` of `modules/p2p/src/tcp_server.cpp`, and
`UdpTransport::bind` and `close` with the socket under them.  Both open a socket, and only then bind
it; what they do when the system refuses leaves the socket open, and a stop of a server that does not
run does not close it.

The accept callback runs inside `handle_accept`, so a handler is two events: what it does up to the
callback, and the return of the callback with the next `do_accept`.  Calls of `start` and `stop`,
from the callback or from elsewhere, come between the two.

* `running_accepts`     **a running server has an accept outstanding**, unless a handler is under way;
* `view_step`           both have a socket that is opened and then bound (`Bindable`);
* `retry_iff`           **when a start or a bind can be retried**;
* `refused_for_good`    after a refusal none succeeds.
-/

set_option linter.unusedSectionVars false

namespace ChainForge
namespace P2p
open Machine ReceiveLoop

/-! ## the acceptor -/

/-- what asio answers to a start, apart from the open: `what` is the exception of `make_address` -/
inductive ListenAnswer where
  | ok
  | invalidAddress (what : String)
  | bindRefused (message : String)
  | listenRefused (message : String)

def ListenAnswer.toBind : ListenAnswer → Bindable.Answer
  | .ok => .ok
  | .invalidAddress _ => .invalid
  | .bindRefused _ => .refused
  | .listenRefused _ => .refused

/-- a finished accept, whose handler is still to run -/
structure Completion where
  /-- the socket -/
  result : Except AsioError Nat
  /-- begun before the last `stop` -/
  stale : Bool

structure Acceptor where
  running : Bool := false
  /-- `acceptor_.is_open()` -/
  isOpen : Bool := false
  port : UInt16 := 0
  inFlight : Nat := 0
  ready : List Completion := []
  /-- handlers inside the accept callback -/
  executing : Nat := 0
  /-- the sockets of `connections_`, the last one first -/
  connections : List Nat := []

/-- `async_accept` on a closed acceptor -/
def badDescriptor : AsioError := .other 9

namespace Acceptor

section
variable (s : Acceptor)

def doAccept : Acceptor :=
  if !s.running then s
  else if s.isOpen then { s with inFlight := s.inFlight + 1 }
  else { s with ready := s.ready ++ [⟨.error badDescriptor, false⟩] }

/-- `alreadyOpen` is what asio has to say to an `open` of an open socket -/
def start (alreadyOpen : String) (port : UInt16) (address : String) (os : ListenAnswer) :
    Connection.TcpResult Unit × Acceptor :=
  if s.running then (.error (.alreadyConnected, "Server is already running"), s)
  else
    match os with
    | .invalidAddress what => (.error (.connectionFailed, "Server start exception: " ++ what), s)
    | os =>
      if s.isOpen then (.error (.connectionFailed, "Server start exception: " ++ alreadyOpen), s)
      else
        let s := { s with isOpen := true }
        match os with
        | .bindRefused message =>
          (.error (.connectionFailed,
            "Failed to bind to " ++ address ++ ":" ++ toString port.toNat ++ ": " ++ message), s)
        | .listenRefused message =>
          (.error (.connectionFailed, "Failed to listen: " ++ message), s)
        | _ => (.ok (), doAccept { s with port, running := true })

/-- the accepts in flight are cancelled -/
def stop : Acceptor :=
  if !s.running then s
  else
    { s with
      running := false
      isOpen := false
      inFlight := 0
      ready := s.ready.map (fun c => { c with stale := true }) ++
        List.replicate s.inFlight ⟨.error .operationAborted, true⟩
      connections := [] }

/-- the system finishes an accept -/
def finish (result : Except AsioError Nat) : Acceptor :=
  if s.inFlight = 0 then s
  else { s with inFlight := s.inFlight - 1, ready := s.ready ++ [⟨result, false⟩] }

/-- `handle_accept` of the `i`-th finished accept, up to the accept callback -/
def handleAccept (i : Nat) : Acceptor :=
  match s.ready[i]? with
  | none => s
  | some c =>
    let s := { s with ready := s.ready.eraseIdx i }
    match c.result with
    | .error _ => if s.running then s.doAccept else s
    | .ok socket => { s with connections := socket :: s.connections, executing := s.executing + 1 }

/-- the accept callback returns -/
def callbackReturned : Acceptor :=
  if s.executing = 0 then s else doAccept { s with executing := s.executing - 1 }

/-- the accepts begun since the last `start`, whose handlers have not run -/
def live : Nat := s.inFlight + s.ready.countP (fun c => !c.stale)

def outstanding : Nat := s.inFlight + s.ready.length

end

inductive Event where
  | start (port : UInt16) (address : String) (os : ListenAnswer)
  | stop
  | finish (result : Except AsioError Nat)
  | handleAccept (i : Nat)
  | callbackReturned

def step (alreadyOpen : String) (s : Acceptor) : Event → Acceptor
  | .start port address os => (s.start alreadyOpen port address os).2
  | .stop => s.stop
  | .finish result => s.finish result
  | .handleAccept i => s.handleAccept i
  | .callbackReturned => s.callbackReturned

/-! ## the loop of accepts -/

section
variable {s : Acceptor}

theorem live_le_outstanding (s : Acceptor) : s.live ≤ s.outstanding :=
  Nat.add_le_add_left List.countP_le_length _

/-- a running server begins one accept -/
theorem doAccept_live (h : s.running = true) : s.doAccept.live = s.live + 1 := by
  unfold doAccept
  rw [if_neg (by rw [h]; exact Bool.false_ne_true)]
  split
  · show s.inFlight + 1 + s.ready.countP _ = s.inFlight + s.ready.countP _ + 1
    omega
  · show s.inFlight + (s.ready ++ [_]).countP _ = s.inFlight + s.ready.countP _ + 1
    rw [List.countP_append]
    rfl

@[simp] theorem doAccept_running : s.doAccept.running = s.running := by
  unfold doAccept
  repeat' split
  all_goals rfl

@[simp] theorem doAccept_isOpen : s.doAccept.isOpen = s.isOpen := by
  unfold doAccept
  repeat' split
  all_goals rfl

/-- an accept is outstanding, or a handler is going to begin one -/
def Accepting (s : Acceptor) : Prop := s.running = true → 1 ≤ s.live + s.executing

theorem accepting_of_stopped (h : s.running = false) : s.Accepting := by
  intro hr
  rw [h] at hr
  cases hr

/-- `do_accept` makes up for one accept or one handler that has ended -/
theorem doAccept_accepting : s.doAccept.Accepting := by
  intro hr
  rw [doAccept_running] at hr
  rw [doAccept_live hr]
  omega

theorem Accepting.start (alreadyOpen : String) (h : s.Accepting) (port : UInt16) (address : String)
    (os : ListenAnswer) : (s.start alreadyOpen port address os).2.Accepting := by
  unfold Acceptor.start
  split
  · exact h
  · rename_i hr
    have hstopped : s.running = false := Bool.eq_false_iff.mpr hr
    cases os with
    | ok =>
      dsimp only
      split
      · exact h
      · exact doAccept_accepting
    | invalidAddress what => exact h
    | bindRefused message =>
      dsimp only
      split <;> exact accepting_of_stopped hstopped
    | listenRefused message =>
      dsimp only
      split <;> exact accepting_of_stopped hstopped

theorem Accepting.finish (h : s.Accepting) (result : Except AsioError Nat) :
    (s.finish result).Accepting := by
  unfold Acceptor.finish
  split
  · exact h
  · intro hr
    have hlive : 1 ≤ s.inFlight + s.ready.countP _ + s.executing := h hr
    show 1 ≤ s.inFlight - 1 + (s.ready ++ [_]).countP _ + s.executing
    simp only [List.countP_append, List.countP_singleton, Bool.not_false, if_true]
    omega

/-- an error begins the next accept at once, a socket when the callback has returned -/
theorem Accepting.handleAccept (h : s.Accepting) (i : Nat) : (s.handleAccept i).Accepting := by
  unfold Acceptor.handleAccept
  split
  · exact h
  · rename_i c hc
    cases c.result with
    | error e =>
      dsimp only
      split
      · exact doAccept_accepting
      · rename_i hr
        exact accepting_of_stopped (Bool.eq_false_iff.mpr hr)
    | ok socket =>
      intro _
      show 1 ≤ _ + (s.executing + 1)
      omega

theorem Accepting.step (alreadyOpen : String) (h : s.Accepting) (e : Event) :
    (s.step alreadyOpen e).Accepting := by
  cases e with
  | start port address os => exact h.start alreadyOpen port address os
  | stop =>
    show s.stop.Accepting
    unfold stop
    split
    · exact h
    · exact accepting_of_stopped rfl
  | finish result => exact h.finish result
  | handleAccept i => exact h.handleAccept i
  | callbackReturned =>
    show s.callbackReturned.Accepting
    unfold callbackReturned
    split
    · exact h
    · exact doAccept_accepting

end

/-- **A running server keeps accepting**: in every state of every run, unless a handler is under
way. -/
theorem running_accepts (alreadyOpen : String) (events : List Event) :
    EveryState (step alreadyOpen)
      (fun s => s.running = true → s.executing = 0 → 1 ≤ s.live ∧ s.live ≤ s.outstanding) {}
      events := by
  have h : EveryState (step alreadyOpen) Accepting {} events :=
    everyState_of_inv Accepting (fun _ e hs => hs.step alreadyOpen e) events
      (accepting_of_stopped rfl)
  refine h.imp fun s hs hr h0 => ⟨?_, live_le_outstanding s⟩
  have hlive := hs hr
  omega

/-! ## refusals -/

/-- a start on an endpoint that the system accepts succeeds, unless the server runs -/
def Retriable (alreadyOpen : String) (s : Acceptor) : Prop :=
  s.running = false → ∀ port address, (s.start alreadyOpen port address .ok).1 = .ok ()

def view (s : Acceptor) : Bindable := ⟨s.running, s.isOpen⟩

def Event.op : Event → Bindable.Op
  | .start _ _ os => .attempt os.toBind
  | .stop => .release
  | _ => .other

section
variable {s : Acceptor} {alreadyOpen : String}

theorem retriable_eq (alreadyOpen : String) :
    Retriable alreadyOpen = fun s => s.view.Clean := by
  funext s
  refine propext (imp_congr_right fun hr => ?_)
  unfold start
  simp only [hr, Bool.false_eq_true, if_false]
  show _ ↔ s.isOpen = false
  cases s.isOpen <;> simp

@[simp] theorem doAccept_view : s.doAccept.view = s.view := by
  unfold view
  rw [doAccept_running, doAccept_isOpen]

theorem start_view (s : Acceptor) (port : UInt16) (address : String) (os : ListenAnswer) :
    (s.start alreadyOpen port address os).2.view = s.view.attempt os.toBind := by
  unfold start Bindable.attempt
  by_cases hr : s.running = true
  · rw [if_pos hr, if_pos (show s.view.up = true from hr)]
  · have hstopped : s.running = false := Bool.eq_false_iff.mpr hr
    rw [if_neg hr, if_neg (show ¬ s.view.up = true from hr)]
    cases os with
    | ok => cases ho : s.isOpen <;> simp [view, ListenAnswer.toBind, ho]
    | invalidAddress what => rfl
    | bindRefused message =>
      cases ho : s.isOpen <;> simp [view, ListenAnswer.toBind, ho, hstopped]
    | listenRefused message =>
      cases ho : s.isOpen <;> simp [view, ListenAnswer.toBind, ho, hstopped]

theorem handleAccept_view (s : Acceptor) (i : Nat) : (s.handleAccept i).view = s.view := by
  unfold handleAccept
  split
  · rfl
  · rename_i c _
    cases c.result with
    | error e =>
      dsimp only
      split
      · exact doAccept_view
      · rfl
    | ok socket => rfl

theorem view_step (s : Acceptor) (e : Event) : (s.step alreadyOpen e).view = s.view.step e.op := by
  cases e with
  | start port address os => exact start_view s port address os
  | stop =>
    show s.stop.view = s.view.release
    unfold stop Bindable.release
    cases hr : s.running <;> simp [view, hr]
  | finish result =>
    show (s.finish result).view = s.view
    unfold finish
    split <;> rfl
  | handleAccept i => exact handleAccept_view s i
  | callbackReturned =>
    show s.callbackReturned.view = s.view
    unfold callbackReturned
    split
    · rfl
    · exact doAccept_view

end

end Acceptor

/-! ## the UDP socket -/

/-- what asio answers to a bind, apart from the open -/
inductive BindAnswer where
  | ok
  | invalidAddress (what : String)
  | refused (message : String)

def BindAnswer.toBind : BindAnswer → Bindable.Answer
  | .ok => .ok
  | .invalidAddress _ => .invalid
  | .refused _ => .refused

structure UdpSocket where
  transport : UdpTransport := {}
  /-- `socket_.is_open()` -/
  isOpen : Bool := false
  port : UInt16 := 0

namespace UdpSocket

section
variable (u : UdpSocket)

/-- `make_address`, `open` and `bind`, one after the other -/
def outcome (alreadyOpen : String) : BindAnswer → BindOutcome
  | .invalidAddress what => .exception what
  | .ok => if u.isOpen then .openFailed alreadyOpen else .ok
  | .refused message => if u.isOpen then .openFailed alreadyOpen else .bindFailed message

def bind (alreadyOpen : String) (port : UInt16) (address : String) (os : BindAnswer) :
    Except String Unit × UdpSocket :=
  let (result, transport) := u.transport.bind port address (u.outcome alreadyOpen os)
  if u.transport.up then (result, u)
  else
    match u.outcome alreadyOpen os with
    | .ok => (result, { transport, isOpen := true, port })
    | .bindFailed _ => (result, { u with isOpen := true })
    | _ => (result, u)

def close : UdpSocket :=
  if !u.transport.up then u else { u with transport := u.transport.close, isOpen := false }

end

inductive Event where
  | bind (port : UInt16) (address : String) (os : BindAnswer)
  | close
  | startReceive (callback : Bool)
  | stopReceive
  | finish (r : Except AsioError (List UInt8 × UdpEndpoint))
  | deliver (i : Nat)

def step (alreadyOpen : String) (u : UdpSocket) : Event → UdpSocket
  | .bind port address os => (u.bind alreadyOpen port address os).2
  | .close => u.close
  | .startReceive callback => { u with transport := u.transport.startReceive callback }
  | .stopReceive => { u with transport := u.transport.stopReceive }
  | .finish r => { u with transport := u.transport.finish r }
  | .deliver i => { u with transport := u.transport.deliver udp i }

/-- a bind to an endpoint that the system accepts succeeds, unless the transport is bound -/
def Retriable (alreadyOpen : String) (u : UdpSocket) : Prop :=
  u.transport.up = false → ∀ port address, (u.bind alreadyOpen port address .ok).1 = .ok ()

def view (u : UdpSocket) : Bindable := ⟨u.transport.up, u.isOpen⟩

def Event.op : Event → Bindable.Op
  | .bind _ _ os => .attempt os.toBind
  | .close => .release
  | _ => .other

section
variable {u : UdpSocket} {alreadyOpen : String}

theorem retriable_eq (alreadyOpen : String) :
    Retriable alreadyOpen = fun u => u.view.Clean := by
  funext u
  refine propext (imp_congr_right fun hu => ?_)
  unfold bind outcome UdpTransport.bind
  simp only [hu, Bool.false_eq_true, if_false]
  show _ ↔ u.isOpen = false
  cases u.isOpen <;> simp

theorem deliver_keeps (t : UdpTransport) (i : Nat) : (t.deliver udp i).up = t.up := by
  have hends : t.ends udp i = false := by
    unfold Loop.ends
    split <;> rfl
  rw [deliver_up_eq, hends, Bool.not_false, Bool.and_true]

theorem view_step (u : UdpSocket) (e : Event) : (u.step alreadyOpen e).view = u.view.step e.op := by
  cases e with
  | bind port address os =>
    show (u.bind alreadyOpen port address os).2.view = u.view.attempt os.toBind
    unfold bind Bindable.attempt
    cases hu : u.transport.up with
    | true => simp [view, hu]
    | false =>
      cases os with
      | ok =>
        cases ho : u.isOpen <;>
          simp [view, hu, ho, outcome, BindAnswer.toBind, UdpTransport.bind, Loop.bringUp]
      | invalidAddress what => simp [view, hu, outcome, BindAnswer.toBind]
      | refused message =>
        cases ho : u.isOpen <;> simp [view, hu, ho, outcome, BindAnswer.toBind]
  | close =>
    show u.close.view = u.view.release
    unfold close Bindable.release
    cases hu : u.transport.up <;> simp [view, hu, UdpTransport.close, Loop.close]
  | startReceive callback => exact congrArg (Bindable.mk · u.isOpen) arm_up
  | stopReceive => rfl
  | finish r => exact congrArg (Bindable.mk · u.isOpen) (finish_up r)
  | deliver i => exact congrArg (Bindable.mk · u.isOpen) (deliver_keeps u.transport i)

end

end UdpSocket

/-! ## retries -/

/-- **A start, or a bind, can be retried exactly when** the system has refused none. -/
theorem retry_iff (alreadyOpen : String) (events : List Acceptor.Event)
    (udpEvents : List UdpSocket.Event) :
    (EveryState (Acceptor.step alreadyOpen) (Acceptor.Retriable alreadyOpen) {} events ↔
        EveryStep (Acceptor.step alreadyOpen)
          (fun s e => s.running = false → e.op ≠ .attempt .refused) {} events) ∧
      (EveryState (UdpSocket.step alreadyOpen) (UdpSocket.Retriable alreadyOpen) {} udpEvents ↔
        EveryStep (UdpSocket.step alreadyOpen)
          (fun u e => u.transport.up = false → e.op ≠ .attempt .refused) {} udpEvents) := by
  rw [Acceptor.retriable_eq, UdpSocket.retriable_eq]
  exact ⟨Bindable.clean_run_iff Acceptor.view_step events fun _ => rfl,
    Bindable.clean_run_iff UdpSocket.view_step udpEvents fun _ => rfl⟩

/-- one address that is in use, and then another one -/
theorem refused_then_stuck :
    ¬ EveryState (Acceptor.step "open: Already open") (Acceptor.Retriable "open: Already open") {}
        [.start 8333 "0.0.0.0" (.bindRefused "Address already in use")] ∧
      ¬ EveryState (UdpSocket.step "Already open") (UdpSocket.Retriable "Already open") {}
        [.bind 8333 "0.0.0.0" (.refused "Address already in use")] := by
  constructor
  · intro h
    exact nomatch h.last rfl 8334 "0.0.0.0"
  · intro h
    exact nomatch h.last rfl 8334 "0.0.0.0"

/-- neither `stop` nor `close` helps: a socket that is open and not bound stays so -/
theorem refused_for_good (alreadyOpen : String) {s : Acceptor} {u : UdpSocket} (hs : s.view.Stuck)
    (hu : u.view.Stuck) (events : List Acceptor.Event) (udpEvents : List UdpSocket.Event) :
    (run (Acceptor.step alreadyOpen) s events).view.Stuck ∧
      (run (UdpSocket.step alreadyOpen) u udpEvents).view.Stuck :=
  ⟨Bindable.stuck_run Acceptor.view_step events hs,
    Bindable.stuck_run UdpSocket.view_step udpEvents hu⟩

end P2p
end ChainForge
