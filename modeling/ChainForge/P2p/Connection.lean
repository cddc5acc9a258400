import ChainForge.P2p.Transport

/-!
# TCP connections: the socket and the connection callback

`TcpConnection` of `modules/p2p/src/tcp_connection.cpp` with all it does to its socket and to the
connection callback.  `connected_` and the socket are two things: the end of a connection found by a
receive clears `connected_` and leaves the socket open, and an `async_connect` opens the socket long
before it sets `connected_`.  What asio does is part of the events: it closes the socket before it
connects to an endpoint, and it takes a connect on a closed socket for a cancelled one.

The calls that a callback makes come after the event that calls it.

* `halfOpen_step`           how a socket comes to be open on a connection that is not connected;
* `close_closes_iff`        **when the socket is closed after `close`**.
-/

set_option linter.unusedSectionVars false

namespace ChainForge
namespace P2p
open Machine ReceiveLoop

namespace Connection

inductive TcpError where
  | connectionFailed
  | connectionClosed
  | readFailed
  | alreadyConnected
  | notConnected
  deriving DecidableEq, Repr

abbrev TcpResult (α : Type) := Except (TcpError × String) α

/-- what `create` is called with -/
inductive Origin where
  | ioContext
  | socket

/-- what resolver and system answer to `connect`; where every endpoint has failed, `opened` says
whether the last one left a socket -/
inductive ConnectAnswer where
  | ok
  | failed (message : String) (opened : Bool)
  | exception (message : String)

inductive ReadAnswer where
  | ok (data : List UInt8)
  | failed (error : AsioError) (message : String)
  | exception (message : String)

end Connection

structure Connection where
  /-- `connected_`, `receiving_` and the receives -/
  loop : TcpConnection := {}
  /-- `socket_.is_open()` -/
  socketOpen : Bool := false
  /-- calls of `async_connect` whose host is still to be resolved -/
  resolving : Nat := 0
  /-- those whose host is resolved and whose connect is still to complete -/
  connecting : Nat := 0
  /-- `connection_callback_` is set -/
  callback : Bool := false
  /-- what the connection callback was called with, in this order -/
  notified : List Bool := []

namespace Connection

def create : Origin → Connection
  | .ioContext => {}
  | .socket => { loop := { up := true }, socketOpen := true }

section
variable (c : Connection)

def isConnected : Bool := c.loop.up

def setConnectionCallback : Connection := { c with callback := true }

def notify (connected : Bool) : Connection :=
  if c.callback then { c with notified := c.notified ++ [connected] } else c

/-- asio closes the socket, which cancels its receives, and opens another one -/
def reopen (opened : Bool) : Connection :=
  { c with
    loop := { c.loop with
      inFlight := 0
      ready := c.loop.ready ++ List.replicate c.loop.inFlight (.error .operationAborted) }
    socketOpen := opened }

def setConnected : Connection := notify { c with loop := c.loop.bringUp } true

def connect (os : ConnectAnswer) : TcpResult Unit × Connection :=
  if c.loop.up then (.error (.alreadyConnected, "Already connected"), c)
  else
    match os with
    | .ok => (.ok (), setConnected (c.reopen true))
    | .failed message opened =>
      (.error (.connectionFailed, "Failed to connect: " ++ message), c.reopen opened)
    | .exception message => (.error (.connectionFailed, "Connection exception: " ++ message), c)

def asyncConnect : Connection := { c with resolving := c.resolving + 1 }

/-- the handler of `async_resolve` -/
def resolved (r : Except AsioError Bool) : Connection :=
  if c.resolving = 0 then c
  else
    match r with
    | .error _ => { c with resolving := c.resolving - 1 }
    | .ok opened =>
      { c.reopen opened with resolving := c.resolving - 1, connecting := c.connecting + 1 }

/-- inside `asio::async_connect`: one endpoint has failed and the next one is tried, unless the
socket was closed in the meantime -/
def nextEndpoint (opened : Bool) : Connection :=
  if c.connecting = 0 || !c.socketOpen then c else c.reopen opened

/-- the handler of `asio::async_connect`; on a closed socket it gets `operation_aborted` -/
def connectCompleted (r : Except AsioError Unit) : Connection :=
  if c.connecting = 0 then c
  else
    let c := { c with connecting := c.connecting - 1 }
    match r with
    | .error _ => c
    | .ok _ => if c.socketOpen then c.setConnected else c

/-- `read_some` on the caller's thread; the loss is not told to the callback -/
def receive (os : ReadAnswer) : TcpResult (List UInt8) × Connection :=
  if !c.loop.up then (.error (.notConnected, "Not connected"), c)
  else
    match os with
    | .ok data => (.ok data, c)
    | .failed e message =>
      if e = .eof then
        (.error (.connectionClosed, "Connection closed by peer"),
          { c with loop := { c.loop with up := false } })
      else (.error (.readFailed, "Read failed: " ++ message), c)
    | .exception message => (.error (.readFailed, "Read exception: " ++ message), c)

def startReceive (callback : Bool) : Connection := { c with loop := c.loop.startReceive callback }

def stopReceive : Connection := { c with loop := c.loop.stopReceive }

/-- `handle_receive` of the `i`-th finished receive -/
def deliver (i : Nat) : Connection :=
  let after : Connection := { c with loop := c.loop.deliver tcp i }
  if c.loop.ends tcp i then after.notify false else after

def close : Connection :=
  if !c.loop.up then c
  else notify { c with loop := c.loop.close, socketOpen := false } false

end

inductive Event where
  | connect (os : ConnectAnswer)
  | asyncConnect
  | resolved (r : Except AsioError Bool)
  | nextEndpoint (opened : Bool)
  | connectCompleted (r : Except AsioError Unit)
  | receive (os : ReadAnswer)
  | startReceive (callback : Bool)
  | stopReceive
  | finish (r : Except AsioError (List UInt8))
  | deliver (i : Nat)
  | close

def step (c : Connection) : Event → Connection
  | .connect os => (c.connect os).2
  | .asyncConnect => c.asyncConnect
  | .resolved r => c.resolved r
  | .nextEndpoint opened => c.nextEndpoint opened
  | .connectCompleted r => c.connectCompleted r
  | .receive os => (c.receive os).2
  | .startReceive callback => c.startReceive callback
  | .stopReceive => c.stopReceive
  | .finish r => { c with loop := c.loop.finish r }
  | .deliver i => c.deliver i
  | .close => c.close

/-! ## flags -/

section
variable (c : Connection)

@[simp] theorem notify_loop (b : Bool) : (c.notify b).loop = c.loop := by
  unfold notify
  split <;> rfl

@[simp] theorem notify_socketOpen (b : Bool) : (c.notify b).socketOpen = c.socketOpen := by
  unfold notify
  split <;> rfl

@[simp] theorem notify_callback (b : Bool) : (c.notify b).callback = c.callback := by
  unfold notify
  split <;> rfl

theorem notify_notified {c : Connection} (h : c.callback = true) (b : Bool) :
    (c.notify b).notified = c.notified ++ [b] := by
  unfold notify
  rw [if_pos h]

@[simp] theorem start_up {l : TcpConnection} (callback : Bool) :
    (l.startReceive callback).up = l.up := arm_up

@[simp] theorem deliver_up (i : Nat) : (c.deliver i).loop.up = (c.loop.up && !c.loop.ends tcp i) := by
  unfold deliver
  dsimp only
  split
  · rw [notify_loop, deliver_up_eq]
  · rw [deliver_up_eq]

@[simp] theorem deliver_socketOpen (i : Nat) : (c.deliver i).socketOpen = c.socketOpen := by
  unfold deliver
  dsimp only
  split
  · rw [notify_socketOpen]
  · rfl

theorem close_of_up {c : Connection} (h : c.loop.up = true) :
    c.close = notify { c with loop := c.loop.close, socketOpen := false } false := by
  unfold close
  rw [if_neg (by rw [h]; exact Bool.false_ne_true)]

theorem close_of_down {c : Connection} (h : c.loop.up = false) : c.close = c := by
  unfold close
  rw [if_pos (by rw [h]; rfl)]

theorem loop_close_up {l : TcpConnection} (h : l.up = true) : (TcpConnection.close l).up = false := by
  unfold TcpConnection.close Loop.close
  rw [if_neg (by rw [h]; exact Bool.false_ne_true)]

end

/-! ## the socket -/

/-- the socket is open, but the connection is not connected -/
def halfOpen (c : Connection) : Bool := c.socketOpen && !c.loop.up

/-- the socket outlives the end of the connection, or a connect that has not succeeded has opened
it -/
def opensHalf (c : Connection) : Event → Bool
  | .connect (.failed _ opened) => !c.loop.up && opened
  | .resolved (.ok opened) => c.resolving != 0 && opened && !c.loop.up
  | .receive (.failed e _) => c.loop.up && e == .eof && c.socketOpen
  | .deliver i => c.loop.ends tcp i && c.socketOpen
  | _ => false

section
variable {c : Connection} (h : c.halfOpen = false)
include h

theorem connect_halfOpen (os : ConnectAnswer) :
    (c.connect os).2.halfOpen = c.opensHalf (.connect os) := by
  unfold connect
  cases hu : c.loop.up with
  | true => cases os <;> simp [opensHalf, hu, h]
  | false =>
    cases os with
    | ok => simp [opensHalf, halfOpen, setConnected, Loop.bringUp]
    | failed message opened => simp [opensHalf, hu, halfOpen, reopen]
    | exception message => simp [opensHalf, h]

theorem resolved_halfOpen (r : Except AsioError Bool) :
    (c.resolved r).halfOpen = c.opensHalf (.resolved r) := by
  unfold resolved
  by_cases h0 : c.resolving = 0
  · cases r <;> simp [opensHalf, h0, h]
  · have hne : (c.resolving != 0) = true := bne_iff_ne.mpr h0
    rw [if_neg h0]
    cases r with
    | error e => exact h
    | ok opened => simp [opensHalf, hne, halfOpen, reopen]

theorem connectCompleted_halfOpen (r : Except AsioError Unit) :
    (c.connectCompleted r).halfOpen = false := by
  unfold connectCompleted
  split
  · exact h
  · cases r with
    | error e => exact h
    | ok _ =>
      dsimp only
      split
      · simp [halfOpen, setConnected, Loop.bringUp]
      · exact h

theorem receive_halfOpen (os : ReadAnswer) :
    (c.receive os).2.halfOpen = c.opensHalf (.receive os) := by
  unfold receive
  cases hu : c.loop.up with
  | false => cases os <;> simp [opensHalf, hu, h]
  | true =>
    cases os with
    | failed e message =>
      by_cases he : e = .eof
      · simp [opensHalf, hu, he, halfOpen]
      · simp [opensHalf, hu, he, h]
    | _ => simp [opensHalf, h]

theorem up_of_socketOpen (ho : c.socketOpen = true) : c.loop.up = true := by
  simpa [halfOpen, ho] using h

theorem nextEndpoint_halfOpen (opened : Bool) : (c.nextEndpoint opened).halfOpen = false := by
  unfold nextEndpoint
  split
  · exact h
  · rename_i hc
    have ho : c.socketOpen = true := by
      simp only [Bool.or_eq_true, decide_eq_true_eq, Bool.not_eq_true', not_or, Bool.not_eq_false] at hc
      exact hc.2
    simp [halfOpen, reopen, up_of_socketOpen h ho]

theorem deliver_halfOpen (i : Nat) : (c.deliver i).halfOpen = c.opensHalf (.deliver i) := by
  show ((c.deliver i).socketOpen && !(c.deliver i).loop.up) = (c.loop.ends tcp i && c.socketOpen)
  rw [deliver_socketOpen, deliver_up]
  cases ho : c.socketOpen with
  | false => simp
  | true => simp [up_of_socketOpen h ho]

theorem close_halfOpen : c.close.halfOpen = false := by
  cases hu : c.loop.up with
  | true => simp [close_of_up hu, halfOpen]
  | false => rwa [close_of_down hu]

/-- **How a socket comes to be half open.** -/
theorem halfOpen_step (e : Event) :
    (c.step e).halfOpen = c.opensHalf e := by
  cases e with
  | connect os => exact connect_halfOpen h os
  | resolved r => exact resolved_halfOpen h r
  | nextEndpoint opened => exact nextEndpoint_halfOpen h opened
  | connectCompleted r => exact connectCompleted_halfOpen h r
  | receive os => exact receive_halfOpen h os
  | deliver i => exact deliver_halfOpen h i
  | close => exact close_halfOpen h
  | startReceive callback =>
    show (c.socketOpen && !(c.loop.startReceive callback).up) = false
    rw [start_up]
    exact h
  | finish r =>
    show (c.socketOpen && !(c.loop.finish r).up) = false
    rw [finish_up]
    exact h
  | asyncConnect => exact h
  | stopReceive => exact h

end

/-- a connection, and whether `close` was called after the last connect -/
structure Watch where
  connection : Connection
  closed : Bool := false

/-- a call of `connect`, or a completion of a pending `async_connect` -/
def connects (c : Connection) : Event → Bool
  | .connect _ => true
  | .resolved _ => c.resolving != 0
  | .nextEndpoint _ => c.connecting != 0 && c.socketOpen
  | .connectCompleted _ => c.connecting != 0
  | _ => false

def Watch.step (w : Watch) (e : Event) : Watch where
  connection := w.connection.step e
  closed :=
    match e with
    | .close => true
    | e => w.closed && !w.connection.connects e

/-- the socket is closed after `close` -/
def Watch.Closed (w : Watch) : Prop := w.closed = true → w.connection.socketOpen = false

/-- only a connect opens the socket -/
theorem socketOpen_step {c : Connection} {e : Event} (hc : c.connects e = false)
    (h : c.socketOpen = false) : (c.step e).socketOpen = false := by
  cases e with
  | connect os => cases hc
  | resolved r =>
    have h0 : c.resolving = 0 := by simpa [connects] using hc
    show (c.resolved r).socketOpen = false
    unfold resolved
    rw [if_pos h0]
    exact h
  | nextEndpoint opened =>
    show (c.nextEndpoint opened).socketOpen = false
    unfold nextEndpoint
    rw [if_pos (by rw [h]; simp)]
    exact h
  | connectCompleted r =>
    have h0 : c.connecting = 0 := by simpa [connects] using hc
    show (c.connectCompleted r).socketOpen = false
    unfold connectCompleted
    rw [if_pos h0]
    exact h
  | receive os =>
    show (c.receive os).2.socketOpen = false
    unfold receive
    repeat' split
    all_goals exact h
  | deliver i =>
    show (c.deliver i).socketOpen = false
    rw [deliver_socketOpen]
    exact h
  | close =>
    show c.close.socketOpen = false
    unfold close
    split
    · exact h
    · rw [notify_socketOpen]
  | asyncConnect => exact h
  | startReceive callback => exact h
  | stopReceive => exact h
  | finish r => exact h

theorem Watch.Closed.step {w : Watch} (hw : w.Closed) {e : Event} (he : e ≠ .close) :
    (w.step e).Closed := by
  have hclosed : (w.step e).closed = (w.closed && !w.connection.connects e) := by
    cases e with
    | close => exact absurd rfl he
    | _ => rfl
  intro h
  rw [hclosed, Bool.and_eq_true_iff, Bool.not_eq_true'] at h
  exact socketOpen_step h.2 (hw h.1)

theorem close_socketOpen_iff (c : Connection) : c.close.socketOpen = false ↔ c.halfOpen = false := by
  unfold halfOpen
  cases hu : c.loop.up with
  | true =>
    rw [close_of_up hu, notify_socketOpen]
    simp
  | false =>
    rw [close_of_down hu]
    simp

/-- **After `close` the socket is closed exactly when** no `close` finds it open on a connection that
is not connected. -/
theorem close_closes_iff (origin : Origin) (events : List Event) :
    EveryState Watch.step Watch.Closed ⟨create origin, false⟩ events ↔
      EveryStep Watch.step (fun w e => e = .close → w.connection.halfOpen = false)
        ⟨create origin, false⟩ events := by
  refine everyState_iff (fun _ => True) (fun _ _ _ => trivial) ?_ events trivial
    (fun h => nomatch h)
  intro w e _ hw
  by_cases he : e = .close
  · subst he
    show (true = true → w.connection.close.socketOpen = false) ↔ _
    rw [close_socketOpen_iff]
    simp
  · exact ⟨fun _ h => absurd h he, fun _ => hw.step he⟩

/-- the peer closes, `handle_receive` finds the end of file, and `close` comes too late -/
theorem closed_socket_open :
    ¬ EveryState Watch.step Watch.Closed ⟨create .ioContext, false⟩
      [.connect .ok, .startReceive true, .finish (.error .eof), .deliver 0, .close] := by
  intro h
  exact absurd (h.last rfl) (by decide)

end Connection
end P2p
end ChainForge
