import ChainForge.P2p.Transport
import Mathlib.Logic.Function.Basic

/-!
# The TCP client

`TcpClient` of `modules/p2p/src/tcp_client.cpp` with the connections it creates, as a machine of
user calls and asynchronous completions.

An asynchronous operation is pending until the system finishes it; then its handler is ready to
run, and it runs at some later time.  Pending operations keep their connection alive, so a
connection that the client has replaced goes on with what it was doing:

* an attempt to connect (`Attempt`) resolves the host, connects, and ends in one of two handlers,
  the user's or that of `do_reconnect`.  `close` does not stop it, since `connected_` is not set yet;
* receives are those of the receive loop (`Transport`);
* the reconnect timer has waits that run (`waiting`), and waits whose handlers are ready: `expired`
  ones with no error, `cancelled` ones with `operation_aborted`.  A cancellation comes too late for
  an expired wait.

A connection without an owner is destroyed, and its destructor closes it (`destroy`); the owners
are the client, the pending operations, and the user, to whom `connection()` gives a share.
-/

set_option linter.unusedSectionVars false

namespace ChainForge
namespace P2p
open Text Machine ReceiveLoop

/-! ## states -/

inductive Stage where
  | resolving
  | resolved (ok : Bool)
  | connecting
  | finished (ok : Bool)
  deriving DecidableEq, Repr

/-- a pending `TcpConnection::async_connect` -/
structure Attempt where
  host : Str
  port : UInt16
  /-- the handler is that of `do_reconnect`, not the user's -/
  reconnect : Bool
  stage : Stage
  deriving DecidableEq, Repr

structure TcpClient where
  conns : Nat → TcpConnection := fun _ => {}
  attempts : Nat → Option Attempt := fun _ => none
  /-- `next_connection_id_` -/
  next : Nat := 1
  connection : Option Nat := none
  host : Str := []
  port : UInt16 := 0
  autoReconnect : Bool := false
  waiting : Nat := 0
  expired : Nat := 0
  cancelled : Nat := 0
  /-- the user's connection callback is set -/
  callback : Bool := false
  /-- its calls, the last one first -/
  notified : List Bool := []

/-- what the system answers to a synchronous connect -/
inductive ConnectOutcome where
  | ok
  | failed (message : String)
  | exception (message : String)

inductive TcpError where
  | connectionFailed
  | alreadyConnected
  deriving DecidableEq, Repr

/-- the result ends a connection: end of file or reset -/
def lost : Except AsioError (List UInt8) → Bool
  | .error e => tcp.loses e
  | .ok _ => false

namespace TcpClient
variable (s : TcpClient)

def isConnected : Bool :=
  match s.connection with
  | some c => (s.conns c).up
  | none => false

def setConn (c : Nat) (x : TcpConnection) : TcpClient :=
  { s with conns := Function.update s.conns c x }

def setAttempt (c : Nat) (a : Option Attempt) : TcpClient :=
  { s with attempts := Function.update s.attempts c a }

/-! ## the timer and the callback -/

def cancelTimer : TcpClient := { s with waiting := 0, cancelled := s.cancelled + s.waiting }

/-- `expires_after` cancels the wait before it -/
def scheduleReconnect : TcpClient :=
  if !s.autoReconnect then s else { s.cancelTimer with waiting := 1 }

def notify (connected : Bool) : TcpClient :=
  if s.callback then { s with notified := connected :: s.notified } else s

/-- the callback that the client sets on each of its connections -/
def onConnection (connected : Bool) : TcpClient :=
  let s := s.notify connected
  if !connected && s.autoReconnect then s.scheduleReconnect else s

/-- `TcpConnection::close` of a connection of this client -/
def closeConnection (c : Nat) : TcpClient :=
  if (s.conns c).up then (s.setConn c (s.conns c).close).onConnection false else s

/-! ## calls -/

/-- a new connection object becomes `connection_` -/
def create : TcpClient :=
  { s.setConn s.next {} with
    attempts := Function.update s.attempts s.next none
    next := s.next + 1
    connection := some s.next }

def connect (host : Str) (port : UInt16) (os : ConnectOutcome) :
    Except (TcpError × String) Unit × TcpClient :=
  if s.isConnected then (.error (.alreadyConnected, "Already connected"), s)
  else
    let c := s.next
    let s := { s with host, port }.create
    match os with
    | .ok => (.ok (), (s.setConn c (s.conns c).bringUp).onConnection true)
    | .failed message =>
      (.error (.connectionFailed, "Failed to connect: " ++ message), { s with connection := none })
    | .exception message =>
      (.error (.connectionFailed, "Connection exception: " ++ message), { s with connection := none })

/-- the last lines of `async_connect` and `do_reconnect` -/
def attempt (reconnect : Bool) : TcpClient :=
  s.create.setAttempt s.next
    (some { host := s.host, port := s.port, reconnect, stage := .resolving })

/-- a connected client answers with `already_connected` at once -/
def asyncConnect (host : Str) (port : UInt16) : TcpClient :=
  if s.isConnected then s else { s with host, port }.attempt false

def doReconnect : TcpClient := s.attempt true

def disconnect : TcpClient :=
  let s := { s with autoReconnect := false }.cancelTimer
  match s.connection with
  | none => s
  | some c => { s.closeConnection c with connection := none }

def enableAutoReconnect : TcpClient := { s with autoReconnect := true }

def disableAutoReconnect : TcpClient := { s with autoReconnect := false }.cancelTimer

def startReceive (callback : Bool) : TcpClient :=
  match s.connection with
  | some c => if (s.conns c).up then s.setConn c ((s.conns c).startReceive callback) else s
  | none => s

def stopReceive : TcpClient :=
  match s.connection with
  | some c => s.setConn c (s.conns c).stopReceive
  | none => s

/-! ## completions -/

/-- the system finishes a resolve or a connect -/
def finishAttempt (c : Nat) (ok : Bool) : TcpClient :=
  match s.attempts c with
  | some a =>
    match a.stage with
    | .resolving => s.setAttempt c (some { a with stage := .resolved ok })
    | .connecting => s.setAttempt c (some { a with stage := .finished ok })
    | _ => s
  | none => s

/-- the handler of a failed attempt: `do_reconnect` drops `connection_` and tries again -/
def failAttempt (a : Attempt) : TcpClient :=
  if a.reconnect then
    let s := { s with connection := none }
    if s.autoReconnect then s.scheduleReconnect else s
  else s

def deliverAttempt (c : Nat) : TcpClient :=
  match s.attempts c with
  | some a =>
    match a.stage with
    | .resolved true => s.setAttempt c (some { a with stage := .connecting })
    | .resolved false => (s.setAttempt c none).failAttempt a
    | .finished true =>
      ((s.setAttempt c none).setConn c (s.conns c).bringUp).onConnection true
    | .finished false => (s.setAttempt c none).failAttempt a
    | _ => s
  | none => s

def finishReceive (c : Nat) (r : Except AsioError (List UInt8)) : TcpClient :=
  s.setConn c ((s.conns c).finish r)

/-- `handle_receive`, which calls the connection callback when the connection has ended -/
def deliverReceive (c i : Nat) : TcpClient :=
  match (s.conns c).ready[i]? with
  | some r =>
    let t := s.setConn c ((s.conns c).deliver tcp i)
    if lost r then t.onConnection false else t
  | none => s

def expire : TcpClient := { s with waiting := 0, expired := s.expired + s.waiting }

def deliverExpired : TcpClient :=
  if s.expired = 0 then s
  else
    let s := { s with expired := s.expired - 1 }
    if s.autoReconnect then s.doReconnect else s

def deliverCancelled : TcpClient := { s with cancelled := s.cancelled - 1 }

/-- the last owner lets go -/
def destroy (c : Nat) : TcpClient :=
  if s.connection = some c ∨ s.attempts c ≠ none ∨ (s.conns c).outstanding ≠ 0 then s
  else s.closeConnection c

end TcpClient

/-! ## the machine -/

inductive Event where
  | connect (host : Str) (port : UInt16) (os : ConnectOutcome)
  | asyncConnect (host : Str) (port : UInt16)
  | disconnect
  | enableAutoReconnect
  | disableAutoReconnect
  | setConnectionCallback (set : Bool)
  | startReceive (callback : Bool)
  | stopReceive
  | finishAttempt (c : Nat) (ok : Bool)
  | deliverAttempt (c : Nat)
  | finishReceive (c : Nat) (r : Except AsioError (List UInt8))
  | deliverReceive (c i : Nat)
  | expire
  | deliverExpired
  | deliverCancelled
  | destroy (c : Nat)

def TcpClient.step (s : TcpClient) : Event → TcpClient
  | .connect host port os => (s.connect host port os).2
  | .asyncConnect host port => s.asyncConnect host port
  | .disconnect => s.disconnect
  | .enableAutoReconnect => s.enableAutoReconnect
  | .disableAutoReconnect => s.disableAutoReconnect
  | .setConnectionCallback set => { s with callback := set }
  | .startReceive callback => s.startReceive callback
  | .stopReceive => s.stopReceive
  | .finishAttempt c ok => s.finishAttempt c ok
  | .deliverAttempt c => s.deliverAttempt c
  | .finishReceive c r => s.finishReceive c r
  | .deliverReceive c i => s.deliverReceive c i
  | .expire => s.expire
  | .deliverExpired => s.deliverExpired
  | .deliverCancelled => s.deliverCancelled
  | .destroy c => s.destroy c

/-- the client after the events -/
def TcpClient.after (events : List Event) : TcpClient := run TcpClient.step {} events

/-- a call of `connect` or `async_connect` -/
def Event.isConnect : Event → Bool
  | .connect _ _ _ => true
  | .asyncConnect _ _ => true
  | _ => false

def Event.isDisconnect : Event → Bool
  | .disconnect => true
  | _ => false

/-- the event runs `do_reconnect` -/
def Event.reconnects (s : TcpClient) : Event → Bool
  | .deliverExpired => s.expired != 0 && s.autoReconnect
  | _ => false

/-- the event makes a connection of the client connected, or calls the user with `true` -/
def Event.connects (s : TcpClient) (e : Event) : Prop :=
  (∃ c, (s.conns c).up = false ∧ ((s.step e).conns c).up = true) ∨
    (s.step e).notified.count true ≠ s.notified.count true

/-! ## frames -/

namespace TcpClient
variable {s : TcpClient} {c d : Nat}

@[simp] theorem setConn_conns_same (x : TcpConnection) : (s.setConn c x).conns c = x := by
  simp [setConn]

theorem setConn_conns_ne (h : d ≠ c) (x : TcpConnection) : (s.setConn c x).conns d = s.conns d := by
  simp [setConn, h]

@[simp] theorem setAttempt_attempts_same (a : Option Attempt) : (s.setAttempt c a).attempts c = a := by
  simp [setAttempt]

theorem setAttempt_attempts_ne (h : d ≠ c) (a : Option Attempt) :
    (s.setAttempt c a).attempts d = s.attempts d := by
  simp [setAttempt, h]

theorem setConn_self : s.setConn c (s.conns c) = s := by
  unfold setConn
  rw [Function.update_eq_self]

/-- all but the timer -/
def core (s : TcpClient) :
    (Nat → TcpConnection) × (Nat → Option Attempt) × Nat × Option Nat × Bool :=
  (s.conns, s.attempts, s.next, s.connection, s.autoReconnect)

theorem core_scheduleReconnect : s.scheduleReconnect.core = s.core := by
  unfold scheduleReconnect
  split <;> rfl

theorem core_onConnection (connected : Bool) : (s.onConnection connected).core = s.core := by
  have hn : (s.notify connected).core = s.core := by
    unfold notify
    split <;> rfl
  unfold onConnection
  dsimp only
  split
  · rw [core_scheduleReconnect, hn]
  · exact hn

theorem onConnection_conns (connected : Bool) : (s.onConnection connected).conns = s.conns :=
  congrArg (·.1) (core_onConnection connected)

theorem onConnection_attempts (connected : Bool) :
    (s.onConnection connected).attempts = s.attempts :=
  congrArg (·.2.1) (core_onConnection connected)

theorem onConnection_connection (connected : Bool) :
    (s.onConnection connected).connection = s.connection :=
  congrArg (·.2.2.2.1) (core_onConnection connected)

theorem onConnection_autoReconnect (connected : Bool) :
    (s.onConnection connected).autoReconnect = s.autoReconnect :=
  congrArg (·.2.2.2.2) (core_onConnection connected)

/-- a loss arms the timer of a client that reconnects -/
theorem onConnection_false_waiting (h : s.autoReconnect = true) :
    (s.onConnection false).waiting = 1 := by
  have hn : (s.notify false).autoReconnect = true := by
    unfold notify
    split <;> exact h
  unfold onConnection scheduleReconnect
  dsimp only
  rw [hn]
  rfl

/-- a received result that is no loss changes the connection only -/
theorem deliverReceive_kept {i : Nat} {r : Except AsioError (List UInt8)}
    (hr : (s.conns c).ready[i]? = some r) (hl : lost r = false) :
    s.deliverReceive c i = s.setConn c ((s.conns c).deliver tcp i) := by
  unfold TcpClient.deliverReceive
  rw [hr]
  dsimp only
  rw [hl, if_neg Bool.false_ne_true]

theorem deliverReceive_lost {i : Nat} {r : Except AsioError (List UInt8)}
    (hr : (s.conns c).ready[i]? = some r) (hl : lost r = true) :
    s.deliverReceive c i = (s.setConn c ((s.conns c).deliver tcp i)).onConnection false := by
  unfold TcpClient.deliverReceive
  rw [hr]
  exact if_pos hl

end TcpClient

/-! ## the invariant -/

section
open TcpClient
variable {s : TcpClient} {c : Nat}

/-- an up connection is not being connected -/
def Wf (s : TcpClient) : Prop := ∀ c, (s.conns c).up = true → s.attempts c = none

theorem Wf.down (h : Wf s) {a : Attempt} (ha : s.attempts c = some a) : (s.conns c).up = false := by
  by_contra hup
  rw [h c ((Bool.not_eq_false _).mp hup)] at ha
  cases ha

theorem Wf.onConnection (h : Wf s) (connected : Bool) : Wf (s.onConnection connected) := by
  intro d hd
  rw [onConnection_conns] at hd
  rw [onConnection_attempts]
  exact h d hd

theorem Wf.setConn (h : Wf s) {x : TcpConnection} (hx : x.up = true → s.attempts c = none) :
    Wf (s.setConn c x) := by
  intro d hd
  by_cases hdc : d = c
  · rw [hdc] at hd ⊢
    rw [setConn_conns_same] at hd
    exact hx hd
  · rw [setConn_conns_ne hdc] at hd
    exact h d hd

theorem Wf.setAttempt (h : Wf s) {a : Option Attempt}
    (ha : a = none ∨ (s.conns c).up = false) : Wf (s.setAttempt c a) := by
  intro d hd
  by_cases hdc : d = c
  · rw [hdc] at hd ⊢
    rw [setAttempt_attempts_same]
    rcases ha with ha | ha
    · exact ha
    · have hup : (s.conns c).up = true := hd
      rw [ha] at hup
      cases hup
  · rw [setAttempt_attempts_ne hdc]
    exact h d hd

theorem Wf.closeConnection (h : Wf s) : Wf (s.closeConnection c) := by
  unfold TcpClient.closeConnection
  split
  · rename_i hup
    exact (h.setConn fun _ => h c hup).onConnection false
  · exact h

theorem Wf.create (h : Wf s) : Wf s.create := by
  have hnone : Wf (s.setAttempt s.next none) := h.setAttempt (.inl rfl)
  exact Wf.setConn (s := s.setAttempt s.next none) hnone (x := {}) nofun

theorem create_down : (s.create.conns s.next).up = false := by
  show ((s.setConn s.next {}).conns s.next).up = false
  rw [setConn_conns_same]

theorem Wf.attempt (h : Wf s) (reconnect : Bool) : Wf (s.attempt reconnect) :=
  h.create.setAttempt (.inr create_down)

theorem Wf.connect (h : Wf s) (host : Str) (port : UInt16) (os : ConnectOutcome) :
    Wf (s.connect host port os).2 := by
  unfold TcpClient.connect
  split
  · exact h
  · have hc : Wf ({ s with host, port } : TcpClient).create := Wf.create (s := { s with host, port }) h
    cases os with
    | ok =>
      refine (hc.setConn fun _ => ?_).onConnection true
      exact setAttempt_attempts_same (s := s) (c := s.next) none
    | failed message => exact hc
    | exception message => exact hc

theorem Wf.failAttempt (h : Wf s) (a : Attempt) : Wf (s.failAttempt a) := by
  unfold TcpClient.failAttempt TcpClient.scheduleReconnect
  split
  · dsimp only
    split
    · split <;> exact h
    · exact h
  · exact h

theorem Wf.deliverAttempt (h : Wf s) (c : Nat) : Wf (s.deliverAttempt c) := by
  unfold TcpClient.deliverAttempt
  cases hat : s.attempts c with
  | none => exact h
  | some a =>
    have hdown : (s.conns c).up = false := h.down hat
    have hnone : Wf (s.setAttempt c none) := h.setAttempt (.inl rfl)
    dsimp only
    split
    · exact h.setAttempt (.inr hdown)
    · exact hnone.failAttempt a
    · exact (hnone.setConn fun _ => setAttempt_attempts_same none).onConnection true
    · exact hnone.failAttempt a
    · exact h

theorem Wf.finishAttempt (h : Wf s) (c : Nat) (ok : Bool) : Wf (s.finishAttempt c ok) := by
  unfold TcpClient.finishAttempt
  cases hat : s.attempts c with
  | none => exact h
  | some a =>
    have hdown : (s.conns c).up = false := h.down hat
    dsimp only
    split
    · exact h.setAttempt (.inr hdown)
    · exact h.setAttempt (.inr hdown)
    · exact h

theorem Wf.deliverReceive (h : Wf s) (c i : Nat) : Wf (s.deliverReceive c i) := by
  unfold TcpClient.deliverReceive
  cases hr : (s.conns c).ready[i]? with
  | none => exact h
  | some r =>
    have ht : Wf (s.setConn c ((s.conns c).deliver tcp i)) := h.setConn fun hup =>
      h c (deliver_up hup)
    dsimp only
    split
    · exact ht.onConnection false
    · exact ht

theorem Wf.asyncConnect (h : Wf s) (host : Str) (port : UInt16) : Wf (s.asyncConnect host port) := by
  unfold TcpClient.asyncConnect
  split
  · exact h
  · exact Wf.attempt (s := { s with host, port }) h false

theorem Wf.disconnect (h : Wf s) : Wf s.disconnect := by
  have hc : Wf ({ s with autoReconnect := false } : TcpClient).cancelTimer := h
  unfold TcpClient.disconnect
  dsimp only
  split
  · exact hc
  · exact hc.closeConnection

theorem Wf.startReceive (h : Wf s) (callback : Bool) : Wf (s.startReceive callback) := by
  unfold TcpClient.startReceive
  split
  · split
    · rename_i c _ hup
      exact h.setConn fun _ => h c hup
    · exact h
  · exact h

theorem Wf.stopReceive (h : Wf s) : Wf s.stopReceive := by
  unfold TcpClient.stopReceive
  split
  · exact h.setConn (h _)
  · exact h

theorem Wf.deliverExpired (h : Wf s) : Wf s.deliverExpired := by
  unfold TcpClient.deliverExpired
  split
  · exact h
  · dsimp only
    split
    · exact Wf.attempt (s := { s with expired := s.expired - 1 }) h true
    · exact h

theorem Wf.destroy (h : Wf s) (c : Nat) : Wf (s.destroy c) := by
  unfold TcpClient.destroy
  split
  · exact h
  · exact h.closeConnection

theorem Wf.step (h : Wf s) (e : Event) : Wf (s.step e) := by
  cases e with
  | connect host port os => exact h.connect host port os
  | asyncConnect host port => exact h.asyncConnect host port
  | disconnect => exact h.disconnect
  | startReceive callback => exact h.startReceive callback
  | stopReceive => exact h.stopReceive
  | finishAttempt c ok => exact h.finishAttempt c ok
  | deliverAttempt c => exact h.deliverAttempt c
  | finishReceive c r =>
    refine h.setConn fun hup => h c ?_
    rw [finish_up] at hup
    exact hup
  | deliverReceive c i => exact h.deliverReceive c i
  | deliverExpired => exact h.deliverExpired
  | destroy c => exact h.destroy c
  -- the others touch neither connections nor attempts
  | _ => exact h

theorem wf_after (events : List Event) : Wf (TcpClient.after events) := by
  refine run_inv Wf (fun s e h => h.step e) events ?_
  intro c hc
  rfl

end

end P2p
end ChainForge
