import ChainForge.Lib.Threads

/-!
# The TCP server and its mutex

`TcpServer` of `modules/p2p/src/tcp_server.cpp` as a program of threads and `connections_mutex_`,
with `TcpConnection::close`, the end of a connection in `handle_receive`, and the connection
callback that `handle_accept` installs.  That callback calls `remove_connection`, which locks.

A close is two actions: the exchange of `connected_`, and the look at the callback.  Another thread
may take its turn between them.  The ids of connections are never used twice, so a connection is its
id.

* `tcpServer_discipline`    the code keeps the lock discipline but for that callback;
* `mutex_discipline_iff`    **when no thread asks for the mutex it holds**;
* `remove_live`             `remove_connection` of a live connection always does.
-/

set_option linter.unusedSectionVars false

namespace ChainForge
namespace P2p
open Machine Threads

structure TcpServer where
  /-- `connected_` of each connection -/
  connected : Nat → Bool := fun _ => false
  /-- the connection callback is installed -/
  callback : Nat → Bool := fun _ => false
  /-- the keys of `connections_` -/
  connections : List Nat := []
  running : Bool := false
  /-- `next_connection_id_` -/
  next : Nat := 1

namespace TcpServer

inductive Action where
  | setRunning
  | exchangeRunning
  | closeEach
  | clear
  | find (id : Nat)
  | close (id : Nat)
  /-- `if (connection_callback_) connection_callback_(false)` -/
  | notify (id : Nat)
  | erase (id : Nat)
  | create
  | track (id : Nat)
  | install (id : Nat)
  /-- `handle_receive` with end of file or a reset -/
  | lost (id : Nat)

open ChainForge.P2p.TcpServer.Action

/-! ## code -/

def removeConnection (id : Nat) : List (Instr Action) := [.lock, .act (find id), .unlock]

def exec (s : TcpServer) : Action → TcpServer × List (Instr Action)
  | setRunning => ({ s with running := true }, [])
  | exchangeRunning =>
    if s.running then ({ s with running := false }, [.lock, .act closeEach, .act clear, .unlock])
    else (s, [])
  | closeEach => (s, s.connections.map fun id => .act (close id))
  | clear => ({ s with connections := [] }, [])
  | find id => if id ∈ s.connections then (s, [.act (close id), .act (erase id)]) else (s, [])
  | close id =>
    if s.connected id then
      ({ s with connected := Function.update s.connected id false }, [.act (notify id)])
    else (s, [])
  | notify id => (s, if s.callback id then removeConnection id else [])
  | erase id => ({ s with connections := s.connections.erase id }, [])
  | create =>
    ({ s with connected := Function.update s.connected s.next true, next := s.next + 1 },
      [.lock, .act (track s.next), .unlock, .act (install s.next)])
  | track id => ({ s with connections := s.connections.insert id }, [])
  | install id => ({ s with callback := Function.update s.callback id true }, [])
  | lost id =>
    ({ s with connected := Function.update s.connected id false }, [.act (notify id)])

/-- what a thread can start with -/
inductive Call where
  | start
  | stop
  | accept
  | removeConnection (id : Nat)
  /-- the end of a connection, found by its receive loop -/
  | peerClose (id : Nat)
  /-- a close by someone who has a share of the connection -/
  | close (id : Nat)

def code : Call → List (Instr Action)
  | .start => [.act setRunning]
  | .stop => [.act exchangeRunning]
  | .accept => [.act create]
  | .removeConnection id => removeConnection id
  | .peerClose id => [.act (lost id)]
  | .close id => [.act (Action.close id)]

def program : Program TcpServer Action Call := ⟨exec, code⟩

/-! ## the discipline -/

/-- where the actions stand: inside a section of the mutex, or outside, or both -/
def may : Bool → Action → Bool
  | _, close _ => true
  | _, notify _ => true
  | held, closeEach => held
  | held, clear => held
  | held, find _ => held
  | held, erase _ => held
  | held, track _ => held
  | held, setRunning => !held
  | held, exchangeRunning => !held
  | held, create => !held
  | held, install _ => !held
  | held, lost _ => !held

/-- the callback is called, and locks -/
def reenter (s : TcpServer) : Action → Bool
  | notify id => s.callback id
  | _ => false

theorem keeps_removeConnection (id : Nat) {k : List (Instr Action)} (hk : Keeps may false k) :
    Keeps may false (removeConnection id ++ k) :=
  ⟨rfl, rfl, rfl, hk⟩

theorem keeps_closeEach (ids : List Nat) {k : List (Instr Action)} (hk : Keeps may true k) :
    Keeps may true (ids.map (fun id => .act (close id)) ++ k) := by
  induction ids with
  | nil => exact hk
  | cons id ids ih => exact ⟨rfl, ih⟩

theorem keeps_free (s : TcpServer) (i : Action) (k : List (Instr Action)) (hi : may false i = true)
    (hk : Keeps may false k) : Keeps may false ((exec s i).2 ++ k) := by
  cases i with
  | exchangeRunning =>
    dsimp only [exec]
    split
    · exact ⟨rfl, rfl, rfl, rfl, hk⟩
    · exact hk
  | close id =>
    dsimp only [exec]
    split
    · exact ⟨rfl, hk⟩
    · exact hk
  | notify id =>
    dsimp only [exec]
    split
    · exact keeps_removeConnection id hk
    · exact hk
  | create => exact ⟨rfl, rfl, rfl, rfl, hk⟩
  | lost id => exact ⟨rfl, hk⟩
  | setRunning => exact hk
  | install id => exact hk
  | closeEach => cases hi
  | clear => cases hi
  | find id => cases hi
  | erase id => cases hi
  | track id => cases hi

theorem keeps_held (s : TcpServer) (i : Action) (k : List (Instr Action)) (hi : may true i = true)
    (hr : reenter s i = false) (hk : Keeps may true k) : Keeps may true ((exec s i).2 ++ k) := by
  cases i with
  | closeEach => exact keeps_closeEach s.connections hk
  | find id =>
    dsimp only [exec]
    split
    · exact ⟨rfl, rfl, hk⟩
    · exact hk
  | close id =>
    dsimp only [exec]
    split
    · exact ⟨rfl, hk⟩
    · exact hk
  | notify id =>
    have hr : s.callback id = false := hr
    dsimp only [exec]
    rw [hr]
    exact hk
  | clear => exact hk
  | erase id => exact hk
  | track id => exact hk
  | exchangeRunning => cases hi
  | create => cases hi
  | lost id => cases hi
  | setRunning => cases hi
  | install id => cases hi

theorem tcpServer_discipline : Discipline may program reenter where
  code c := by
    cases c with
    | removeConnection id => exact keeps_removeConnection id (k := []) rfl
    | _ => exact ⟨rfl, rfl⟩
  free := keeps_free
  held := keeps_held
  locks s i _ hr := by
    cases i with
    | notify id =>
      have hr : s.callback id = true := hr
      refine ⟨[.act (find id), .unlock], ?_⟩
      show (if s.callback id then removeConnection id else []) = _
      rw [hr]
      rfl
    | _ => cases hr

theorem good_start : Good may ({ shared := {} } : System TcpServer Action) := by
  intro t
  show (none == some t) = false
  rfl

/-- **When no thread asks for `connections_mutex_` while it holds it**: exactly if no connection is
closed under the mutex, by `remove_connection` or `stop`, that was still connected and has its
callback. -/
theorem mutex_discipline_iff (events : List (Threads.Event Call)) :
    EveryState program.next (fun s => ∀ t, ¬ SelfRequest s t) { shared := {} } events ↔
      EveryStep program.next (fun s e => reenters reenter s e = false) { shared := {} } events :=
  self_request_iff tcpServer_discipline good_start events

/-- `remove_connection` of a live connection: the thread that has locked the mutex closes the
connection, whose callback asks for the mutex again -/
theorem remove_live (s : System TcpServer Action) (t id : Nat) (hfree : s.owner = none)
    (hidle : s.stack t = []) (htracked : id ∈ s.shared.connections)
    (hconnected : s.shared.connected id = true) (hcallback : s.shared.callback id = true) :
    SelfRequest (run program.next s [.call t (.removeConnection id), .step t, .step t, .step t,
      .step t]) t := by
  have hfind : exec s.shared (find id) = (s.shared, [.act (close id), .act (erase id)]) :=
    if_pos htracked
  have hclose : exec s.shared (close id)
      = ({ s.shared with connected := Function.update s.shared.connected id false },
          [.act (notify id)]) := if_pos hconnected
  have h0 : Seen s t s.shared none [] := ⟨rfl, hfree, hidle⟩
  have h1 := (h0.call (P := program) (.removeConnection id)).lock (P := program)
  have h2 := h1.act (P := program)
  rw [show program.exec = exec from rfl, hfind] at h2
  have h3 := h2.act (P := program)
  rw [show program.exec = exec from rfl, hclose] at h3
  have h4 := h3.act (P := program)
  have hnotify : (program.exec { s.shared with
      connected := Function.update s.shared.connected id false } (notify id)).2
      = removeConnection id := if_pos hcallback
  rw [hnotify] at h4
  exact ⟨h4.owner, _, h4.stack⟩

/-- the server is started, a connection is accepted, and removed -/
theorem accept_remove :
    ¬ EveryState program.next (fun s => ∀ t, ¬ SelfRequest s t) { shared := {} }
      [.call 0 .start, .step 0, .call 0 .accept, .step 0, .step 0, .step 0, .step 0, .step 0,
        .call 0 (.removeConnection 1), .step 0, .step 0, .step 0, .step 0] :=
  fun h => h.last 0 ⟨rfl, _, rfl⟩

end TcpServer
end P2p
end ChainForge
