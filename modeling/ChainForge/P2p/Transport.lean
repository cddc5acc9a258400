import ChainForge.Lib.ReceiveLoop
import ChainForge.Lib.Text

/-!
# UDP transport and TCP connection: the receive loop

`UdpTransport` and `TcpConnection` of `modules/p2p/src` as far as receiving goes: `bound_` or
`connected_` is the flag `up` of the receive loop.  The two differ in what an error means.  A TCP
connection takes end of file and connection reset for its end (`tcp`); a UDP transport keeps both
flags whatever the error is (`udp`).

* `receive_armed_iff`   **when exactly one receive is outstanding**, for both;
* `transient_error`     one other error ends the loop while the flags stay set.
-/

set_option linter.unusedSectionVars false

namespace ChainForge
namespace P2p
open Text Machine ReceiveLoop

/-- `boost::system::error_code` of a receive -/
inductive AsioError where
  | operationAborted
  | eof
  | connectionReset
  | other (code : Nat)
  deriving DecidableEq, Repr

/-! ## UDP -/

structure UdpEndpoint where
  address : Str
  port : UInt16
  deriving DecidableEq, Repr

def udp : Kind AsioError (List UInt8 × UdpEndpoint) :=
  ⟨.operationAborted, fun _ => false, fun d => d.1.isEmpty⟩

abbrev UdpTransport := Loop AsioError (List UInt8 × UdpEndpoint)

/-- what the system answers to `bind` -/
inductive BindOutcome where
  | ok
  | openFailed (message : String)
  | bindFailed (message : String)
  | exception (message : String)

namespace UdpTransport

def bind (t : UdpTransport) (port : UInt16) (address : String) (os : BindOutcome) :
    Except String Unit × UdpTransport :=
  if t.up then (.error "Already bound", t)
  else
    match os with
    | .ok => (.ok (), t.bringUp)
    | .openFailed message => (.error ("Failed to open socket: " ++ message), t)
    | .bindFailed message =>
      (.error ("Failed to bind to " ++ address ++ ":" ++ toString port.toNat ++ ": " ++ message), t)
    | .exception message => (.error ("Bind exception: " ++ message), t)

def close (t : UdpTransport) : UdpTransport := Loop.close udp t
def doReceive (t : UdpTransport) : UdpTransport := Loop.arm t
def startReceive (t : UdpTransport) (callback : Bool) : UdpTransport := Loop.start t callback
def stopReceive (t : UdpTransport) : UdpTransport := Loop.stop t
def handleReceive (t : UdpTransport) (r : Except AsioError (List UInt8 × UdpEndpoint)) :
    UdpTransport := Loop.handle udp t r

/-- calls and receive completions -/
def exec : UdpTransport → Op AsioError (List UInt8 × UdpEndpoint) → UdpTransport :=
  ReceiveLoop.exec udp

end UdpTransport

/-! ## TCP -/

def tcp : Kind AsioError (List UInt8) :=
  ⟨.operationAborted, fun e => e == .eof || e == .connectionReset, List.isEmpty⟩

abbrev TcpConnection := Loop AsioError (List UInt8)

namespace TcpConnection

/-- `close` without the connection callback, which is the owner's -/
def close (c : TcpConnection) : TcpConnection := Loop.close tcp c
def doReceive (c : TcpConnection) : TcpConnection := Loop.arm c
def startReceive (c : TcpConnection) (callback : Bool) : TcpConnection := Loop.start c callback
def stopReceive (c : TcpConnection) : TcpConnection := Loop.stop c
def handleReceive (c : TcpConnection) (r : Except AsioError (List UInt8)) : TcpConnection :=
  Loop.handle tcp c r

def exec : TcpConnection → Op AsioError (List UInt8) → TcpConnection := ReceiveLoop.exec tcp

end TcpConnection

/-! ## the loop -/

/-- **When the receive loop stays armed**: in every run of calls and completions on a new transport,
exactly one receive is outstanding in every state that is up and receiving, if and only if no
operation of the run disarms it. -/
theorem receive_armed_iff (udpOps : List (Op AsioError (List UInt8 × UdpEndpoint)))
    (tcpOps : List (Op AsioError (List UInt8))) :
    (EveryState UdpTransport.exec Armed {} udpOps ↔
        EveryStep UdpTransport.exec (fun t op => op.disarms udp t = false) {} udpOps) ∧
      (EveryState TcpConnection.exec Armed {} tcpOps ↔
        EveryStep TcpConnection.exec (fun c op => op.disarms tcp c = false) {} tcpOps) :=
  ⟨armed_iff udp udpOps (armed_of_down rfl), armed_iff tcp tcpOps (armed_of_down rfl)⟩

/-- one error that is neither end of file nor a reset -/
theorem transient_error :
    ¬ EveryState UdpTransport.exec Armed {}
        [.bringUp, .start true, .finish (.error (.other 111)), .deliver 0] ∧
      ¬ EveryState TcpConnection.exec Armed {}
        [.bringUp, .start true, .finish (.error (.other 110)), .deliver 0] := by
  constructor
  · intro h
    exact absurd h.last (by decide)
  · intro h
    exact absurd h.last (by decide)

-- and a second start leaves two receives outstanding
example : (run TcpConnection.exec {} [.bringUp, .start true, .start true]).outstanding = 2 := by
  decide

end P2p
end ChainForge
