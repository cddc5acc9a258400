import ChainForge.Lib.SharedBuffer
import ChainForge.P2p.Transport

/-!
# The receive buffers

`UdpTransport` and `TcpConnection` have one `receive_buffer_` each, the former one `sender_endpoint_`
as well.  The completion handlers copy the first `bytes_transferred` bytes out of the buffer when they
run, and read the endpoint then.  `Transport` has the receive loops by value; here are the loops with
their buffers, and what the difference comes to.

* `received_intact`   **while no receive is started over another one**, the callbacks get whole
                      datagrams with their own senders, and whole reads, in the order of arrival;
* `mixed_datagram`    a restart before the old handler has run delivers a datagram nobody has sent.
-/

set_option linter.unusedSectionVars false

namespace ChainForge
namespace P2p
open Text Machine ReceiveLoop

/-! ## the two buffers -/

/-- the bytes after those of the present datagram stay -/
def overwrite (buffer data : List UInt8) : List UInt8 := data ++ buffer.drop data.length

theorem take_overwrite (buffer data : List UInt8) : (overwrite buffer data).take data.length = data :=
  List.take_left

/-- `receive_buffer_` and `sender_endpoint_` -/
def udpCell : Cell (List UInt8 × UdpEndpoint) (List UInt8 × UdpEndpoint) Nat where
  write cell d := (overwrite cell.1 d.1, d.2)
  size d := d.1.length
  read cell n := (cell.1.take n, cell.2)
  read_write cell d := by rw [take_overwrite]

def tcpCell : Cell (List UInt8) (List UInt8) Nat where
  write := overwrite
  size := List.length
  read buffer n := buffer.take n
  read_write := take_overwrite

/-- no bytes were transferred -/
def isNone (bytesTransferred : Nat) : Bool := bytesTransferred == 0

abbrev UdpReceiver := Shared AsioError (List UInt8 × UdpEndpoint) (List UInt8 × UdpEndpoint) Nat
abbrev TcpReceiver := Shared AsioError (List UInt8) (List UInt8) Nat

def UdpReceiver.exec : UdpReceiver → Op AsioError (List UInt8 × UdpEndpoint) → UdpReceiver :=
  Shared.exec udp isNone udpCell

def TcpReceiver.exec : TcpReceiver → Op AsioError (List UInt8) → TcpReceiver :=
  Shared.exec tcp isNone tcpCell

theorem isNone_length (l : List UInt8) : isNone l.length = l.isEmpty := by
  cases l <;> rfl

/-- **What the callbacks get**: in every run in which no receive is started while another one is
outstanding, the transport with its buffer passes on what the loop by value does; these are data that
have arrived, each at most once and in the order of arrival. -/
theorem received_intact (cell : List UInt8 × UdpEndpoint) (buffer : List UInt8)
    (udpOps : List (Op AsioError (List UInt8 × UdpEndpoint)))
    (tcpOps : List (Op AsioError (List UInt8)))
    (hudp : EveryStep UdpTransport.exec (fun t op => op.overlaps t = false) {} udpOps)
    (htcp : EveryStep TcpConnection.exec (fun c op => op.overlaps c = false) {} tcpOps) :
    let u := run UdpReceiver.exec { cell } udpOps
    let c := run TcpReceiver.exec { cell := buffer } tcpOps
    (u.passed = (run UdpTransport.exec {} udpOps).received ∧
        u.passed.reverse.Sublist (udpOps.filterMap Op.arrival)) ∧
      c.passed = (run TcpConnection.exec {} tcpOps).received ∧
        c.passed.reverse.Sublist (tcpOps.filterMap Op.arrival) :=
  ⟨⟨(Shared.refines (fun d => isNone_length d.1) cell udpOps hudp).1,
      Shared.in_order (fun d => isNone_length d.1) cell udpOps hudp⟩,
    (Shared.refines isNone_length buffer tcpOps htcp).1,
    Shared.in_order isNone_length buffer tcpOps htcp⟩

/-- two datagrams one after the other, and two reads -/
theorem received_intact_two :
    let a : List UInt8 × UdpEndpoint := (str "DISCOVER:8333", ⟨str "8.8.8.8", 8333⟩)
    let b : List UInt8 × UdpEndpoint := (str "DISCOVER:80", ⟨str "9.9.9.9", 80⟩)
    let u := run UdpReceiver.exec { cell := ([], ⟨[], 0⟩) }
      [.bringUp, .start true, .finish (.ok a), .deliver 0, .finish (.ok b), .deliver 0]
    let c := run TcpReceiver.exec { cell := [] }
      [.bringUp, .start true, .finish (.ok a.1), .deliver 0, .finish (.ok b.1), .deliver 0]
    u.passed = [b, a] ∧ c.passed = [b.1, a.1] := by
  intro a b u c
  obtain ⟨⟨hu, -⟩, hc, -⟩ := received_intact ([], ⟨[], 0⟩) []
    [.bringUp, .start true, .finish (.ok a), .deliver 0, .finish (.ok b), .deliver 0]
    [.bringUp, .start true, .finish (.ok a.1), .deliver 0, .finish (.ok b.1), .deliver 0]
    ⟨rfl, rfl, rfl, rfl, rfl, rfl, trivial⟩ ⟨rfl, rfl, rfl, rfl, rfl, rfl, trivial⟩
  exact ⟨hu.trans rfl, hc.trans rfl⟩

/-- the transport is closed, bound and started again while the handler of the first datagram still
waits: it then reads the second one, with the length of the first -/
theorem mixed_datagram (cell : List UInt8 × UdpEndpoint) :
    (run UdpReceiver.exec { cell }
      [.bringUp, .start true, .finish (.ok (str "DISCOVER:8333", ⟨str "8.8.8.8", 8333⟩)),
        .close, .bringUp, .start true, .finish (.ok (str "DISCOVER:80", ⟨str "9.9.9.9", 80⟩)),
        .deliver 0]).passed = [(str "DISCOVER:8033", ⟨str "9.9.9.9", 80⟩)] := by
  rfl

end P2p
end ChainForge
