import ChainForge.Core.Preimage

/-!
# Peer exchange

`PeerExchange::serialize_peers` and `deserialize_peers` of `modules/p2p/src/peer_discovery.cpp`: a
count of four bytes, and for each peer the length of its ip, the ip, the port and the services.

The decoder follows the positions of the source.  Its reads are `data[i]?`, so a result `none`
would be a read past the end of the buffer.  The constructor of `PeerAddress` reads the clock, once
for each peer.

* `readPeer_serialize`   a record at the present position is read exactly;
* `readPeers_serialize`  so is a list of records, by the loop;
* `peers_round_trip`     **what is serialised reads back**, with new times.
-/

set_option linter.unusedSectionVars false

namespace ChainForge
namespace P2p
open Text Buffer

structure PeerAddress where
  ip : Str
  port : UInt16
  lastSeen : Int
  services : UInt32
  deriving DecidableEq, Repr

namespace PeerExchange

def serializePeer (peer : PeerAddress) : List UInt8 :=
  UInt8.ofNat peer.ip.length ::
    (peer.ip ++ (bigEndian 2 peer.port.toNat ++ bigEndian 4 peer.services.toNat))

def serializePeers (peers : List PeerAddress) : List UInt8 :=
  bigEndian 4 (UInt32.ofNat peers.length).toNat ++ peers.flatMap serializePeer

/-! ## the decoder -/

def readU16 (data : List UInt8) (pos : Nat) : Option UInt16 := do
  let a ← data[pos]?
  let b ← data[pos + 1]?
  return (a.toUInt16 <<< 8) ||| b.toUInt16

def readU32 (data : List UInt8) (pos : Nat) : Option UInt32 := do
  let a ← data[pos]?
  let b ← data[pos + 1]?
  let c ← data[pos + 2]?
  let d ← data[pos + 3]?
  return (a.toUInt32 <<< 24) ||| (b.toUInt32 <<< 16) ||| (c.toUInt32 <<< 8) ||| d.toUInt32

/-- the body of the loop: a peer and the position after it, or `some none` for `break` -/
def readPeer (now : Int) (data : List UInt8) (pos : Nat) : Option (Option (PeerAddress × Nat)) :=
  if pos ≥ data.length then some none
  else do
    let ipLen ← data[pos]?
    let pos := pos + 1
    if pos + ipLen.toNat > data.length then some none
    else
      let ip := (data.drop pos).take ipLen.toNat
      let pos := pos + ipLen.toNat
      if pos + 2 > data.length then some none
      else do
        let port ← readU16 data pos
        let pos := pos + 2
        if pos + 4 > data.length then some none
        else do
          let services ← readU32 data pos
          some (some (⟨ip, port, now, services⟩, pos + 4))

/-- the loop for the peers from `i` on, `rounds` of them at most -/
def readPeers (clock : Nat → Int) (data : List UInt8) :
    Nat → Nat → Nat → Option (List PeerAddress)
  | 0, _, _ => some []
  | rounds + 1, i, pos =>
    if pos < data.length then do
      match ← readPeer (clock i) data pos with
      | none => some []
      | some (peer, pos) =>
        let peers ← readPeers clock data rounds (i + 1) pos
        some (peer :: peers)
    else some []

def deserializePeers (clock : Nat → Int) (data : List UInt8) : Option (List PeerAddress) :=
  if data.length < 4 then some []
  else do
    let count ← readU32 data 0
    readPeers clock data count.toNat 0 4

/-! ## words -/

theorem readU16_bigEndian {data rest : List UInt8} {pos : Nat} {x : UInt16}
    (h : data.drop pos = bigEndian 2 x.toNat ++ rest) : readU16 data pos = some x := by
  obtain ⟨a, b, e⟩ : ∃ a b, bigEndian 2 x.toNat = [a, b] := ⟨_, _, rfl⟩
  rw [e] at h
  have h0 : data[pos]? = some a := getElem?_of_drop h 0
  have h1 : data[pos + 1]? = some b := getElem?_of_drop h 1
  have hw : (a.toUInt16 <<< 8) ||| b.toUInt16 = x := by
    apply UInt16.toNat_inj.mp
    rw [word16_toNat, ← e, ofBigEndian_bigEndian]
    exact Nat.mod_eq_of_lt x.toNat_lt
  unfold readU16
  rw [h0, h1, ← hw]
  rfl

theorem readU32_bigEndian {data rest : List UInt8} {pos : Nat} {x : UInt32}
    (h : data.drop pos = bigEndian 4 x.toNat ++ rest) : readU32 data pos = some x := by
  obtain ⟨a, b, c, d, e⟩ : ∃ a b c d, bigEndian 4 x.toNat = [a, b, c, d] := ⟨_, _, _, _, rfl⟩
  rw [e] at h
  have h0 : data[pos]? = some a := getElem?_of_drop h 0
  have h1 : data[pos + 1]? = some b := getElem?_of_drop h 1
  have h2 : data[pos + 2]? = some c := getElem?_of_drop h 2
  have h3 : data[pos + 3]? = some d := getElem?_of_drop h 3
  have hw : (a.toUInt32 <<< 24) ||| (b.toUInt32 <<< 16) ||| (c.toUInt32 <<< 8) ||| d.toUInt32
      = x := by
    apply UInt32.toNat_inj.mp
    rw [word32_toNat, ← e, ofBigEndian_bigEndian]
    exact Nat.mod_eq_of_lt x.toNat_lt
  unfold readU32
  rw [h0, h1, h2, h3, ← hw]
  rfl

/-! ## records -/

theorem serializePeer_length (peer : PeerAddress) :
    (serializePeer peer).length = 1 + peer.ip.length + 2 + 4 := by
  unfold serializePeer
  simp only [List.length_cons, List.length_append, bigEndian_length]
  omega

theorem readPeer_serialize {data rest : List UInt8} {pos : Nat} {peer : PeerAddress} (now : Int)
    (h : data.drop pos = serializePeer peer ++ rest) (hip : peer.ip.length ≤ 255) :
    readPeer now data pos
      = some (some ({ peer with lastSeen := now }, pos + (serializePeer peer).length)) := by
  have hlen := length_of_drop h (by rw [List.length_append, serializePeer_length]; omega)
  rw [List.length_append, serializePeer_length] at hlen
  have hipLen : (UInt8.ofNat peer.ip.length).toNat = peer.ip.length := by
    rw [UInt8.toNat_ofNat']
    omega
  -- the four parts of the record, at their positions
  have h0 : data[pos]? = some (UInt8.ofNat peer.ip.length) := getElem?_of_drop h 0
  have h1 : data.drop (pos + 1)
      = peer.ip ++ (bigEndian 2 peer.port.toNat ++ (bigEndian 4 peer.services.toNat ++ rest)) := by
    rw [← List.append_assoc (bigEndian 2 _), ← List.append_assoc]
    exact drop_of_drop (a := [UInt8.ofNat peer.ip.length]) h rfl
  have h2 := drop_of_drop h1 rfl
  have h3 := drop_of_drop h2 (bigEndian_length 2 _)
  have hip' : (data.drop (pos + 1)).take peer.ip.length = peer.ip := by
    rw [h1, List.take_left]
  unfold readPeer
  rw [if_neg (by omega), h0]
  simp only [Option.bind_eq_bind, Option.bind_some, hipLen, hip']
  rw [if_neg (by omega), if_neg (by omega), readU16_bigEndian h2, Option.bind_some,
    if_neg (by omega), readU32_bigEndian h3, Option.bind_some, serializePeer_length]
  simp only [Nat.add_assoc]

/-- by induction on the peers still to be read; `i` of them were read before -/
theorem readPeers_serialize (clock : Nat → Int) {data : List UInt8} {peers : List PeerAddress}
    {i pos : Nat} (h : data.drop pos = peers.flatMap serializePeer)
    (hip : ∀ peer ∈ peers, peer.ip.length ≤ 255) :
    readPeers clock data peers.length i pos
      = some (peers.mapIdx fun j peer => { peer with lastSeen := clock (i + j) }) := by
  induction peers generalizing i pos with
  | nil => rfl
  | cons peer peers ih =>
    rw [List.flatMap_cons] at h
    have hpos : pos < data.length := by
      have := length_of_drop h (by rw [List.length_append, serializePeer_length]; omega)
      rw [List.length_append, serializePeer_length] at this
      omega
    have hnext := ih (i := i + 1) (drop_of_drop h rfl)
      (fun p hp => hip p (List.mem_cons_of_mem _ hp))
    rw [List.length_cons, readPeers, if_pos hpos,
      readPeer_serialize (clock i) h (hip peer List.mem_cons_self)]
    simp only [Option.bind_eq_bind, Option.bind_some, hnext, List.mapIdx_cons, Nat.add_zero,
      Nat.add_assoc, Nat.add_comm 1]

theorem deserializePeers_serialize (clock : Nat → Int) {peers : List PeerAddress}
    (hcount : peers.length < 2 ^ 32) (hip : ∀ peer ∈ peers, peer.ip.length ≤ 255) :
    deserializePeers clock (serializePeers peers)
      = some (peers.mapIdx fun i peer => { peer with lastSeen := clock i }) := by
  have hdrop : (serializePeers peers).drop 0
      = bigEndian 4 (UInt32.ofNat peers.length).toNat ++ peers.flatMap serializePeer := rfl
  have hlen : ¬ (serializePeers peers).length < 4 := by
    unfold serializePeers
    rw [List.length_append, bigEndian_length]
    omega
  have hc : (UInt32.ofNat peers.length).toNat = peers.length := UInt32.toNat_ofNat_of_lt' hcount
  unfold deserializePeers
  rw [if_neg hlen, readU32_bigEndian hdrop, Option.bind_eq_bind, Option.bind_some, hc]
  have h := readPeers_serialize clock (i := 0) (drop_of_drop hdrop (bigEndian_length 4 _)) hip
  simpa only [Nat.zero_add] using h

/-- **Peer exchange round trip**: fewer than `2^32` peers with ips of at most 255 bytes are read
back in order, each with its ip, port and services and the time of the reading. -/
theorem peers_round_trip (clock : Nat → Int) (peers : List PeerAddress)
    (hcount : peers.length < 2 ^ 32) (hip : ∀ peer ∈ peers, peer.ip.length ≤ 255) :
    deserializePeers clock (serializePeers peers)
      = some (peers.mapIdx fun i peer => { peer with lastSeen := clock i }) :=
  deserializePeers_serialize clock hcount hip

/-- an empty ip at the end of the buffer -/
theorem peers_round_trip_sample :
    deserializePeers (fun i => i) (serializePeers [⟨str "10.0.0.1", 8333, 7, 1⟩, ⟨[], 0, 7, 8⟩])
      = some [⟨str "10.0.0.1", 8333, 0, 1⟩, ⟨[], 0, 1, 8⟩] :=
  peers_round_trip (fun i => i) [⟨str "10.0.0.1", 8333, 7, 1⟩, ⟨[], 0, 7, 8⟩] (by decide)
    (by decide)

end PeerExchange
end P2p
end ChainForge
