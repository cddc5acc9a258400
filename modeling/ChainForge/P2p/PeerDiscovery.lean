import ChainForge.Lib.OrderedSet
import ChainForge.P2p.PeerExchange
import ChainForge.P2p.Transport

/-!
# Peer discovery

`PeerDiscovery` of `modules/p2p/src/peer_discovery.cpp` with the address validation of
`peer_address.cpp`.  `boost::asio::ip::make_address` is a parameter: it gives an address for some of
the strings and throws for the others.

Peers come from five sides: the caller, the static nodes of the configuration, the answers of the
DNS seeds, another node's list, and datagrams.  All of them go through `add_peer`, and the table is
an `std::set` ordered by ip and port.

* `less_isStrictWeakOrder`, `incomparable_iff`   the comparison is what `std::set` asks for, and its
                       equivalence is equality of ip and port;
* `Sound.addPeer`      one insertion keeps the table sound;
* `peer_table_sound`   **so does every sequence of calls**.
-/

set_option linter.unusedSectionVars false

namespace ChainForge
namespace P2p
open Text Machine

/-! ## addresses -/

/-- `boost::asio::ip::address` -/
inductive IpAddress where
  | v4 (a b c d : UInt8)
  | v6 (bytes : Vector UInt8 16)
  deriving DecidableEq, Repr

namespace IpAddress

def isLoopback : IpAddress → Bool
  | v4 a _ _ _ => a == 127
  | v6 bytes => bytes == (Vector.replicate 15 0).push 1

def isMulticast : IpAddress → Bool
  | v4 a _ _ _ => a &&& 0xf0 == 0xe0
  | v6 bytes => bytes[0] == 0xff

def isUnspecified : IpAddress → Bool
  | v4 a b c d => a == 0 && b == 0 && c == 0 && d == 0
  | v6 bytes => bytes == Vector.replicate 16 0

/-- the addresses that are not routed: for v6 `is_site_local` and `is_link_local` -/
def isPrivate : IpAddress → Bool
  | v4 a b _ _ =>
    a == 10 || (a == 172 && (b ≥ 16 && b ≤ 31)) || (a == 192 && b == 168) || (a == 169 && b == 254)
  | v6 bytes =>
    bytes[0] == 0xfe && bytes[1] &&& 0xc0 == 0xc0 || bytes[0] == 0xfe && bytes[1] &&& 0xc0 == 0x80

end IpAddress

namespace AddressValidation
variable (makeAddress : Str → Option IpAddress)

def isValidIp (ip : Str) : Bool := (makeAddress ip).isSome

def isPrivateIp (ip : Str) : Bool :=
  match makeAddress ip with
  | some addr => addr.isPrivate
  | none => false

def isRoutableIp (ip : Str) : Bool :=
  match makeAddress ip with
  | some addr =>
    if addr.isLoopback || addr.isMulticast || addr.isUnspecified then false
    else if isPrivateIp makeAddress ip then false
    else true
  | none => false

def isValidPort (port : UInt16) : Bool := port > 0

def isValidPeerAddress (addr : PeerAddress) (allowPrivate : Bool) : Bool :=
  if !isValidIp makeAddress addr.ip then false
  else if !isValidPort addr.port then false
  else if !allowPrivate && !isRoutableIp makeAddress addr.ip then false
  else true

end AddressValidation

namespace PeerAddress

def isValid (makeAddress : Str → Option IpAddress) (addr : PeerAddress) : Bool :=
  AddressValidation.isValidPeerAddress makeAddress addr false

/-- `operator==` -/
def Same (a b : PeerAddress) : Prop := a.ip = b.ip ∧ a.port = b.port

/-- `operator<` -/
def Less (a b : PeerAddress) : Prop := if a.ip ≠ b.ip then a.ip < b.ip else a.port < b.port

instance decidableLess : DecidableRel Less := fun a b =>
  inferInstanceAs (Decidable (if a.ip ≠ b.ip then a.ip < b.ip else a.port < b.port))

def ageSeconds (now : Int) (addr : PeerAddress) : Int := (now - addr.lastSeen).tdiv (10 ^ 9)

theorem less_iff {a b : PeerAddress} :
    Less a b ↔ a.ip < b.ip ∨ a.ip = b.ip ∧ a.port < b.port := by
  unfold Less
  by_cases h : a.ip = b.ip
  · rw [if_neg (not_not_intro h)]
    constructor
    · exact fun hp => .inr ⟨h, hp⟩
    · rintro (hl | ⟨-, hp⟩)
      · rw [h] at hl
        exact absurd hl (List.lt_irrefl _)
      · exact hp
  · rw [if_pos h]
    constructor
    · exact .inl
    · rintro (hl | ⟨he, -⟩)
      · exact hl
      · exact absurd he h

theorem ip_connected {a b : Str} (h : a ≠ b) : a < b ∨ b < a := by
  by_cases hab : a < b
  · exact .inl hab
  · by_cases hba : b < a
    · exact .inr hba
    · exact absurd (List.le_antisymm (List.not_lt.mp hba) (List.not_lt.mp hab)) h

/-- the equivalence of the comparison is `operator==` -/
theorem incomparable_iff {a b : PeerAddress} : (¬ Less a b ∧ ¬ Less b a) ↔ Same a b := by
  constructor
  · rintro ⟨hab, hba⟩
    rw [less_iff, not_or] at hab hba
    have hip : a.ip = b.ip := by
      by_contra h
      rcases ip_connected h with h | h
      · exact hab.1 h
      · exact hba.1 h
    have h1 : ¬ a.port < b.port := fun h => hab.2 ⟨hip, h⟩
    have h2 : ¬ b.port < a.port := fun h => hba.2 ⟨hip.symm, h⟩
    exact ⟨hip, UInt16.le_antisymm (UInt16.not_lt.mp h2) (UInt16.not_lt.mp h1)⟩
  · rintro ⟨hip, hport⟩
    have h1 : ¬ Less a b := by
      rw [less_iff, hip, hport]
      rintro (h | ⟨-, h⟩)
      · exact List.lt_irrefl _ h
      · exact UInt16.lt_irrefl _ h
    have h2 : ¬ Less b a := by
      rw [less_iff, hip, hport]
      rintro (h | ⟨-, h⟩)
      · exact List.lt_irrefl _ h
      · exact UInt16.lt_irrefl _ h
    exact ⟨h1, h2⟩

theorem less_trans {a b c : PeerAddress} (hab : Less a b) (hbc : Less b c) : Less a c := by
  rw [less_iff] at hab hbc ⊢
  rcases hab with hab | ⟨eab, hab⟩
  · rcases hbc with hbc | ⟨ebc, -⟩
    · exact .inl (List.lt_trans hab hbc)
    · exact .inl (ebc ▸ hab)
  · rcases hbc with hbc | ⟨ebc, hbc⟩
    · exact .inl (eab ▸ hbc)
    · exact .inr ⟨eab.trans ebc, UInt16.lt_trans hab hbc⟩

/-- the comparison meets the requirement of `std::set` -/
instance less_isStrictWeakOrder : IsStrictWeakOrder PeerAddress Less where
  irrefl _ := (incomparable_iff.mpr ⟨rfl, rfl⟩).1
  trans _ _ _ := less_trans
  incomp_trans a b c hab hbc := by
    rw [incomparable_iff] at hab hbc ⊢
    exact ⟨hab.1.trans hbc.1, hab.2.trans hbc.2⟩

theorem not_same_of_less {a b : PeerAddress} (h : Less a b) : ¬ Same a b :=
  fun hs => (incomparable_iff.mpr hs).1 h

end PeerAddress

/-! ## the table -/

/-- what the modelled functions read of the configuration -/
structure BootstrapConfig where
  staticNodes : List PeerAddress := []
  dnsSeeds : List Str := []
  enableMdns : Bool := true
  discoveryPort : UInt16 := 8333
  maxPeers : Nat := 125

inductive DiscoveryError where
  | invalidAddress
  | noPeersFound
  | dnsResolutionFailed
  | broadcastFailed
  | alreadyRunning
  | notRunning
  deriving DecidableEq, Repr

structure PeerDiscovery where
  transport : UdpTransport := {}
  running : Bool := false
  peers : OrderedSet PeerAddress.Less := {}
  /-- the discovery callback is set -/
  callback : Bool := false
  /-- its calls, the last one first -/
  discovered : List PeerAddress := []

/-- the answer to a DNS lookup: addresses, with the times at which they are stored, or an
exception -/
abbrev DnsAnswer := Option (List (Str × Int))

def ServiceFlags.nodeNetwork : UInt32 := (1 : UInt32) <<< 0

/-- an exception is caught, and leaves no peers -/
def DnsSeedResolver.resolve (answer : DnsAnswer) (defaultPort : UInt16) : List PeerAddress :=
  match answer with
  | some entries => entries.map fun (address, now) =>
      ⟨address, defaultPort, now, ServiceFlags.nodeNetwork⟩
  | none => []

/-- the peers that the seeds give; `dns i` is the answer to the lookup of the `i`-th seed -/
def BootstrapConfig.dnsPeers (config : BootstrapConfig) (dns : Nat → DnsAnswer) :
    List PeerAddress :=
  (List.range config.dnsSeeds.length).flatMap fun i =>
    DnsSeedResolver.resolve (dns i) config.discoveryPort

namespace PeerDiscovery
variable (makeAddress : Str → Option IpAddress) (config : BootstrapConfig) (s : PeerDiscovery)

def addPeer (addr : PeerAddress) : Bool × PeerDiscovery :=
  if !addr.isValid makeAddress then (false, s)
  else if s.peers.size ≥ config.maxPeers then (false, s)
  else
    match s.peers.insert addr with
    | (true, peers) =>
      (true, { s with
        peers, discovered := if s.callback then addr :: s.discovered else s.discovered })
    | (false, peers) => (false, { s with peers })

def removePeer (addr : PeerAddress) : Bool × PeerDiscovery :=
  let (erased, peers) := s.peers.erase addr
  (erased, { s with peers })

/-- a loop that adds peers: those that were new, and the table after it -/
def addPeers (s : PeerDiscovery) : List PeerAddress → List PeerAddress × PeerDiscovery
  | [] => ([], s)
  | peer :: peers =>
    let (added, s) := s.addPeer makeAddress config peer
    let (found, s) := addPeers s peers
    (if added then peer :: found else found, s)

def resolveDnsSeeds (dns : Nat → DnsAnswer) :
    Except (DiscoveryError × String) (List PeerAddress) × PeerDiscovery :=
  let (discoveredPeers, s) := s.addPeers makeAddress config (config.dnsPeers dns)
  if discoveredPeers.isEmpty then (.error (.noPeersFound, "No peers found from DNS seeds"), s)
  else (.ok discoveredPeers, s)

/-- the end of `start`; the broadcasts of the discovery loop do not touch the table -/
def enterRunning (dns : Nat → DnsAnswer) : PeerDiscovery :=
  let s := if config.dnsSeeds.isEmpty then s else (s.resolveDnsSeeds makeAddress config dns).2
  { s with running := true }

def loadBootstrapNodes : PeerDiscovery := (s.addPeers makeAddress config config.staticNodes).2

def start (os : BindOutcome) (dns : Nat → DnsAnswer) :
    Except (DiscoveryError × String) Unit × PeerDiscovery :=
  if s.running then (.error (.alreadyRunning, "Discovery already running"), s)
  else
    let s := s.loadBootstrapNodes makeAddress config
    if config.enableMdns then
      match UdpTransport.bind s.transport config.discoveryPort "0.0.0.0" os with
      | (.error message, transport) =>
        (.error (.broadcastFailed, "Failed to bind UDP for discovery: " ++ message),
          { s with transport })
      | (.ok (), transport) =>
        (.ok (), { s with transport := UdpTransport.startReceive transport true }.enterRunning
          makeAddress config dns)
    else (.ok (), s.enterRunning makeAddress config dns)

def stop : PeerDiscovery :=
  if !s.running then s
  else { s with running := false, transport := s.transport.stopReceive.close }

/-- `our_peers`, which is chosen from the table afterwards, is left out -/
def exchangePeers (theirPeers : List PeerAddress) : PeerDiscovery :=
  (s.addPeers makeAddress config theirPeers).2

/-- the clock is read for each peer -/
def cleanupStalePeers (clock : Nat → Int) (maxAge : Int) : PeerDiscovery :=
  { s with peers := s.peers.sweep fun i peer => peer.ageSeconds (clock i) > maxAge }

/-- a message that is neither of the two is ignored -/
def handleDiscoveryMessage (clock : Nat → Int) (data : List UInt8) (sender : UdpEndpoint) :
    PeerDiscovery :=
  if (str "DISCOVER:").isPrefixOf data then
    match stoi (data.drop 9) with
    | .ok n => (s.addPeer makeAddress config ⟨sender.address, UInt16.ofInt n, clock 0, 0⟩).2
    | .error _ => s
  else if (str "PEERLIST:").isPrefixOf data then
    match PeerExchange.deserializePeers clock (data.drop 9) with
    | some peers => (s.addPeers makeAddress config peers).2
    | none => s
  else s

end PeerDiscovery

/-! ## the machine -/

inductive DiscoveryCall where
  | start (os : BindOutcome) (dns : Nat → DnsAnswer)
  | stop
  | addPeer (addr : PeerAddress)
  | removePeer (addr : PeerAddress)
  | exchangePeers (theirPeers : List PeerAddress)
  | resolveDnsSeeds (dns : Nat → DnsAnswer)
  | cleanupStalePeers (clock : Nat → Int) (maxAge : Int)
  | handleDiscoveryMessage (clock : Nat → Int) (data : List UInt8) (sender : UdpEndpoint)
  | setDiscoveryCallback (set : Bool)

section
variable (makeAddress : Str → Option IpAddress) (config : BootstrapConfig)

def PeerDiscovery.step (s : PeerDiscovery) : DiscoveryCall → PeerDiscovery
  | .start os dns => (s.start makeAddress config os dns).2
  | .stop => s.stop
  | .addPeer addr => (s.addPeer makeAddress config addr).2
  | .removePeer addr => (s.removePeer addr).2
  | .exchangePeers theirPeers => s.exchangePeers makeAddress config theirPeers
  | .resolveDnsSeeds dns => (s.resolveDnsSeeds makeAddress config dns).2
  | .cleanupStalePeers clock maxAge => s.cleanupStalePeers clock maxAge
  | .handleDiscoveryMessage clock data sender =>
    s.handleDiscoveryMessage makeAddress config clock data sender
  | .setDiscoveryCallback set => { s with callback := set }

/-- not too many peers, and all of them valid; that they are distinct is a matter of the set -/
structure Sound (s : PeerDiscovery) : Prop where
  size : s.peers.size ≤ config.maxPeers
  valid : ∀ addr ∈ s.peers.elems,
    AddressValidation.isValidPeerAddress makeAddress addr false = true

variable {makeAddress config} {s : PeerDiscovery}

theorem Sound.of_sublist (h : Sound makeAddress config s) {t : PeerDiscovery}
    (ht : t.peers.elems.Sublist s.peers.elems) : Sound makeAddress config t :=
  ⟨ht.length_le.trans h.size, fun addr ha => h.valid addr (ht.mem ha)⟩

theorem Sound.of_peers_eq (h : Sound makeAddress config s) {t : PeerDiscovery}
    (ht : t.peers = s.peers) : Sound makeAddress config t :=
  h.of_sublist (ht ▸ List.Sublist.refl _)

/-- every way into the table -/
theorem Sound.addPeer (h : Sound makeAddress config s) (addr : PeerAddress) :
    Sound makeAddress config (s.addPeer makeAddress config addr).2 := by
  unfold PeerDiscovery.addPeer
  by_cases hv : addr.isValid makeAddress = true
  swap
  · rw [if_pos (by rw [Bool.eq_false_of_not_eq_true hv]; rfl)]
    exact h
  rw [if_neg (by rw [hv]; exact Bool.false_ne_true)]
  by_cases hfull : s.peers.size ≥ config.maxPeers
  · rw [if_pos hfull]
    exact h
  rw [if_neg hfull]
  rcases OrderedSet.insert_cases (s := s.peers) (a := addr) with
    ⟨peers, he, hsize, hmem, -⟩ | ⟨he, -⟩
  · rw [he]
    refine ⟨?_, fun b hb => ?_⟩
    · show peers.size ≤ config.maxPeers
      omega
    · rcases (hmem b).mp hb with rfl | hb
      · exact hv
      · exact h.valid b hb
  · rw [he]
    exact h

theorem Sound.addPeers (h : Sound makeAddress config s) (peers : List PeerAddress) :
    Sound makeAddress config (s.addPeers makeAddress config peers).2 := by
  induction peers generalizing s with
  | nil => exact h
  | cons peer peers ih => exact ih (h.addPeer peer)

theorem Sound.resolveDnsSeeds (h : Sound makeAddress config s) (dns : Nat → DnsAnswer) :
    Sound makeAddress config (s.resolveDnsSeeds makeAddress config dns).2 := by
  have ha := h.addPeers (config.dnsPeers dns)
  unfold PeerDiscovery.resolveDnsSeeds
  dsimp only
  split <;> exact ha

theorem Sound.enterRunning (h : Sound makeAddress config s) (dns : Nat → DnsAnswer) :
    Sound makeAddress config (s.enterRunning makeAddress config dns) := by
  unfold PeerDiscovery.enterRunning
  dsimp only
  split
  · exact h.of_peers_eq rfl
  · exact (h.resolveDnsSeeds dns).of_peers_eq rfl

theorem Sound.start (h : Sound makeAddress config s) (os : BindOutcome) (dns : Nat → DnsAnswer) :
    Sound makeAddress config (s.start makeAddress config os dns).2 := by
  have hb : Sound makeAddress config (s.loadBootstrapNodes makeAddress config) :=
    h.addPeers config.staticNodes
  unfold PeerDiscovery.start
  split
  · exact h
  · dsimp only
    split
    · split
      · exact hb.of_peers_eq rfl
      · refine Sound.enterRunning ?_ dns
        exact hb.of_peers_eq rfl
    · exact hb.enterRunning dns

theorem Sound.handleDiscoveryMessage (h : Sound makeAddress config s) (clock : Nat → Int)
    (data : List UInt8) (sender : UdpEndpoint) :
    Sound makeAddress config (s.handleDiscoveryMessage makeAddress config clock data sender) := by
  unfold PeerDiscovery.handleDiscoveryMessage
  split
  · split
    · exact h.addPeer _
    · exact h
  · split
    · split
      · exact h.addPeers _
      · exact h
    · exact h

theorem Sound.step (h : Sound makeAddress config s) (call : DiscoveryCall) :
    Sound makeAddress config (s.step makeAddress config call) := by
  cases call with
  | start os dns => exact h.start os dns
  | stop =>
    show Sound makeAddress config s.stop
    unfold PeerDiscovery.stop
    split
    · exact h
    · exact h.of_peers_eq rfl
  | addPeer addr => exact h.addPeer addr
  | removePeer addr => exact h.of_sublist OrderedSet.erase_sublist
  | exchangePeers theirPeers => exact h.addPeers theirPeers
  | resolveDnsSeeds dns => exact h.resolveDnsSeeds dns
  | cleanupStalePeers clock maxAge => exact h.of_sublist (OrderedSet.sweep_sublist _)
  | handleDiscoveryMessage clock data sender => exact h.handleDiscoveryMessage clock data sender
  | setDiscoveryCallback set => exact h.of_peers_eq rfl

variable (makeAddress config)

/-- **The peer table** in every state of every run: not more than `max_peers` elements, all of them
valid, and no two with the same ip and port. -/
theorem peer_table_sound (calls : List DiscoveryCall) :
    EveryState (PeerDiscovery.step makeAddress config)
      (fun s => s.peers.size ≤ config.maxPeers ∧
        (∀ addr ∈ s.peers.elems,
          AddressValidation.isValidPeerAddress makeAddress addr false = true) ∧
        s.peers.elems.Pairwise fun a b => ¬ (a.ip = b.ip ∧ a.port = b.port)) {} calls := by
  have hstart : Sound makeAddress config {} := ⟨Nat.zero_le _, fun _ h => nomatch h⟩
  have hrun : EveryState (PeerDiscovery.step makeAddress config) (Sound makeAddress config) {} calls :=
    everyState_of_inv _ (fun _ call h => h.step call) calls hstart
  exact hrun.imp fun s h =>
    ⟨h.size, h.valid, s.peers.sorted.imp fun hless => PeerAddress.not_same_of_less hless⟩

-- one sender: its port twice, in two spellings, and ports 0 and 65536
example :
    let make : Str → Option IpAddress := fun ip =>
      if ip = str "8.8.8.8" then some (.v4 8 8 8 8) else none
    let heard (text : String) : DiscoveryCall :=
      .handleDiscoveryMessage (fun _ => 0) (str text) ⟨str "8.8.8.8", 1⟩
    (run (PeerDiscovery.step make {}) {} [heard "DISCOVER:8333", heard "DISCOVER: +8333x",
      heard "DISCOVER:0", heard "DISCOVER:65536"]).peers.size = 1 := by
  decide +kernel

end

end P2p
end ChainForge
