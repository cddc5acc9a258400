import ChainForge.P2p.Announcements
import ChainForge.P2p.Datagrams

/-!
# A node of the discovery network

A `PeerDiscovery` with the receive buffer of its transport.  An arrived datagram lies in the buffer
until the handler runs (`Datagrams`), and the handler passes it to `handle_discovery_message`.  What a
node sends is here, too: `broadcast_discovery` and the peers that `exchange_peers` hands out.

* `step_offers`         a call that removes no peers passes what it `offers` to `add_peer`;
* `mem_step`            every peer of a call's table was there before or was told in the call;
* `step_transport`      what a call does to the transport;
* `Node.handle_cases`   what a handler does to a node whose receives do not overlap;
* `offered_discover`, `offered_peerlist`   what the messages of the nodes offer;
* `Listed.step`, `listed_handle`               a peer stays until it is removed, or the table is full.
-/

set_option linter.unusedSectionVars false

namespace ChainForge
namespace P2p
open Text Machine ReceiveLoop

/-! ## broadcasts and exchanges -/

/-- what the system answers to `UdpTransport::broadcast` -/
inductive BroadcastOutcome where
  | sent
  | optionFailed (message : String)
  | sendFailed (message : String)
  | exception (message : String)

def UdpTransport.broadcast (t : UdpTransport) : BroadcastOutcome → Except String Unit
  | os =>
    if !t.up then .error "Socket not bound"
    else
      match os with
      | .sent => .ok ()
      | .optionFailed message => .error ("Failed to enable broadcast: " ++ message)
      | .sendFailed message => .error ("Broadcast failed: " ++ message)
      | .exception message => .error ("Broadcast exception: " ++ message)

def BootstrapConfig.discoverMessage (config : BootstrapConfig) : List UInt8 :=
  str "DISCOVER:" ++ toDecimal config.discoveryPort.toNat

/-- the result, and the message if it was sent -/
def PeerDiscovery.broadcastDiscovery (config : BootstrapConfig) (s : PeerDiscovery)
    (os : BroadcastOutcome) : Except (DiscoveryError × String) Unit × Option (List UInt8) :=
  if !s.running then (.error (.notRunning, "Discovery not running"), none)
  else
    match UdpTransport.broadcast s.transport os with
    | .error message => (.error (.broadcastFailed, "Broadcast failed: " ++ message), none)
    | .ok () => (.ok (), some config.discoverMessage)

/-- `sort` is `std::sort` by `last_seen`, the most recent first -/
def PeerExchange.selectPeersToShare (sort : List PeerAddress → List PeerAddress)
    (allPeers : List PeerAddress) (maxCount : Nat) : List PeerAddress :=
  if allPeers.length ≤ maxCount then allPeers else (sort allPeers).take maxCount

/-- the `our_peers` of `exchange_peers` -/
def PeerDiscovery.ourPeers (sort : List PeerAddress → List PeerAddress) (s : PeerDiscovery) :
    List PeerAddress :=
  PeerExchange.selectPeersToShare sort s.peers.elems 10

/-! ## nodes -/

/-- a node: its discovery, and the receive buffer of its transport with the last sender -/
structure Node where
  discovery : PeerDiscovery := {}
  cell : List UInt8 × UdpEndpoint := ([], ⟨[], 0⟩)

section
variable (makeAddress : Str → Option IpAddress)

/-- the system puts a datagram into the buffer of a receive -/
def Node.finish (n : Node) (r : Except AsioError (List UInt8 × UdpEndpoint)) : Node where
  discovery := { n.discovery with transport := n.discovery.transport.finish r }
  cell :=
    match r with
    | .ok d => if n.discovery.transport.inFlight = 0 then n.cell else udpCell.write n.cell d
    | .error _ => n.cell

/-- the handler leaves the queue, and the loop is armed again -/
def Node.delivered (n : Node) (k : Nat) : PeerDiscovery :=
  { n.discovery with transport := n.discovery.transport.deliver udp k }

/-- the `k`-th handler: of the finished receive it has the size, the bytes are those of the buffer -/
def Node.handle (config : BootstrapConfig) (n : Node) (k : Nat) (clock : Nat → Int) : Node :=
  match n.discovery.transport.ready[k]? with
  | some (.ok d) =>
    if n.discovery.transport.callback && !isNone (udpCell.size d) then
      let read := udpCell.read n.cell (udpCell.size d)
      { n with discovery :=
          (n.delivered k).handleDiscoveryMessage makeAddress config clock read.1 read.2 }
    else { n with discovery := n.delivered k }
  | _ => { n with discovery := n.delivered k }

end

/-- the peers that a call may pass to `add_peer` -/
def DiscoveryCall.told (config : BootstrapConfig) : DiscoveryCall → List PeerAddress
  | .start _ dns => config.staticNodes ++ config.dnsPeers dns
  | .addPeer addr => [addr]
  | .exchangePeers theirPeers => theirPeers
  | .resolveDnsSeeds dns => config.dnsPeers dns
  | .handleDiscoveryMessage clock data sender => offered clock data sender
  | _ => []

/-- the peers that it does pass: `start` none if the discovery is running, and not those of the seeds
if the port cannot be bound -/
def DiscoveryCall.offers (config : BootstrapConfig) (s : PeerDiscovery) :
    DiscoveryCall → List PeerAddress
  | .start os dns =>
    if s.running then []
    else if config.enableMdns &&
        !(UdpTransport.bind s.transport config.discoveryPort "0.0.0.0" os).1.isOk then
      config.staticNodes
    else config.staticNodes ++ config.dnsPeers dns
  | c => c.told config

def DiscoveryCall.removes : DiscoveryCall → Bool
  | .removePeer _ => true
  | .cleanupStalePeers _ _ => true
  | _ => false

/-! ## calls -/

section
variable {makeAddress : Str → Option IpAddress} {config : BootstrapConfig} {s : PeerDiscovery}

theorem mem_told_of_offers {c : DiscoveryCall} {p : PeerAddress} (h : p ∈ c.offers config s) :
    p ∈ c.told config := by
  cases c with
  | start os dns =>
    unfold DiscoveryCall.offers at h
    dsimp only at h
    split at h
    · cases h
    · split at h
      · exact List.mem_append_left _ h
      · exact h
  | _ => exact h

theorem addPeer_transport (addr : PeerAddress) :
    (s.addPeer makeAddress config addr).2.transport = s.transport := by
  unfold PeerDiscovery.addPeer
  split
  · rfl
  · split
    · rfl
    · split <;> rfl

theorem addPeers_transport (peers : List PeerAddress) :
    (s.addPeers makeAddress config peers).2.transport = s.transport := by
  induction peers generalizing s with
  | nil => rfl
  | cons peer peers ih => exact ih.trans (addPeer_transport peer)

theorem addPeers_append (peers others : List PeerAddress) :
    (s.addPeers makeAddress config (peers ++ others)).2
      = ((s.addPeers makeAddress config peers).2.addPeers makeAddress config others).2 := by
  induction peers generalizing s with
  | nil => rfl
  | cons peer peers ih => exact ih

/-- the table after an insertion comes from the table before it -/
theorem addPeer_peers {t : PeerDiscovery} (h : s.peers = t.peers) (addr : PeerAddress) :
    (s.addPeer makeAddress config addr).2.peers = (t.addPeer makeAddress config addr).2.peers := by
  unfold PeerDiscovery.addPeer
  rw [h]
  split
  · exact h
  · split
    · exact h
    · split <;> rfl

theorem addPeers_peers {t : PeerDiscovery} (h : s.peers = t.peers) (peers : List PeerAddress) :
    (s.addPeers makeAddress config peers).2.peers = (t.addPeers makeAddress config peers).2.peers := by
  induction peers generalizing s t with
  | nil => exact h
  | cons peer peers ih => exact ih (addPeer_peers h peer)

theorem resolveDnsSeeds_state (dns : Nat → DnsAnswer) :
    (s.resolveDnsSeeds makeAddress config dns).2
      = (s.addPeers makeAddress config (config.dnsPeers dns)).2 := by
  unfold PeerDiscovery.resolveDnsSeeds
  dsimp only
  split <;> rfl

theorem enterRunning_transport (dns : Nat → DnsAnswer) :
    (s.enterRunning makeAddress config dns).transport = s.transport := by
  unfold PeerDiscovery.enterRunning
  dsimp only
  split
  · rfl
  · rw [resolveDnsSeeds_state, addPeers_transport]

theorem enterRunning_peers (dns : Nat → DnsAnswer) :
    (s.enterRunning makeAddress config dns).peers
      = (s.addPeers makeAddress config (config.dnsPeers dns)).2.peers := by
  unfold PeerDiscovery.enterRunning
  dsimp only
  split
  next hempty =>
    have hnone : config.dnsPeers dns = [] := by
      rw [BootstrapConfig.dnsPeers, List.isEmpty_iff.mp hempty]
      rfl
    rw [hnone]
    rfl
  · rw [resolveDnsSeeds_state]

theorem start_offers (os : BindOutcome) (dns : Nat → DnsAnswer) :
    (s.start makeAddress config os dns).2.peers = (s.addPeers makeAddress config
      ((DiscoveryCall.start os dns).offers config s)).2.peers := by
  have htransport : (s.loadBootstrapNodes makeAddress config).transport = s.transport :=
    addPeers_transport _
  -- the static nodes first, then the answers of the seeds
  have hboth : ∀ t : PeerDiscovery, t.peers = (s.loadBootstrapNodes makeAddress config).peers →
      (t.enterRunning makeAddress config dns).peers
        = (s.addPeers makeAddress config (config.staticNodes ++ config.dnsPeers dns)).2.peers := by
    intro t ht
    rw [enterRunning_peers, addPeers_append]
    exact addPeers_peers ht _
  unfold PeerDiscovery.start DiscoveryCall.offers
  dsimp only
  rw [htransport]
  split
  · rfl
  · cases config.enableMdns with
    | false => exact hboth _ rfl
    | true =>
      cases UdpTransport.bind s.transport config.discoveryPort "0.0.0.0" os with
      | mk result transport =>
        cases result with
        | error message => rfl
        | ok u => exact hboth _ rfl

theorem stop_peers : s.stop.peers = s.peers := by
  unfold PeerDiscovery.stop
  split <;> rfl

/-- **What a call does to the table**, unless it removes peers. -/
theorem step_offers {c : DiscoveryCall} (hc : c.removes = false) :
    (s.step makeAddress config c).peers
      = (s.addPeers makeAddress config (c.offers config s)).2.peers := by
  cases c with
  | start os dns => exact start_offers os dns
  | stop => exact stop_peers
  | addPeer addr => rfl
  | removePeer addr => cases hc
  | exchangePeers theirPeers => rfl
  | resolveDnsSeeds dns =>
    show (s.resolveDnsSeeds makeAddress config dns).2.peers = _
    rw [resolveDnsSeeds_state]
    rfl
  | cleanupStalePeers clock maxAge => cases hc
  | handleDiscoveryMessage clock data sender =>
    show (s.handleDiscoveryMessage makeAddress config clock data sender).peers = _
    rw [handle_offered]
    rfl
  | setDiscoveryCallback set => rfl

/-- a call that removes peers adds none -/
theorem step_removes {c : DiscoveryCall} (hc : c.removes = true) :
    (s.step makeAddress config c).peers.elems.Sublist s.peers.elems := by
  cases c with
  | removePeer addr => exact OrderedSet.erase_sublist
  | cleanupStalePeers clock maxAge => exact OrderedSet.sweep_sublist _
  | _ => cases hc

/-- what a loop of insertions leaves was there before or is one of the peers -/
theorem mem_addPeers {peers : List PeerAddress} {p : PeerAddress}
    (h : p ∈ (s.addPeers makeAddress config peers).2.peers.elems) :
    p ∈ s.peers.elems ∨ p ∈ peers := by
  induction peers generalizing s with
  | nil => exact .inl h
  | cons peer peers ih =>
    change p ∈ (PeerDiscovery.addPeers makeAddress config
      (s.addPeer makeAddress config peer).2 peers).2.peers.elems at h
    rcases ih h with hp | hp
    · rcases addPeer_cases makeAddress config s peer with ⟨-, -, -, -, hmem⟩ | ⟨-, hsame⟩
      · rcases (hmem p).mp hp with rfl | hp
        · exact .inr List.mem_cons_self
        · exact .inl hp
      · rw [hsame] at hp
        exact .inl hp
    · exact .inr (List.mem_cons_of_mem _ hp)

/-- **Where a call gets its peers from.** -/
theorem mem_step {c : DiscoveryCall} {p : PeerAddress}
    (h : p ∈ (s.step makeAddress config c).peers.elems) :
    p ∈ s.peers.elems ∨ p ∈ c.told config := by
  cases hc : c.removes with
  | true => exact .inl ((step_removes hc).mem h)
  | false =>
    rw [step_offers hc] at h
    exact (mem_addPeers h).imp_right mem_told_of_offers

theorem bind_cases (t : UdpTransport) (port : UInt16) (address : String) (os : BindOutcome) :
    (∃ message, t.bind port address os = (.error message, t)) ∨
      t.bind port address os = (.ok (), t.bringUp) := by
  unfold UdpTransport.bind
  split
  · exact .inl ⟨_, rfl⟩
  · cases os with
    | ok => exact .inr rfl
    | openFailed message => exact .inl ⟨_, rfl⟩
    | bindFailed message => exact .inl ⟨_, rfl⟩
    | exception message => exact .inl ⟨_, rfl⟩

theorem start_transport (os : BindOutcome) (dns : Nat → DnsAnswer) :
    (s.start makeAddress config os dns).2.transport = s.transport ∨
      s.running = false ∧
        (s.start makeAddress config os dns).2.transport = s.transport.bringUp.start true := by
  have hload : (s.loadBootstrapNodes makeAddress config).transport = s.transport :=
    addPeers_transport _
  unfold PeerDiscovery.start
  split
  · exact .inl rfl
  next hrun =>
    dsimp only
    split
    · rcases bind_cases (s.loadBootstrapNodes makeAddress config).transport config.discoveryPort
        "0.0.0.0" os with ⟨message, hbind⟩ | hbind
      · rw [hbind]
        exact .inl hload
      · rw [hbind]
        refine .inr ⟨by simpa using hrun, ?_⟩
        show (PeerDiscovery.enterRunning makeAddress config _ dns).transport = _
        rw [enterRunning_transport]
        show UdpTransport.startReceive (s.loadBootstrapNodes makeAddress config).transport.bringUp
          true = _
        rw [hload]
        rfl
    · left
      rw [enterRunning_transport, hload]

variable (makeAddress config s) in
/-- **What a call does to the transport**: nothing, or it starts it, or it stops it. -/
theorem step_transport (c : DiscoveryCall) :
    (s.step makeAddress config c).transport = s.transport ∨
      ((∃ os dns, c = .start os dns) ∧ s.running = false ∧
        (s.step makeAddress config c).transport = s.transport.bringUp.start true) ∨
      (s.step makeAddress config c).transport = Loop.close udp s.transport.stop := by
  cases c with
  | start os dns =>
    rcases start_transport os dns with h | ⟨hrun, h⟩
    · exact .inl h
    · exact .inr (.inl ⟨⟨os, dns, rfl⟩, hrun, h⟩)
  | stop =>
    show s.stop.transport = _ ∨ _ ∨ s.stop.transport = _
    unfold PeerDiscovery.stop
    split
    · exact .inl rfl
    · exact .inr (.inr rfl)
  | addPeer addr => exact .inl (addPeer_transport addr)
  | removePeer addr => exact .inl rfl
  | exchangePeers theirPeers => exact .inl (addPeers_transport theirPeers)
  | resolveDnsSeeds dns =>
    left
    show (s.resolveDnsSeeds makeAddress config dns).2.transport = _
    rw [resolveDnsSeeds_state, addPeers_transport]
  | cleanupStalePeers clock maxAge => exact .inl rfl
  | handleDiscoveryMessage clock data sender =>
    left
    show (s.handleDiscoveryMessage makeAddress config clock data sender).transport = _
    rw [handle_offered, addPeers_transport]
  | setDiscoveryCallback set => exact .inl rfl

end

/-! ## the buffer of a node -/

/-- the loop of the node with its buffer, as `Datagrams` has it -/
def Node.receiver (n : Node) : UdpReceiver where
  loop := n.discovery.transport.map udpCell.size
  cell := n.cell
  passed := n.discovery.transport.received

/-- at most one receive is outstanding, and a datagram that waits for its handler stands in the
buffer -/
def Node.Tidy (n : Node) : Prop := Alike udpCell n.receiver n.discovery.transport

section
variable {makeAddress : Str → Option IpAddress} {config : BootstrapConfig} {n : Node}

/-- an operation that leaves the buffer alone -/
theorem Node.Tidy.of_exec (h : n.Tidy) (op : Op AsioError (List UInt8 × UdpEndpoint))
    (ho : op.overlaps n.discovery.transport = false)
    (hcell : (UdpReceiver.exec n.receiver op).cell = n.cell) {s : PeerDiscovery}
    (hs : s.transport = UdpTransport.exec n.discovery.transport op) :
    Node.Tidy { n with discovery := s } := by
  have hexec : Alike udpCell (UdpReceiver.exec n.receiver op)
      (UdpTransport.exec n.discovery.transport op) := Alike.exec h (fun d => isNone_length d.1) ho
  refine ⟨rfl, rfl, ?_, fun d hd => ?_⟩
  · show s.transport.outstanding ≤ 1
    rw [hs]
    exact hexec.single
  · have hstands := hexec.stands d (hs ▸ hd)
    rwa [hcell] at hstands

theorem Node.Tidy.of_transport (h : n.Tidy) {s : PeerDiscovery}
    (hs : s.transport = n.discovery.transport) : Node.Tidy { n with discovery := s } := by
  refine ⟨rfl, rfl, ?_, fun d hd => h.stands d (hs ▸ hd)⟩
  show s.transport.outstanding ≤ 1
  rw [hs]
  exact h.single

theorem Node.Tidy.finish (h : n.Tidy) (r : Except AsioError (List UInt8 × UdpEndpoint)) :
    (n.finish r).Tidy := by
  have hexec := Alike.finish h r
  refine ⟨rfl, rfl, hexec.single, fun d hd => ?_⟩
  have hcell : (n.receiver.finish udpCell r).cell = (n.finish r).cell := by
    cases r with
    | error e => rfl
    | ok d =>
      show (if n.discovery.transport.inFlight = 0 then _ else _ : UdpReceiver).cell
        = if n.discovery.transport.inFlight = 0 then _ else _
      split <;> rfl
  have hstands := hexec.stands d hd
  rwa [hcell] at hstands

theorem Node.Tidy.own (h : n.Tidy) {c : DiscoveryCall}
    (ho : ∀ os dns, c = .start os dns →
      (!n.discovery.running && n.discovery.transport.outstanding != 0) = false) :
    Node.Tidy { n with discovery := n.discovery.step makeAddress config c } := by
  rcases step_transport makeAddress config n.discovery c with
    hs | ⟨⟨os, dns, hc⟩, hrun, hs⟩ | hs
  · exact h.of_transport hs
  · have h0 : n.discovery.transport.outstanding = 0 := by
      have := ho os dns hc
      simpa [hrun] using this
    have hup : Node.Tidy { n with discovery :=
        { n.discovery with transport := n.discovery.transport.bringUp } } :=
      h.of_exec .bringUp rfl rfl rfl
    refine hup.of_exec (.start true) ?_ rfl hs
    show (true && n.discovery.transport.outstanding != 0) = false
    rw [h0]
    rfl
  · have hstop : Node.Tidy { n with discovery :=
        { n.discovery with transport := n.discovery.transport.stop } } :=
      h.of_exec .stop rfl rfl rfl
    exact hstop.of_exec .close rfl rfl hs

/-- the handler of a datagram passes on what has arrived -/
theorem Node.handle_ok (h : n.Tidy) {k : Nat} {d : List UInt8 × UdpEndpoint}
    (hk : n.discovery.transport.ready[k]? = some (.ok d)) (clock : Nat → Int) :
    n.handle makeAddress config k clock =
      ⟨if n.discovery.transport.callback && !d.1.isEmpty then
        (n.delivered k).handleDiscoveryMessage makeAddress config clock d.1 d.2
      else n.delivered k, n.cell⟩ := by
  have hd : udpCell.read n.cell (udpCell.size d) = d := h.stands d (List.mem_of_getElem? hk)
  have hempty : isNone (udpCell.size d) = d.1.isEmpty := isNone_length d.1
  unfold Node.handle
  rw [hk]
  dsimp only
  rw [hempty]
  split
  · rw [show udpCell.3 n.cell (udpCell.size d) = d from hd]
  · rfl

theorem Node.handle_other {k : Nat} (hk : ∀ d, n.discovery.transport.ready[k]? ≠ some (.ok d))
    (clock : Nat → Int) :
    n.handle makeAddress config k clock = { n with discovery := n.delivered k } := by
  unfold Node.handle
  cases hr : n.discovery.transport.ready[k]? with
  | none => rfl
  | some r =>
    cases r with
    | error e => rfl
    | ok d => exact absurd hr (hk d)

variable (makeAddress config) in
/-- **What a handler does to a node**: it takes in the peers that its datagram offers, or none. -/
theorem Node.handle_cases (h : n.Tidy) (k : Nat) (clock : Nat → Int) :
    (∃ d, .ok d ∈ n.discovery.transport.ready ∧ n.handle makeAddress config k clock =
        { n with discovery :=
            ((n.delivered k).addPeers makeAddress config (offered clock d.1 d.2)).2 }) ∨
      n.handle makeAddress config k clock = { n with discovery := n.delivered k } := by
  by_cases hk : ∃ d, n.discovery.transport.ready[k]? = some (.ok d)
  · obtain ⟨d, hk⟩ := hk
    rw [Node.handle_ok h hk, handle_offered]
    split
    · exact .inl ⟨d, List.mem_of_getElem? hk, rfl⟩
    · exact .inr rfl
  · exact .inr (Node.handle_other (fun d hd => hk ⟨d, hd⟩) clock)

theorem Node.Tidy.handle (h : n.Tidy) (k : Nat) (clock : Nat → Int) :
    (n.handle makeAddress config k clock).Tidy := by
  have hcell : (UdpReceiver.exec n.receiver (.deliver k)).cell = n.cell := by
    show (n.receiver.deliver udp isNone udpCell k).cell = n.cell
    unfold Shared.deliver
    dsimp only
    split <;> rfl
  rcases Node.handle_cases makeAddress config h k clock with
    ⟨d, -, he⟩ | he
  · rw [he]
    exact h.of_exec (.deliver k) rfl hcell (addPeers_transport _)
  · rw [he]
    exact h.of_exec (.deliver k) rfl hcell rfl

end

/-! ## messages -/

section
variable {config : BootstrapConfig}

/-- an announcement offers the sender with its port -/
theorem offered_discover (clock : Nat → Int) (sender : UdpEndpoint) :
    offered clock config.discoverMessage sender
      = [⟨sender.address, config.discoveryPort, clock 0, 0⟩] := by
  have hlt := config.discoveryPort.toNat_lt
  have hnum : IsNumeral (toDecimal config.discoveryPort.toNat) config.discoveryPort.toNat :=
    ⟨toDecimal_ne_nil _, toDecimal_isDigit _, ofDecimal_toDecimal _⟩
  have hport : UInt16.ofInt config.discoveryPort.toNat = config.discoveryPort :=
    UInt16.toNat_inj.mp (port_toNat (by omega))
  rw [BootstrapConfig.discoverMessage, offered_ok (stoi_numeral hnum (by omega)), hport]

/-- a list offers its peers, with new times -/
theorem offered_peerlist {peers : List PeerAddress} (hcount : peers.length < 2 ^ 32)
    (hip : ∀ peer ∈ peers, peer.ip.length ≤ 255) (clock : Nat → Int) (sender : UdpEndpoint) :
    offered clock (str "PEERLIST:" ++ PeerExchange.serializePeers peers) sender
      = peers.mapIdx fun i peer => { peer with lastSeen := clock i } := by
  have hno : (str "DISCOVER:").isPrefixOf (str "PEERLIST:" ++ PeerExchange.serializePeers peers)
      = false := rfl
  have hrest : (str "PEERLIST:" ++ PeerExchange.serializePeers peers).drop 9
      = PeerExchange.serializePeers peers := rfl
  unfold offered
  rw [if_neg (by rw [hno]; exact Bool.false_ne_true),
    if_pos (List.isPrefixOf_iff_prefix.mpr (List.prefix_append _ _)), hrest,
    PeerExchange.deserializePeers_serialize clock hcount hip]
  rfl

end

/-! ## peers that stay -/

section
variable {makeAddress : Str → Option IpAddress} {config : BootstrapConfig}

/-- the peer is in the table, or there was no room for it -/
def Listed (config : BootstrapConfig) (key : Str × UInt16) (s : PeerDiscovery) : Prop :=
  (∃ p ∈ s.peers.elems, p.key = key) ∨ config.maxPeers ≤ s.peers.size

variable {s : PeerDiscovery} {key : Str × UInt16}

theorem Listed.of_peers_eq (h : Listed config key s) {t : PeerDiscovery} (ht : t.peers = s.peers) :
    Listed config key t := by
  unfold Listed
  rwa [ht]

theorem Listed.addPeer (h : Listed config key s) (addr : PeerAddress) :
    Listed config key (s.addPeer makeAddress config addr).2 := by
  unfold PeerDiscovery.addPeer
  split
  · exact h
  · split
    · exact h
    · rcases OrderedSet.insert_cases (s := s.peers) (a := addr) with
        ⟨peers, he, hsize, hmem, -⟩ | ⟨he, -⟩
      · rw [he]
        rcases h with ⟨p, hp, hkey⟩ | hfull
        · exact .inl ⟨p, (hmem p).mpr (.inr hp), hkey⟩
        · right
          show config.maxPeers ≤ peers.size
          omega
      · rw [he]
        exact h

theorem Listed.addPeers (h : Listed config key s) (peers : List PeerAddress) :
    Listed config key (s.addPeers makeAddress config peers).2 := by
  induction peers generalizing s with
  | nil => exact h
  | cons peer peers ih => exact ih (h.addPeer peer)

theorem Listed.step (h : Listed config key s) {c : DiscoveryCall} (hc : c.removes = false) :
    Listed config key (s.step makeAddress config c) :=
  (h.addPeers (c.offers config s)).of_peers_eq (step_offers hc)

/-- a valid peer is in the table after its insertion, if there was room for it -/
theorem mem_addPeer_of_room {addr : PeerAddress} (hv : addr.isValid makeAddress = true)
    (hroom : s.peers.size < config.maxPeers) :
    ∃ p ∈ (s.addPeer makeAddress config addr).2.peers.elems, p.key = addr.key := by
  unfold PeerDiscovery.addPeer
  rw [if_neg (by rw [hv]; exact Bool.false_ne_true), if_neg (Nat.not_le.mpr hroom)]
  rcases OrderedSet.insert_cases (s := s.peers) (a := addr) with
    ⟨peers, he, -, hmem, -⟩ | ⟨he, b, hb, hsame⟩
  · rw [he]
    exact ⟨addr, (hmem addr).mpr (.inl rfl), rfl⟩
  · rw [he]
    obtain ⟨hip, hport⟩ := equivalent_iff.mp hsame
    exact ⟨b, hb, Prod.ext hip.symm hport.symm⟩

theorem listed_addPeer {addr : PeerAddress} (hv : addr.isValid makeAddress = true) :
    Listed config addr.key (s.addPeer makeAddress config addr).2 := by
  by_cases hroom : s.peers.size < config.maxPeers
  · exact .inl (mem_addPeer_of_room hv hroom)
  · exact Listed.addPeer (.inr (Nat.not_lt.mp hroom)) addr

theorem Listed.handle {n : Node} (h : Listed config key n.discovery) (k : Nat) (clock : Nat → Int) :
    Listed config key (n.handle makeAddress config k clock).discovery := by
  have hd : Listed config key (n.delivered k) := h.of_peers_eq rfl
  unfold Node.handle
  split
  · split
    · dsimp only
      rw [handle_offered]
      exact hd.addPeers _
    · exact hd
  · exact hd

/-- the handler of an announcement puts the sender into the table -/
theorem listed_handle {n : Node} (h : n.Tidy) {k : Nat}
    {sender : BootstrapConfig} {address : Str}
    (hready : n.discovery.transport.callback = true ∧ n.discovery.transport.ready[k]?
      = some (.ok (sender.discoverMessage, ⟨address, sender.discoveryPort⟩)))
    (hvalid : AddressValidation.isRoutableIp makeAddress address = true ∧ 0 < sender.discoveryPort)
    (clock : Nat → Int) :
    Listed config (address, sender.discoveryPort)
      (n.handle makeAddress config k clock).discovery := by
  have hnonempty : sender.discoverMessage.isEmpty = false := rfl
  have hpeer : PeerAddress.isValid makeAddress ⟨address, sender.discoveryPort, clock 0, 0⟩ = true := by
    have hsome : (makeAddress address).isSome = true := by
      have hroutable := hvalid.1
      unfold AddressValidation.isRoutableIp at hroutable
      cases hm : makeAddress address with
      | none =>
        rw [hm] at hroutable
        cases hroutable
      | some addr => rfl
    simp [PeerAddress.isValid, AddressValidation.isValidPeerAddress, AddressValidation.isValidIp,
      AddressValidation.isValidPort, hsome, hvalid.1, hvalid.2]
  rw [Node.handle_ok h hready.2, handle_offered, offered_discover]
  dsimp only
  rw [hready.1, hnonempty]
  exact listed_addPeer hpeer

end

end P2p
end ChainForge
