import ChainForge.P2p.PeerDiscovery

/-!
# Announced peers

A datagram `DISCOVER:` with a port makes its sender a peer.  The port goes through `std::stoi`, which
accepts more than numerals, and is cut to 16 bits.  A peer that is announced again is in the set
already, and the set keeps the old element with the old `last_seen`.

* `addPeer_cases`        an insertion puts the peer itself into the table, or changes nothing;
* `announcement_iff`     **when an announcement is taken literally**;
* `Watch`                the discovery, with the times at which each peer was inserted and last
                         announced;
* `Watch.Dated.step`     the times in the table are those of the insertions, in every run;
* `announced_stays_iff`  **when the peers that keep announcing themselves stay**: if at each cleanup
                         their insertions are recent enough too.
-/

set_option linter.unusedSectionVars false

namespace ChainForge
namespace P2p
open Text Machine

/-! ## insertions -/

/-- the peers that a message passes to `add_peer` -/
def offered (clock : Nat → Int) (data : List UInt8) (sender : UdpEndpoint) : List PeerAddress :=
  if (str "DISCOVER:").isPrefixOf data then
    match stoi (data.drop 9) with
    | .ok n => [⟨sender.address, UInt16.ofInt n, clock 0, 0⟩]
    | .error _ => []
  else if (str "PEERLIST:").isPrefixOf data then
    (PeerExchange.deserializePeers clock (data.drop 9)).getD []
  else []

section
variable (makeAddress : Str → Option IpAddress) (config : BootstrapConfig) (s : PeerDiscovery)

theorem equivalent_iff {a b : PeerAddress} :
    OrderedSet.equivalent PeerAddress.Less a b = true ↔ a.Same b := by
  rw [← PeerAddress.incomparable_iff]
  simp [OrderedSet.equivalent]

/-- what the table holds after `add_peer` -/
theorem addPeer_cases (addr : PeerAddress) :
    ((s.addPeer makeAddress config addr).1 = true ∧ addr.isValid makeAddress = true ∧
        s.peers.size < config.maxPeers ∧ (∀ b ∈ s.peers.elems, ¬ addr.Same b) ∧
        ∀ b, b ∈ (s.addPeer makeAddress config addr).2.peers.elems ↔ b = addr ∨ b ∈ s.peers.elems) ∨
      ((s.addPeer makeAddress config addr).1 = false ∧
        (s.addPeer makeAddress config addr).2 = s) := by
  unfold PeerDiscovery.addPeer
  by_cases hv : addr.isValid makeAddress = true
  swap
  · exact .inr (by simp [hv])
  by_cases hfull : s.peers.size ≥ config.maxPeers
  · exact .inr (by simp [hv, hfull])
  simp only [hv, hfull, Bool.not_true, Bool.false_eq_true, if_false]
  rcases OrderedSet.insert_cases (s := s.peers) (a := addr) with
    ⟨peers, he, -, hmem, hnew⟩ | ⟨he, -⟩
  · rw [he]
    refine .inl ⟨rfl, trivial, Nat.not_le.mp hfull, fun b hb hsame => ?_, hmem⟩
    have hb := hnew b hb
    rw [equivalent_iff.mpr hsame] at hb
    cases hb
  · rw [he]
    exact .inr ⟨rfl, rfl⟩

theorem handle_offered (clock : Nat → Int) (data : List UInt8)
    (sender : UdpEndpoint) :
    s.handleDiscoveryMessage makeAddress config clock data sender
      = (s.addPeers makeAddress config (offered clock data sender)).2 := by
  unfold PeerDiscovery.handleDiscoveryMessage offered
  split
  · cases stoi (data.drop 9) with
    | ok n => rfl
    | error e => rfl
  · split
    · cases PeerExchange.deserializePeers clock (data.drop 9) with
      | some peers => rfl
      | none => rfl
    · rfl

/-! ## announcements -/

/-- digits only, with the value `p` -/
def IsNumeral (text : Str) (p : Nat) : Prop :=
  text ≠ [] ∧ (∀ c ∈ text, isDigit c = true) ∧ ofDecimal text = p

/-- a peer that is new in `t` has the address of the sender and the port that `text` is the numeral
of -/
def TakenLiterally (text address : Str) (s t : PeerDiscovery) : Prop :=
  ∀ peer ∈ t.peers.elems, peer ∉ s.peers.elems →
    ∃ p, 1 ≤ p ∧ p ≤ 65535 ∧ IsNumeral text p ∧ peer.ip = address ∧ peer.port.toNat = p

variable {makeAddress config s}

theorem port_toNat {p : Nat} (h : p ≤ 65535) : (UInt16.ofInt p).toNat = p := by
  have hint : ((p : Int) % 65536).toNat = p := by omega
  show (UInt16.ofNat ((p : Int) % 65536).toNat).toNat = p
  rw [hint, UInt16.toNat_ofNat_of_lt' (Nat.lt_succ_of_le h)]

theorem stoi_numeral {text : Str} {p : Nat} (h : IsNumeral text p) (hp : p ≤ 65535) :
    stoi text = .ok (p : Int) := by
  obtain ⟨hne, hd, hv⟩ := h
  have hs := stoSigned_digits (2^31) text hne hd (by omega)
  rwa [hv] at hs

theorem port_pos_of_valid {addr : PeerAddress} (h : addr.isValid makeAddress = true) :
    0 < addr.port := by
  unfold PeerAddress.isValid AddressValidation.isValidPeerAddress at h
  by_contra hport
  have hp : AddressValidation.isValidPort addr.port = false := by
    simpa [AddressValidation.isValidPort] using hport
  simp [hp] at h

theorem offered_ok {text : Str} {n : Int} (h : stoi text = .ok n) (clock : Nat → Int)
    (sender : UdpEndpoint) : offered clock (str "DISCOVER:" ++ text) sender
      = [⟨sender.address, UInt16.ofInt n, clock 0, 0⟩] := by
  have hd : (str "DISCOVER:" ++ text).drop 9 = text := rfl
  unfold offered
  rw [if_pos (List.isPrefixOf_iff_prefix.mpr (List.prefix_append _ _)), hd, h]

theorem offered_error {text : Str} {e : ParseError} (h : stoi text = .error e) (clock : Nat → Int)
    (sender : UdpEndpoint) : offered clock (str "DISCOVER:" ++ text) sender = [] := by
  have hd : (str "DISCOVER:" ++ text).drop 9 = text := rfl
  unfold offered
  rw [if_pos (List.isPrefixOf_iff_prefix.mpr (List.prefix_append _ _)), hd, h]

variable (makeAddress config s)

/-- **An announcement is taken literally exactly when** its text is a numeral of at most 65535, or
`stoi` throws, or `add_peer` refuses the peer. -/
theorem announcement_iff (clock : Nat → Int) (text : Str) (sender : UdpEndpoint) :
    TakenLiterally text sender.address s
        (s.handleDiscoveryMessage makeAddress config clock (str "DISCOVER:" ++ text) sender) ↔
      (∃ p ≤ 65535, IsNumeral text p) ∨
        ∀ n, stoi text = .ok n → (s.addPeer makeAddress config
          ⟨sender.address, UInt16.ofInt n, clock 0, 0⟩).1 = false := by
  rw [handle_offered]
  cases hn : stoi text with
  | error e =>
    rw [offered_error hn]
    refine ⟨fun _ => .inr fun n h => ?_, fun _ peer hpeer hnew => absurd hpeer hnew⟩
    cases h
  | ok n =>
    rw [offered_ok hn]
    show TakenLiterally text sender.address s (s.addPeer makeAddress config _).2 ↔ _
    rcases addPeer_cases makeAddress config s ⟨sender.address, UInt16.ofInt n, clock 0, 0⟩ with
      ⟨hadded, hvalid, -, hnew, hmem⟩ | ⟨hrefused, hsame⟩
    · constructor
      · intro h
        obtain ⟨p, -, hp, hnum, -, -⟩ :=
          h _ ((hmem _).mpr (.inl rfl)) fun hold => hnew _ hold ⟨rfl, rfl⟩
        exact .inl ⟨p, hp, hnum⟩
      · rintro (⟨p, hp, hnum⟩ | h) peer hpeer hold
        · have hvalue : n = p := by
            rw [stoi_numeral hnum hp] at hn
            exact (Except.ok.inj hn).symm
          have hport : (UInt16.ofInt n).toNat = p := by rw [hvalue, port_toNat hp]
          have hpos : 0 < (UInt16.ofInt n).toNat :=
            UInt16.lt_iff_toNat_lt.mp (port_pos_of_valid hvalid)
          obtain rfl := ((hmem peer).mp hpeer).resolve_right hold
          exact ⟨p, by omega, hp, hnum, rfl, hport⟩
        · rw [h n rfl] at hadded
          cases hadded
    · rw [hsame]
      refine ⟨fun _ => .inr fun m hm => ?_, fun _ peer hpeer hnew => absurd hpeer hnew⟩
      cases hm
      exact hrefused

end

/-- one address of the network that is routable -/
def knownAddress : Str → Option IpAddress := fun ip =>
  if ip = str "8.8.8.8" then some (.v4 8 8 8 8) else none

/-- a number above the range of ports is taken for the port 8 -/
theorem port_cut :
    (PeerDiscovery.handleDiscoveryMessage knownAddress {} {} (fun _ => 0) (str "DISCOVER:65544")
      ⟨str "8.8.8.8", 1⟩).peers.elems = [⟨str "8.8.8.8", 8, 0, 0⟩] := by
  decide +kernel

/-! ## times -/

def PeerAddress.key (addr : PeerAddress) : Str × UInt16 := (addr.ip, addr.port)

def PeerDiscovery.hasPeer (s : PeerDiscovery) (addr : PeerAddress) : Bool :=
  s.peers.elems.any (OrderedSet.equivalent PeerAddress.Less addr)

/-- the discovery, and what is known of each peer from the calls -/
structure Watch where
  discovery : PeerDiscovery := {}
  /-- when it was last announced, if it was not removed since by `remove_peer` -/
  announced : Str × UInt16 → Option Int := fun _ => none
  /-- the `last_seen` of the announcement that inserted it -/
  entered : Str × UInt16 → Option Int := fun _ => none

/-- the calls, with the times at which they call `add_peer` -/
inductive TableCall where
  | addPeer (now : Int) (addr : PeerAddress)
  | removePeer (addr : PeerAddress)
  | handleDiscoveryMessage (now : Int) (clock : Nat → Int) (data : List UInt8) (sender : UdpEndpoint)
  | cleanupStalePeers (clock : Nat → Int) (maxAge : Int)

def TableCall.call : TableCall → DiscoveryCall
  | .addPeer _ addr => .addPeer addr
  | .removePeer addr => .removePeer addr
  | .handleDiscoveryMessage _ clock data sender => .handleDiscoveryMessage clock data sender
  | .cleanupStalePeers clock maxAge => .cleanupStalePeers clock maxAge

section
variable (makeAddress : Str → Option IpAddress) (config : BootstrapConfig)

namespace Watch
variable (w : Watch)

/-- a call of `add_peer`, which announces a valid peer if it is in the table or there is room -/
def announce (now : Int) (w : Watch) (addr : PeerAddress) : Watch where
  discovery := (w.discovery.addPeer makeAddress config addr).2
  announced :=
    if addr.isValid makeAddress && (w.discovery.hasPeer addr ||
        decide (w.discovery.peers.size < config.maxPeers)) then
      Function.update w.announced addr.key (some now)
    else w.announced
  entered :=
    if (w.discovery.addPeer makeAddress config addr).1 then
      Function.update w.entered addr.key (some addr.lastSeen)
    else w.entered

def step : TableCall → Watch
  | .addPeer now addr => w.announce makeAddress config now addr
  | .removePeer addr =>
    { w with
      discovery := (w.discovery.removePeer addr).2
      announced := if (w.discovery.removePeer addr).1 then
        Function.update w.announced addr.key none else w.announced }
  | .handleDiscoveryMessage now clock data sender =>
    (offered clock data sender).foldl (announce makeAddress config now) w
  | .cleanupStalePeers clock maxAge =>
    { w with discovery := w.discovery.cleanupStalePeers clock maxAge }

/-- a peer that was announced within `max_age` seconds before the cleanup is in the table after it -/
def Stays : TableCall → Prop
  | .cleanupStalePeers clock maxAge =>
    ∀ key time, w.announced key = some time → (∀ i, clock i ≤ time + maxAge * 10 ^ 9) →
      ∃ peer ∈ (w.discovery.cleanupStalePeers clock maxAge).peers.elems, peer.key = key
  | _ => True

/-- such a peer is in the table before the cleanup, and the announcement that inserted it is recent
enough, too -/
def Fresh : TableCall → Prop
  | .cleanupStalePeers clock maxAge =>
    ∀ key time, w.announced key = some time → (∀ i, clock i ≤ time + maxAge * 10 ^ 9) →
      ∃ i inserted, w.discovery.peers.elems[i]?.map PeerAddress.key = some key ∧
        w.entered key = some inserted ∧ (clock i - inserted).tdiv (10 ^ 9) ≤ maxAge
  | _ => True

/-- a stored peer has the time of the announcement that inserted it -/
def Dated : Prop := ∀ peer ∈ w.discovery.peers.elems, w.entered peer.key = some peer.lastSeen

end Watch

variable {makeAddress config} {w : Watch}

theorem foldl_announce (now : Int) (peers : List PeerAddress) :
    (peers.foldl (Watch.announce makeAddress config now) w).discovery
      = (w.discovery.addPeers makeAddress config peers).2 := by
  induction peers generalizing w with
  | nil => rfl
  | cons peer peers ih =>
    rw [List.foldl_cons, ih]
    rfl

theorem step_discovery (c : TableCall) :
    (w.step makeAddress config c).discovery = w.discovery.step makeAddress config c.call := by
  cases c with
  | addPeer now addr => rfl
  | removePeer addr => rfl
  | handleDiscoveryMessage now clock data sender =>
    show ((offered clock data sender).foldl _ w).discovery
      = w.discovery.handleDiscoveryMessage makeAddress config clock data sender
    rw [foldl_announce, handle_offered]
  | cleanupStalePeers clock maxAge => rfl

/-- the watch watches the discovery -/
theorem run_discovery (calls : List TableCall) :
    (run (Watch.step makeAddress config) w calls).discovery
      = run (PeerDiscovery.step makeAddress config) w.discovery (calls.map TableCall.call) := by
  induction calls generalizing w with
  | nil => rfl
  | cons c calls ih => rw [run_cons, ih, step_discovery, List.map_cons, run_cons]

/-! ### the times of the insertions -/

/-- a new element gets its date, and the others have other keys -/
theorem Watch.Dated.announce (h : w.Dated) (now : Int) (addr : PeerAddress) :
    (w.announce makeAddress config now addr).Dated := by
  intro b hb
  show (if (w.discovery.addPeer makeAddress config addr).1 then _ else _ : _ → Option Int) b.key = _
  change b ∈ (w.discovery.addPeer makeAddress config addr).2.peers.elems at hb
  rcases addPeer_cases makeAddress config w.discovery addr with
    ⟨hadded, -, -, hnew, hmem⟩ | ⟨hrefused, hsame⟩
  · rw [if_pos hadded]
    rcases (hmem b).mp hb with rfl | hold
    · simp
    · have hkey : b.key ≠ addr.key := by
        intro e
        exact hnew b hold ⟨(congrArg Prod.fst e).symm, (congrArg Prod.snd e).symm⟩
      rw [Function.update_of_ne hkey]
      exact h b hold
  · rw [if_neg (by rw [hrefused]; exact Bool.false_ne_true)]
    rw [hsame] at hb
    exact h b hb

theorem Watch.Dated.of_sublist (h : w.Dated) {t : Watch} (he : t.entered = w.entered)
    (hs : t.discovery.peers.elems.Sublist w.discovery.peers.elems) : t.Dated := by
  intro b hb
  rw [he]
  exact h b (hs.mem hb)

theorem Watch.Dated.foldl_announce (h : w.Dated) (now : Int) (peers : List PeerAddress) :
    (peers.foldl (Watch.announce makeAddress config now) w).Dated := by
  induction peers generalizing w with
  | nil => exact h
  | cons peer peers ih => exact ih (h.announce now peer)

theorem Watch.Dated.step (h : w.Dated) (c : TableCall) : (w.step makeAddress config c).Dated := by
  cases c with
  | addPeer now addr => exact h.announce now addr
  | removePeer addr => exact h.of_sublist rfl OrderedSet.erase_sublist
  | handleDiscoveryMessage now clock data sender => exact h.foldl_announce now _
  | cleanupStalePeers clock maxAge => exact h.of_sublist rfl (OrderedSet.sweep_sublist _)

theorem stays_iff (h : w.Dated) (c : TableCall) : w.Stays c ↔ w.Fresh c := by
  cases c with
  | cleanupStalePeers clock maxAge =>
    refine forall_congr' fun key => forall_congr' fun time => forall_congr' fun _ =>
      forall_congr' fun _ => ?_
    simp only [PeerDiscovery.cleanupStalePeers, OrderedSet.mem_sweep, decide_eq_false_iff_not, not_lt,
      Option.map_eq_some_iff]
    constructor
    · rintro ⟨peer, ⟨i, hi, hage⟩, hkey⟩
      refine ⟨i, peer.lastSeen, ⟨peer, hi, hkey⟩, ?_, hage⟩
      rw [← hkey]
      exact h peer (List.mem_of_getElem? hi)
    · rintro ⟨i, inserted, ⟨peer, hi, hkey⟩, hinserted, hage⟩
      have hdate := h peer (List.mem_of_getElem? hi)
      rw [hkey, hinserted] at hdate
      rw [Option.some.inj hdate] at hage
      exact ⟨peer, ⟨i, hi, hage⟩, hkey⟩
  | _ => exact Iff.rfl

variable (makeAddress config)

/-- **The peers that keep announcing themselves stay exactly when**, at every cleanup, those announced
recently enough are still there and were inserted recently enough: later announcements do not count. -/
theorem announced_stays_iff (calls : List TableCall) :
    EveryStep (Watch.step makeAddress config) Watch.Stays {} calls ↔
      EveryStep (Watch.step makeAddress config) Watch.Fresh {} calls :=
  everyStep_iff_of Watch.Dated (fun _ c h _ => h.step c) (fun _ c h => stays_iff h c) calls
    fun _ h => nomatch h

end

/-- announced at 0 and 100 seconds, and gone after a cleanup at 150 seconds that is to keep what is
not older than 60 -/
theorem refreshed_peer_removed :
    let w := run (Watch.step knownAddress {}) {}
      [.addPeer 0 ⟨str "8.8.8.8", 8333, 0, 0⟩,
        .addPeer (100 * 10 ^ 9) ⟨str "8.8.8.8", 8333, 100 * 10 ^ 9, 0⟩]
    w.announced (str "8.8.8.8", 8333) = some (100 * 10 ^ 9) ∧
      (w.step knownAddress {} (.cleanupStalePeers (fun _ => 150 * 10 ^ 9) 60)).discovery.peers.elems
        = [] := by
  decide +kernel

end P2p
end ChainForge
