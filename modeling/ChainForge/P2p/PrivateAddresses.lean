import ChainForge.Lib.Buffer
import ChainForge.P2p.DiscoveryNode
import Mathlib.Algebra.GroupWithZero.Nat

/-!
# Private addresses

The ranges of addresses that are not to enter the peer table, as prefixes of the address in bits, and
the byte tests of `is_private_ip` and `is_routable_ip`.  The comment of the source names `fc00::/7`,
but the code asks boost for `is_site_local`, which is `fec0::/10`.

* `v4_covered`, `isPrivate_of_linkLocal`   the ranges that the byte tests cover;
* `private_iff`             an address that the tests let through is private only in `fc00::/7`;
* `isRoutableIp_of_uniqueLocal`   and all of these are let through;
* `no_private_address_iff`  **when no private address enters the table**: if no call offers one in
                            `fc00::/7`, with a port, while there is room.
-/

set_option linter.unusedSectionVars false

namespace ChainForge
namespace P2p
open Text Machine Buffer

/-! ## ranges -/

namespace IpAddress

/-- the address as a number of 32 or 128 bits -/
def value : IpAddress → Nat
  | v4 a b c d => ofBigEndian [a, b, c, d]
  | v6 bytes => ofBigEndian bytes.toList

/-- an IPv4 address whose first `len` bits are those of `base` -/
def InV4 (base len : Nat) : IpAddress → Prop
  | addr@(v4 _ _ _ _) => addr.value / 2 ^ (32 - len) = base / 2 ^ (32 - len)
  | v6 _ => False

/-- an IPv6 address whose first `len` bits are those of `base` -/
def InV6 (base len : Nat) : IpAddress → Prop
  | v4 _ _ _ _ => False
  | addr@(v6 _) => addr.value / 2 ^ (128 - len) = base / 2 ^ (128 - len)

/-- `fc00::/7` -/
def UniqueLocal : IpAddress → Prop := InV6 (0xfc00 * 2 ^ 112) 7

def Private (addr : IpAddress) : Prop :=
  (addr.InV4 (10 * 2 ^ 24) 8 ∨ addr.InV4 (172 * 2 ^ 24 + 16 * 2 ^ 16) 12 ∨
    addr.InV4 (192 * 2 ^ 24 + 168 * 2 ^ 16) 16 ∨ addr.InV4 (169 * 2 ^ 24 + 254 * 2 ^ 16) 16 ∨
    addr.InV4 (127 * 2 ^ 24) 8) ∨
  addr.UniqueLocal ∨ addr.InV6 (0xfe80 * 2 ^ 112) 10 ∨ addr = v6 ((Vector.replicate 15 0).push 1)

/-! ## bytes -/

theorem value_v4 (a b c d : UInt8) : (v4 a b c d).value
    = a.toNat * 2 ^ 24 + b.toNat * 2 ^ 16 + c.toNat * 2 ^ 8 + d.toNat := by
  show (((0 * 256 + a.toNat) * 256 + b.toNat) * 256 + c.toNat) * 256 + d.toNat = _
  omega

/-- the first two bytes and what follows them -/
theorem value_bytes (x y : UInt8) {l : List UInt8} (hlen : l.length = 14) :
    ofBigEndian l < 2 ^ 112 ∧
      ofBigEndian (x :: y :: l) = x.toNat * 2 ^ 120 + y.toNat * 2 ^ 112 + ofBigEndian l := by
  have hrest := ofBigEndian_lt l
  rw [hlen] at hrest
  rw [ofBigEndian_cons, ofBigEndian_cons, List.length_cons, hlen]
  omega

/-- the two highest bits of a byte -/
theorem high_bits {b : UInt8} (h : b.toNat / 64 = 2) : (b &&& 0xc0 == 0x80) = true := by
  have key : ∀ n : Fin 256, n.val / 64 = 2 → (UInt8.ofNat n.val &&& 0xc0 == 0x80) = true := by
    decide +kernel
  have hb := key ⟨b.toNat, b.toNat_lt⟩ h
  rwa [UInt8.ofNat_toNat] at hb

theorem isPrivate_of_linkLocal {bytes : Vector UInt8 16}
    (h : (v6 bytes).InV6 (0xfe80 * 2 ^ 112) 10) : (v6 bytes).isPrivate = true := by
  obtain ⟨⟨l⟩, hsize⟩ := bytes
  rcases l with _ | ⟨x, _ | ⟨y, l⟩⟩
  · simp at hsize
  · simp at hsize
  · obtain ⟨hrest, hvalue⟩ := value_bytes x y (l := l) (by simpa using hsize)
    change ofBigEndian (x :: y :: l) / 2 ^ 118 = 0xfe80 * 2 ^ 112 / 2 ^ 118 at h
    rw [hvalue] at h
    have hy := y.toNat_lt
    have hfirst : x = 0xfe := UInt8.toNat_inj.mp (by show x.toNat = 254; omega)
    have hsecond : y.toNat / 64 = 2 := by omega
    show (x == 0xfe && y &&& 0xc0 == 0xc0 || x == 0xfe && y &&& 0xc0 == 0x80) = true
    simp [hfirst, high_bits hsecond]

/-- the byte tests cover the ranges of IPv4 -/
theorem v4_covered {a b c d : UInt8} (h : (v4 a b c d).Private) :
    (v4 a b c d).isPrivate = true ∨ (v4 a b c d).isLoopback = true := by
  have ha := a.toNat_lt
  have hb := b.toNat_lt
  have hc := c.toNat_lt
  have hd := d.toNat_lt
  have hvalue := value_v4 a b c d
  have hbyte : ∀ {x : UInt8} (n : Nat), x.toNat = n → n < 256 → x = UInt8.ofNat n := by
    intro x n hx hn
    rw [← hx, UInt8.ofNat_toNat]
  rcases h with (h | h | h | h | h) | h | h | h
  · change (v4 a b c d).value / 2 ^ 24 = _ at h
    have : a = 10 := hbyte 10 (by omega) (by decide)
    exact .inl (by simp [isPrivate, this])
  · change (v4 a b c d).value / 2 ^ 20 = _ at h
    have : a = 172 := hbyte 172 (by omega) (by decide)
    have hlo : 16 ≤ b := UInt8.le_iff_toNat_le.mpr (by show 16 ≤ b.toNat; omega)
    have hhi : b ≤ 31 := UInt8.le_iff_toNat_le.mpr (by show b.toNat ≤ 31; omega)
    exact .inl (by simp [isPrivate, this, hlo, hhi])
  · change (v4 a b c d).value / 2 ^ 16 = _ at h
    have ha' : a = 192 := hbyte 192 (by omega) (by decide)
    have hb' : b = 168 := hbyte 168 (by omega) (by decide)
    exact .inl (by simp [isPrivate, ha', hb'])
  · change (v4 a b c d).value / 2 ^ 16 = _ at h
    have ha' : a = 169 := hbyte 169 (by omega) (by decide)
    have hb' : b = 254 := hbyte 254 (by omega) (by decide)
    exact .inl (by simp [isPrivate, ha', hb'])
  · change (v4 a b c d).value / 2 ^ 24 = _ at h
    have : a = 127 := hbyte 127 (by omega) (by decide)
    exact .inr (by simp [isLoopback, this])
  · exact h.elim
  · exact h.elim
  · cases h

/-- an address that the tests let through is private only in `fc00::/7` -/
theorem private_iff {addr : IpAddress} (hp : addr.isPrivate = false) (hl : addr.isLoopback = false) :
    addr.Private ↔ addr.UniqueLocal := by
  refine ⟨fun h => ?_, fun h => .inr (.inl h)⟩
  cases addr with
  | v4 a b c d =>
    rcases v4_covered h with h | h
    · rw [h] at hp
      cases hp
    · rw [h] at hl
      cases hl
  | v6 bytes =>
    rcases h with (h | h | h | h | h) | h | h | h
    · exact h.elim
    · exact h.elim
    · exact h.elim
    · exact h.elim
    · exact h.elim
    · exact h
    · rw [isPrivate_of_linkLocal h] at hp
      cases hp
    · cases h
      cases hl

/-- the first byte is `fc` or `fd` -/
theorem uniqueLocal_cases {addr : IpAddress} (h : addr.UniqueLocal) :
    ∃ bytes : Vector UInt8 16, addr = v6 bytes ∧
      (bytes[0]? = some 0xfc ∨ bytes[0]? = some 0xfd) := by
  cases addr with
  | v4 a b c d => exact h.elim
  | v6 bytes =>
    refine ⟨bytes, rfl, ?_⟩
    obtain ⟨⟨l⟩, hsize⟩ := bytes
    rcases l with _ | ⟨x, _ | ⟨y, l⟩⟩
    · simp at hsize
    · simp at hsize
    · obtain ⟨hrest, hvalue⟩ := value_bytes x y (l := l) (by simpa using hsize)
      change ofBigEndian (x :: y :: l) / 2 ^ 121 = 0xfc00 * 2 ^ 112 / 2 ^ 121 at h
      rw [hvalue] at h
      have hy := y.toNat_lt
      have hfirst : x.toNat = 252 ∨ x.toNat = 253 := by omega
      show some x = some 0xfc ∨ some x = some 0xfd
      exact hfirst.imp (fun hx => congrArg some (UInt8.toNat_inj.mp hx)) fun hx =>
        congrArg some (UInt8.toNat_inj.mp hx)

/-- none of the tests is about these addresses -/
theorem tests_of_uniqueLocal {addr : IpAddress} (h : addr.UniqueLocal) :
    addr.isLoopback = false ∧ addr.isMulticast = false ∧ addr.isUnspecified = false ∧
      addr.isPrivate = false := by
  obtain ⟨bytes, rfl, hhead⟩ := uniqueLocal_cases h
  have hfirst : bytes[0] = 0xfc ∨ bytes[0] = 0xfd :=
    hhead.imp (Vector.getElem?_eq_some_iff.mp · |>.2) (Vector.getElem?_eq_some_iff.mp · |>.2)
  have hne : ∀ {other : Vector UInt8 16}, bytes[0] ≠ other[0] → (bytes == other) = false := by
    intro other hbyte
    refine beq_eq_false_iff_ne.mpr fun e => hbyte ?_
    rw [e]
  unfold isLoopback isMulticast isUnspecified isPrivate
  dsimp only
  rcases hfirst with hfirst | hfirst
  · rw [hne (by rw [hfirst]; decide), hne (by rw [hfirst]; decide), hfirst]
    exact ⟨rfl, rfl, rfl, rfl⟩
  · rw [hne (by rw [hfirst]; decide), hne (by rw [hfirst]; decide), hfirst]
    exact ⟨rfl, rfl, rfl, rfl⟩

end IpAddress

/-! ## the table -/

section
variable (makeAddress : Str → Option IpAddress) (config : BootstrapConfig)

/-- no peer has an address that meets `p` -/
def NoPeerIn (p : IpAddress → Prop) (s : PeerDiscovery) : Prop :=
  ∀ peer ∈ s.peers.elems, ∀ addr, makeAddress peer.ip = some addr → ¬ p addr

variable {makeAddress}

theorem routable_of_valid {peer : PeerAddress} {addr : IpAddress}
    (h : AddressValidation.isValidPeerAddress makeAddress peer false = true)
    (ha : makeAddress peer.ip = some addr) : addr.isPrivate = false ∧ addr.isLoopback = false := by
  have hr : AddressValidation.isRoutableIp makeAddress peer.ip = true := by
    unfold AddressValidation.isValidPeerAddress at h
    by_contra hr
    simp [hr] at h
  unfold AddressValidation.isRoutableIp AddressValidation.isPrivateIp at hr
  simp only [ha] at hr
  split at hr
  · cases hr
  · rename_i hspecial
    split at hr
    · cases hr
    · rename_i hprivate
      simp only [Bool.or_eq_true, not_or, Bool.not_eq_true] at hspecial hprivate
      exact ⟨hprivate, hspecial.1.1⟩

theorem isRoutableIp_of_uniqueLocal {ip : Str} {addr : IpAddress} (ha : makeAddress ip = some addr)
    (h : addr.UniqueLocal) : AddressValidation.isRoutableIp makeAddress ip = true := by
  obtain ⟨hloop, hmulti, hunspec, hpriv⟩ := IpAddress.tests_of_uniqueLocal h
  unfold AddressValidation.isRoutableIp AddressValidation.isPrivateIp
  simp [ha, hloop, hmulti, hunspec, hpriv]

variable (makeAddress) in
/-- a peer that `add_peer` takes for valid, though its address is in `fc00::/7` -/
def UniqueLocalPeer (peer : PeerAddress) : Prop :=
  peer.port ≠ 0 ∧ ∃ addr, makeAddress peer.ip = some addr ∧ addr.UniqueLocal

theorem UniqueLocalPeer.isValid {peer : PeerAddress} (h : UniqueLocalPeer makeAddress peer) :
    peer.isValid makeAddress = true := by
  obtain ⟨hport, addr, ha, hul⟩ := h
  have hpos : peer.port > 0 := UInt16.pos_iff_ne_zero.mpr hport
  simp [PeerAddress.isValid, AddressValidation.isValidPeerAddress, AddressValidation.isValidIp,
    AddressValidation.isValidPort, ha, hpos, isRoutableIp_of_uniqueLocal ha hul]

/-- **One insertion.** -/
theorem noPeerIn_addPeer_iff {s : PeerDiscovery} (h : NoPeerIn makeAddress IpAddress.UniqueLocal s)
    (peer : PeerAddress) :
    NoPeerIn makeAddress IpAddress.UniqueLocal (s.addPeer makeAddress config peer).2 ↔
      ¬ (s.peers.size < config.maxPeers ∧ UniqueLocalPeer makeAddress peer) := by
  constructor
  · rintro hno ⟨hroom, hul⟩
    obtain ⟨p, hp, hkey⟩ := mem_addPeer_of_room hul.isValid hroom
    obtain ⟨-, addr, ha, hin⟩ := hul
    refine hno p hp addr ?_ hin
    rw [show p.ip = peer.ip from congrArg Prod.fst hkey]
    exact ha
  · intro hnot p hp addr ha hin
    rcases addPeer_cases makeAddress config s peer with ⟨-, hvalid, hroom, -, hmem⟩ | ⟨-, hsame⟩
    · rcases (hmem p).mp hp with rfl | hold
      · exact hnot ⟨hroom, UInt16.pos_iff_ne_zero.mp (port_pos_of_valid hvalid), addr, ha, hin⟩
      · exact h p hold addr ha hin
    · rw [hsame] at hp
      exact h p hp addr ha hin

variable (makeAddress) in
/-- while the peers are inserted one after the other, one of them is in `fc00::/7`, with a port, and
there is room for it -/
def EntersUniqueLocal (s : PeerDiscovery) (peers : List PeerAddress) : Prop :=
  ∃ before peer after, peers = before ++ peer :: after ∧
    (s.addPeers makeAddress config before).2.peers.size < config.maxPeers ∧
    UniqueLocalPeer makeAddress peer

theorem entersUniqueLocal_cons {s : PeerDiscovery} {peer : PeerAddress} {peers : List PeerAddress} :
    EntersUniqueLocal makeAddress config s (peer :: peers) ↔
      (s.peers.size < config.maxPeers ∧ UniqueLocalPeer makeAddress peer) ∨
        EntersUniqueLocal makeAddress config (s.addPeer makeAddress config peer).2 peers := by
  constructor
  · rintro ⟨before, p, after, he, hroom, hul⟩
    cases before with
    | nil =>
      cases he
      exact .inl ⟨hroom, hul⟩
    | cons q before =>
      cases he
      exact .inr ⟨before, p, after, rfl, hroom, hul⟩
  · rintro (⟨hroom, hul⟩ | ⟨before, p, after, rfl, hroom, hul⟩)
    · exact ⟨[], peer, peers, rfl, hroom, hul⟩
    · exact ⟨peer :: before, p, after, rfl, hroom, hul⟩

/-- a peer in the table stays there while others are inserted -/
theorem NoPeerIn.of_addPeers {p : IpAddress → Prop} {s : PeerDiscovery} {peers : List PeerAddress}
    (h : NoPeerIn makeAddress p (s.addPeers makeAddress config peers).2) :
    NoPeerIn makeAddress p s := by
  induction peers generalizing s with
  | nil => exact h
  | cons peer peers ih =>
    have hnext : NoPeerIn makeAddress p (s.addPeer makeAddress config peer).2 := ih h
    intro q hq
    refine hnext q ?_
    rcases addPeer_cases makeAddress config s peer with ⟨-, -, -, -, hmem⟩ | ⟨-, hsame⟩
    · exact (hmem q).mpr (.inr hq)
    · rw [hsame]
      exact hq

/-- **The insertions of a call.** -/
theorem noPeerIn_addPeers_iff {s : PeerDiscovery} (h : NoPeerIn makeAddress IpAddress.UniqueLocal s)
    (peers : List PeerAddress) :
    NoPeerIn makeAddress IpAddress.UniqueLocal (s.addPeers makeAddress config peers).2 ↔
      ¬ EntersUniqueLocal makeAddress config s peers := by
  induction peers generalizing s with
  | nil =>
    refine ⟨fun _ => ?_, fun _ => h⟩
    rintro ⟨before, peer, after, he, -⟩
    exact absurd he.symm (List.append_ne_nil_of_right_ne_nil _ (List.cons_ne_nil _ _))
  | cons peer peers ih =>
    rw [entersUniqueLocal_cons, not_or, ← noPeerIn_addPeer_iff config h]
    show NoPeerIn makeAddress IpAddress.UniqueLocal
      ((s.addPeer makeAddress config peer).2.addPeers makeAddress config peers).2 ↔ _
    constructor
    · intro hno
      have hfirst := NoPeerIn.of_addPeers config hno
      exact ⟨hfirst, (ih hfirst).mp hno⟩
    · rintro ⟨hfirst, hrest⟩
      exact (ih hfirst).mpr hrest

/-- **One call.** -/
theorem noPeerIn_step_iff {s : PeerDiscovery} (h : NoPeerIn makeAddress IpAddress.UniqueLocal s)
    (call : DiscoveryCall) :
    NoPeerIn makeAddress IpAddress.UniqueLocal (s.step makeAddress config call) ↔
      ¬ EntersUniqueLocal makeAddress config s (call.offers config s) := by
  cases hc : call.removes with
  | false =>
    rw [← noPeerIn_addPeers_iff config h]
    unfold NoPeerIn
    rw [step_offers hc]
  | true =>
    have hnone : call.offers config s = [] := by
      cases call with
      | removePeer addr => rfl
      | cleanupStalePeers clock maxAge => rfl
      | _ => cases hc
    rw [hnone, ← noPeerIn_addPeers_iff config h]
    exact ⟨fun _ => h, fun _ p hp => h p ((step_removes hc).mem hp)⟩

theorem noPrivate_iff {s : PeerDiscovery} (hs : Sound makeAddress config s) :
    NoPeerIn makeAddress IpAddress.Private s ↔ NoPeerIn makeAddress IpAddress.UniqueLocal s := by
  refine forall_congr' fun peer => forall_congr' fun hpeer => forall_congr' fun addr =>
    forall_congr' fun ha => not_congr ?_
  obtain ⟨hp, hl⟩ := routable_of_valid (hs.valid peer hpeer) ha
  exact IpAddress.private_iff hp hl

variable (makeAddress)

/-- **No private address is in the table exactly when**, in the run, no call offers a peer in
`fc00::/7` with a port other than 0 while there is room for it. -/
theorem no_private_address_iff (calls : List DiscoveryCall) :
    EveryState (PeerDiscovery.step makeAddress config) (NoPeerIn makeAddress IpAddress.Private) {}
        calls ↔
      EveryStep (PeerDiscovery.step makeAddress config)
        (fun s call => ¬ EntersUniqueLocal makeAddress config s (call.offers config s)) {} calls := by
  have hstart : Sound makeAddress config {} := ⟨Nat.zero_le _, fun _ h => nomatch h⟩
  refine everyState_iff (Sound makeAddress config) (fun _ call h => h.step call) ?_ calls hstart
    (fun _ h => nomatch h)
  intro s call hs h
  rw [noPrivate_iff config (hs.step call)]
  exact noPeerIn_step_iff config ((noPrivate_iff config hs).mp h) call

end

/-- `fd00::` -/
def uniqueLocalAddress : Str → Option IpAddress := fun ip =>
  if ip = str "fd00::" then some (.v6 #v[0xfd, 0, 0, 0, 0, 0, 0, 0, 0, 0, 0, 0, 0, 0, 0, 0]) else none

theorem unique_local_enters :
    ¬ EveryState (PeerDiscovery.step uniqueLocalAddress {})
        (NoPeerIn uniqueLocalAddress IpAddress.Private) {}
        [.addPeer ⟨str "fd00::", 8333, 0, 0⟩] := by
  intro h
  have hmem : ⟨str "fd00::", 8333, 0, 0⟩ ∈
      (PeerDiscovery.step uniqueLocalAddress {} {} (.addPeer ⟨str "fd00::", 8333, 0, 0⟩)).peers.elems := by
    decide +kernel
  refine h.last _ hmem _ rfl (.inr (.inl ?_))
  show IpAddress.value _ / 2 ^ 121 = 0xfc00 * 2 ^ 112 / 2 ^ 121
  decide +kernel

end P2p
end ChainForge
