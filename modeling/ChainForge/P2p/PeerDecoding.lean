import ChainForge.P2p.PeerExchange

/-!
# Peer exchange on arbitrary bytes

`deserialize_peers` on a buffer that nobody serialised.  A buffer of four bytes or more is a count
and then, as far as the decoder gets, complete records.

* `bigEndian_ofBigEndian`   bytes are the bytes of the number that they write;
* `record_of_length`        enough bytes behind a length byte are a complete record;
* `readPeer_cut`            anything shorter makes the loop stop, and nothing is read past the end;
* `readPeers_exact`         **the loop reads as many records as there are**, at most the count;
* `hostile_decoding`        the same for the function.
-/

set_option linter.unusedSectionVars false

namespace ChainForge
open Buffer

theorem bigEndian_ofBigEndian (l : List UInt8) : bigEndian l.length (ofBigEndian l) = l := by
  induction l using List.reverseRecOn with
  | nil => rfl
  | append_singleton l b ih =>
    have hb := b.toNat_lt
    have hhigh : (ofBigEndian l * 256 + b.toNat) / 256 = ofBigEndian l := by omega
    have hlow : UInt8.ofNat (ofBigEndian l * 256 + b.toNat) = b := by
      apply UInt8.toNat_inj.mp
      rw [UInt8.toNat_ofNat']
      omega
    rw [List.length_append, List.length_singleton, ofBigEndian_concat, bigEndian_succ, hhigh, hlow,
      ih]

namespace P2p
namespace PeerExchange

/-- the bytes begin with a record as `serialize_peers` writes it -/
def BeginsRecord (bytes : List UInt8) : Prop :=
  ∃ peer : PeerAddress, peer.ip.length ≤ 255 ∧ serializePeer peer <+: bytes

/-! ## complete records -/

theorem exists_word16 {l : List UInt8} (h : l.length = 2) : ∃ x : UInt16, bigEndian 2 x.toNat = l := by
  refine ⟨UInt16.ofNat (ofBigEndian l), ?_⟩
  have hlt : ofBigEndian l < 2 ^ 16 := by
    have := ofBigEndian_lt l
    rwa [h] at this
  rw [UInt16.toNat_ofNat_of_lt' hlt, ← h]
  exact bigEndian_ofBigEndian l

theorem exists_word32 {l : List UInt8} (h : l.length = 4) : ∃ x : UInt32, bigEndian 4 x.toNat = l := by
  refine ⟨UInt32.ofNat (ofBigEndian l), ?_⟩
  have hlt : ofBigEndian l < 2 ^ 32 := by
    have := ofBigEndian_lt l
    rwa [h] at this
  rw [UInt32.toNat_ofNat_of_lt' hlt, ← h]
  exact bigEndian_ofBigEndian l

/-- a length byte, and at least the bytes that it announces, a port and services -/
theorem record_of_length {n : UInt8} {l : List UInt8} (h : n.toNat + 6 ≤ l.length) (now : Int) :
    ∃ peer rest, n :: l = serializePeer peer ++ rest ∧ peer.ip.length ≤ 255 ∧ peer.lastSeen = now := by
  have hn := n.toNat_lt
  obtain ⟨port, hport⟩ := exists_word16 (l := (l.drop n.toNat).take 2)
    (by rw [List.length_take, List.length_drop]; omega)
  obtain ⟨services, hservices⟩ := exists_word32 (l := (l.drop (n.toNat + 2)).take 4)
    (by rw [List.length_take, List.length_drop]; omega)
  have hip : (l.take n.toNat).length = n.toNat := by
    rw [List.length_take]
    omega
  refine ⟨⟨l.take n.toNat, port, now, services⟩, l.drop (n.toNat + 2 + 4), ?_, ?_, rfl⟩
  · have hl : l = l.take n.toNat ++ ((l.drop n.toNat).take 2 ++ ((l.drop (n.toNat + 2)).take 4 ++
        l.drop (n.toNat + 2 + 4))) := by
      rw [← List.drop_drop (i := 4), List.take_append_drop, ← List.drop_drop (i := 2),
        List.take_append_drop, List.take_append_drop]
    unfold serializePeer
    rw [hport, hservices, hip, UInt8.ofNat_toNat]
    simpa only [List.cons_append, List.append_assoc, List.cons.injEq, true_and] using hl
  · show (l.take n.toNat).length ≤ 255
    omega

/-! ## records that are cut off -/

theorem readU16_isSome {data : List UInt8} {pos : Nat} (h : pos + 2 ≤ data.length) :
    ∃ x, readU16 data pos = some x := by
  unfold readU16
  rw [List.getElem?_eq_getElem (by omega), List.getElem?_eq_getElem (by omega)]
  exact ⟨_, rfl⟩

theorem readPeer_end {data : List UInt8} {pos : Nat} (now : Int) (h : data.drop pos = []) :
    readPeer now data pos = some none := by
  unfold readPeer
  rw [if_pos (List.drop_eq_nil_iff.mp h)]

/-- each of the bounds tests ends the loop before a read past the end -/
theorem readPeer_cut {data l : List UInt8} {n : UInt8} {pos : Nat} (now : Int)
    (h : data.drop pos = n :: l) (hcut : l.length < n.toNat + 6) :
    readPeer now data pos = some none := by
  have hlen : data.length = pos + (l.length + 1) := length_of_drop h (Nat.succ_pos _)
  have h0 : data[pos]? = some n := getElem?_of_drop h 0
  unfold readPeer
  rw [if_neg (by omega), h0]
  dsimp only [Option.bind_eq_bind, Option.bind_some]
  by_cases h1 : pos + 1 + n.toNat > data.length
  · rw [if_pos h1]
  rw [if_neg h1]
  by_cases h2 : pos + 1 + n.toNat + 2 > data.length
  · rw [if_pos h2]
  rw [if_neg h2]
  obtain ⟨port, hport⟩ : ∃ x, readU16 data (pos + 1 + n.toNat) = some x :=
    readU16_isSome (by omega)
  rw [hport, Option.bind_some, if_pos (by omega)]

/-- **One round**: a complete record is read, or there is none. -/
theorem readPeer_exact (data : List UInt8) (pos : Nat) (now : Int) :
    (∃ peer rest, data.drop pos = serializePeer peer ++ rest ∧
        readPeer now data pos = some (some (peer, pos + (serializePeer peer).length))) ∨
      readPeer now data pos = some none ∧ ¬ BeginsRecord (data.drop pos) := by
  cases h : data.drop pos with
  | nil =>
    refine .inr ⟨readPeer_end now h, ?_⟩
    rintro ⟨peer, _, hp⟩
    cases List.prefix_nil.mp hp
  | cons n l =>
    by_cases hl : n.toNat + 6 ≤ l.length
    · obtain ⟨peer, rest, e, hip, rfl⟩ := record_of_length hl now
      exact .inl ⟨peer, rest, e, readPeer_serialize peer.lastSeen (h.trans e) hip⟩
    · refine .inr ⟨readPeer_cut now h (by omega), ?_⟩
      rintro ⟨peer, hip, rest, e⟩
      have hr := readPeer_serialize now (h.trans e.symm) hip
      rw [readPeer_cut now h (by omega)] at hr
      cases hr

/-! ## the loop -/

/-- by induction on the rounds: what was read, and what follows it -/
theorem readPeers_exact (clock : Nat → Int) (data : List UInt8) (rounds i pos : Nat) :
    ∃ peers rest, readPeers clock data rounds i pos = some peers ∧
      data.drop pos = peers.flatMap serializePeer ++ rest ∧ peers.length ≤ rounds ∧
      (peers.length = rounds ∨ ¬ BeginsRecord rest) := by
  induction rounds generalizing i pos with
  | zero => exact ⟨[], data.drop pos, rfl, rfl, le_rfl, .inl rfl⟩
  | succ rounds ih =>
    rcases readPeer_exact data pos (clock i) with ⟨peer, rest, h, hread⟩ | ⟨hread, hnone⟩
    · obtain ⟨peers, rest', hreads, hdrop, hle, hend⟩ :=
        ih (i + 1) (pos + (serializePeer peer).length)
      have hpos : pos < data.length := by
        have := length_of_drop h (by rw [List.length_append, serializePeer_length]; omega)
        rw [List.length_append, serializePeer_length] at this
        omega
      refine ⟨peer :: peers, rest', ?_, ?_, Nat.succ_le_succ hle, ?_⟩
      · rw [readPeers, if_pos hpos, hread]
        dsimp only [Option.bind_eq_bind, Option.bind_some]
        rw [hreads, Option.bind_some]
      · rw [h, List.flatMap_cons, List.append_assoc, ← hdrop, drop_of_drop h rfl]
      · exact hend.imp (congrArg (· + 1)) id
    · refine ⟨[], data.drop pos, ?_, rfl, Nat.zero_le _, .inr hnone⟩
      rw [readPeers, hread]
      dsimp only [Option.bind_eq_bind, Option.bind_some]
      split <;> rfl

/-- **Decoding of arbitrary bytes.**  The decoder returns and reads nothing past the end.  What it
returns for at least four bytes is encoded by the bytes that follow the count, in order and from
the first one on; and if it is less than the count announces, the next bytes do not begin with a
complete record. -/
theorem hostile_decoding (clock : Nat → Int) (data : List UInt8) :
    ∃ peers, deserializePeers clock data = some peers ∧
      (4 ≤ data.length → ∃ rest, data.drop 4 = peers.flatMap serializePeer ++ rest ∧
        peers.length ≤ ofBigEndian (data.take 4) ∧
        (peers.length = ofBigEndian (data.take 4) ∨ ¬ BeginsRecord rest)) := by
  by_cases hlen : data.length < 4
  · refine ⟨[], ?_, fun h => absurd hlen (Nat.not_lt.mpr h)⟩
    unfold deserializePeers
    rw [if_pos hlen]
  · obtain ⟨count, hcount⟩ := exists_word32 (l := data.take 4) (by rw [List.length_take]; omega)
    have hdata : data.drop 0 = bigEndian 4 count.toNat ++ data.drop 4 := by
      rw [hcount, List.take_append_drop]
      rfl
    have hval : count.toNat = ofBigEndian (data.take 4) := by
      rw [← hcount, ofBigEndian_bigEndian]
      exact (Nat.mod_eq_of_lt count.toNat_lt).symm
    obtain ⟨peers, rest, hread, hrest⟩ := readPeers_exact clock data count.toNat 0 4
    refine ⟨peers, ?_, fun _ => ⟨rest, hval ▸ hrest⟩⟩
    unfold deserializePeers
    rw [if_neg hlen, readU32_bigEndian hdata]
    exact hread

-- a count of two billion, one record, and a length byte with nothing behind it
example : deserializePeers (fun _ => 0) [127, 255, 255, 255, 1, 65, 32, 141, 0, 0, 0, 1, 9]
    = some [⟨[65], 8333, 0, 1⟩] := by decide

end PeerExchange
end P2p
end ChainForge
