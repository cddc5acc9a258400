import ChainForge.Serialization.Decoding

/-!
# The codecs of addresses, hashes, amounts and times

`serialize_address`, `serialize_amount`, `serialize_timestamp` and `serialize_hash` of
`modules/serialization/src/serializer.cpp`, against the decoders of `Decoding`.  An amount travels as
decimal text in a `bytes` field and is read by `std::stoull`.

* `primitives_round_trip`    **each codec reads back what it wrote**;
* `amount_numeral_iff`       **which bytes `deserialize_amount` takes for a plain number only**: it also
                             reads white space, a sign and text after the digits.
-/

set_option linter.unusedSectionVars false

namespace ChainForge
namespace Serialization
open Wire Text

/-- the common form of `serialize_address` and `serialize_hash` -/
def serializeArray {n : Nat} (codec : Codec Blob) (b : Bytes n) : Except Failure (List UInt8) :=
  serializeToBytes codec ⟨b.1⟩

def serializeAddress (pt : TypesProtobuf) (addr : Address) : Except Failure (List UInt8) :=
  serializeArray pt.address addr

def serializeHash (pt : TypesProtobuf) (hash : Hash) : Except Failure (List UInt8) :=
  serializeArray pt.hash hash

def serializeAmount (pt : TypesProtobuf) (amount : Amount) : Except Failure (List UInt8) :=
  serializeToBytes pt.amount ⟨toDecimal amount.toNat⟩

def serializeTimestamp (pt : TypesProtobuf) (ts : UInt64) : Except Failure (List UInt8) :=
  serializeToBytes pt.timestamp { seconds := ts, nanoseconds := 0 }

/-! ## round trips -/

/-- a message is written, and the decoder sees it again -/
theorem serialize_bind {M α : Type} (codec : Codec M) (m : M) {f : List UInt8 → Except Failure α}
    {x : α} (h : ∀ data, codec.parseFromArray data = some m → f data = .ok x) :
    (serializeToBytes codec m >>= f) = .ok x := by
  obtain ⟨data, hs, hp⟩ := exists_serialize codec m
  rw [hs]
  exact h data hp

theorem array_round_trip {n : Nat} (kind what : String) (codec : Codec Blob) (b : Bytes n) :
    (serializeArray codec b >>= deserializeArray n kind what codec) = .ok b := by
  refine serialize_bind codec _ fun data hp => ?_
  unfold deserializeArray
  rw [hp]
  dsimp only
  rw [if_neg (not_not.mpr b.2), Bytes.ofVector_val]
  rfl

theorem amount_round_trip (pt : TypesProtobuf) (amount : Amount) :
    (serializeAmount pt amount >>= deserializeAmount pt) = .ok amount := by
  refine serialize_bind pt.amount _ fun data hp => ?_
  unfold deserializeAmount
  rw [hp]
  dsimp only
  rw [stoullE, stoull_toDecimal]
  rfl

theorem timestamp_round_trip (pt : TypesProtobuf) (ts : UInt64) :
    (serializeTimestamp pt ts >>= deserializeTimestamp pt) = .ok ts := by
  refine serialize_bind pt.timestamp _ fun data hp => ?_
  unfold deserializeTimestamp
  rw [hp]
  dsimp only
  rw [Timestamp.fromSeconds_eq]
  rfl

/-- **The four codecs read back what they wrote**, whatever protobuf makes of the messages. -/
theorem primitives_round_trip (pt : TypesProtobuf) :
    (∀ addr : Address, (serializeAddress pt addr >>= deserializeAddress pt) = .ok addr) ∧
      (∀ hash : Hash, (serializeHash pt hash >>= deserializeHash pt) = .ok hash) ∧
      (∀ amount : Amount, (serializeAmount pt amount >>= deserializeAmount pt) = .ok amount) ∧
      ∀ ts : UInt64, (serializeTimestamp pt ts >>= deserializeTimestamp pt) = .ok ts :=
  ⟨fun addr => array_round_trip _ _ _ addr, fun hash => array_round_trip _ _ _ hash,
    amount_round_trip pt, timestamp_round_trip pt⟩

/-! ## amounts on the wire -/

/-- digits and nothing else, of a number below `2^64` -/
def PlainNumeral (s : Str) : Prop := s ≠ [] ∧ (∀ d ∈ s, isDigit d = true) ∧ ofDecimal s < 2^64

theorem deserializeAmount_ok_iff (pt : TypesProtobuf) (data : List UInt8) (wei : Amount) :
    deserializeAmount pt data = .ok wei ↔
      ∃ m, pt.amount.parseFromArray data = some m ∧ stoull m.data = .ok wei := by
  unfold deserializeAmount
  cases pt.amount.parseFromArray data with
  | none =>
    constructor
    · intro h
      cases h
    · rintro ⟨m, h, _⟩
      cases h
  | some m =>
    simp only [Option.some.injEq, exists_eq_left', stoullE]
    cases stoull m.data with
    | ok n =>
      constructor
      · intro h
        cases h
        rfl
      · intro h
        cases h
        rfl
    | error e =>
      constructor
      · intro h
        cases h
      · intro h
        cases h

/-- an amount that is read is the value of the digits in the message, which holds nothing else -/
def AmountIsNumeral (pt : TypesProtobuf) (data : List UInt8) : Prop :=
  ∀ wei, deserializeAmount pt data = .ok wei →
    ∃ m, pt.amount.parseFromArray data = some m ∧ PlainNumeral m.data ∧
      wei.toNat = ofDecimal m.data

/-- **Which bytes are read as numerals only**: those where the field, if `std::stoull` finds a number
in it, has no white space, no sign and no text after the digits. -/
theorem amount_numeral_iff (pt : TypesProtobuf) (data : List UInt8) :
    AmountIsNumeral pt data ↔
      ∀ m, pt.amount.parseFromArray data = some m → Numeral m.data → PlainNumeral m.data := by
  constructor
  · intro h m hp hnum
    obtain ⟨wei, hw⟩ := (stoull_ok_iff m.data).mpr hnum
    obtain ⟨m', hp', hplain, _⟩ := h wei ((deserializeAmount_ok_iff pt data wei).mpr ⟨m, hp, hw⟩)
    rw [hp] at hp'
    cases hp'
    exact hplain
  · intro h wei hw
    obtain ⟨m, hp, hs⟩ := (deserializeAmount_ok_iff pt data wei).mp hw
    have hplain := h m hp ((stoull_ok_iff m.data).mp ⟨wei, hs⟩)
    refine ⟨m, hp, hplain, ?_⟩
    rw [stoull_digits m.data hplain.1 hplain.2.1 hplain.2.2] at hs
    cases hs
    rw [UInt64.toNat_ofNat', Nat.mod_eq_of_lt hplain.2.2]

/-- the text "-1" is not a numeral, and is read as the greatest amount -/
theorem minus_one_is_an_amount :
    deserializeAmount TypesProtobuf.wire [10, 2, 45, 49] = .ok 18446744073709551615 ∧
      TypesProtobuf.wire.amount.parseFromArray [10, 2, 45, 49] = some ⟨str "-1"⟩ ∧
      ¬ AmountIsNumeral TypesProtobuf.wire [10, 2, 45, 49] := by
  have hread : deserializeAmount TypesProtobuf.wire [10, 2, 45, 49] = .ok 18446744073709551615 := by
    decide +kernel
  have hparse : TypesProtobuf.wire.amount.parseFromArray [10, 2, 45, 49] = some ⟨str "-1"⟩ := by
    decide +kernel
  refine ⟨hread, hparse, fun h => ?_⟩
  obtain ⟨m, hp, hplain, _⟩ := h _ hread
  rw [hparse] at hp
  cases hp
  exact absurd (hplain.2.1 45 (by decide)) (by decide)

end Serialization
end ChainForge
