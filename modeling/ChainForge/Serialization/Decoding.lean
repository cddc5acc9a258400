import ChainForge.Core.AmountText
import ChainForge.Serialization.Serializer

/-!
# Which bytes make a decoder throw

The six `deserialize_*` functions of `modules/serialization/src/serializer.cpp` on arbitrary bytes.
Those of the basic types check the sizes or catch the exceptions; `deserialize_block` and
`deserialize_transaction` hand what they find in the message to constructors and number parsers
that throw.

`Returns x` says that `x` is a value or an error that is returned.

* `transactionOfProto_returns`    a message is refused by an exception exactly if it is not
                                  `Readable`;
* `decoding_returns_iff`          **which bytes the six decoders survive**.
-/

set_option linter.unusedSectionVars false

namespace ChainForge
open Text

theorem Bytes.ofVector_ok_iff (n : Nat) (what : String) (v : List UInt8) :
    (∃ b, Bytes.ofVector n what v = .ok b) ↔ v.length = n := by
  unfold Bytes.ofVector
  by_cases h : v.length = n
  · rw [dif_pos h]
    exact ⟨fun _ => h, fun _ => ⟨_, rfl⟩⟩
  · rw [dif_neg h]
    constructor
    · rintro ⟨b, hb⟩
      cases hb
    · intro hv
      exact absurd hv h

namespace Serialization
open Wire

/-! ## exceptions -/

section
variable {α β : Type}

/-- no exception leaves the function -/
def Returns (x : Except Failure α) : Prop := ∀ e, x ≠ .error (.thrown e)

theorem returns_ok (a : α) : Returns (.ok a) := by
  intro e h
  cases h

theorem returns_returned (code : SerializationError) (message : String) :
    Returns (.error (.returned code message) : Except Failure α) := by
  intro e h
  cases h

/-- a step that throws, and what follows it -/
theorem returns_throwing_bind {x : Except Exn α} {f : α → Except Failure β} {P Q : Prop}
    (hx : (∃ a, x = .ok a) ↔ P) (hf : ∀ a, Returns (f a) ↔ Q) :
    Returns (throwing x >>= f) ↔ P ∧ Q := by
  cases x with
  | ok a =>
    have hP : P := hx.mp ⟨a, rfl⟩
    exact ⟨fun h => ⟨hP, (hf a).mp h⟩, fun h => (hf a).mpr h.2⟩
  | error e =>
    constructor
    · intro h
      exact absurd rfl (h e)
    · intro h
      obtain ⟨a, ha⟩ := hx.mpr h.1
      cases ha

end

/-! ## the basic types -/

/-- what protobuf provides for the messages of `types.proto` -/
structure TypesProtobuf where
  address : Codec Blob
  amount : Codec Blob
  timestamp : Codec ProtoTimestamp
  hash : Codec Blob

def TypesProtobuf.wire : TypesProtobuf :=
  ⟨Blob.type.codec, Blob.type.codec, ProtoTimestamp.type.codec, Blob.type.codec⟩

/-- the common form of `deserialize_address` and `deserialize_hash` -/
def deserializeArray (n : Nat) (kind what : String) (codec : Codec Blob) (data : List UInt8) :
    Except Failure (Bytes n) :=
  match codec.parseFromArray data with
  | none => .error (.returned .corruptedData ("Failed to parse " ++ kind ++ " protobuf"))
  | some m =>
    if m.data.length ≠ n then .error (.returned .invalidData ("Invalid " ++ kind ++ " size"))
    else throwing (Bytes.ofVector n what m.data)

def deserializeAddress (pt : TypesProtobuf) : List UInt8 → Except Failure Address :=
  deserializeArray 20 "address" "Invalid data size for address" pt.address

def deserializeHash (pt : TypesProtobuf) : List UInt8 → Except Failure Hash :=
  deserializeArray 32 "hash" "Invalid data size for hash" pt.hash

def deserializeAmount (pt : TypesProtobuf) (data : List UInt8) : Except Failure Amount :=
  match pt.amount.parseFromArray data with
  | none => .error (.returned .corruptedData "Failed to parse amount protobuf")
  | some m =>
    match stoullE m.data with
    | .ok wei => .ok wei
    | .error e => .error (.returned .invalidData ("Failed to parse amount: " ++ e.what))

def deserializeTimestamp (pt : TypesProtobuf) (data : List UInt8) : Except Failure UInt64 :=
  match pt.timestamp.parseFromArray data with
  | none => .error (.returned .corruptedData "Failed to parse timestamp protobuf")
  | some m => throwing (Timestamp.fromSeconds m.seconds)

theorem deserializeArray_returns (n : Nat) (kind what : String) (codec : Codec Blob)
    (data : List UInt8) : Returns (deserializeArray n kind what codec data) := by
  unfold deserializeArray
  cases codec.parseFromArray data with
  | none => exact returns_returned _ _
  | some m =>
    dsimp only
    by_cases h : m.data.length ≠ n
    · rw [if_pos h]
      exact returns_returned _ _
    · obtain ⟨b, hb⟩ := (Bytes.ofVector_ok_iff n what m.data).mpr (not_not.mp h)
      rw [if_neg h, hb]
      exact returns_ok b

theorem deserializeAmount_returns (pt : TypesProtobuf) (data : List UInt8) :
    Returns (deserializeAmount pt data) := by
  unfold deserializeAmount
  cases pt.amount.parseFromArray data with
  | none => exact returns_returned _ _
  | some m =>
    dsimp only
    cases stoullE m.data with
    | ok wei => exact returns_ok wei
    | error e => exact returns_returned _ _

theorem deserializeTimestamp_returns (pt : TypesProtobuf) (data : List UInt8) :
    Returns (deserializeTimestamp pt data) := by
  unfold deserializeTimestamp
  cases pt.timestamp.parseFromArray data with
  | none => exact returns_returned _ _
  | some m =>
    dsimp only
    rw [Timestamp.fromSeconds_eq]
    exact returns_ok m.seconds

/-! ## transactions -/

/-- the sender, the recipient, the amount and the gas price are what the constructors and parsers
expect, as far as the message gets to them -/
def ProtoTransaction.Readable (m : ProtoTransaction) : Prop :=
  match m.inputs with
  | [] => True
  | input :: _ => (input.pubkey.getD {}).data.length = 20 ∧
    match m.outputs with
    | [] => True
    | output :: _ => (output.recipient.getD {}).data.length = 20 ∧
      Amount.Readable (output.amount.getD {}).data ∧ Numeral (m.gasPrice.getD {}).data

theorem transactionOfProto_returns (m : ProtoTransaction) :
    Returns (transactionOfProto m) ↔ m.Readable := by
  unfold transactionOfProto ProtoTransaction.Readable
  cases m.inputs with
  | nil => exact ⟨fun _ => trivial, fun _ => returns_returned _ _⟩
  | cons input inputs =>
    refine returns_throwing_bind (Bytes.ofVector_ok_iff 20 _ _) fun fromAddr => ?_
    cases m.outputs with
    | nil => exact ⟨fun _ => trivial, fun _ => returns_returned _ _⟩
    | cons output outputs =>
      refine returns_throwing_bind (Bytes.ofVector_ok_iff 20 _ _) fun toAddr => ?_
      refine returns_throwing_bind (Amount.fromString_ok_iff _) fun amount => ?_
      have hprice : (∃ n, stoullE (m.gasPrice.getD {}).data = .ok n) ↔
          Numeral (m.gasPrice.getD {}).data := by
        simp only [stoullE, mapError_eq_ok, stoull_ok_iff]
      rw [← and_true (Numeral (m.gasPrice.getD {}).data)]
      exact returns_throwing_bind hprice fun gasPrice => ⟨fun _ => trivial, fun _ => returns_ok _⟩

theorem deserializeTransaction_returns (pb : Protobuf) (data : List UInt8) :
    Returns (deserializeTransaction pb data) ↔
      ∀ m, pb.transaction.parseFromArray data = some m → m.Readable := by
  unfold deserializeTransaction
  cases pb.transaction.parseFromArray data with
  | none => exact ⟨fun _ m h => (nomatch h), fun _ => returns_returned _ _⟩
  | some m =>
    simp only [Option.some.injEq, forall_eq']
    exact transactionOfProto_returns m

/-! ## blocks -/

/-- both ends are there, so that no error is returned -/
def ProtoTransaction.Complete (m : ProtoTransaction) : Prop := m.inputs ≠ [] ∧ m.outputs ≠ []

/-- every message that the loop gets to is readable -/
def readableInTurn : List ProtoTransaction → Prop
  | [] => True
  | m :: ms => m.Readable ∧ (m.Complete → readableInTurn ms)

def ProtoBlock.Readable (m : ProtoBlock) : Prop :=
  ((m.header.getD {}).prevBlockHash.getD {}).data.length = 32 ∧ readableInTurn m.transactions

theorem transactionOfProto_ok_iff {m : ProtoTransaction} (hm : m.Readable) :
    (∃ tx, transactionOfProto m = .ok tx) ↔ m.Complete := by
  unfold ProtoTransaction.Readable at hm
  unfold transactionOfProto ProtoTransaction.Complete
  cases hi : m.inputs with
  | nil =>
    constructor
    · rintro ⟨tx, h⟩
      cases h
    · intro h
      exact absurd rfl h.1
  | cons input inputs =>
    rw [hi] at hm
    obtain ⟨fromAddr, hfrom⟩ := (Bytes.ofVector_ok_iff 20 "Invalid data size for address" _).mpr hm.1
    have hm := hm.2
    cases ho : m.outputs with
    | nil =>
      dsimp only
      rw [Address.ofVector, hfrom]
      constructor
      · rintro ⟨tx, h⟩
        cases h
      · intro h
        exact absurd rfl h.2
    | cons output outputs =>
      rw [ho] at hm
      obtain ⟨hto, hamount, hprice⟩ := hm
      obtain ⟨toAddr, hto⟩ := (Bytes.ofVector_ok_iff 20 "Invalid data size for address" _).mpr hto
      obtain ⟨amount, hamount⟩ := (Amount.fromString_ok_iff _).mpr hamount
      obtain ⟨gasPrice, hprice⟩ := (stoull_ok_iff _).mpr hprice
      dsimp only
      rw [Address.ofVector, hfrom, hto, hamount, stoullE, hprice]
      exact ⟨fun _ => ⟨List.cons_ne_nil _ _, List.cons_ne_nil _ _⟩, fun _ => ⟨_, rfl⟩⟩

theorem addTransactions_returns (pb : Protobuf) (H : List UInt8 → Hash)
    (ms : List ProtoTransaction) (b : Block) :
    Returns (addTransactions pb H ms b) ↔ readableInTurn ms := by
  induction ms generalizing b with
  | nil => exact ⟨fun _ => trivial, fun _ => returns_ok b⟩
  | cons m ms ih =>
    -- the message is written and read again, and so is back
    obtain ⟨bytes, hs, hp⟩ := pb.transaction.parse_serialize m
    have hd : deserializeTransaction pb bytes = transactionOfProto m := by
      unfold deserializeTransaction
      rw [hp]
    unfold addTransactions readableInTurn
    rw [hs]
    dsimp only
    rw [hd, ← transactionOfProto_returns]
    cases ht : transactionOfProto m with
    | ok tx =>
      have hm : m.Readable := by
        rw [← transactionOfProto_returns, ht]
        exact returns_ok tx
      have hc : m.Complete := (transactionOfProto_ok_iff hm).mp ⟨tx, ht⟩
      refine (ih _).trans ⟨fun h => ⟨returns_ok tx, fun _ => h⟩, fun h => h.2 hc⟩
    | error f =>
      constructor
      · intro h
        have hr : Returns (.error f : Except Failure Transaction) := by
          intro e he
          cases he
          exact h e rfl
        refine ⟨hr, fun hc => ?_⟩
        rw [← ht, transactionOfProto_returns] at hr
        obtain ⟨tx, htx⟩ := (transactionOfProto_ok_iff hr).mpr hc
        rw [ht] at htx
        cases htx
      · intro h e he
        cases he
        exact h.1 e rfl

theorem deserializeBlock_returns (pb : Protobuf) (H : List UInt8 → Hash) (data : List UInt8) :
    Returns (deserializeBlock pb H data) ↔
      ∀ m, pb.block.parseFromArray data = some m → m.Readable := by
  unfold deserializeBlock
  cases pb.block.parseFromArray data with
  | none => exact ⟨fun _ m h => (nomatch h), fun _ => returns_returned _ _⟩
  | some m =>
    have h : Returns (do
        let parentHash ← throwing (Hash.ofVector ((m.header.getD {}).prevBlockHash.getD {}).data)
        let timestamp ← throwing
          (Timestamp.fromSeconds ((m.header.getD {}).timestamp.getD {}).seconds)
        addTransactions pb H m.transactions (emptyBlock (m.header.getD {}) parentHash timestamp))
        ↔ m.Readable := by
      refine returns_throwing_bind (Bytes.ofVector_ok_iff 32 _ _) fun parentHash => ?_
      rw [Timestamp.fromSeconds_eq]
      exact addTransactions_returns pb H m.transactions _
    simp only [Option.some.injEq, forall_eq']
    exact h

/-- **Which bytes the decoders survive**: those of the basic types survive all, and those of
blocks and transactions throw exactly when the bytes are those of a message that is not
readable. -/
theorem decoding_returns_iff (pb : Protobuf) (pt : TypesProtobuf) (H : List UInt8 → Hash)
    (data : List UInt8) :
    (Returns (deserializeBlock pb H data) ↔
        ∀ m, pb.block.parseFromArray data = some m → m.Readable) ∧
      (Returns (deserializeTransaction pb data) ↔
        ∀ m, pb.transaction.parseFromArray data = some m → m.Readable) ∧
      Returns (deserializeAddress pt data) ∧ Returns (deserializeAmount pt data) ∧
      Returns (deserializeTimestamp pt data) ∧ Returns (deserializeHash pt data) :=
  ⟨deserializeBlock_returns pb H data, deserializeTransaction_returns pb data,
    deserializeArray_returns _ _ _ _ _, deserializeAmount_returns pt data,
    deserializeTimestamp_returns pt data, deserializeArray_returns _ _ _ _ _⟩

example : deserializeAddress TypesProtobuf.wire []
    = .error (.returned .invalidData "Invalid address size") := by
  decide +kernel

/-- no bytes at all are a block without a header, and its parent hash has no bytes -/
theorem empty_block_throws :
    deserializeBlock Protobuf.wire hashSha256 []
      = .error (.thrown (.invalidArgument "Invalid data size for hash")) := by
  decide +kernel

end Serialization

end ChainForge
