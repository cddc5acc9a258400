import ChainForge.Core.Block
import ChainForge.Serialization.Schema

/-!
# Serialisation

`modules/serialization/src/serializer.cpp`: transactions and blocks.  The serialisers and parsers
that protobuf generates for the two messages are arguments (`Protobuf`); all that is known of them
is that parsing undoes serialising.  `Protobuf.wire` is the proto3 wire format.

A value is written as the decimal number of its wei and read by `Amount::from_string`, which takes
a number without a decimal point for ether.

* `transaction_round_trip`   **what comes back of a transaction**: everything but the value, which
                             is multiplied by `10^18` modulo `2^64`.
-/

set_option linter.unusedSectionVars false

namespace ChainForge
namespace Serialization
open Wire Text

inductive SerializationError where
  | invalidData
  | bufferTooSmall
  | unsupportedVersion
  | corruptedData
  | encodingError
  deriving DecidableEq, Repr

/-- an error that is returned, with its text, or an exception -/
inductive Failure where
  | returned (code : SerializationError) (message : String)
  | thrown (e : Exn)
  deriving DecidableEq, Repr

/-- what protobuf provides for the two messages -/
structure Protobuf where
  transaction : Codec ProtoTransaction
  block : Codec ProtoBlock

def Protobuf.wire : Protobuf := ⟨ProtoTransaction.type.codec, ProtoBlock.type.codec⟩

def throwing {α : Type} (x : Except Exn α) : Except Failure α := x.mapError .thrown

def serializeToBytes {M : Type} (codec : Codec M) (m : M) : Except Failure (List UInt8) :=
  match codec.serializeToArray m with
  | some b => .ok b
  | none => .error (.returned .encodingError "Failed to serialize protobuf message")

/-! ## transactions -/

/-- the message that `serialize_transaction` fills in, at the time `now` -/
def protoOfTransaction (H : List UInt8 → Hash) (now : UInt64) (tx : Transaction) :
    ProtoTransaction where
  version := 1
  nonce := tx.nonce
  gasLimit := tx.gasLimit
  gasPrice := some ⟨toDecimal tx.gasPrice.toNat⟩
  data := tx.payload
  timestamp := some { seconds := now, nanoseconds := 0 }
  inputs := [{ prevTxHash := [], outputIndex := 0, pubkey := some ⟨tx.fromAddr.1⟩,
               signature := some ⟨[]⟩ }]
  outputs := [{ amount := some ⟨toDecimal tx.value.toNat⟩, recipient := some ⟨tx.toAddr.1⟩ }]
  txHash := some ⟨(tx.calculateHash H).1⟩

def serializeTransaction (pb : Protobuf) (H : List UInt8 → Hash) (now : UInt64) (tx : Transaction) :
    Except Failure (List UInt8) :=
  serializeToBytes pb.transaction (protoOfTransaction H now tx)

/-- the last part of `deserialize_transaction`; an empty payload is not set -/
def buildTransaction (fromAddr toAddr : Address) (amount : Amount) (nonce gasLimit gasPrice : UInt64)
    (data : List UInt8) : Transaction :=
  let tx := Transaction.make fromAddr toAddr amount
  let tx := ((tx.setNonce nonce).setGasLimit gasLimit).setGasPrice gasPrice
  if data.isEmpty then tx else tx.setData data

theorem buildTransaction_eq (fromAddr toAddr : Address) (amount : Amount)
    (nonce gasLimit gasPrice : UInt64) (data : List UInt8) :
    buildTransaction fromAddr toAddr amount nonce gasLimit gasPrice data
      = .ofData { fromAddr, toAddr, value := amount, gasLimit, gasPrice, data, nonce } := by
  cases data <;> rfl

/-- the transaction that `deserialize_transaction` builds from a parsed message -/
def transactionOfProto (m : ProtoTransaction) : Except Failure Transaction :=
  match m.inputs with
  | [] => .error (.returned .invalidData "Transaction must have at least one input")
  | input :: _ => do
    let fromAddr ← throwing (Address.ofVector (input.pubkey.getD {}).data)
    match m.outputs with
    | [] => .error (.returned .invalidData "Transaction must have at least one output")
    | output :: _ => do
      let toAddr ← throwing (Address.ofVector (output.recipient.getD {}).data)
      let amount ← throwing (Amount.fromString (output.amount.getD {}).data)
      let gasPrice ← throwing (stoullE (m.gasPrice.getD {}).data)
      return buildTransaction fromAddr toAddr amount m.nonce m.gasLimit gasPrice m.data

def deserializeTransaction (pb : Protobuf) (data : List UInt8) : Except Failure Transaction :=
  match pb.transaction.parseFromArray data with
  | none => .error (.returned .corruptedData "Failed to parse transaction protobuf")
  | some m => transactionOfProto m

/-! ## blocks -/

/-- the loop over the transactions of a block: each is serialised, at its own time, and parsed
back into a message -/
def protoTransactions (pb : Protobuf) (H : List UInt8 → Hash) (clock : Nat → UInt64) :
    Nat → List Transaction → Except Failure (List ProtoTransaction)
  | _, [] => .ok []
  | i, tx :: l => do
    let bytes ← serializeTransaction pb H (clock i) tx
    match pb.transaction.parseFromArray bytes with
    | none => .error (.returned .encodingError "Failed to parse transaction for block")
    | some m => do
      let ms ← protoTransactions pb H clock (i + 1) l
      return m :: ms

/-- the header that `serialize_block` fills in: gas limit, gas price and chain are left out -/
def protoOfHeader (h : BlockHeader) : ProtoBlockHeader where
  version := 1
  height := h.height.toUInt32
  difficulty := 0
  nonce := h.nonce
  prevBlockHash := some ⟨h.parentHash.1⟩
  merkleRoot := some ⟨h.merkleRoot.1⟩
  timestamp := some { seconds := h.timestamp, nanoseconds := 0 }
  extraData := []

def protoOfBlock (H : List UInt8 → Hash) (b : Block) (transactions : List ProtoTransaction) :
    ProtoBlock where
  header := some (protoOfHeader b.header)
  transactions
  blockHash := some ⟨(b.calculateHash H).1⟩
  txCount := UInt32.ofNat b.transactions.length

def serializeBlock (pb : Protobuf) (H : List UInt8 → Hash) (clock : Nat → UInt64) (b : Block) :
    Except Failure (List UInt8) := do
  let transactions ← protoTransactions pb H clock 0 b.transactions
  serializeToBytes pb.block (protoOfBlock H b transactions)

/-- the loop over the messages of a block -/
def addTransactions (pb : Protobuf) (H : List UInt8 → Hash) :
    List ProtoTransaction → Block → Except Failure Block
  | [], b => .ok b
  | m :: ms, b =>
    match pb.transaction.serializeToArray m with
    | none => .error (.returned .encodingError "Failed to serialize transaction in block")
    | some bytes => do
      let tx ← deserializeTransaction pb bytes
      addTransactions pb H ms (b.addTransaction H tx)

/-- the block before its transactions are added; the Merkle root of the message is not used -/
def emptyBlock (h : ProtoBlockHeader) (parentHash : Hash) (timestamp : UInt64) : Block :=
  let b := Block.make h.height.toUInt64 parentHash timestamp
  (((b.setNonce h.nonce).setGasLimit 21000).setGasPrice 1000000000).setChainId 1

def deserializeBlock (pb : Protobuf) (H : List UInt8 → Hash) (data : List UInt8) :
    Except Failure Block :=
  match pb.block.parseFromArray data with
  | none => .error (.returned .corruptedData "Failed to parse block protobuf")
  | some m => do
    let header := m.header.getD {}
    let parentHash ← throwing (Hash.ofVector (header.prevBlockHash.getD {}).data)
    let timestamp ← throwing (Timestamp.fromSeconds (header.timestamp.getD {}).seconds)
    addTransactions pb H m.transactions (emptyBlock header parentHash timestamp)

/-! ## what comes back of a transaction -/

section
variable (pb : Protobuf) (H : List UInt8 → Hash)

theorem transactionOfProto_proto (now : UInt64) (tx : Transaction) :
    transactionOfProto (protoOfTransaction H now tx)
      = .ok (.ofData { tx.data with value := tx.value * weiPerEther }) := by
  have hfrom : Address.ofVector tx.fromAddr.1 = .ok tx.fromAddr := Bytes.ofVector_val _ _
  have hto : Address.ofVector tx.toAddr.1 = .ok tx.toAddr := Bytes.ofVector_val _ _
  have hvalue := Amount.fromString_toDecimal tx.value
  have hprice : stoullE (toDecimal tx.gasPrice.toNat) = .ok tx.gasPrice := by
    unfold stoullE
    rw [stoull_toDecimal]
    rfl
  simp only [transactionOfProto, protoOfTransaction, Option.getD_some, hfrom, hto, hvalue, hprice,
    throwing, Except.mapError, bind, Except.bind, buildTransaction_eq]
  rfl

theorem exists_serialize {M : Type} (codec : Codec M) (m : M) :
    ∃ b, serializeToBytes codec m = .ok b ∧ codec.parseFromArray b = some m := by
  obtain ⟨b, hs, hp⟩ := codec.parse_serialize m
  refine ⟨b, ?_, hp⟩
  unfold serializeToBytes
  rw [hs]

def tripTransaction (now : UInt64) (tx : Transaction) : Except Failure Transaction := do
  let bytes ← serializeTransaction pb H now tx
  deserializeTransaction pb bytes

theorem transaction_round_trip (now : UInt64) (tx : Transaction) :
    tripTransaction pb H now tx
      = .ok (.ofData { tx.data with value := tx.value * weiPerEther }) := by
  obtain ⟨b, hs, hp⟩ := exists_serialize pb.transaction (protoOfTransaction H now tx)
  have hs' : serializeTransaction pb H now tx = .ok b := hs
  unfold tripTransaction deserializeTransaction
  rw [hs']
  simp only [bind, Except.bind]
  rw [hp]
  exact transactionOfProto_proto H now tx

end

end Serialization
end ChainForge
