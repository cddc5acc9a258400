import ChainForge.Lib.Wire

/-!
# The message schema

`modules/serialization/proto/*.proto`.  `Hash`, `Address`, `Amount`, `PublicKey` and `Signature` are
all messages with one `bytes` field of number 1; `Blob` is their common type.  A singular message
field is an `Option`, since its presence is part of the message.  Every message type comes with its
fields on the wire.
-/

set_option linter.unusedSectionVars false

namespace ChainForge
namespace Serialization
open Wire

/-- `types.Hash`, `types.Address`, `types.Amount`, `types.PublicKey`, `types.Signature` -/
structure Blob where
  data : List UInt8 := []
  deriving DecidableEq, Repr

def Blob.type : MessageType Blob where
  toFields m := fieldsOf 1 (bytesValues m.data)
  ofFields fs := some ⟨getBytes (select 1 fs)⟩
  ofFields_toFields m := by simp

/-- `types.Timestamp` -/
structure ProtoTimestamp where
  seconds : UInt64 := 0
  nanoseconds : UInt32 := 0
  deriving DecidableEq, Repr

def ProtoTimestamp.type : MessageType ProtoTimestamp where
  toFields m := fieldsOf 1 (varintValues m.seconds.toNat) ++
    fieldsOf 2 (varintValues m.nanoseconds.toNat)
  ofFields fs := some
    { seconds := UInt64.ofNat (getVarint (select 1 fs))
      nanoseconds := UInt32.ofNat (getVarint (select 2 fs)) }
  ofFields_toFields m := by simp

/-- `transaction.TxInput` -/
structure TxInput where
  prevTxHash : List UInt8 := []
  outputIndex : UInt32 := 0
  signature : Option Blob := none
  pubkey : Option Blob := none
  deriving DecidableEq, Repr

def TxInput.type : MessageType TxInput where
  toFields m := fieldsOf 1 (bytesValues m.prevTxHash) ++
    (fieldsOf 2 (varintValues m.outputIndex.toNat) ++
    (fieldsOf 3 (Blob.type.subValues m.signature) ++ fieldsOf 4 (Blob.type.subValues m.pubkey)))
  ofFields fs := do
    let signature ← Blob.type.getSub (select 3 fs)
    let pubkey ← Blob.type.getSub (select 4 fs)
    return { prevTxHash := getBytes (select 1 fs)
             outputIndex := UInt32.ofNat (getVarint (select 2 fs)), signature, pubkey }
  ofFields_toFields m := by simp

/-- `transaction.TxOutput` -/
structure TxOutput where
  amount : Option Blob := none
  recipient : Option Blob := none
  deriving DecidableEq, Repr

def TxOutput.type : MessageType TxOutput where
  toFields m := fieldsOf 1 (Blob.type.subValues m.amount) ++
    fieldsOf 2 (Blob.type.subValues m.recipient)
  ofFields fs := do
    let amount ← Blob.type.getSub (select 1 fs)
    let recipient ← Blob.type.getSub (select 2 fs)
    return { amount, recipient }
  ofFields_toFields m := by simp

/-- `transaction.Transaction` -/
structure ProtoTransaction where
  version : UInt64 := 0
  inputs : List TxInput := []
  outputs : List TxOutput := []
  gasLimit : UInt64 := 0
  gasPrice : Option Blob := none
  data : List UInt8 := []
  nonce : UInt64 := 0
  timestamp : Option ProtoTimestamp := none
  txHash : Option Blob := none
  deriving DecidableEq, Repr

def ProtoTransaction.type : MessageType ProtoTransaction where
  toFields m := fieldsOf 1 (varintValues m.version.toNat) ++
    (fieldsOf 2 (TxInput.type.repValues m.inputs) ++
    (fieldsOf 3 (TxOutput.type.repValues m.outputs) ++
    (fieldsOf 4 (varintValues m.gasLimit.toNat) ++
    (fieldsOf 5 (Blob.type.subValues m.gasPrice) ++
    (fieldsOf 6 (bytesValues m.data) ++
    (fieldsOf 7 (varintValues m.nonce.toNat) ++
    (fieldsOf 8 (ProtoTimestamp.type.subValues m.timestamp) ++
    fieldsOf 9 (Blob.type.subValues m.txHash))))))))
  ofFields fs := do
    let inputs ← TxInput.type.getRep (select 2 fs)
    let outputs ← TxOutput.type.getRep (select 3 fs)
    let gasPrice ← Blob.type.getSub (select 5 fs)
    let timestamp ← ProtoTimestamp.type.getSub (select 8 fs)
    let txHash ← Blob.type.getSub (select 9 fs)
    return { version := UInt64.ofNat (getVarint (select 1 fs)), inputs, outputs
             gasLimit := UInt64.ofNat (getVarint (select 4 fs)), gasPrice
             data := getBytes (select 6 fs)
             nonce := UInt64.ofNat (getVarint (select 7 fs)), timestamp, txHash }
  ofFields_toFields m := by simp

/-- `block.BlockHeader` -/
structure ProtoBlockHeader where
  version : UInt64 := 0
  prevBlockHash : Option Blob := none
  merkleRoot : Option Blob := none
  timestamp : Option ProtoTimestamp := none
  difficulty : UInt64 := 0
  nonce : UInt64 := 0
  height : UInt32 := 0
  extraData : List UInt8 := []
  deriving DecidableEq, Repr

def ProtoBlockHeader.type : MessageType ProtoBlockHeader where
  toFields m := fieldsOf 1 (varintValues m.version.toNat) ++
    (fieldsOf 2 (Blob.type.subValues m.prevBlockHash) ++
    (fieldsOf 3 (Blob.type.subValues m.merkleRoot) ++
    (fieldsOf 4 (ProtoTimestamp.type.subValues m.timestamp) ++
    (fieldsOf 5 (varintValues m.difficulty.toNat) ++
    (fieldsOf 6 (varintValues m.nonce.toNat) ++
    (fieldsOf 7 (varintValues m.height.toNat) ++
    fieldsOf 8 (bytesValues m.extraData)))))))
  ofFields fs := do
    let prevBlockHash ← Blob.type.getSub (select 2 fs)
    let merkleRoot ← Blob.type.getSub (select 3 fs)
    let timestamp ← ProtoTimestamp.type.getSub (select 4 fs)
    return { version := UInt64.ofNat (getVarint (select 1 fs)), prevBlockHash, merkleRoot, timestamp
             difficulty := UInt64.ofNat (getVarint (select 5 fs))
             nonce := UInt64.ofNat (getVarint (select 6 fs))
             height := UInt32.ofNat (getVarint (select 7 fs))
             extraData := getBytes (select 8 fs) }
  ofFields_toFields m := by simp

/-- `block.Block` -/
structure ProtoBlock where
  header : Option ProtoBlockHeader := none
  transactions : List ProtoTransaction := []
  blockHash : Option Blob := none
  txCount : UInt32 := 0
  deriving DecidableEq, Repr

def ProtoBlock.type : MessageType ProtoBlock where
  toFields m := fieldsOf 1 (ProtoBlockHeader.type.subValues m.header) ++
    (fieldsOf 2 (ProtoTransaction.type.repValues m.transactions) ++
    (fieldsOf 3 (Blob.type.subValues m.blockHash) ++ fieldsOf 4 (varintValues m.txCount.toNat)))
  ofFields fs := do
    let header ← ProtoBlockHeader.type.getSub (select 1 fs)
    let transactions ← ProtoTransaction.type.getRep (select 2 fs)
    let blockHash ← Blob.type.getSub (select 3 fs)
    return { header, transactions, blockHash
             txCount := UInt32.ofNat (getVarint (select 4 fs)) }
  ofFields_toFields m := by simp

end Serialization
end ChainForge
