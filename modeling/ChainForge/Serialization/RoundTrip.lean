import Mathlib.Data.Nat.ModEq
import ChainForge.Serialization.Serializer
import ChainForge.Serialization.Validator

/-!
# Round trips

* `transaction_round_trip_iff`   a transaction comes back as it was exactly when its value is zero;
* `one_ether_changed`            one ether does not;
* `block_round_trip`             **what comes back of a block**: height (32 bits), parent, timestamp
                                 and nonce of the header, and the transactions; gas limit, gas price
                                 and chain are the fixed ones of `deserialize_block`, and the Merkle
                                 root is computed afresh;
* `block_round_trip_iff`         so a block comes back as it was exactly when it has just these;
* `default_gas_limit_changed`    a block made by the constructor does not.
-/

set_option linter.unusedSectionVars false

namespace ChainForge
namespace Serialization
open Wire Text

section
variable (pb : Protobuf) (H : List UInt8 → Hash)

/-! ## transactions -/

/-- `10^18 - 1` is odd, so only zero is its own multiple -/
theorem mul_weiPerEther_eq_self (v : UInt64) : v * weiPerEther = v ↔ v = 0 := by
  constructor
  · intro h
    have hw : weiPerEther.toNat = 999999999999999999 + 1 := by decide
    have hmod := congrArg UInt64.toNat h
    rw [UInt64.toNat_mul, hw, Nat.mul_add_one] at hmod
    have hdvd : 2^64 ∣ v.toNat * 999999999999999999 := by
      have heq : v.toNat * 999999999999999999 + v.toNat ≡ 0 + v.toNat [MOD 2^64] := by
        rw [Nat.zero_add]
        exact hmod.trans (Nat.mod_eq_of_lt v.toNat_lt).symm
      exact Nat.modEq_zero_iff_dvd.mp (Nat.ModEq.add_right_cancel' _ heq)
    have hcop : Nat.Coprime (2^64) 999999999999999999 := by decide
    have hzero := Nat.eq_zero_of_dvd_of_lt (hcop.dvd_of_dvd_mul_right hdvd) v.toNat_lt
    exact UInt64.toNat_inj.mp hzero
  · rintro rfl
    decide

/-- **A transaction survives the round trip exactly when its value is zero.** -/
theorem transaction_round_trip_iff (now : UInt64) (tx : Transaction) :
    (∃ tx', tripTransaction pb H now tx = .ok tx' ∧ tx'.data = tx.data) ↔ tx.data.value = 0 := by
  rw [transaction_round_trip, ← mul_weiPerEther_eq_self tx.data.value]
  constructor
  · rintro ⟨tx', htx, hdata⟩
    rw [← Except.ok.inj htx] at hdata
    exact congrArg TransactionData.value hdata
  · intro hv
    refine ⟨_, rfl, ?_⟩
    show { tx.data with value := tx.data.value * weiPerEther } = tx.data
    rw [hv]

end

def oneEther : Transaction :=
  (((Transaction.make (Bytes.fill 20 1) (Bytes.fill 20 2) weiPerEther).setGasLimit
    21000).setGasPrice 1000000000).setNonce 0

theorem one_ether_changed :
    ¬ ∃ tx', tripTransaction Protobuf.wire hashSha256 0 oneEther = .ok tx' ∧
      tx'.data = oneEther.data := by
  rw [transaction_round_trip]
  rintro ⟨tx', htx, hdata⟩
  rw [← Except.ok.inj htx] at hdata
  have hv : weiPerEther * weiPerEther = weiPerEther := congrArg TransactionData.value hdata
  exact absurd hv (by decide)

/-! ## blocks -/

section
variable (pb : Protobuf) (H : List UInt8 → Hash)

/-- the transaction comes back as it was, whenever it is serialised -/
def Survives (tx : Transaction) : Prop :=
  ∀ now, ∃ tx', tripTransaction pb H now tx = .ok tx' ∧ tx'.data = tx.data

theorem Survives.value_eq {tx : Transaction} (h : Survives pb H tx) :
    tx.data.value * weiPerEther = tx.data.value := by
  obtain ⟨tx', htx, hdata⟩ := h 0
  rw [transaction_round_trip] at htx
  rw [← Except.ok.inj htx] at hdata
  exact congrArg TransactionData.value hdata

def protosFrom (clock : Nat → UInt64) : Nat → List Transaction → List ProtoTransaction
  | _, [] => []
  | i, tx :: l => protoOfTransaction H (clock i) tx :: protosFrom clock (i + 1) l

theorem protoTransactions_eq (clock : Nat → UInt64) (i : Nat) (l : List Transaction) :
    protoTransactions pb H clock i l = .ok (protosFrom H clock i l) := by
  induction l generalizing i with
  | nil => rfl
  | cons tx l ih =>
    obtain ⟨b, hs, hp⟩ := exists_serialize pb.transaction (protoOfTransaction H (clock i) tx)
    have hs' : serializeTransaction pb H (clock i) tx = .ok b := hs
    unfold protoTransactions
    rw [hs']
    simp only [bind, Except.bind]
    rw [hp]
    dsimp only
    rw [ih]
    rfl

/-- a transaction as it comes back -/
def restored (tx : Transaction) : TransactionData :=
  { tx.data with value := tx.data.value * weiPerEther }

/-- transactions made of these data, added one after the other -/
def addAll (ds : List TransactionData) (b : Block) : Block :=
  ds.foldl (fun b d => b.addTransaction H (.ofData d)) b

theorem addTransactions_eq (clock : Nat → UInt64) (i : Nat) (l : List Transaction) (b : Block) :
    addTransactions pb H (protosFrom H clock i l) b
      = .ok (addAll H (l.map restored) b) := by
  induction l generalizing i b with
  | nil => rfl
  | cons tx l ih =>
    obtain ⟨bytes, hs, hp⟩ := pb.transaction.parse_serialize (protoOfTransaction H (clock i) tx)
    have hd : deserializeTransaction pb bytes = .ok (.ofData (restored tx)) := by
      unfold deserializeTransaction
      rw [hp]
      exact transactionOfProto_proto H (clock i) tx
    show addTransactions pb H (protoOfTransaction H (clock i) tx :: protosFrom H clock (i + 1) l) b = _
    unfold addTransactions
    rw [hs]
    dsimp only
    rw [hd]
    exact ih (i + 1) _

/-! ### adding transactions -/

/-- the Merkle root over the hashes of the data, whatever the caches hold -/
def freshRoot (ds : List TransactionData) : Hash :=
  merkleRoot combineHashes (ds.map fun d => H (Transaction.preimage d))

/-- the block holds these data, with filled caches and their Merkle root -/
structure Holds (b : Block) (ds : List TransactionData) : Prop where
  transactions : b.transactions = ds.map fun d => (Transaction.ofData d).hashed H
  root : b.header.merkleRoot = freshRoot H ds

theorem Holds.addTransaction {b : Block} {ds : List TransactionData} (h : Holds H b ds)
    (d : TransactionData) : Holds H (b.addTransaction H (.ofData d)) (ds ++ [d]) := by
  have htx : (b.transactions ++ [Transaction.ofData d]).map (·.hashed H)
      = (ds ++ [d]).map fun d => (Transaction.ofData d).hashed H := by
    rw [h.transactions, List.map_append, List.map_map, List.map_append]
    rfl
  have hroot : (b.transactions ++ [Transaction.ofData d]).map (·.calculateHash H)
      = (ds ++ [d]).map fun d => H (Transaction.preimage d) := by
    rw [h.transactions, List.map_append, List.map_map, List.map_append]
    rfl
  refine ⟨htx, ?_⟩
  show merkleRoot combineHashes ((b.transactions ++ [Transaction.ofData d]).map (·.calculateHash H)) = _
  rw [hroot]
  rfl

theorem Holds.addAll {b : Block} {ds : List TransactionData} (h : Holds H b ds)
    (l : List TransactionData) :
    Holds H (addAll H l b) (ds ++ l) := by
  induction l generalizing b ds with
  | nil =>
    rw [List.append_nil]
    exact h
  | cons d l ih =>
    have h' := ih (h.addTransaction H d)
    rwa [List.append_assoc] at h'

theorem addAll_header (l : List TransactionData) (b : Block) :
    ∃ root, (addAll H l b).header = { b.header with merkleRoot := root } := by
  induction l generalizing b with
  | nil => exact ⟨b.header.merkleRoot, rfl⟩
  | cons d l ih => exact ih (b.addTransaction H (.ofData d))

/-! ### the round trip -/

def tripBlock (clock : Nat → UInt64) (b : Block) : Except Failure Block := do
  let bytes ← serializeBlock pb H clock b
  deserializeBlock pb H bytes

def restoredHeader (b : Block) : BlockHeader where
  height := b.height.toUInt32.toUInt64
  parentHash := b.header.parentHash
  merkleRoot := freshRoot H (b.transactions.map restored)
  timestamp := b.header.timestamp
  nonce := b.header.nonce
  gasLimit := 21000
  gasPrice := 1000000000
  chainId := 1

/-- what is added to the empty block with the data of the header comes back -/
theorem tripBlock_eq (clock : Nat → UInt64) (b : Block) :
    tripBlock pb H clock b = .ok (addAll H (b.transactions.map restored)
      (emptyBlock (protoOfHeader b.header) b.header.parentHash b.header.timestamp)) := by
  obtain ⟨bytes, hs, hp⟩ :=
    exists_serialize pb.block (protoOfBlock H b (protosFrom H clock 0 b.transactions))
  have hser : serializeBlock pb H clock b = .ok bytes := by
    unfold serializeBlock
    rw [protoTransactions_eq]
    exact hs
  have hparent : Hash.ofVector b.header.parentHash.1 = .ok b.header.parentHash :=
    Bytes.ofVector_val _ _
  unfold tripBlock
  rw [hser]
  simp only [bind, Except.bind]
  unfold deserializeBlock
  rw [hp]
  show (throwing (Hash.ofVector b.header.parentHash.1) >>= fun parentHash =>
    throwing (Timestamp.fromSeconds b.header.timestamp) >>= fun timestamp =>
    addTransactions pb H (protosFrom H clock 0 b.transactions)
      (emptyBlock (protoOfHeader b.header) parentHash timestamp)) = _
  rw [hparent, Timestamp.fromSeconds_eq]
  exact addTransactions_eq pb H clock 0 b.transactions _

theorem block_round_trip (clock : Nat → UInt64) (b : Block) :
    ∃ b', tripBlock pb H clock b = .ok b' ∧ b'.header = restoredHeader H b ∧
      b'.transactions.map (·.data) = b.transactions.map restored := by
  -- the loop over the transactions starts from an empty block
  have hempty : Holds H
      (emptyBlock (protoOfHeader b.header) b.header.parentHash b.header.timestamp) [] := ⟨rfl, rfl⟩
  have hholds := hempty.addAll H (b.transactions.map restored)
  obtain ⟨root, hheader⟩ := addAll_header H (b.transactions.map restored)
    (emptyBlock (protoOfHeader b.header) b.header.parentHash b.header.timestamp)
  refine ⟨_, tripBlock_eq pb H clock b, ?_, ?_⟩
  · have hroot := hholds.root
    rw [hheader] at hroot ⊢
    rw [show root = freshRoot H (b.transactions.map restored) from hroot]
    rfl
  · rw [hholds.transactions, List.map_map]
    exact List.map_id _

/-- **A valid block with a right Merkle root, and transactions that survive, survives exactly when
it has the gas limit, gas price and chain that `deserialize_block` fills in, and the Merkle root of
its transactions' data.** -/
theorem block_round_trip_iff (clock : Nat → UInt64) (b : Block)
    (hvalid : DefaultValidator.validateBlock H b = .ok ())
    (hroot : b.header.merkleRoot = b.calculateMerkleRoot H)
    (hsurvive : ∀ tx ∈ b.transactions, Survives pb H tx) :
    (∃ b', tripBlock pb H clock b = .ok b' ∧ b'.header = b.header ∧
        b'.transactions.map (·.data) = b.transactions.map (·.data)) ↔
      b.header.gasLimit = 21000 ∧ b.header.gasPrice = 1000000000 ∧ b.header.chainId = 1 ∧
        freshRoot H (b.transactions.map (·.data)) = b.calculateMerkleRoot H := by
  obtain ⟨b', htrip, hheader, htx⟩ := block_round_trip pb H clock b
  have hheight : b.height.toUInt32.toUInt64 = b.header.height := by
    have hle := UInt64.le_iff_toNat_le.mp (DefaultValidator.height_le_of_validateBlock hvalid)
    refine UInt64.toNat_inj.mp ?_
    rw [UInt32.toNat_toUInt64, UInt64.toNat_toUInt32]
    exact Nat.mod_eq_of_lt (Nat.lt_succ_of_le hle)
  have hdata : b.transactions.map restored = b.transactions.map (·.data) := by
    refine List.map_congr_left fun tx htx => ?_
    unfold restored
    rw [(hsurvive tx htx).value_eq]
  rw [hdata] at htx
  constructor
  · rintro ⟨b'', htrip', hheader', _⟩
    have hb : b' = b'' := Except.ok.inj (htrip.symm.trans htrip')
    rw [← hb, hheader] at hheader'
    refine ⟨?_, ?_, ?_, ?_⟩
    · exact (congrArg BlockHeader.gasLimit hheader').symm
    · exact (congrArg BlockHeader.gasPrice hheader').symm
    · exact (congrArg BlockHeader.chainId hheader').symm
    · have h := congrArg BlockHeader.merkleRoot hheader'
      rw [hroot] at h
      rw [← hdata]
      exact h
  · rintro ⟨hlimit, hprice, hchain, hfresh⟩
    refine ⟨b', htrip, ?_, htx⟩
    rw [hheader]
    unfold restoredHeader
    rw [hheight, hdata, hfresh, ← hroot, ← hlimit, ← hprice, ← hchain]

end

/-- a block with one transaction of value zero, and the parameters that come back -/
def plainBlock : Block :=
  (((Block.make 1 Hash.zero 7).addTransaction hashSha256 (oneEther.setValue 0)).setGasLimit
    21000).setGasPrice 1000000000

theorem plainBlock_survives :
    ∀ tx ∈ plainBlock.transactions, Survives Protobuf.wire hashSha256 tx := by
  intro tx htx now
  refine ⟨_, transaction_round_trip Protobuf.wire hashSha256 now tx, ?_⟩
  rw [List.mem_singleton.mp htx]
  rfl

theorem block_round_trip_iff_plain :
    (∃ b', tripBlock Protobuf.wire hashSha256 (fun _ => 0) plainBlock = .ok b' ∧
        b'.header = plainBlock.header ∧
        b'.transactions.map (·.data) = plainBlock.transactions.map (·.data)) ↔
      plainBlock.header.gasLimit = 21000 ∧ plainBlock.header.gasPrice = 1000000000 ∧
        plainBlock.header.chainId = 1 ∧
        freshRoot hashSha256 (plainBlock.transactions.map (·.data))
          = plainBlock.calculateMerkleRoot hashSha256 :=
  block_round_trip_iff Protobuf.wire hashSha256 (fun _ => 0) plainBlock rfl rfl plainBlock_survives

/-- the gas limit 8000000 of the constructor comes back as 21000 -/
theorem default_gas_limit_changed :
    DefaultValidator.validateBlock hashSha256 (Block.make 1 Hash.zero 0) = .ok () ∧
    (Block.make 1 Hash.zero 0).header.merkleRoot
      = (Block.make 1 Hash.zero 0).calculateMerkleRoot hashSha256 ∧
    (∀ tx ∈ (Block.make 1 Hash.zero 0).transactions, Survives Protobuf.wire hashSha256 tx) ∧
    ¬ ∃ b', tripBlock Protobuf.wire hashSha256 (fun _ => 0) (Block.make 1 Hash.zero 0) = .ok b' ∧
      b'.header = (Block.make 1 Hash.zero 0).header ∧
      b'.transactions.map (·.data) = (Block.make 1 Hash.zero 0).transactions.map (·.data) := by
  refine ⟨rfl, rfl, fun tx htx => absurd htx List.not_mem_nil, ?_⟩
  rintro ⟨b', htrip, hheader, _⟩
  obtain ⟨b'', htrip', hheader', _⟩ :=
    block_round_trip Protobuf.wire hashSha256 (fun _ => 0) (Block.make 1 Hash.zero 0)
  have hb : b' = b'' := Except.ok.inj (htrip.symm.trans htrip')
  rw [hb, hheader'] at hheader
  exact absurd (congrArg BlockHeader.gasLimit hheader) (by decide)

end Serialization
end ChainForge
