import ChainForge.Core.Transaction

/-!
# Blocks

`modules/core/src/block.cpp`.  A block is its header, its transactions and the cached hash.  As
for transactions, `calculateHash H` takes the hash function as an argument, and the tree of
`calculateMerkleRoot` its combining function.  `setGasLimit`, `setGasPrice` and `setChainId` do not
empty the cache in the source.

* `isValid_setNonce`    the nonce does not count for the validity of a block.
-/

set_option linter.unusedSectionVars false

namespace ChainForge
open Text

/-- `Timestamp::is_valid_timestamp` -/
def Timestamp.isValid (seconds : UInt64) : Bool := seconds ≥ 0 && seconds ≤ 18446744073709551615

/-- `Timestamp(seconds)`, and so `Timestamp::from_seconds` -/
def Timestamp.fromSeconds (seconds : UInt64) : Except Exn UInt64 :=
  if Timestamp.isValid seconds then .ok seconds
  else .error (.outOfRange "Invalid timestamp value")

/-- the range of valid seconds is the whole type -/
theorem Timestamp.fromSeconds_eq (seconds : UInt64) : Timestamp.fromSeconds seconds = .ok seconds := by
  have hlo : (0 : UInt64) ≤ seconds := UInt64.le_iff_toNat_le.mpr (Nat.zero_le _)
  have hhi : seconds ≤ 18446744073709551615 := by
    have := seconds.toNat_lt
    rw [UInt64.le_iff_toNat_le]
    change seconds.toNat ≤ 18446744073709551615
    omega
  have hvalid : Timestamp.isValid seconds = true := by
    unfold Timestamp.isValid
    rw [decide_eq_true hlo, decide_eq_true hhi]
    rfl
  unfold Timestamp.fromSeconds
  rw [if_pos hvalid]

structure Block where
  header : BlockHeader
  transactions : List Transaction := []
  cachedHash : Option Hash := none
  deriving DecidableEq, Repr

/-! ## the Merkle tree -/

/-- one level: neighbours are combined, an odd last hash with itself -/
def merkleLevel (c : Hash → Hash → Hash) : List Hash → List Hash
  | a :: b :: l => c a b :: merkleLevel c l
  | [a] => [c a a]
  | [] => []

/-- the loop `while (hashes.size() > 1)`; as many rounds as there are hashes are enough, since a
level is shorter than the one below it -/
def merkleLoop (c : Hash → Hash → Hash) : Nat → List Hash → List Hash
  | 0, l => l
  | n + 1, l => if l.length > 1 then merkleLoop c n (merkleLevel c l) else l

def merkleRoot (c : Hash → Hash → Hash) (l : List Hash) : Hash :=
  match l with
  | [] => Hash.zero
  | [h] => h
  | l => (merkleLoop c l.length l).headD Hash.zero

namespace Block

def height (b : Block) : UInt64 := b.header.height
def nonce (b : Block) : UInt64 := b.header.nonce
def gasLimit (b : Block) : UInt64 := b.header.gasLimit

section
variable (H : List UInt8 → Hash)

def calculateMerkleRoot (b : Block) : Hash :=
  merkleRoot combineHashes (b.transactions.map (·.calculateHash H))

/-- the transactions keep the hashes that the computation of the root asks them for -/
def updateMerkleRoot (b : Block) : Block :=
  { b with
    header := { b.header with merkleRoot := b.calculateMerkleRoot H }
    transactions := b.transactions.map (·.hashed H) }

/-- `Block(height, parent_hash, timestamp)` -/
def make (height : UInt64) (parentHash : Hash) (timestamp : UInt64) : Block :=
  { header := { height, parentHash, merkleRoot := Hash.zero, timestamp, nonce := 0,
                gasLimit := 8000000, gasPrice := 1, chainId := 1 } }

/-- `Block(header, transactions)` -/
def ofHeader (header : BlockHeader) (transactions : List Transaction) : Block :=
  updateMerkleRoot H { header, transactions }

def setHeight (b : Block) (height : UInt64) : Block :=
  { b with header := { b.header with height }, cachedHash := none }
def setParentHash (b : Block) (parentHash : Hash) : Block :=
  { b with header := { b.header with parentHash }, cachedHash := none }
def setTimestamp (b : Block) (timestamp : UInt64) : Block :=
  { b with header := { b.header with timestamp }, cachedHash := none }
def setNonce (b : Block) (nonce : UInt64) : Block :=
  { b with header := { b.header with nonce }, cachedHash := none }
def setGasLimit (b : Block) (gasLimit : UInt64) : Block :=
  { b with header := { b.header with gasLimit } }
def setGasPrice (b : Block) (gasPrice : UInt64) : Block :=
  { b with header := { b.header with gasPrice } }
def setChainId (b : Block) (chainId : UInt32) : Block :=
  { b with header := { b.header with chainId } }

def addTransaction (b : Block) (tx : Transaction) : Block :=
  { updateMerkleRoot H { b with transactions := b.transactions ++ [tx] } with cachedHash := none }

def removeTransaction (b : Block) (index : Nat) : Block :=
  if index < b.transactions.length then
    { updateMerkleRoot H { b with transactions := b.transactions.eraseIdx index } with
      cachedHash := none }
  else b

def clearTransactions (b : Block) : Block :=
  { b with transactions := [], header := { b.header with merkleRoot := Hash.zero },
           cachedHash := none }

/-- the byte string that `calculate_hash` builds -/
def preimage (h : BlockHeader) : List UInt8 :=
  bigEndian 8 h.height.toNat ++ (h.parentHash.1 ++ (h.merkleRoot.1 ++
    (bigEndian 8 h.timestamp.toNat ++ (bigEndian 8 h.nonce.toNat ++ (bigEndian 8 h.gasLimit.toNat ++
      (bigEndian 8 h.gasPrice.toNat ++ bigEndian 4 h.chainId.toNat))))))

theorem preimage_length (h : BlockHeader) : (preimage h).length = 108 := by
  unfold preimage
  simp only [List.length_append, bigEndian_length, h.parentHash.2, h.merkleRoot.2]

def calculateHash (b : Block) : Hash :=
  match b.cachedHash with
  | some h => h
  | none => H (preimage b.header)

/-- the object after a call of `calculate_hash` -/
def hashed (b : Block) : Block := { b with cachedHash := some (b.calculateHash H) }

end

/-! ## validation -/

def size (b : Block) : Nat := b.transactions.foldl (fun n tx => n + tx.size) sizeofBlockHeader

def validateHeader (b : Block) : Bool :=
  Timestamp.isValid b.header.timestamp && b.header.gasLimit > 0 && b.header.chainId > 0

/-- the loop of `validate_gas_limits`, with the gas used so far -/
def gasFits (limit : UInt64) : UInt64 → List Transaction → Bool
  | _, [] => true
  | used, tx :: l =>
    let used := used + tx.gasLimit
    if used > limit then false else gasFits limit used l

def validateGasLimits (b : Block) : Bool := gasFits b.header.gasLimit 0 b.transactions

def validateTransactions (b : Block) : Bool :=
  b.transactions.all (·.isValid) && b.validateGasLimits

def validateSize (b : Block) : Bool := b.size ≤ maxBlockSize

def isValid (b : Block) : Bool := b.validateHeader && b.validateTransactions && b.validateSize

theorem isValid_setNonce (b : Block) (n : UInt64) : (b.setNonce n).isValid = b.isValid := rfl

end Block

end ChainForge
