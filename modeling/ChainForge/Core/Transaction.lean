import ChainForge.Core.Types

/-!
# Transactions

`modules/core/src/transaction.cpp`.  A transaction is its data and the cached hash.
`calculateHash H` is the value returned by `calculate_hash` with `H` in the place of
`hash_sha256`: the cached hash if there is one, else `H` of the preimage.  The call leaves the
value in the cache (`hashed`); the setters empty the cache.

* `Coherent`               the cache is empty or holds the hash of the data;
* `hashSha256_preimage`    the implemented hash is the sender and twelve bytes of the recipient;
* `calculateHash_sender`   the implemented hash starts with the twenty bytes of the sender.
-/

set_option linter.unusedSectionVars false

namespace ChainForge
open Text

structure Transaction where
  data : TransactionData
  cachedHash : Option Hash := none
  deriving DecidableEq, Repr

namespace Transaction

def fromAddr (tx : Transaction) : Address := tx.data.fromAddr
def toAddr (tx : Transaction) : Address := tx.data.toAddr
def value (tx : Transaction) : Amount := tx.data.value
def gasLimit (tx : Transaction) : UInt64 := tx.data.gasLimit
def gasPrice (tx : Transaction) : UInt64 := tx.data.gasPrice
def payload (tx : Transaction) : List UInt8 := tx.data.data
def nonce (tx : Transaction) : UInt64 := tx.data.nonce

/-- `Transaction(from, to, value)`: gas limit 21000, gas price 1, no payload, nonce 0 -/
def make (fromAddr toAddr : Address) (value : Amount) : Transaction :=
  { data := { fromAddr, toAddr, value, gasLimit := 21000, gasPrice := 1, data := [], nonce := 0 } }

/-- `Transaction(data)` -/
def ofData (data : TransactionData) : Transaction := { data }

def setFrom (tx : Transaction) (a : Address) : Transaction :=
  { data := { tx.data with fromAddr := a } }
def setTo (tx : Transaction) (a : Address) : Transaction :=
  { data := { tx.data with toAddr := a } }
def setValue (tx : Transaction) (v : Amount) : Transaction :=
  { data := { tx.data with value := v } }
def setGasLimit (tx : Transaction) (g : UInt64) : Transaction :=
  { data := { tx.data with gasLimit := g } }
def setGasPrice (tx : Transaction) (g : UInt64) : Transaction :=
  { data := { tx.data with gasPrice := g } }
def setData (tx : Transaction) (d : List UInt8) : Transaction :=
  { data := { tx.data with data := d } }
def setNonce (tx : Transaction) (n : UInt64) : Transaction :=
  { data := { tx.data with nonce := n } }

/-! ## hash -/

/-- the byte string that `calculate_hash` builds -/
def preimage (d : TransactionData) : List UInt8 :=
  d.fromAddr.1 ++ (d.toAddr.1 ++ (bigEndian 8 d.value.toNat ++ (bigEndian 8 d.gasLimit.toNat ++
    (bigEndian 8 d.gasPrice.toNat ++ (bigEndian 8 d.nonce.toNat ++ d.data)))))

section
variable (H : List UInt8 → Hash)

def calculateHash (tx : Transaction) : Hash :=
  match tx.cachedHash with
  | some h => h
  | none => H (preimage tx.data)

/-- the object after a call of `calculate_hash` -/
def hashed (tx : Transaction) : Transaction := { tx with cachedHash := some (tx.calculateHash H) }

/-- the cache is empty or holds the hash of the data -/
def Coherent (tx : Transaction) : Prop :=
  tx.cachedHash = none ∨ tx.cachedHash = some (H (preimage tx.data))

variable {H}

theorem Coherent.calculateHash_eq {tx : Transaction} (h : tx.Coherent H) :
    tx.calculateHash H = H (preimage tx.data) := by
  unfold calculateHash
  rcases h with h | h <;> rw [h]

end

/-- the sender and the first twelve bytes of the recipient -/
def shortKey (d : TransactionData) : Hash :=
  ⟨d.fromAddr.1 ++ d.toAddr.1.take 12, by
    rw [List.length_append, List.length_take, d.fromAddr.2, d.toAddr.2]
    rfl⟩

/-- **All that the implemented hash sees of a transaction.** -/
theorem hashSha256_preimage (d : TransactionData) : hashSha256 (preimage d) = shortKey d := by
  have h : preimage d = (d.fromAddr.1 ++ d.toAddr.1.take 12) ++ (d.toAddr.1.drop 12 ++
      (bigEndian 8 d.value.toNat ++ (bigEndian 8 d.gasLimit.toNat ++
        (bigEndian 8 d.gasPrice.toNat ++ (bigEndian 8 d.nonce.toNat ++ d.data))))) := by
    unfold preimage
    rw [List.append_assoc, ← List.append_assoc (d.toAddr.1.take 12), List.take_append_drop]
  rw [h]
  exact hashSha256_of_length (shortKey d).2 _

theorem Coherent.calculateHash_shortKey {tx : Transaction} (h : tx.Coherent hashSha256) :
    tx.calculateHash hashSha256 = shortKey tx.data := by
  rw [h.calculateHash_eq, hashSha256_preimage]

theorem calculateHash_sender {tx : Transaction} (h : tx.Coherent hashSha256) :
    (tx.calculateHash hashSha256).1.take 20 = tx.fromAddr.1 := by
  rw [h.calculateHash_shortKey]
  exact List.take_left' tx.data.fromAddr.2

/-- the product is taken modulo `2^64` -/
def calculateFee (tx : Transaction) : Amount := tx.data.gasLimit * tx.data.gasPrice

/-! ## validation -/

def isContractCreation (tx : Transaction) : Bool :=
  Bytes.isZero tx.data.toAddr && !tx.data.data.isEmpty

def validateGas (tx : Transaction) : Bool :=
  tx.data.gasLimit ≥ 21000 && tx.data.gasPrice > 0

def validateAmount (tx : Transaction) : Bool :=
  tx.data.value != 0 || tx.isContractCreation

def validateAddresses (tx : Transaction) : Bool :=
  tx.data.fromAddr.isValid && (tx.data.toAddr.isValid || tx.isContractCreation)

/-- for now, always valid -/
def validateNonce (_ : Transaction) : Bool := true

def isValid (tx : Transaction) : Bool :=
  tx.validateAddresses && tx.validateGas && tx.validateAmount && tx.validateNonce

def size (tx : Transaction) : Nat := sizeofTransactionData + tx.data.data.length

def isTooLarge (tx : Transaction) : Bool := tx.size > maxTransactionSize

end Transaction

end ChainForge
