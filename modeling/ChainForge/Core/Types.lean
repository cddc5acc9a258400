import ChainForge.Lib.Text
import Mathlib.Data.List.Lex
import Mathlib.Order.Lattice
import Mathlib.Data.Prod.Lex

/-!
# Core values: hashes, addresses, amounts, headers

`modules/core`: `types.hpp`, `hash.cpp`, `address.cpp`, `amount.cpp`.  A byte array of fixed length
carries its length (`Bytes n`), and arrays are compared byte by byte (`Hash::operator<`).  The
wrapper classes `Hash` and `Address` add nothing to the arrays they hold.

`hashSha256` is the function of the source: a copy of the first 32 bytes, padded with zeros.

* `bigEndian_length`   the length of an integer written byte by byte;
* `hashSha256_append`  nothing is seen of what follows the first 32 bytes;
* `hashSha256_of_length`  the first 32 bytes, where there are as many, are the hash.
-/

set_option linter.unusedSectionVars false

namespace ChainForge
open Text

instance byteOrder : LinearOrder UInt8 where
  le_refl := UInt8.le_refl
  le_trans _ _ _ := UInt8.le_trans
  le_antisymm _ _ := UInt8.le_antisymm
  le_total := UInt8.le_total
  lt_iff_le_not_ge _ _ := by
    rw [UInt8.not_le]
    exact ⟨fun h => ⟨UInt8.le_of_lt h, h⟩, fun h => h.2⟩
  toDecidableLE := inferInstance
  toDecidableEq := inferInstance
  toDecidableLT := inferInstance

/-- `std::array<uint8_t, n>` -/
abbrev Bytes (n : Nat) := {l : List UInt8 // l.length = n}

def maxBlockSize : Nat := 1024 * 1024
def maxTransactionSize : Nat := 128 * 1024

abbrev Hash := Bytes 32
abbrev Address := Bytes 20

/-- the exceptions thrown by the core classes, with their texts -/
inductive Exn where
  | invalidArgument (what : String)
  | outOfRange (what : String)
  | overflowError (what : String)
  deriving DecidableEq, Repr

def Exn.what : Exn → String
  | invalidArgument what => what
  | outOfRange what => what
  | overflowError what => what

/-- `std::all_of(.., b == 0)` -/
def Bytes.isZero {n : Nat} (b : Bytes n) : Bool := b.1.all (· == 0)

/-- `std::array::fill` -/
def Bytes.fill (n : Nat) (b : UInt8) : Bytes n := ⟨List.replicate n b, List.length_replicate⟩

def Hash.zero : Hash := Bytes.fill 32 0
def Address.zero : Address := Bytes.fill 20 0

/-- the constructor of an array class from a `std::vector` -/
def Bytes.ofVector (n : Nat) (what : String) (v : List UInt8) : Except Exn (Bytes n) :=
  if h : v.length = n then .ok ⟨v, h⟩ else .error (.invalidArgument what)

def Hash.ofVector : List UInt8 → Except Exn Hash := Bytes.ofVector 32 "Invalid data size for hash"

def Address.ofVector : List UInt8 → Except Exn Address :=
  Bytes.ofVector 20 "Invalid data size for address"

theorem Bytes.ofVector_val {n : Nat} (what : String) (b : Bytes n) :
    Bytes.ofVector n what b.1 = .ok b := by
  unfold Bytes.ofVector
  rw [dif_pos b.2]

/-- `Address::is_valid`: for now, not the zero address -/
def Address.isValid (a : Address) : Bool := !Bytes.isZero a

/-! ## hashing -/

/-- the loops `for (i = w - 1; i >= 0; --i) push_back((x >> (i * 8)) & 0xFF)` -/
def bigEndian (w x : Nat) : List UInt8 :=
  (List.range w).reverse.map fun i => UInt8.ofNat (x >>> (i * 8))

@[simp] theorem bigEndian_length (w x : Nat) : (bigEndian w x).length = w := by
  simp [bigEndian]

/-- `hash_sha256`, a placeholder in the source: the first 32 bytes, padded with zeros -/
def hashSha256 (data : List UInt8) : Hash :=
  ⟨data.take 32 ++ List.replicate (32 - data.length) 0, by
    rw [List.length_append, List.length_take, List.length_replicate]
    omega⟩

/-- `combine_hashes`: the first half of each -/
def combineHashes (left right : Hash) : Hash :=
  ⟨left.1.take 16 ++ right.1.take 16, by
    rw [List.length_append, List.length_take, List.length_take, left.2, right.2]
    rfl⟩

theorem hashSha256_append {pre : List UInt8} (h : 32 ≤ pre.length) (rest rest' : List UInt8) :
    hashSha256 (pre ++ rest) = hashSha256 (pre ++ rest') := by
  refine Subtype.ext ?_
  show (pre ++ rest).take 32 ++ List.replicate (32 - (pre ++ rest).length) 0
    = (pre ++ rest').take 32 ++ List.replicate (32 - (pre ++ rest').length) 0
  have hz : ∀ r : List UInt8, 32 - (pre ++ r).length = 0 := by
    intro r
    rw [List.length_append]
    omega
  rw [hz, hz, List.take_append_of_le_length h, List.take_append_of_le_length h]

/-- 32 bytes or more are hashed to the first 32 -/
theorem hashSha256_of_length {pre : List UInt8} (h : pre.length = 32) (rest : List UInt8) :
    hashSha256 (pre ++ rest) = ⟨pre, h⟩ := by
  rw [hashSha256_append (Nat.le_of_eq h.symm) rest []]
  refine Subtype.ext ?_
  show (pre ++ []).take 32 ++ List.replicate (32 - (pre ++ []).length) 0 = pre
  rw [List.append_nil, h, List.take_of_length_le (Nat.le_of_eq h)]
  exact List.append_nil pre

/-! ## amounts -/

/-- `Amount`: a number of wei -/
abbrev Amount := UInt64

def weiPerEther : UInt64 := 1000000000000000000
def decimals : Nat := 18

/-- the exceptions of `std::stoull` and `std::stoul` -/
def Exn.ofParse (what : String) : ParseError → Exn
  | .invalidArgument => .invalidArgument what
  | .outOfRange => .outOfRange what

def stoullE (s : Str) : Except Exn UInt64 := (stoull s).mapError (Exn.ofParse "stoull")
def stoulE (s : Str) : Except Exn UInt64 := (stoull s).mapError (Exn.ofParse "stoul")

/-- `Amount(whole, fraction)` -/
def Amount.ofWhole (whole : UInt64) (fraction : UInt32) : Except Exn Amount :=
  if whole > 18446744073709551615 / weiPerEther then
    .error (.overflowError "Amount whole part too large")
  else .ok (whole * weiPerEther + fraction.toUInt64)

def Amount.fromString (s : Str) : Except Exn Amount :=
  match s.idxOf? 46 with
  | none => do
    -- no decimal point: a whole number of ether, multiplied modulo 2^64
    let n ← stoullE s
    return n * weiPerEther
  | some dotPos => do
    let whole ← stoullE (s.take dotPos)
    let frac := s.drop (dotPos + 1)
    let frac := if frac.length > decimals then frac.take decimals else frac
    let frac := frac ++ List.replicate (decimals - frac.length) 48
    let fraction ← stoulE frac
    Amount.ofWhole whole fraction.toUInt32

/-- a string of digits is read as ether, so its value is multiplied by `10^18` -/
theorem Amount.fromString_toDecimal (n : UInt64) :
    Amount.fromString (toDecimal n.toNat) = .ok (n * weiPerEther) := by
  have h : (toDecimal n.toNat).idxOf? 46 = none := by
    rw [List.idxOf?_eq_none_iff]
    intro hm
    exact absurd (toDecimal_isDigit n.toNat 46 hm) (by decide)
  unfold Amount.fromString
  rw [h]
  simp only [stoullE, stoull_toDecimal]
  rfl

/-! ## the two plain structures -/

structure BlockHeader where
  height : UInt64
  parentHash : Hash
  merkleRoot : Hash
  /-- seconds since the epoch -/
  timestamp : UInt64
  nonce : UInt64
  gasLimit : UInt64
  gasPrice : UInt64
  chainId : UInt32
  deriving DecidableEq, Repr

structure TransactionData where
  fromAddr : Address
  toAddr : Address
  /-- in wei -/
  value : UInt64
  gasLimit : UInt64
  gasPrice : UInt64
  data : List UInt8
  nonce : UInt64
  deriving DecidableEq, Repr

/-- `sizeof(TransactionData)` and `sizeof(BlockHeader)` on the usual 64-bit platforms -/
def sizeofTransactionData : Nat := 96
def sizeofBlockHeader : Nat := 112

end ChainForge
