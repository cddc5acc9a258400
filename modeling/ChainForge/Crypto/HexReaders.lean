import ChainForge.Crypto.Keccak
import ChainForge.Lib.Hex

/-!
# Hexadecimal readers

The constructors of `core::Hash` and `core::Address` from a string, `crypto::Hash::to_hex` and
`from_hex`, and the `*_from_hex` functions of `keypair.cpp` and `signature.cpp`.  All have the same
loop, a pair of characters and `std::stoi` for each byte; `crypto::Hash::from_hex` is the only one that
looks at the characters before.

* `hash_hex_codec`            **`crypto::Hash` reads what it writes**, and nothing but digits;
* `hexReader_agrees_iff`      **where the twelve other readers take the same strings**, and how they
                              refuse the rest.
-/

set_option linter.unusedSectionVars false

namespace ChainForge
open Text

/-- `n` bytes, or the exception of `std::stoi` -/
def Bytes.ofHexPairs (n : Nat) (s : Str) : Except Exn (Bytes n) :=
  match h : readHex n s with
  | .ok l => .ok ⟨l, readHex_length h⟩
  | .error e => .error (Exn.ofParse "stoi" e)

theorem Bytes.ofHexPairs_of_ok {n : Nat} {s : Str} {l : List UInt8} (h : readHex n s = .ok l) :
    Bytes.ofHexPairs n s = .ok ⟨l, readHex_length h⟩ := by
  unfold Bytes.ofHexPairs
  split
  · rename_i l' h'
    rw [h] at h'
    cases h'
    rfl
  · rename_i e h'
    rw [h] at h'
    cases h'

theorem Bytes.ofHexPairs_ok_iff {n : Nat} {s : Str} (hlen : s.length = 2 * n) :
    (∃ b, Bytes.ofHexPairs n s = .ok b) ↔ pairsRead s = true := by
  rw [← readHex_ok_iff hlen]
  constructor
  · rintro ⟨b, hb⟩
    unfold Bytes.ofHexPairs at hb
    split at hb
    · rename_i l h
      exact ⟨l, h⟩
    · cases hb
  · rintro ⟨l, hl⟩
    exact ⟨_, Bytes.ofHexPairs_of_ok hl⟩

/-! ## the core constructors -/

/-- the common form of the two constructors -/
def Bytes.ofHexString (n : Nat) (what : String) (hexString : Str) : Except Exn (Bytes n) :=
  if hexString.length ≠ n * 2 then .error (.invalidArgument what) else Bytes.ofHexPairs n hexString

def Hash.ofHexString : Str → Except Exn Hash :=
  Bytes.ofHexString 32 "Invalid hex string length for hash"

def Address.ofHexString : Str → Except Exn Address :=
  Bytes.ofHexString 20 "Invalid hex string length for address"

namespace Crypto

/-! ## `crypto::Hash` -/

namespace Hash

/-- `Hash::to_hex` -/
def toHex (hash : Hash) : Str := Text.toHex hash.1

def isValidHexHash (hexString : Str) (expectedSize : Nat) : Bool :=
  if hexString.length ≠ expectedSize * 2 then false else hexString.all isHexDigit

/-- `Hash::from_hex` -/
def fromHex (hexString : Str) : Except Exn (CryptoResult Hash) :=
  if isValidHexHash hexString 32 then do
    let result ← Bytes.ofHexPairs 32 hexString
    return ⟨result, .success⟩
  else .ok ⟨Bytes.fill 32 0, .invalidLength⟩

theorem isValidHexHash_iff (s : Str) (n : Nat) : isValidHexHash s n = true ↔
    s.length = 2 * n ∧ ∀ c ∈ s, isHexDigit c = true := by
  unfold isValidHexHash
  by_cases hlen : s.length ≠ n * 2
  · rw [if_pos hlen]
    exact ⟨fun h => (nomatch h), fun h => absurd (h.1.trans (Nat.mul_comm 2 n)) hlen⟩
  · rw [if_neg hlen, List.all_eq_true]
    have hlen := not_not.mp hlen
    exact ⟨fun h => ⟨hlen.trans (Nat.mul_comm n 2), h⟩, fun h => h.2⟩

/-- a valid string is read as the bytes whose text it is -/
theorem fromHex_of_valid {s : Str} (h : s.length = 2 * 32 ∧ ∀ c ∈ s, isHexDigit c = true) :
    ∃ hash, fromHex s = .ok ⟨hash, .success⟩ ∧ toHex hash = s.map toLower := by
  obtain ⟨l, hl, htext⟩ := readHex_digits h.1 h.2
  refine ⟨⟨l, readHex_length hl⟩, ?_, htext⟩
  unfold fromHex
  rw [if_pos ((isValidHexHash_iff s 32).mpr h), Bytes.ofHexPairs_of_ok hl]
  rfl

theorem valid_of_fromHex {s : Str} {hash : Hash} (h : fromHex s = .ok ⟨hash, .success⟩) :
    s.length = 2 * 32 ∧ ∀ c ∈ s, isHexDigit c = true := by
  rw [← isValidHexHash_iff]
  unfold fromHex at h
  by_contra hv
  rw [if_neg hv] at h
  cases h

end Hash

/-- **The hexadecimal codec of `crypto::Hash`**: exactly the strings of 64 digits are read, as the
bytes whose text they are up to the case of the letters, and every text that is written reads
back. -/
theorem hash_hex_codec :
    (∀ s, (∃ hash, Hash.fromHex s = .ok ⟨hash, .success⟩) ↔
        s.length = 64 ∧ ∀ c ∈ s, isHexDigit c = true) ∧
      (∀ s hash, Hash.fromHex s = .ok ⟨hash, .success⟩ ↔
        (s.length = 64 ∧ ∀ c ∈ s, isHexDigit c = true) ∧ Hash.toHex hash = s.map toLower) ∧
      ∀ hash, Hash.fromHex (Hash.toHex hash) = .ok ⟨hash, .success⟩ := by
  have hiff : ∀ s hash, Hash.fromHex s = .ok ⟨hash, .success⟩ ↔
      (s.length = 64 ∧ ∀ c ∈ s, isHexDigit c = true) ∧ Hash.toHex hash = s.map toLower := by
    intro s hash
    constructor
    · intro h
      have hv := Hash.valid_of_fromHex h
      obtain ⟨hash', h', htext⟩ := Hash.fromHex_of_valid hv
      rw [h] at h'
      cases h'
      exact ⟨hv, htext⟩
    · rintro ⟨hv, htext⟩
      obtain ⟨hash', h', htext'⟩ := Hash.fromHex_of_valid hv
      rw [h', Subtype.ext (toHex_inj (htext'.trans htext.symm))]
  refine ⟨fun s => ⟨?_, ?_⟩, hiff, fun hash => ?_⟩
  · rintro ⟨hash, h⟩
    exact Hash.valid_of_fromHex h
  · intro hv
    obtain ⟨hash, h, _⟩ := Hash.fromHex_of_valid hv
    exact ⟨hash, h⟩
  · rw [hiff]
    refine ⟨⟨?_, toHex_isHexDigit _⟩, (toLower_toHex _).symm⟩
    show (Text.toHex hash.1).length = 64
    rw [toHex_length, hash.2]

/-! ## keys and signatures -/

/-- the common form of the functions of `KeyPair` and `Signature` -/
def fromHexString (size : Nat) (hex : Str) : Except Exn (CryptoResult (Bytes size)) :=
  if hex.length ≠ size * 2 then .ok ⟨Bytes.fill size 0, .invalidLength⟩
  else do
    let result ← Bytes.ofHexPairs size hex
    return ⟨result, .success⟩

def secp256k1PrivateKeyFromHex : Str → Except Exn (CryptoResult (Bytes 32)) := fromHexString 32
def secp256k1PublicKeyFromHex : Str → Except Exn (CryptoResult (Bytes 64)) := fromHexString 64
def secp256k1CompressedPublicKeyFromHex : Str → Except Exn (CryptoResult (Bytes 33)) :=
  fromHexString 33
def ed25519PrivateKeyFromHex : Str → Except Exn (CryptoResult (Bytes 32)) := fromHexString 32
def ed25519PublicKeyFromHex : Str → Except Exn (CryptoResult (Bytes 32)) := fromHexString 32
def blsPrivateKeyFromHex : Str → Except Exn (CryptoResult (Bytes 32)) := fromHexString 32
def blsPublicKeyFromHex : Str → Except Exn (CryptoResult (Bytes 48)) := fromHexString 48

def signatureFromHexSecp256k1 : Str → Except Exn (CryptoResult (Bytes 64)) := fromHexString 64
def signatureFromHexEd25519 : Str → Except Exn (CryptoResult (Bytes 64)) := fromHexString 64
def signatureFromHexBls : Str → Except Exn (CryptoResult (Bytes 96)) := fromHexString 96

/-! ## agreement -/

inductive HexReader where
  | hash
  | address
  | secp256k1PrivateKey
  | secp256k1PublicKey
  | secp256k1CompressedPublicKey
  | ed25519PrivateKey
  | ed25519PublicKey
  | blsPrivateKey
  | blsPublicKey
  | secp256k1Signature
  | ed25519Signature
  | blsSignature
  deriving DecidableEq, Repr

namespace HexReader

/-- the bytes that are read -/
def size : HexReader → Nat
  | hash => 32
  | address => 20
  | secp256k1PrivateKey => 32
  | secp256k1PublicKey => 64
  | secp256k1CompressedPublicKey => 33
  | ed25519PrivateKey => 32
  | ed25519PublicKey => 32
  | blsPrivateKey => 32
  | blsPublicKey => 48
  | secp256k1Signature => 64
  | ed25519Signature => 64
  | blsSignature => 96

/-- a constructor of the core, which refuses by an exception -/
def inCore : HexReader → Bool
  | hash => true
  | address => true
  | _ => false

end HexReader

/-- a constructor takes the valid strings and throws on the others -/
def CoreAgrees {n : Nat} (reader : Str → Except Exn (Bytes n)) (s : Str) : Prop :=
  (Hash.isValidHexHash s n = true → ∃ b, reader s = .ok b) ∧
    (Hash.isValidHexHash s n = false → ∃ e, reader s = .error e)

/-- a function takes the valid strings and returns an error on the others -/
def CryptoAgrees {n : Nat} (reader : Str → Except Exn (CryptoResult (Bytes n))) (s : Str) : Prop :=
  (Hash.isValidHexHash s n = true → ∃ b, reader s = .ok ⟨b, .success⟩) ∧
    (Hash.isValidHexHash s n = false → ∃ b e, reader s = .ok ⟨b, e⟩ ∧ e ≠ .success)

def HexReader.Agrees : HexReader → Str → Prop
  | hash => CoreAgrees ChainForge.Hash.ofHexString
  | address => CoreAgrees Address.ofHexString
  | secp256k1PrivateKey => CryptoAgrees secp256k1PrivateKeyFromHex
  | secp256k1PublicKey => CryptoAgrees secp256k1PublicKeyFromHex
  | secp256k1CompressedPublicKey => CryptoAgrees secp256k1CompressedPublicKeyFromHex
  | ed25519PrivateKey => CryptoAgrees ed25519PrivateKeyFromHex
  | ed25519PublicKey => CryptoAgrees ed25519PublicKeyFromHex
  | blsPrivateKey => CryptoAgrees blsPrivateKeyFromHex
  | blsPublicKey => CryptoAgrees blsPublicKeyFromHex
  | secp256k1Signature => CryptoAgrees signatureFromHexSecp256k1
  | ed25519Signature => CryptoAgrees signatureFromHexEd25519
  | blsSignature => CryptoAgrees signatureFromHexBls

section
variable {n : Nat} {s : Str}

/-- the loop throws exactly if there is a pair that `std::stoi` refuses -/
theorem ofHexPairs_error_iff (hlen : s.length = 2 * n) :
    (∃ e, Bytes.ofHexPairs n s = .error e) ↔ pairsRead s = false := by
  rw [← Bool.not_eq_true, ← Bytes.ofHexPairs_ok_iff hlen]
  cases Bytes.ofHexPairs n s with
  | ok b =>
    constructor
    · rintro ⟨e, he⟩
      cases he
    · intro h
      exact absurd ⟨b, rfl⟩ h
  | error e =>
    constructor
    · rintro _ ⟨b, hb⟩
      cases hb
    · intro _
      exact ⟨e, rfl⟩

theorem isValidHexHash_of_length_ne (hlen : s.length ≠ 2 * n) : Hash.isValidHexHash s n = false := by
  rw [← Bool.not_eq_true, Hash.isValidHexHash_iff]
  exact fun h => hlen h.1

/-- the loop reads digits -/
theorem ofHexPairs_of_digits (hlen : s.length = 2 * n) (h : ∀ c ∈ s, isHexDigit c = true) :
    Hash.isValidHexHash s n = true ∧ ∃ b, Bytes.ofHexPairs n s = .ok b := by
  obtain ⟨l, hl, _⟩ := readHex_digits hlen h
  exact ⟨(Hash.isValidHexHash_iff s n).mpr ⟨hlen, h⟩, _, Bytes.ofHexPairs_of_ok hl⟩

/-- a string that is not digits only is invalid, whatever its length -/
theorem isValidHexHash_of_not_digits (h : ¬ ∀ c ∈ s, isHexDigit c = true) :
    Hash.isValidHexHash s n = false := by
  rw [← Bool.not_eq_true, Hash.isValidHexHash_iff]
  exact fun hv => h hv.2

theorem coreAgrees_iff (what : String) : CoreAgrees (Bytes.ofHexString n what) s ↔
    s.length ≠ 2 * n ∨ (∀ c ∈ s, isHexDigit c = true) ∨ pairsRead s = false := by
  unfold CoreAgrees Bytes.ofHexString
  rw [Nat.mul_comm n 2]
  by_cases hlen : s.length ≠ 2 * n
  · rw [if_pos hlen, isValidHexHash_of_length_ne hlen]
    exact ⟨fun _ => .inl hlen, fun _ => ⟨fun h => (nomatch h), fun _ => ⟨_, rfl⟩⟩⟩
  · rw [if_neg hlen]
    have hlen' := not_not.mp hlen
    by_cases hd : ∀ c ∈ s, isHexDigit c = true
    · obtain ⟨hv, hb⟩ := ofHexPairs_of_digits hlen' hd
      rw [hv]
      exact ⟨fun _ => .inr (.inl hd), fun _ => ⟨fun _ => hb, fun h => (nomatch h)⟩⟩
    · rw [isValidHexHash_of_not_digits hd, ofHexPairs_error_iff hlen']
      constructor
      · intro h
        exact .inr (.inr (h.2 rfl))
      · rintro (h | h | h)
        · exact absurd h hlen
        · exact absurd h hd
        · exact ⟨fun h' => (nomatch h'), fun _ => h⟩

/-- whether the loop throws or goes on, what is not digits is not refused by an error -/
theorem cryptoAgrees_iff : CryptoAgrees (fromHexString n) s ↔
    s.length ≠ 2 * n ∨ ∀ c ∈ s, isHexDigit c = true := by
  unfold CryptoAgrees fromHexString
  rw [Nat.mul_comm n 2]
  by_cases hlen : s.length ≠ 2 * n
  · rw [if_pos hlen, isValidHexHash_of_length_ne hlen]
    exact ⟨fun _ => .inl hlen, fun _ => ⟨fun h => (nomatch h), fun _ => ⟨_, _, rfl, by decide⟩⟩⟩
  · rw [if_neg hlen]
    by_cases hd : ∀ c ∈ s, isHexDigit c = true
    · obtain ⟨hv, b, hb⟩ := ofHexPairs_of_digits (not_not.mp hlen) hd
      rw [hv, hb]
      exact ⟨fun _ => .inr hd, fun _ => ⟨fun _ => ⟨b, rfl⟩, fun h => (nomatch h)⟩⟩
    · rw [isValidHexHash_of_not_digits hd]
      constructor
      · intro h
        obtain ⟨b, e, hr, hne⟩ := h.2 rfl
        cases hp : Bytes.ofHexPairs n s with
        | ok v =>
          rw [hp] at hr
          cases hr
          exact absurd rfl hne
        | error x =>
          rw [hp] at hr
          cases hr
      · rintro (h | h)
        · exact absurd h hlen
        · exact absurd h hd

end

/-- **Where the readers agree**: on the strings of another length and on digits; the constructors of
the core also on the strings with a pair of characters that `std::stoi` refuses, while the other
functions let its exception out. -/
theorem hexReader_agrees_iff (reader : HexReader) (s : Str) :
    reader.Agrees s ↔ s.length ≠ 2 * reader.size ∨ (∀ c ∈ s, isHexDigit c = true) ∨
      reader.inCore = true ∧ pairsRead s = false := by
  have hcore : ∀ {n : Nat} {what : String}, CoreAgrees (Bytes.ofHexString n what) s ↔
      s.length ≠ 2 * n ∨ (∀ c ∈ s, isHexDigit c = true) ∨ true = true ∧ pairsRead s = false := by
    intro n what
    simp only [coreAgrees_iff, true_and]
  have hcrypto : ∀ {n : Nat}, CryptoAgrees (fromHexString n) s ↔
      s.length ≠ 2 * n ∨ (∀ c ∈ s, isHexDigit c = true) ∨ false = true ∧ pairsRead s = false := by
    intro n
    simp only [cryptoAgrees_iff, Bool.false_eq_true, false_and, or_false]
  cases reader with
  | hash | address => exact hcore
  | secp256k1PrivateKey | secp256k1PublicKey | secp256k1CompressedPublicKey => exact hcrypto
  | ed25519PrivateKey | ed25519PublicKey | blsPrivateKey | blsPublicKey => exact hcrypto
  | secp256k1Signature | ed25519Signature | blsSignature => exact hcrypto

/-- `core::Hash` takes a last byte of "1g", and 64 letters "z" make an exception leave the reader of
a private key -/
theorem hexReaders_disagree :
    (∃ h, ChainForge.Hash.ofHexString (List.replicate 62 48 ++ str "1g") = .ok h) ∧
      ¬ HexReader.hash.Agrees (List.replicate 62 48 ++ str "1g") ∧
      secp256k1PrivateKeyFromHex (List.replicate 64 122) = .error (.invalidArgument "stoi") ∧
      ¬ HexReader.secp256k1PrivateKey.Agrees (List.replicate 64 122) := by
  have hlen : (List.replicate 62 48 ++ str "1g").length = 2 * 32 := by decide +kernel
  refine ⟨?_, ?_, by decide +kernel, ?_⟩
  · unfold ChainForge.Hash.ofHexString Bytes.ofHexString
    rw [if_neg (by decide +kernel), Bytes.ofHexPairs_ok_iff hlen]
    decide +kernel
  · show ¬ CoreAgrees (Bytes.ofHexString 32 _) _
    rw [coreAgrees_iff]
    decide +kernel
  · show ¬ CryptoAgrees (fromHexString 32) _
    rw [cryptoAgrees_iff]
    decide +kernel

end Crypto
end ChainForge
