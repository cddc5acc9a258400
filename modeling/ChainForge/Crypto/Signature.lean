import ChainForge.Crypto.Keccak
import ChainForge.Lib.Der

/-!
# ECDSA signatures

`internal_ecdsa_sign` and `internal_ecdsa_verify` of `modules/crypto/src/signature.cpp`.  What OpenSSL
computes is an argument (`OpenSsl`), except for `i2d_ECDSA_SIG` and `d2i_ECDSA_SIG`, which are the DER
encoding of a sequence of two integers and its inverse.

The encoding of two numbers of 256 bits takes 70 to 72 bytes, and it is put into an array of 64.

* `verify_sign`       a signature that is made is verified as the numbers it was made of;
* `sign_total_iff`    **which signatures fit**: the two numbers must be short.
-/

set_option linter.unusedSectionVars false

namespace ChainForge
namespace Crypto
open Buffer Der

/-- the order of the group of secp256k1 -/
def groupOrder : Nat := 0xFFFFFFFFFFFFFFFFFFFFFFFFFFFFFFFEBAAEDCE6AF48A03BBFD25E8CD0364141

/-- `SECP256K1_SIGNATURE_SIZE` -/
def signatureSize : Nat := 64

/-- `ECDSA_SIG`: the numbers `r` and `s` -/
abbrev EcdsaSig := Nat × Nat

/-- what OpenSSL provides; `Key` is an `EC_KEY` -/
structure OpenSsl (Key : Type) where
  sha256 : List UInt8 → Bytes 32
  /-- `EC_KEY_new_by_curve_name(NID_secp256k1)` -/
  newByCurveName : Option Key
  /-- `EC_KEY_set_private_key` with the number that `BN_bin2bn` makes -/
  setPrivateKey : Key → Nat → Option Key
  /-- `ECDSA_do_sign` -/
  doSign : Bytes 32 → Key → Option EcdsaSig
  /-- `o2i_ECPublicKey` -/
  publicKey : Key → Bytes 64 → Option Key
  /-- `ECDSA_do_verify` -/
  doVerify : Bytes 32 → EcdsaSig → Key → Int

/-- `d2i_ECDSA_SIG`, which ignores the bytes after the value -/
def d2iEcdsaSig (data : List UInt8) : Option EcdsaSig := (decodePair data).map (·.1)

section
variable {Key : Type} (ssl : OpenSsl Key)

/-- the numbers that `internal_ecdsa_sign` gets from OpenSSL -/
def ecdsaSignature (message : List UInt8) (privateKey : Bytes 32) : Option EcdsaSig := do
  let key ← ssl.newByCurveName
  let key ← ssl.setPrivateKey key (ofBigEndian privateKey.1)
  ssl.doSign (ssl.sha256 message) key

/-- `internal_ecdsa_sign`; `uninitialised` is what the array of the result holds before it is written
to -/
def internalEcdsaSign (uninitialised : Bytes 64) (message : List UInt8) (privateKey : Bytes 32) :
    CryptoResult (Bytes 64) :=
  match ecdsaSignature ssl message privateKey with
  | none => ⟨Bytes.fill 64 0, .signatureFailed⟩
  | some sig =>
    let der := encodePair sig
    if h : der.length ≤ 0 ∨ der.length > signatureSize then ⟨Bytes.fill 64 0, .signatureFailed⟩
    else
      -- the second call of `i2d_ECDSA_SIG` writes as many bytes as the first one has counted
      ⟨⟨der ++ uninitialised.1.drop der.length, by
        have hu := uninitialised.2
        unfold signatureSize at h
        rw [List.length_append, List.length_drop]
        omega⟩, .success⟩

/-- `internal_ecdsa_verify` -/
def internalEcdsaVerify (message : List UInt8) (signature publicKey : Bytes 64) : CryptoResult Bool :=
  match ssl.newByCurveName with
  | none => ⟨false, .verificationFailed⟩
  | some key =>
    match ssl.publicKey key publicKey with
    | none => ⟨false, .invalidKey⟩
    | some key =>
      match d2iEcdsaSig signature.1 with
      | none => ⟨false, .invalidSignature⟩
      | some sig => ⟨ssl.doVerify (ssl.sha256 message) sig key == 1, .success⟩

/-- a number below the order has at most 256 bits -/
theorem bitLength_of_lt_order {x : Nat} (h : x < groupOrder) : bitLength x ≤ 256 :=
  (bitLength_le_iff x 256).mpr (Nat.lt_trans h (by decide))

/-- what is encoded is decoded, whatever the array holds after it -/
theorem d2iEcdsaSig_encodePair {r s : Nat} (hr : r < groupOrder) (hs : s < groupOrder)
    (rest : List UInt8) : d2iEcdsaSig (encodePair (r, s) ++ rest) = some (r, s) := by
  have hr' := bitLength_of_lt_order hr
  have hs' := bitLength_of_lt_order hs
  rw [d2iEcdsaSig, decodePair_encodePair (by omega) (by omega), Option.map_some]

variable {ssl}

/-- a value is made of the encoding, if that has at most 64 bytes -/
theorem internalEcdsaSign_success_iff {uninitialised : Bytes 64} {message : List UInt8}
    {privateKey : Bytes 32} {r s : Nat} (hsig : ecdsaSignature ssl message privateKey = some (r, s))
    (hr : r < groupOrder) (hs : s < groupOrder) (value : Bytes 64) :
    internalEcdsaSign ssl uninitialised message privateKey = ⟨value, .success⟩ ↔
      bitLength r / 8 + bitLength s / 8 ≤ 56 ∧ value.1
        = encodePair (r, s) ++ uninitialised.1.drop (encodePair (r, s)).length := by
  have hr' := bitLength_of_lt_order hr
  have hs' := bitLength_of_lt_order hs
  have hlen : (encodePair (r, s)).length = bitLength r / 8 + bitLength s / 8 + 8 :=
    encodePair_length (by omega) (by omega)
  unfold internalEcdsaSign
  rw [hsig]
  dsimp only
  by_cases hfit : (encodePair (r, s)).length ≤ 0 ∨ (encodePair (r, s)).length > signatureSize
  · rw [dif_pos hfit]
    unfold signatureSize at hfit
    constructor
    · intro h
      cases h
    · intro h
      omega
  · rw [dif_neg hfit]
    unfold signatureSize at hfit
    constructor
    · intro h
      cases h
      exact ⟨by omega, rfl⟩
    · rintro ⟨_, hv⟩
      rw [CryptoResult.mk.injEq]
      exact ⟨Subtype.ext hv.symm, rfl⟩

/-- **A signature that is made is verified as the numbers it was made of.** -/
theorem verify_sign {uninitialised : Bytes 64} {message : List UInt8} {privateKey : Bytes 32}
    {r s : Nat} (hsig : ecdsaSignature ssl message privateKey = some (r, s))
    (hr : r < groupOrder) (hs : s < groupOrder) {value : Bytes 64}
    (hvalue : internalEcdsaSign ssl uninitialised message privateKey = ⟨value, .success⟩)
    {key key' : Key} {publicKey : Bytes 64} (hnew : ssl.newByCurveName = some key)
    (hpublic : ssl.publicKey key publicKey = some key') :
    internalEcdsaVerify ssl message value publicKey
      = ⟨ssl.doVerify (ssl.sha256 message) (r, s) key' == 1, .success⟩ := by
  have hv := ((internalEcdsaSign_success_iff hsig hr hs value).mp hvalue).2
  unfold internalEcdsaVerify
  rw [hnew]
  dsimp only
  rw [hpublic]
  dsimp only
  rw [hv, d2iEcdsaSig_encodePair hr hs]

end

/-- **Which signatures fit.**  Of numbers `r` and `s` below the order, `internal_ecdsa_sign` makes a
value that the verification decodes to them exactly if their full bytes are at most 56. -/
theorem sign_total_iff {Key : Type} (ssl : OpenSsl Key) (uninitialised : Bytes 64)
    (message : List UInt8) (privateKey : Bytes 32) (r s : Nat)
    (hsig : ecdsaSignature ssl message privateKey = some (r, s))
    (hr : 1 ≤ r ∧ r < groupOrder) (hs : 1 ≤ s ∧ s < groupOrder) :
    (∃ value, internalEcdsaSign ssl uninitialised message privateKey = ⟨value, .success⟩ ∧
        d2iEcdsaSig value.1 = some (r, s)) ↔
      bitLength r / 8 + bitLength s / 8 ≤ 56 := by
  constructor
  · rintro ⟨value, hvalue, _⟩
    exact ((internalEcdsaSign_success_iff hsig hr.2 hs.2 value).mp hvalue).1
  · intro hfit
    have hr' := bitLength_of_lt_order hr.2
    have hs' := bitLength_of_lt_order hs.2
    have hlen : (encodePair (r, s)).length = bitLength r / 8 + bitLength s / 8 + 8 :=
      encodePair_length (by omega) (by omega)
    have hsize : (encodePair (r, s)
        ++ uninitialised.1.drop (encodePair (r, s)).length).length = 64 := by
      have hu := uninitialised.2
      rw [List.length_append, List.length_drop]
      omega
    refine ⟨⟨_, hsize⟩, (internalEcdsaSign_success_iff hsig hr.2 hs.2 _).mpr ⟨hfit, rfl⟩, ?_⟩
    exact d2iEcdsaSig_encodePair hr.2 hs.2 _

/-- a library that signs everything with the same numbers -/
def constantSsl (sig : EcdsaSig) : OpenSsl Unit where
  sha256 := hashSha256
  newByCurveName := some ()
  setPrivateKey _ _ := some ()
  doSign _ _ := some sig
  publicKey _ _ := some ()
  doVerify _ sig' _ := if sig' = sig then 1 else 0

/-- numbers of one byte, and their signature -/
theorem sign_total_iff_small :
    (∃ value, internalEcdsaSign (constantSsl (5, 7)) (Bytes.fill 64 0) [] (Bytes.fill 32 1)
        = ⟨value, .success⟩ ∧ d2iEcdsaSig value.1 = some (5, 7)) ↔
      bitLength 5 / 8 + bitLength 7 / 8 ≤ 56 :=
  sign_total_iff (constantSsl (5, 7)) (Bytes.fill 64 0) [] (Bytes.fill 32 1) 5 7 rfl (by decide)
    (by decide)

/-- the greatest numbers below the order have an encoding of 72 bytes -/
theorem greatest_signature_fails :
    (encodePair (groupOrder - 1, groupOrder - 1)).length = 72 ∧
      (internalEcdsaSign (constantSsl (groupOrder - 1, groupOrder - 1)) (Bytes.fill 64 0) []
        (Bytes.fill 32 1)).error = .signatureFailed := by
  decide +kernel

end Crypto
end ChainForge
