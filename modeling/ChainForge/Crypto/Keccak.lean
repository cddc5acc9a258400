import ChainForge.Core.Types
import ChainForge.Lib.Machine
import Mathlib.Data.List.DropRight

/-!
# Keccak digests

`modules/crypto`: `keccak.cpp`.  All widths are made from one SHA-256 digest, which is arbitrary
here.  A copy reads its bytes one by one, and `none` stands for a read outside of the array.

* `copyBytes_isSome_iff`   a copy of `n` bytes stays inside an array of `m` bytes iff `n ≤ m`;
* `finalize_eq_keccak`     **streaming is one-shot**: whatever the chunks and resets were, a digest
                           is that of the bytes since the last reset;
* `finalize_iff`           and it is made inside the 32 bytes of the internal digest exactly for the
                           widths 160 and 256.
-/

set_option linter.unusedSectionVars false

namespace ChainForge
namespace Crypto
open Machine

inductive CryptoError where
  | success
  | invalidKey
  | invalidSignature
  | invalidMessage
  | randomGenerationFailed
  | hashFailed
  | signatureFailed
  | verificationFailed
  | unsupportedAlgorithm
  | invalidLength
  deriving DecidableEq, Repr

structure CryptoResult (α : Type) where
  value : α
  error : CryptoError
  deriving DecidableEq

def CryptoResult.success {α : Type} (r : CryptoResult α) : Bool := r.error == .success

/-! ## copies -/

/-- the bytes at the positions below `n` -/
def readBytes (l : List UInt8) : Nat → Option (List UInt8)
  | 0 => some []
  | n + 1 => do
    let out ← readBytes l n
    let b ← l[n]?
    return out ++ [b]

theorem readBytes_eq (l : List UInt8) (n : Nat) :
    readBytes l n = if n ≤ l.length then some (l.take n) else none := by
  induction n with
  | zero => rfl
  | succ n ih =>
    rw [readBytes, ih]
    by_cases hn : n + 1 ≤ l.length
    · rw [if_pos (show n ≤ l.length by omega), if_pos hn, List.take_add_one,
        List.getElem?_eq_getElem (show n < l.length by omega)]
      rfl
    · rw [if_neg hn, List.getElem?_eq_none (show l.length ≤ n by omega)]
      split <;> rfl

theorem readBytes_length {l out : List UInt8} {n : Nat} (h : readBytes l n = some out) :
    out.length = n := by
  rw [readBytes_eq] at h
  split at h
  · rename_i hn
    rw [← Option.some.inj h, List.length_take, Nat.min_eq_left hn]
  · cases h

/-- `std::copy(a.begin(), a.begin() + n, output.begin())` into an array of `n` bytes -/
def copyBytes {m : Nat} (a : Bytes m) (n : Nat) : Option (Bytes n) :=
  match h : readBytes a.1 n with
  | some out => some ⟨out, readBytes_length h⟩
  | none => none

theorem copyBytes_isSome_iff {m : Nat} (a : Bytes m) (n : Nat) :
    (copyBytes a n).isSome ↔ n ≤ m := by
  have hread : (readBytes a.1 n).isSome ↔ n ≤ m := by
    rw [readBytes_eq, a.2]
    split <;> simp_all
  rw [← hread]
  unfold copyBytes
  split <;> simp_all

/-- the same copy to the start of a longer array of zeros -/
def copyBytesPadded {m : Nat} (a : Bytes m) (n k : Nat) (hk : k ≤ n) : Option (Bytes n) :=
  (copyBytes a k).map fun out =>
    ⟨out.1 ++ List.replicate (n - k) 0, by
      rw [List.length_append, out.2, List.length_replicate, Nat.add_sub_cancel' hk]⟩

/-! ## the digests -/

section
variable (sha256 : List UInt8 → CryptoResult Hash)

def internalKeccak (data : List UInt8) (outputBits : Nat) : Option (CryptoResult Hash) :=
  if outputBits = 256 then some (sha256 data)
  else
    let sha256Result := sha256 data
    if !sha256Result.success then some sha256Result
    else if h : outputBits < 256 then
      (copyBytesPadded sha256Result.value 32 ((outputBits + 7) / 8) (by omega)).map
        fun truncated => ⟨truncated, .success⟩
    else
      -- the digest is not extended
      some sha256Result

def keccak256 (data : List UInt8) : Option (CryptoResult Hash) := internalKeccak sha256 data 256

/-- `n` bytes of the internal digest, with its error -/
def keccakOf (outputBits n : Nat) (data : List UInt8) : Option (CryptoResult (Bytes n)) := do
  let result ← internalKeccak sha256 data outputBits
  let output ← copyBytes result.value n
  return ⟨output, result.error⟩

def keccak160 : List UInt8 → Option (CryptoResult (Bytes 20)) := keccakOf sha256 160 20
def keccak384 : List UInt8 → Option (CryptoResult (Bytes 48)) := keccakOf sha256 384 48
def keccak512 : List UInt8 → Option (CryptoResult (Bytes 64)) := keccakOf sha256 512 64

/-- no width makes `internal_keccak` itself read outside of the digest -/
theorem internalKeccak_isSome (data : List UInt8) (outputBits : Nat) :
    (internalKeccak sha256 data outputBits).isSome := by
  unfold internalKeccak copyBytesPadded
  split
  · rfl
  · dsimp only
    split
    · rfl
    · split
      · rw [Option.isSome_map, Option.isSome_map, copyBytes_isSome_iff]
        omega
      · rfl

theorem keccakOf_isSome_iff (outputBits n : Nat) (data : List UInt8) :
    (keccakOf sha256 outputBits n data).isSome ↔ n ≤ 32 := by
  obtain ⟨result, hr⟩ := Option.isSome_iff_exists.mp (internalKeccak_isSome sha256 data outputBits)
  rw [← copyBytes_isSome_iff result.value n]
  unfold keccakOf
  rw [hr, Option.bind_eq_bind, Option.bind_some]
  cases copyBytes result.value n <;> rfl

inductive Width where
  | w160 | w256 | w384 | w512
  deriving DecidableEq, Repr

def Width.bytes : Width → Nat
  | w160 => 20
  | w256 => 32
  | w384 => 48
  | w512 => 64

def keccak : (w : Width) → List UInt8 → Option (CryptoResult (Bytes w.bytes))
  | .w160 => keccak160 sha256
  | .w256 => keccak256 sha256
  | .w384 => keccak384 sha256
  | .w512 => keccak512 sha256

theorem keccak_isSome_iff (w : Width) (data : List UInt8) :
    (keccak sha256 w data).isSome ↔ w = .w160 ∨ w = .w256 := by
  cases w with
  | w160 => exact (keccakOf_isSome_iff sha256 160 20 data).trans (by decide)
  | w256 => exact iff_of_true (internalKeccak_isSome sha256 data 256) (Or.inr rfl)
  | w384 => exact (keccakOf_isSome_iff sha256 384 48 data).trans (by decide)
  | w512 => exact (keccakOf_isSome_iff sha256 512 64 data).trans (by decide)

/-! ## the stream hasher -/

structure StreamHasher where
  buffer : List UInt8 := []

/-- a call of `update`, in one of its three forms, or of `reset` -/
inductive StreamCall where
  | vector (data : List UInt8)
  | pointer (data : List UInt8) (length : Fin (data.length + 1))
  | string (data : List Int8)
  | reset

/-- what the call passes on -/
def StreamCall.chunk : StreamCall → List UInt8
  | vector data => data
  | pointer data length => data.take length
  | string data => data.map Int8.toUInt8
  | reset => []

def StreamCall.isReset : StreamCall → Bool
  | reset => true
  | _ => false

namespace StreamHasher

def update (h : StreamHasher) (data : List UInt8) : StreamHasher :=
  { h with buffer := h.buffer ++ data }

def updatePointer (h : StreamHasher) (data : List UInt8) (length : Fin (data.length + 1)) :
    StreamHasher :=
  { h with buffer := h.buffer ++ data.take length }

/-- the characters are signed -/
def updateString (h : StreamHasher) (data : List Int8) : StreamHasher :=
  { h with buffer := h.buffer ++ data.map Int8.toUInt8 }

def reset (h : StreamHasher) : StreamHasher := { h with buffer := [] }

def finalize160 (h : StreamHasher) : Option (CryptoResult (Bytes 20)) := keccak160 sha256 h.buffer
def finalize256 (h : StreamHasher) : Option (CryptoResult Hash) := keccak256 sha256 h.buffer
def finalize384 (h : StreamHasher) : Option (CryptoResult (Bytes 48)) := keccak384 sha256 h.buffer
def finalize512 (h : StreamHasher) : Option (CryptoResult (Bytes 64)) := keccak512 sha256 h.buffer

def finalize (h : StreamHasher) : (w : Width) → Option (CryptoResult (Bytes w.bytes))
  | .w160 => h.finalize160 sha256
  | .w256 => h.finalize256 sha256
  | .w384 => h.finalize384 sha256
  | .w512 => h.finalize512 sha256

def step (h : StreamHasher) : StreamCall → StreamHasher
  | .vector data => h.update data
  | .pointer data length => h.updatePointer data length
  | .string data => h.updateString data
  | .reset => h.reset

end StreamHasher

/-- the bytes passed on since the last `reset` -/
def sinceReset (calls : List StreamCall) : List UInt8 :=
  (calls.rtakeWhile fun c => !c.isReset).flatMap StreamCall.chunk

theorem step_buffer (h : StreamHasher) (c : StreamCall) :
    (h.step c).buffer = if c.isReset then [] else h.buffer ++ c.chunk := by
  cases c <;> rfl

theorem sinceReset_concat (calls : List StreamCall) (c : StreamCall) :
    sinceReset (calls ++ [c]) = if c.isReset then [] else sinceReset calls ++ c.chunk := by
  unfold sinceReset
  rw [List.rtakeWhile_concat]
  cases hc : c.isReset with
  | true => rfl
  | false =>
    rw [if_pos (by rfl), if_neg (by decide), List.flatMap_append, List.flatMap_singleton]

def hasherAfter (calls : List StreamCall) : StreamHasher := run StreamHasher.step {} calls

theorem hasherAfter_buffer (calls : List StreamCall) :
    (hasherAfter calls).buffer = sinceReset calls := by
  induction calls using List.reverseRecOn with
  | nil => rfl
  | append_singleton calls c ih =>
    rw [sinceReset_concat, ← ih, ← step_buffer]
    unfold hasherAfter
    rw [run_concat]

theorem finalize_eq_keccak (calls : List StreamCall) (w : Width) :
    (hasherAfter calls).finalize sha256 w = keccak sha256 w (sinceReset calls) := by
  rw [← hasherAfter_buffer]
  cases w <;> rfl

/-- **Which digests can be streamed**: after any calls, a digest is that of the bytes since the last
`reset`, with every byte read from inside the internal digest, exactly for the widths 160 and 256.
-/
theorem finalize_iff (calls : List StreamCall) (w : Width) :
    ((hasherAfter calls).finalize sha256 w = keccak sha256 w (sinceReset calls) ∧
        ((hasherAfter calls).finalize sha256 w).isSome) ↔
      w = .w160 ∨ w = .w256 := by
  rw [finalize_eq_keccak, keccak_isSome_iff]
  exact and_iff_right rfl

end

/-- the digest of no bytes: a byte behind the 32 of the internal digest is read -/
theorem finalize384_outside :
    (hasherAfter []).finalize384 (fun _ => ⟨Hash.zero, .success⟩) = none := by
  decide +kernel

end Crypto
end ChainForge
