import ChainForge.Lib.Buffer
import Mathlib.Algebra.GroupWithZero.Nat

/-!
# DER: a sequence of two integers

The distinguished encoding rules for numbers that are not negative, and for a `SEQUENCE` of two of
them.  A value is a tag, the length of its contents and the contents; a number has the least number of
bytes that leaves its sign bit clear.

* `encodeNat`, `encodePair`    the encodings, and `decodeNat`, `decodePair` the decoders, which also
                               give what follows the value;
* `decodePair_encodePair`      **an encoded pair is decoded, whatever follows it**;
* `encodePair_length`          the length of a pair of short numbers.
-/

set_option linter.unusedSectionVars false

namespace Der
open Buffer

/-! ## numbers as bytes -/

/-- `w` bytes, the most significant one first -/
def toBigEndian : Nat → Nat → List UInt8
  | 0, _ => []
  | w + 1, n => toBigEndian w (n / 256) ++ [UInt8.ofNat n]

@[simp] theorem toBigEndian_length (w n : Nat) : (toBigEndian w n).length = w := by
  induction w generalizing n with
  | zero => rfl
  | succ w ih => rw [toBigEndian, List.length_append, ih, List.length_singleton]

theorem ofBigEndian_toBigEndian {w n : Nat} (h : n < 256^w) : ofBigEndian (toBigEndian w n) = n := by
  induction w generalizing n with
  | zero =>
    rw [Nat.pow_zero] at h
    obtain rfl : n = 0 := by omega
    rfl
  | succ w ih =>
    have hdiv : n / 256 < 256^w := by
      rw [Nat.div_lt_iff_lt_mul (by decide)]
      rwa [Nat.pow_succ] at h
    rw [toBigEndian, ofBigEndian_concat, ih hdiv, UInt8.toNat_ofNat']
    omega

def bitLength (n : Nat) : Nat := if n = 0 then 0 else n.log2 + 1

theorem bitLength_le_iff (n k : Nat) : bitLength n ≤ k ↔ n < 2^k := by
  unfold bitLength
  by_cases h : n = 0
  · rw [if_pos h, h]
    exact ⟨fun _ => Nat.pow_pos (by decide), fun _ => Nat.zero_le k⟩
  · rw [if_neg h, Nat.add_one_le_iff, Nat.log2_lt h]

theorem lt_pow_of_bitLength {n w : Nat} (h : bitLength n ≤ 8 * w) : n < 256^w := by
  have hpow : (256 : Nat)^w = 2^(8 * w) := by rw [Nat.pow_mul]
  rw [hpow]
  exact (bitLength_le_iff n _).mp h

/-! ## lengths -/

def encodeLength (n : Nat) : List UInt8 :=
  if n < 128 then [UInt8.ofNat n]
  else
    let k := (bitLength n + 7) / 8
    UInt8.ofNat (128 + k) :: toBigEndian k n

/-- a length that is not encoded in the shortest way is refused -/
def decodeLength : List UInt8 → Option (Nat × List UInt8)
  | [] => none
  | b :: s =>
    if b.toNat < 128 then some (b.toNat, s)
    else
      let k := b.toNat - 128
      let n := ofBigEndian (s.take k)
      if encodeLength n = b :: s.take k then some (n, s.drop k) else none

theorem decodeLength_encodeLength {n : Nat} (h : n < 2^16) (rest : List UInt8) :
    decodeLength (encodeLength n ++ rest) = some (n, rest) := by
  by_cases hn : n < 128
  · have hb : (UInt8.ofNat n).toNat = n := by
      rw [UInt8.toNat_ofNat']
      omega
    rw [encodeLength, if_pos hn, List.singleton_append, decodeLength, hb, if_pos hn]
  · have hbits := (bitLength_le_iff n _).mpr h
    have hb : (UInt8.ofNat (128 + (bitLength n + 7) / 8)).toNat - 128 = (bitLength n + 7) / 8 ∧
        ¬ (UInt8.ofNat (128 + (bitLength n + 7) / 8)).toNat < 128 := by
      rw [UInt8.toNat_ofNat']
      omega
    have hval : ofBigEndian (toBigEndian ((bitLength n + 7) / 8) n) = n :=
      ofBigEndian_toBigEndian (lt_pow_of_bitLength (by omega))
    have e : encodeLength n = UInt8.ofNat (128 + (bitLength n + 7) / 8)
        :: toBigEndian ((bitLength n + 7) / 8) n := if_neg hn
    rw [e, List.cons_append, decodeLength, if_neg hb.2]
    dsimp only
    rw [hb.1, List.take_left' (toBigEndian_length _ _), List.drop_left' (toBigEndian_length _ _), hval,
      if_pos e]

/-! ## values -/

def encodeValue (tag : UInt8) (contents : List UInt8) : List UInt8 :=
  tag :: (encodeLength contents.length ++ contents)

/-- the contents, and what follows them -/
def decodeValue (tag : UInt8) : List UInt8 → Option (List UInt8 × List UInt8)
  | [] => none
  | t :: s =>
    if t = tag then
      (decodeLength s).bind fun p =>
        if p.1 ≤ p.2.length then some (p.2.take p.1, p.2.drop p.1) else none
    else none

theorem decodeValue_encodeValue (tag : UInt8) {contents : List UInt8}
    (h : contents.length < 2^16) (rest : List UInt8) :
    decodeValue tag (encodeValue tag contents ++ rest) = some (contents, rest) := by
  have hlen : contents.length ≤ (contents ++ rest).length := by
    rw [List.length_append]
    exact Nat.le_add_right _ _
  rw [encodeValue, List.cons_append, decodeValue, if_pos rfl, List.append_assoc,
    decodeLength_encodeLength h, Option.bind_some]
  dsimp only
  rw [if_pos hlen, List.take_left, List.drop_left]

/-! ## numbers and pairs -/

/-- the bytes of a number: one more bit than the number has -/
def natContents (n : Nat) : List UInt8 := toBigEndian (bitLength n / 8 + 1) n

/-- `INTEGER` -/
def encodeNat (n : Nat) : List UInt8 := encodeValue 2 (natContents n)

/-- a negative number, and one with more bytes than it needs, are refused -/
def decodeNat (s : List UInt8) : Option (Nat × List UInt8) :=
  (decodeValue 2 s).bind fun p =>
    if natContents (ofBigEndian p.1) = p.1 then some (ofBigEndian p.1, p.2) else none

/-- `SEQUENCE` -/
def encodePair (p : Nat × Nat) : List UInt8 := encodeValue 48 (encodeNat p.1 ++ encodeNat p.2)

def decodePair (s : List UInt8) : Option ((Nat × Nat) × List UInt8) :=
  (decodeValue 48 s).bind fun p =>
    (decodeNat p.1).bind fun q =>
      (decodeNat q.2).bind fun q' =>
        if q'.2.isEmpty then some ((q.1, q'.1), p.2) else none

theorem natContents_length (n : Nat) : (natContents n).length = bitLength n / 8 + 1 :=
  toBigEndian_length _ _

theorem ofBigEndian_natContents (n : Nat) : ofBigEndian (natContents n) = n :=
  ofBigEndian_toBigEndian (lt_pow_of_bitLength (by omega))

theorem decodeNat_encodeNat {n : Nat} (h : bitLength n ≤ 400) (rest : List UInt8) :
    decodeNat (encodeNat n ++ rest) = some (n, rest) := by
  have hlen : (natContents n).length < 2^16 := by
    rw [natContents_length]
    omega
  rw [decodeNat, encodeNat, decodeValue_encodeValue 2 hlen, Option.bind_some]
  dsimp only
  rw [ofBigEndian_natContents, if_pos rfl]

/-- short contents have a length of one byte -/
theorem encodeValue_length (tag : UInt8) {contents : List UInt8} (h : contents.length < 128) :
    (encodeValue tag contents).length = contents.length + 2 := by
  rw [encodeValue, encodeLength, if_pos h, List.length_cons, List.length_append, List.length_singleton]
  omega

/-! Of two numbers of up to 400 bits all lengths have one byte. -/

section
variable {r s : Nat} (hr : bitLength r ≤ 400) (hs : bitLength s ≤ 400)
include hr hs

theorem encodeNats_length : (encodeNat r ++ encodeNat s).length
    = bitLength r / 8 + bitLength s / 8 + 6 := by
  have hr' := natContents_length r
  have hs' := natContents_length s
  rw [List.length_append, encodeNat, encodeNat, encodeValue_length 2 (by omega),
    encodeValue_length 2 (by omega)]
  omega

/-- **An encoded pair is decoded, whatever follows it.** -/
theorem decodePair_encodePair (rest : List UInt8) :
    decodePair (encodePair (r, s) ++ rest) = some ((r, s), rest) := by
  have hlen : (encodeNat r ++ encodeNat s).length < 2^16 := by
    rw [encodeNats_length hr hs]
    omega
  have hlast := decodeNat_encodeNat hs []
  rw [List.append_nil] at hlast
  rw [decodePair, encodePair, decodeValue_encodeValue 48 hlen, Option.bind_some]
  dsimp only
  rw [decodeNat_encodeNat hr, Option.bind_some]
  dsimp only
  rw [hlast, Option.bind_some]
  rfl

theorem encodePair_length :
    (encodePair (r, s)).length = bitLength r / 8 + bitLength s / 8 + 8 := by
  have hlen := encodeNats_length hr hs
  have hlt : (encodeNat r ++ encodeNat s).length < 128 := by omega
  exact (encodeValue_length 48 hlt).trans (congrArg (· + 2) hlen)

end

end Der
