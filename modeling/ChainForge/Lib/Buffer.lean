import Mathlib.Data.List.Induction
import Mathlib.Data.Nat.Bitwise

/-!
# Byte buffers

* `ofBigEndian l`   the number that the bytes `l` write, the most significant one first;
* `word16_toNat`, `word32_toNat`, `word64_toNat`   a machine word put together from its bytes by
                    shifts and ors is that number;
* `getElem?_of_drop`, `drop_of_drop`, `length_of_drop`   a position in a buffer, given by what
                    stands from there on.
-/

set_option linter.unusedSectionVars false

namespace Buffer

/-- the number written by a list of bytes, the most significant one first -/
def ofBigEndian (l : List UInt8) : Nat := l.foldl (fun v b => v * 256 + b.toNat) 0

theorem ofBigEndian_concat (l : List UInt8) (b : UInt8) :
    ofBigEndian (l ++ [b]) = ofBigEndian l * 256 + b.toNat := by
  unfold ofBigEndian
  rw [List.foldl_append]
  rfl

theorem ofBigEndian_cons (b : UInt8) (l : List UInt8) :
    ofBigEndian (b :: l) = b.toNat * 256 ^ l.length + ofBigEndian l := by
  induction l using List.reverseRecOn with
  | nil => simp [ofBigEndian]
  | append_singleton l c ih =>
    rw [← List.cons_append, ofBigEndian_concat, ih, ofBigEndian_concat, List.length_append,
      List.length_singleton, Nat.pow_succ, Nat.add_mul, Nat.mul_assoc, Nat.add_assoc]

theorem ofBigEndian_lt (l : List UInt8) : ofBigEndian l < 256 ^ l.length := by
  induction l using List.reverseRecOn with
  | nil => decide
  | append_singleton l b ih =>
    have hb := b.toNat_lt
    rw [ofBigEndian_concat, List.length_append, List.length_singleton, Nat.pow_succ]
    omega

/-- leading zeros write nothing -/
theorem ofBigEndian_replicate (n : Nat) : ofBigEndian (List.replicate n 0) = 0 := by
  induction n with
  | zero => rfl
  | succ n ih =>
    rw [List.replicate_succ', ofBigEndian_concat, ih]
    rfl

/-! ## words -/

/-- shift and or put two numbers side by side -/
theorem shiftLeft_or {lo i : Nat} (h : lo < 2 ^ i) (hi : Nat) :
    hi <<< i ||| lo = hi * 2 ^ i + lo := by
  rw [← Nat.shiftLeft_add_eq_or_of_lt h, Nat.shiftLeft_eq]

theorem word16_toNat (a b : UInt8) :
    ((a.toUInt16 <<< 8) ||| b.toUInt16).toNat = ofBigEndian [a, b] := by
  have ha := a.toNat_lt
  have hb := b.toNat_lt
  have h1 : (a.toUInt16 <<< 8).toNat = a.toNat <<< 8 := by
    rw [UInt16.toNat_shiftLeft, UInt8.toNat_toUInt16]
    exact Nat.mod_eq_of_lt (by rw [show (8 : UInt16).toNat % 16 = 8 from rfl, Nat.shiftLeft_eq]; omega)
  rw [UInt16.toNat_or, h1, UInt8.toNat_toUInt16, shiftLeft_or (by omega)]
  simp only [ofBigEndian, List.foldl_cons, List.foldl_nil]
  omega

/-- a byte fits where it is shifted to -/
theorem shifted_toNat (x : UInt8) {k : UInt32} (hk : k.toNat ≤ 24) :
    (x.toUInt32 <<< k).toNat = x.toNat <<< k.toNat := by
  have hx := x.toNat_lt
  have hp : 2 ^ k.toNat ≤ 2 ^ 24 := Nat.pow_le_pow_right (by decide) hk
  have hlt : x.toNat * 2 ^ k.toNat < 2 ^ 32 := by
    calc x.toNat * 2 ^ k.toNat ≤ 255 * 2 ^ 24 := Nat.mul_le_mul (by omega) hp
      _ < 2 ^ 32 := by decide
  rw [UInt32.toNat_shiftLeft, UInt8.toNat_toUInt32, Nat.mod_eq_of_lt (show k.toNat < 32 by omega),
    Nat.shiftLeft_eq]
  exact Nat.mod_eq_of_lt hlt

theorem word32_toNat (a b c d : UInt8) :
    ((a.toUInt32 <<< 24) ||| (b.toUInt32 <<< 16) ||| (c.toUInt32 <<< 8) ||| d.toUInt32).toNat
      = ofBigEndian [a, b, c, d] := by
  have ha := a.toNat_lt
  have hb := b.toNat_lt
  have hc := c.toNat_lt
  have hd := d.toNat_lt
  rw [UInt32.toNat_or, UInt32.toNat_or, UInt32.toNat_or, shifted_toNat a (k := 24) (by decide),
    shifted_toNat b (k := 16) (by decide), shifted_toNat c (k := 8) (by decide),
    UInt8.toNat_toUInt32, Nat.or_assoc, Nat.or_assoc]
  change a.toNat <<< 24 ||| (b.toNat <<< 16 ||| (c.toNat <<< 8 ||| d.toNat)) = _
  rw [shiftLeft_or (i := 8) (by omega), shiftLeft_or (i := 16) (by omega),
    shiftLeft_or (i := 24) (by omega)]
  simp only [ofBigEndian, List.foldl_cons, List.foldl_nil]
  omega

/-- at most eight bytes, shifted in one after the other: nothing is lost at the top -/
theorem word64_toNat {l : List UInt8} (h : l.length ≤ 8) :
    (l.foldl (fun (v : UInt64) b => (v <<< 8) ||| b.toUInt64) 0).toNat = ofBigEndian l := by
  induction l using List.reverseRecOn with
  | nil => rfl
  | append_singleton l b ih =>
    have hb := b.toNat_lt
    rw [List.length_append, List.length_singleton] at h
    have hlt : ofBigEndian l < 256 ^ 7 :=
      Nat.lt_of_lt_of_le (ofBigEndian_lt l) (Nat.pow_le_pow_right (by decide) (by omega))
    have hshift : ofBigEndian l <<< 8 % 2 ^ 64 = ofBigEndian l <<< 8 := by
      rw [Nat.shiftLeft_eq]
      omega
    rw [List.foldl_append, List.foldl_cons, List.foldl_nil, UInt64.toNat_or,
      UInt64.toNat_shiftLeft, ih (by omega), UInt8.toNat_toUInt64, ofBigEndian_concat]
    change ofBigEndian l <<< 8 % 2 ^ 64 ||| b.toNat = _
    rw [hshift, shiftLeft_or (by omega)]
    rfl

/-! ## positions -/

variable {α : Type}

/-- the bytes of the buffer from a position on, one by one -/
theorem getElem?_of_drop {data l : List α} {pos : Nat} (h : data.drop pos = l) (k : Nat) :
    data[pos + k]? = l[k]? := by
  rw [← h, List.getElem?_drop]

/-- what is left of the buffer after the first part of the rest -/
theorem drop_of_drop {data a b : List α} {pos n : Nat} (h : data.drop pos = a ++ b)
    (hn : a.length = n) : data.drop (pos + n) = b := by
  rw [← List.drop_drop, h, ← hn, List.drop_left]

theorem length_of_drop {data a : List α} {pos : Nat} (h : data.drop pos = a)
    (ha : 0 < a.length) : data.length = pos + a.length := by
  have hlen := congrArg List.length h
  rw [List.length_drop] at hlen
  omega

end Buffer
