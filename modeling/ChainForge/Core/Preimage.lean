import ChainForge.Core.Block
import ChainForge.Lib.Buffer
import Mathlib.Tactic.Ring

/-!
# The byte strings under the hashes

What `Transaction::calculate_hash` and `Block::calculate_hash` write field by field.

* `ofBigEndian_bigEndian`   `w` bytes keep a number modulo `256^w`;
* `bigEndian_inj`           numbers of at most `w` bytes are told apart;
* `preimages_inj`           **both byte strings determine every field**, the payload included.
-/

set_option linter.unusedSectionVars false

namespace ChainForge
open Buffer

/-! ## integers -/

/-- the last byte is the lowest one, those before it write the quotient -/
theorem bigEndian_succ (w x : Nat) :
    bigEndian (w + 1) x = bigEndian w (x / 256) ++ [UInt8.ofNat x] := by
  unfold bigEndian
  rw [List.range_succ_eq_map, List.reverse_cons, List.map_append, ← List.map_reverse,
    List.map_map]
  congr 1
  refine List.map_congr_left fun i _ => ?_
  show UInt8.ofNat (x >>> ((i + 1) * 8)) = UInt8.ofNat ((x / 256) >>> (i * 8))
  rw [Nat.add_mul, Nat.add_comm, Nat.shiftRight_add, Nat.shiftRight_eq_div_pow x]

theorem ofBigEndian_bigEndian (w x : Nat) : ofBigEndian (bigEndian w x) = x % 256 ^ w := by
  induction w generalizing x with
  | zero => rw [pow_zero, Nat.mod_one]; rfl
  | succ w ih =>
    have hb : (UInt8.ofNat x).toNat = x % 256 := UInt8.toNat_ofNat'
    rw [bigEndian_succ, ofBigEndian_concat, ih, hb, pow_succ', Nat.mod_mul]
    ring

theorem bigEndian_inj {w x y : Nat} (hx : x < 256 ^ w) (hy : y < 256 ^ w)
    (h : bigEndian w x = bigEndian w y) : x = y := by
  have h1 := congrArg ofBigEndian h
  rw [ofBigEndian_bigEndian, ofBigEndian_bigEndian, Nat.mod_eq_of_lt hx, Nat.mod_eq_of_lt hy] at h1
  exact h1

theorem bigEndian_u64_inj {x y : UInt64} (h : bigEndian 8 x.toNat = bigEndian 8 y.toNat) :
    x = y :=
  UInt64.toNat_inj.mp (bigEndian_inj x.toNat_lt y.toNat_lt h)

theorem bigEndian_u32_inj {x y : UInt32} (h : bigEndian 4 x.toNat = bigEndian 4 y.toNat) :
    x = y :=
  UInt32.toNat_inj.mp (bigEndian_inj x.toNat_lt y.toNat_lt h)

/-! ## one field after the other -/

theorem Bytes.append_inj {n : Nat} {a b : Bytes n} {r r' : List UInt8}
    (h : a.1 ++ r = b.1 ++ r') : a = b ∧ r = r' := by
  obtain ⟨h1, h2⟩ := List.append_inj h (a.2.trans b.2.symm)
  exact ⟨Subtype.ext h1, h2⟩

theorem bigEndian_append_inj {x y : UInt64} {r r' : List UInt8}
    (h : bigEndian 8 x.toNat ++ r = bigEndian 8 y.toNat ++ r') : x = y ∧ r = r' := by
  obtain ⟨h1, h2⟩ := List.append_inj h (by rw [bigEndian_length, bigEndian_length])
  exact ⟨bigEndian_u64_inj h1, h2⟩

theorem Transaction.preimage_inj {d d' : TransactionData}
    (h : Transaction.preimage d = Transaction.preimage d') : d = d' := by
  obtain ⟨hfrom, h⟩ := Bytes.append_inj h
  obtain ⟨hto, h⟩ := Bytes.append_inj h
  obtain ⟨hvalue, h⟩ := bigEndian_append_inj h
  obtain ⟨hlimit, h⟩ := bigEndian_append_inj h
  obtain ⟨hprice, h⟩ := bigEndian_append_inj h
  obtain ⟨hnonce, hdata⟩ := bigEndian_append_inj h
  cases d
  cases d'
  cases hfrom
  cases hto
  cases hvalue
  cases hlimit
  cases hprice
  cases hnonce
  cases hdata
  rfl

theorem Block.preimage_inj {h h' : BlockHeader} (e : Block.preimage h = Block.preimage h') :
    h = h' := by
  obtain ⟨hheight, e⟩ := bigEndian_append_inj e
  obtain ⟨hparent, e⟩ := Bytes.append_inj e
  obtain ⟨hroot, e⟩ := Bytes.append_inj e
  obtain ⟨htime, e⟩ := bigEndian_append_inj e
  obtain ⟨hnonce, e⟩ := bigEndian_append_inj e
  obtain ⟨hlimit, e⟩ := bigEndian_append_inj e
  obtain ⟨hprice, e⟩ := bigEndian_append_inj e
  have hchain := bigEndian_u32_inj e
  cases h
  cases h'
  cases hheight
  cases hparent
  cases hroot
  cases htime
  cases hnonce
  cases hlimit
  cases hprice
  cases hchain
  rfl

/-- **No two transactions and no two headers share the bytes they are hashed from.** -/
theorem preimages_inj :
    (∀ d d' : TransactionData, Transaction.preimage d = Transaction.preimage d' ↔ d = d')
      ∧ ∀ h h' : BlockHeader, Block.preimage h = Block.preimage h' ↔ h = h' := by
  refine ⟨fun d d' => ⟨Transaction.preimage_inj, ?_⟩, fun h h' => ⟨Block.preimage_inj, ?_⟩⟩
  · intro e
    rw [e]
  · intro e
    rw [e]

end ChainForge
