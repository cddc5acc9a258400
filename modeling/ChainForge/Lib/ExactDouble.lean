import ChainForge.Lib.Double
import Mathlib.Data.NNRat.Floor

/-!
# Non-negative doubles, computed exactly

`Extended` has the non-negative rationals, infinity and NaN: what unsigned numbers give under
division, with the division by zero as IEEE 754 has it and without rounding.

A conversion to an integer truncates.  Where the value does not fit, its outcome is undefined in
C++: `ExactDouble wild` are these doubles with the outcomes `wild` there, and what is to hold of a
program must hold for every `wild`.

* `clamp_num`, `clamp_inf`   `std::clamp`;
* `toSize_num`, `toSize_of_not_fits`   the conversion.
-/

set_option linter.unusedSectionVars false

inductive Extended where
  | num (q : ℚ≥0)
  | inf
  | nan
  deriving DecidableEq

namespace Extended

def add : Extended → Extended → Extended
  | nan, _ => nan
  | _, nan => nan
  | inf, _ => inf
  | _, inf => inf
  | num a, num b => num (a + b)

def mul : Extended → Extended → Extended
  | nan, _ => nan
  | _, nan => nan
  | inf, inf => inf
  | inf, num b => if b = 0 then nan else inf
  | num a, inf => if a = 0 then nan else inf
  | num a, num b => num (a * b)

def div : Extended → Extended → Extended
  | nan, _ => nan
  | _, nan => nan
  | inf, inf => nan
  | inf, num _ => inf
  | num _, inf => num 0
  | num a, num b => if b = 0 then (if a = 0 then nan else inf) else num (a / b)

/-- nothing is smaller than NaN, and NaN than nothing -/
def lt : Extended → Extended → Bool
  | num a, num b => decide (a < b)
  | num _, inf => true
  | _, _ => false

/-- the value is a number that fits in 64 bits when it is truncated -/
def Fits (x : Extended) : Prop := ∃ q, x = num q ∧ ⌊q⌋₊ < 2 ^ 64

def toSize (wild : Extended → UInt64) : Extended → UInt64
  | num q => if ⌊q⌋₊ < 2 ^ 64 then UInt64.ofNat ⌊q⌋₊ else wild (num q)
  | inf => wild inf
  | nan => wild nan

theorem floor_lt {q : ℚ≥0} : ⌊q⌋₊ < 2 ^ 64 ↔ q < 2 ^ 64 := by
  rw [Nat.floor_lt' (by decide)]
  exact_mod_cast Iff.rfl

end Extended

def ExactDouble (_ : Extended → UInt64) : Type := Extended

namespace ExactDouble
open Extended

variable {wild : Extended → UInt64}

instance exactDouble (wild : Extended → UInt64) : Double (ExactDouble wild) where
  ofNat n := num n
  lit q := num q.toNNRat
  add := Extended.add
  mul := Extended.mul
  div := Extended.div
  max a b := if Extended.lt a b then b else a
  lt := Extended.lt
  toSize := Extended.toSize wild

theorem ofNat_eq (n : Nat) : (Double.ofNat n : ExactDouble wild) = num n := rfl

theorem lit_eq (q : ℚ≥0) : (Double.lit (q : ℚ) : ExactDouble wild) = num q :=
  congrArg num (NNRat.toNNRat_coe q)

theorem div_num (a : ℚ≥0) {b : ℚ≥0} (hb : b ≠ 0) :
    (Double.div (num a) (num b) : ExactDouble wild) = num (a / b) :=
  if_neg hb

theorem div_zero {a : ℚ≥0} (ha : a ≠ 0) :
    (Double.div (num a) (num 0) : ExactDouble wild) = inf := by
  show (if (0 : ℚ≥0) = 0 then (if a = 0 then nan else inf) else num (a / 0)) = inf
  rw [if_pos rfl, if_neg ha]

theorem clamp_num {v lo hi : ℚ≥0} (h : lo ≤ hi) :
    (Double.clamp (num v) (num lo) (num hi) : ExactDouble wild) = num (max lo (min v hi)) := by
  show (if decide (v < lo) = true then num lo else if decide (hi < v) = true then num hi else num v)
    = num (max lo (min v hi))
  by_cases hlo : v < lo
  · rw [if_pos (decide_eq_true hlo), min_eq_left (hlo.le.trans h), max_eq_left hlo.le]
  · rw [if_neg (by simpa using hlo)]
    by_cases hhi : hi < v
    · rw [if_pos (decide_eq_true hhi), min_eq_right hhi.le, max_eq_right h]
    · rw [if_neg (by simpa using hhi), min_eq_left (not_lt.mp hhi), max_eq_right (not_lt.mp hlo)]

theorem clamp_inf (lo hi : ℚ≥0) :
    (Double.clamp inf (num lo) (num hi) : ExactDouble wild) = num hi := rfl

theorem toSize_num {q : ℚ≥0} (h : ⌊q⌋₊ < 2 ^ 64) :
    (Double.toSize (F := ExactDouble wild) (num q)).toNat = ⌊q⌋₊ := by
  show (if ⌊q⌋₊ < 2 ^ 64 then UInt64.ofNat ⌊q⌋₊ else wild (num q)).toNat = ⌊q⌋₊
  rw [if_pos h, UInt64.toNat_ofNat_of_lt' h]

theorem toSize_of_not_fits {x : Extended} (h : ¬ x.Fits) :
    Double.toSize (F := ExactDouble wild) x = wild x := by
  cases x with
  | num q =>
    show (if ⌊q⌋₊ < 2 ^ 64 then UInt64.ofNat ⌊q⌋₊ else wild (num q)) = wild (num q)
    rw [if_neg fun hq => h ⟨q, rfl, hq⟩]
  | inf => rfl
  | nan => rfl

end ExactDouble
