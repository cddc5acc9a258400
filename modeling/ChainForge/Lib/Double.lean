import Mathlib.Data.Rat.Floor
import Mathlib.Data.UInt

/-!
# Double-precision numbers as a parameter

The programs use `double` for scores and thresholds.  `Double F` lists the operations they need on
a type `F` of numbers and promises nothing about them: what is proved for every `F` holds for
every rounding, and for NaN, which `lt` may treat as it likes.  Sorting compares in a linear order
on `F` (`[LinearOrder F]`), which is that of the numbers that really occur.

The instance on `ℚ` computes exactly.
-/

/-- the operations on `double` -/
class Double (F : Type) where
  /-- `static_cast<double>` of an unsigned number -/
  ofNat : Nat → F
  /-- a literal such as `0.8` -/
  lit : ℚ → F
  add : F → F → F
  mul : F → F → F
  div : F → F → F
  max : F → F → F
  /-- the built-in comparison `<` -/
  lt : F → F → Bool
  /-- `static_cast<size_t>` -/
  toSize : F → UInt64

instance : Double ℚ where
  ofNat n := n
  lit q := q
  add := (· + ·)
  mul := (· * ·)
  div := (· / ·)
  max := max
  lt a b := decide (a < b)
  toSize q := UInt64.ofNat ⌊q⌋.toNat

/-- `std::clamp` -/
def Double.clamp {F : Type} [Double F] (v lo hi : F) : F :=
  if Double.lt v lo then lo else if Double.lt hi v then hi else v
