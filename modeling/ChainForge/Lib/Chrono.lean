import Mathlib.Algebra.Ring.Int.Defs

/-!
# Clock readings and durations in 64 bits

A steady clock counts nanoseconds from its epoch in a 64-bit signed integer, so that the difference
of two readings is exact.  Durations are given in milliseconds, and 64 bits wide, too; to be compared
with a difference they are multiplied by a million, again in 64 bits.

* `toInt_nanoseconds`   the conversion is exact for a duration that fits;
* `toInt_before`        and so is the time one such duration before a reading.
-/

set_option linter.unusedSectionVars false

namespace ChainForge
namespace Chrono

/-- a reading of the clock, in nanoseconds -/
abbrev Instant := Fin 9223372036854775808

/-- for numerals -/
instance instantNeZero : @NeZero Nat Zero.ofOfNat0 9223372036854775808 :=
  ⟨Nat.succ_ne_zero 9223372036854775807⟩

/-- the conversion of milliseconds -/
def nanoseconds (milliseconds : Int64) : Int64 := milliseconds * 1000000

/-- the duration in nanoseconds is one of the 64-bit integers -/
def Fits (milliseconds : Int64) : Prop :=
  -9223372036854775808 ≤ milliseconds.toInt * 1000000 ∧
    milliseconds.toInt * 1000000 ≤ 9223372036854775807

instance decidableFits (milliseconds : Int64) : Decidable (Fits milliseconds) :=
  inferInstanceAs (Decidable (_ ∧ _))

theorem toInt_nanoseconds {milliseconds : Int64} (h : Fits milliseconds) :
    (nanoseconds milliseconds).toInt = milliseconds.toInt * 1000000 := by
  obtain ⟨hlow, hhigh⟩ := h
  rw [nanoseconds, Int64.toInt_mul]
  show (milliseconds.toInt * 1000000).bmod 18446744073709551616 = _
  rw [Int.bmod_eq_of_le_mul_two] <;> omega

/-- where a time begins that ends with the reading `now`, in 64 bits -/
def before (now : Instant) (milliseconds : Int64) : Int64 :=
  Int64.ofNat now - nanoseconds milliseconds

theorem toInt_before (now : Instant) {milliseconds : Int64} (h : Fits milliseconds)
    (hpos : 0 < milliseconds.toInt) :
    (before now milliseconds).toInt = now - milliseconds.toInt * 1000000 := by
  have hnow := now.isLt
  have hofNat : (Int64.ofNat now).toInt = (now : Int) := Int64.toInt_ofNat_of_lt hnow
  have hhigh := h.2
  rw [before, Int64.toInt_sub, hofNat, toInt_nanoseconds h]
  show ((now : Int) - milliseconds.toInt * 1000000).bmod 18446744073709551616 = _
  rw [Int.bmod_eq_of_le_mul_two] <;> omega

end Chrono
end ChainForge
