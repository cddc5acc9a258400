import ChainForge.Core.Block

/-!
# Arithmetic of times

The operators of `modules/core/src/timestamp.cpp` and `duration_ms_between`.  A time is an unsigned
and a duration a signed number of seconds, both of 64 bits, and every mixture of the two is computed
modulo `2^64`.

* `add_eq`, `sub_eq`, `diff_eq`, `durationMsBetween_eq`   the operators in terms of whole numbers: the
                         test of `operator+` never fires, that of `operator-` compares with the time
                         read as a signed number, and `duration_ms_between` has no test;
* `timeArithmetic_iff`   **which times and durations are computed exactly or refused**.
-/

set_option linter.unusedSectionVars false

namespace ChainForge

/-- the exceptions of the operators -/
inductive TimeError where
  | core (e : Exn)
  | underflowError (what : String)
  deriving DecidableEq, Repr

namespace Timestamp

/-- `MAX_VALUE` -/
def maxValue : UInt64 := 18446744073709551615

/-- `operator+(duration)` -/
def add (t : UInt64) (duration : Int64) : Except TimeError UInt64 :=
  let resultSeconds := t + duration.toUInt64
  if resultSeconds > maxValue then .error (.core (.overflowError "Timestamp addition overflow"))
  else (fromSeconds resultSeconds).mapError .core

/-- `operator-(duration)` -/
def sub (t : UInt64) (duration : Int64) : Except TimeError UInt64 :=
  if duration > t.toInt64 then .error (.underflowError "Timestamp subtraction underflow")
  else (fromSeconds (t - duration.toUInt64)).mapError .core

/-- `operator-(other)` -/
def diff (t other : UInt64) : Except TimeError Int64 :=
  if t < other then .error (.underflowError "Timestamp difference underflow")
  else .ok (t - other).toInt64

def durationBetween (start finish : UInt64) : Except TimeError Int64 := diff finish start

/-- `duration_ms_between`, which subtracts the seconds without the operator -/
def durationMsBetween (start finish : UInt64) : Except TimeError Int64 :=
  let seconds := finish - start
  .ok (seconds * 1000).toInt64

/-! ## casts -/

theorem toInt_toInt64 (x : UInt64) :
    x.toInt64.toInt = if x.toNat < 2^63 then (x.toNat : Int) else x.toNat - 2^64 := by
  rw [← Int64.toInt_toBitVec, UInt64.toBitVec_toInt64, BitVec.toInt_eq_toNat_cond,
    UInt64.toNat_toBitVec]
  by_cases h : x.toNat < 2^63
  · rw [if_pos h, if_pos (by omega)]
  · rw [if_neg h, if_neg (by omega)]
    rfl

theorem toNat_toUInt64 (d : Int64) : (d.toUInt64.toNat : Int) = d.toInt % 2^64 := by
  have h := toInt_toInt64 d.toUInt64
  rw [Int64.toInt64_toUInt64] at h
  have hlt := d.toUInt64.toNat_lt
  split at h <;> omega

/-! ## the operators in whole numbers -/

section
variable (t u : UInt64) (d : Int64)

/-- the sum modulo `2^64`: no 64-bit number is above the greatest one -/
theorem add_eq : ∃ v, add t d = .ok v ∧ (v.toNat : Int) = (t.toNat + d.toInt) % 2^64 := by
  have hmax : ¬ t + d.toUInt64 > maxValue := by
    have hlt := (t + d.toUInt64).toNat_lt
    rw [gt_iff_lt, UInt64.lt_iff_toNat_lt]
    show ¬ 18446744073709551615 < _
    omega
  refine ⟨t + d.toUInt64, ?_, ?_⟩
  · unfold add
    dsimp only
    rw [if_neg hmax, fromSeconds_eq]
    rfl
  · have hd := toNat_toUInt64 d
    rw [UInt64.toNat_add]
    omega

/-- refused exactly if the duration exceeds the time read as a signed number -/
theorem sub_cases :
    t.toInt64.toInt < d.toInt ∧
        sub t d = .error (.underflowError "Timestamp subtraction underflow") ∨
      d.toInt ≤ t.toInt64.toInt ∧ sub t d = .ok (t - d.toUInt64) := by
  unfold sub
  by_cases h : d > t.toInt64
  · rw [if_pos h]
    exact .inl ⟨Int64.lt_iff_toInt_lt.mp h, rfl⟩
  · rw [if_neg h, fromSeconds_eq]
    exact .inr ⟨Int.not_lt.mp (mt Int64.lt_iff_toInt_lt.mpr h), rfl⟩

/-- below `2^63` the test is right, and what passes it is exact -/
theorem sub_eq (h : t.toNat < 2^63) : (t.toNat < d.toInt ∧ ∃ e, sub t d = .error e) ∨
    d.toInt ≤ t.toNat ∧ ∃ v, sub t d = .ok v ∧ (v.toNat : Int) = t.toNat - d.toInt := by
  have ht := toInt_toInt64 t
  rw [if_pos h] at ht
  rcases sub_cases t d with ⟨hlt, he⟩ | ⟨hle, hv⟩
  · exact .inl ⟨ht ▸ hlt, _, he⟩
  · refine .inr ⟨ht ▸ hle, _, hv, ?_⟩
    have hd := toNat_toUInt64 d
    have hlo := d.le_toInt
    rw [UInt64.toNat_sub]
    omega

/-- a time from `2^63` on is negative as a signed number: what is in range is refused, and what is
not is computed -/
theorem sub_eq_of_ge (h : 2^63 ≤ t.toNat) :
    (∃ e, sub t d = .error e) ↔ (t.toNat : Int) - d.toInt < 2^64 := by
  have ht := toInt_toInt64 t
  rw [if_neg (Nat.not_lt.mpr h)] at ht
  rcases sub_cases t d with ⟨hlt, he⟩ | ⟨hle, hv⟩
  · exact ⟨fun _ => by omega, fun _ => ⟨_, he⟩⟩
  · constructor
    · rintro ⟨e, he⟩
      rw [hv] at he
      cases he
    · intro hin
      omega

theorem diff_eq : (∃ e, diff u t = .error e) ↔ u.toNat < t.toNat := by
  unfold diff
  rw [← UInt64.lt_iff_toNat_lt]
  by_cases h : u < t
  · rw [if_pos h]
    exact ⟨fun _ => h, fun _ => ⟨_, rfl⟩⟩
  · rw [if_neg h]
    constructor
    · rintro ⟨e, he⟩
      cases he
    · intro h'
      exact absurd h' h

theorem durationMsBetween_eq (h : t.toNat ≤ u.toNat) (hlt : 1000 * (u.toNat - t.toNat) < 2^63) :
    ∃ v, durationMsBetween t u = .ok v ∧ v.toInt = 1000 * ((u.toNat : Int) - t.toNat) := by
  refine ⟨_, rfl, ?_⟩
  have hu := u.toNat_lt
  have hsub : (u - t).toNat = u.toNat - t.toNat := by
    rw [UInt64.toNat_sub]
    omega
  have hmul : ((u - t) * 1000).toNat = 1000 * (u.toNat - t.toNat) := by
    rw [UInt64.toNat_mul, hsub]
    show (u.toNat - t.toNat) * 1000 % 2^64 = _
    omega
  rw [toInt_toInt64, hmul, if_pos hlt]
  omega

end

/-! ## exact or refused -/

/-- the result has the exact value `r` if that is in range, and otherwise there is an exception -/
def ExactOrRefused {β : Type} (x : Except TimeError β) (value : β → Int) (r : Int)
    (inRange : Prop) : Prop :=
  (inRange → ∃ v, x = .ok v ∧ value v = r) ∧ (¬ inRange → ∃ e, x = .error e)

/-- the sum, the difference, the milliseconds, and the difference of two times -/
structure TimeArithmetic (t u : UInt64) (d : Int64) : Prop where
  add : ExactOrRefused (add t d) (fun v => v.toNat) (t.toNat + d.toInt)
    (0 ≤ (t.toNat : Int) + d.toInt ∧ (t.toNat : Int) + d.toInt < 2^64)
  sub : ExactOrRefused (sub t d) (fun v => v.toNat) (t.toNat - d.toInt)
    (0 ≤ (t.toNat : Int) - d.toInt ∧ (t.toNat : Int) - d.toInt < 2^64)
  between : ExactOrRefused (durationMsBetween t u) (fun v => v.toInt)
    (1000 * ((u.toNat : Int) - t.toNat))
    (0 ≤ 1000 * ((u.toNat : Int) - t.toNat) ∧ 1000 * ((u.toNat : Int) - t.toNat) < 2^63)
  diff : (∃ e, diff u t = .error e) ↔ u.toNat < t.toNat

section
variable {t u : UInt64} {d : Int64}

theorem add_exact_iff {r : Int} {inRange : Prop}
    (hr : inRange → (t.toNat + d.toInt) % 2^64 = r) :
    ExactOrRefused (add t d) (fun v => v.toNat) r inRange ↔ inRange := by
  obtain ⟨v, hv, hval⟩ := add_eq t d
  constructor
  · intro h
    by_contra hout
    obtain ⟨e, he⟩ := h.2 hout
    rw [hv] at he
    cases he
  · intro hin
    exact ⟨fun _ => ⟨v, hv, hval.trans (hr hin)⟩, fun hout => absurd hin hout⟩

theorem sub_exact_iff : ExactOrRefused (sub t d) (fun v => v.toNat) (t.toNat - d.toInt)
    (0 ≤ (t.toNat : Int) - d.toInt ∧ (t.toNat : Int) - d.toInt < 2^64) ↔ t.toNat < 2^63 := by
  have hlo := d.le_toInt
  have hhi := d.toInt_lt
  constructor
  · intro h
    by_contra hge
    have hiff := sub_eq_of_ge t d (Nat.not_lt.mp hge)
    by_cases hin : (t.toNat : Int) - d.toInt < 2^64
    · obtain ⟨v, hv, _⟩ := h.1 ⟨by omega, hin⟩
      obtain ⟨e, he⟩ := hiff.mpr hin
      rw [hv] at he
      cases he
    · exact hin (hiff.mp (h.2 fun h' => hin h'.2))
  · intro hlt
    rcases sub_eq t d hlt with ⟨hneg, e, he⟩ | ⟨hpos, v, hv, hval⟩
    · exact ⟨fun h => absurd h.1 (by omega), fun _ => ⟨e, he⟩⟩
    · exact ⟨fun _ => ⟨v, hv, hval⟩, fun hout => absurd ⟨by omega, by omega⟩ hout⟩

theorem between_exact_iff : ExactOrRefused (durationMsBetween t u) (fun v => v.toInt)
    (1000 * ((u.toNat : Int) - t.toNat))
    (0 ≤ 1000 * ((u.toNat : Int) - t.toNat) ∧ 1000 * ((u.toNat : Int) - t.toNat) < 2^63) ↔
      t.toNat ≤ u.toNat ∧ 1000 * (u.toNat - t.toNat) < 2^63 := by
  constructor
  · intro h
    by_contra hout
    obtain ⟨e, he⟩ := h.2 fun hin => hout ⟨by omega, by omega⟩
    cases he
  · rintro ⟨hle, hlt⟩
    exact ⟨fun _ => durationMsBetween_eq t u hle hlt, fun hout => absurd ⟨by omega, by omega⟩ hout⟩

end

/-- **Which times and durations are computed exactly or refused**: the sum must be in range, the time
from which is subtracted below `2^63`, and the milliseconds not negative and below `2^63`. -/
theorem timeArithmetic_iff (t u : UInt64) (d : Int64) :
    TimeArithmetic t u d ↔
      (0 ≤ (t.toNat : Int) + d.toInt ∧ (t.toNat : Int) + d.toInt < 2^64) ∧ t.toNat < 2^63 ∧
        t.toNat ≤ u.toNat ∧ 1000 * (u.toNat - t.toNat) < 2^63 := by
  have hadd : ∀ _ : 0 ≤ (t.toNat : Int) + d.toInt ∧ (t.toNat : Int) + d.toInt < 2^64,
      ((t.toNat : Int) + d.toInt) % 2^64 = t.toNat + d.toInt := fun h => Int.emod_eq_of_lt h.1 h.2
  constructor
  · intro h
    exact ⟨(add_exact_iff hadd).mp h.add, sub_exact_iff.mp h.sub, between_exact_iff.mp h.between⟩
  · rintro ⟨h1, h2, h3⟩
    exact ⟨(add_exact_iff hadd).mpr h1, sub_exact_iff.mpr h2, between_exact_iff.mpr h3, diff_eq t u⟩

/-- time zero and minus one second make the greatest time, a millisecond count into the past wraps
around, and nothing can be taken from a time of `2^63` seconds -/
theorem addition_wraps :
    add 0 (-1) = .ok 18446744073709551615 ∧
      durationMsBetween 1 0 = .ok (-1000) ∧
      sub 9223372036854775808 0 = .error (.underflowError "Timestamp subtraction underflow") ∧
      ¬ TimeArithmetic 0 0 (-1) := by
  refine ⟨by decide +kernel, by decide +kernel, by decide +kernel, fun h => ?_⟩
  obtain ⟨e, he⟩ := h.add.2 (by decide +kernel)
  have hok : add 0 (-1) = .ok 18446744073709551615 := by decide +kernel
  rw [hok] at he
  cases he

end Timestamp
end ChainForge
