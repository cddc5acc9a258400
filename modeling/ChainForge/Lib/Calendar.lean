import Mathlib.Data.List.Basic
import Mathlib.Data.List.GetD
import Mathlib.Algebra.GroupWithZero.Nat
import Mathlib.Tactic.Ring

/-!
# The Gregorian calendar

The proleptic Gregorian calendar in the terms of the C library: `Tm` is a broken-down time
(`std::tm`, without the fields that are derived), and times are seconds since 1970-01-01.

* `timegm tm`        the seconds of a broken-down time in UTC; a month, a day or a time of day out of
                     its range is carried over, as `mktime` does;
* `gmtime t`         the broken-down time in UTC;
* `Tm.Valid`         the date exists, and so does the time of the day;
* `timegm_gmtime`, `gmtime_valid`, `gmtime_timegm`   **the two are inverse to each other** on the
                     valid times;
* `year_bounds`      a valid time lies in its year.
-/

set_option linter.unusedSectionVars false

namespace Calendar

@[ext] structure Tm where
  sec : Int
  min : Int
  hour : Int
  /-- from 1 -/
  mday : Int
  /-- from 0 -/
  mon : Int
  /-- since 1900 -/
  year : Int
  deriving DecidableEq, Repr

/-! ## years -/

def leap (y : Int) : Bool := y % 4 = 0 ∧ (y % 100 ≠ 0 ∨ y % 400 = 0)

/-- the days from 0001-01-01 to the first day of the year `y` -/
def daysBeforeYear (y : Int) : Int := 365 * (y - 1) + (y - 1) / 4 - (y - 1) / 100 + (y - 1) / 400

def daysInYear (leap : Bool) : Nat := if leap then 366 else 365

theorem daysBeforeYear_succ (y : Int) :
    daysBeforeYear (y + 1) = daysBeforeYear y + daysInYear (leap y) := by
  unfold daysBeforeYear daysInYear
  by_cases h : y % 4 = 0 ∧ (y % 100 ≠ 0 ∨ y % 400 = 0)
  · rw [leap, decide_eq_true h, if_pos rfl]
    omega
  · rw [leap, decide_eq_false h, if_neg Bool.false_ne_true]
    omega

theorem daysBeforeYear_mono {y y' : Int} (h : y ≤ y') : daysBeforeYear y ≤ daysBeforeYear y' := by
  unfold daysBeforeYear
  omega

/-! A year is one of a cycle of 400 years: of a century `c`, in it of four years `q`, and in them of
a year `y`, all counted from 0. -/

section
variable {a c q y : Int} (hc : 0 ≤ c ∧ c ≤ 3) (hq : 0 ≤ q ∧ q ≤ 24) (hy : 0 ≤ y ∧ y ≤ 3)
include hc hq hy

theorem daysBeforeYear_cycle : daysBeforeYear (400 * a + 100 * c + 4 * q + y + 1)
    = 146097 * a + 36524 * c + 1461 * q + 365 * y := by
  have h4 : (400 * a + 100 * c + 4 * q + y) / 4 = 100 * a + 25 * c + q := by omega
  have h100 : (400 * a + 100 * c + 4 * q + y) / 100 = 4 * a + c := by omega
  have h400 : (400 * a + 100 * c + 4 * q + y) / 400 = a := by omega
  unfold daysBeforeYear
  rw [Int.add_sub_cancel, h4, h100, h400]
  omega

theorem leap_cycle : leap (400 * a + 100 * c + 4 * q + y + 1) = true ↔
    y = 3 ∧ (q = 24 → c = 3) := by
  unfold leap
  rw [decide_eq_true_iff]
  omega

end

/-- the year of a day, and the days of this year before it: the last century of a cycle and the last
of four years may have a day more than the others -/
def splitYear (n : Int) : Int × Int :=
  let r := n % 146097
  let c := if r = 146096 then 3 else r / 36524
  let r := r - 36524 * c
  let q := r / 1461
  let r := r % 1461
  let y := if r = 1460 then 3 else r / 365
  (400 * (n / 146097) + 100 * c + 4 * q + y + 1, r - 365 * y)

theorem splitYear_spec (n : Int) :
    daysBeforeYear (splitYear n).1 + (splitYear n).2 = n ∧ 0 ≤ (splitYear n).2 ∧
      (splitYear n).2 < daysInYear (leap (splitYear n).1) := by
  -- the centuries, the groups of four years and the years, with what remains each time
  obtain ⟨c, hc⟩ : ∃ c, c = if n % 146097 = 146096 then 3 else n % 146097 / 36524 := ⟨_, rfl⟩
  obtain ⟨r, hr⟩ : ∃ r, r = n % 146097 - 36524 * c := ⟨_, rfl⟩
  have hcr : (0 ≤ c ∧ c ≤ 3) ∧ 0 ≤ r ∧ r ≤ 36524 ∧ (r = 36524 → c = 3) := by
    split at hc <;> omega
  obtain ⟨y, hy⟩ : ∃ y, y = if r % 1461 = 1460 then 3 else r % 1461 / 365 := ⟨_, rfl⟩
  obtain ⟨d, hd⟩ : ∃ d, d = r % 1461 - 365 * y := ⟨_, rfl⟩
  have hyd : (0 ≤ y ∧ y ≤ 3) ∧ 0 ≤ d ∧ d ≤ 365 ∧ (d = 365 → y = 3 ∧ r % 1461 = 1460) := by
    split at hy <;> omega
  have hq : 0 ≤ r / 1461 ∧ r / 1461 ≤ 24 := by omega
  have e : splitYear n = (400 * (n / 146097) + 100 * c + 4 * (r / 1461) + y + 1, d) := by
    unfold splitYear
    dsimp only
    rw [← hc, ← hr, ← hy, ← hd]
  rw [e]
  dsimp only
  rw [daysBeforeYear_cycle hcr.1 hq hyd.1]
  refine ⟨by omega, hyd.2.1, ?_⟩
  have hleap := leap_cycle (a := n / 146097) hcr.1 hq hyd.1
  unfold daysInYear
  by_cases hl : leap (400 * (n / 146097) + 100 * c + 4 * (r / 1461) + y + 1) = true
  · rw [if_pos hl]
    omega
  · rw [if_neg hl]
    rw [hleap] at hl
    omega

/-- a day lies in one year only -/
theorem splitYear_unique {y d : Int} (h0 : 0 ≤ d) (hd : d < daysInYear (leap y)) :
    splitYear (daysBeforeYear y + d) = (y, d) := by
  obtain ⟨h1, h2, h3⟩ := splitYear_spec (daysBeforeYear y + d)
  have hsucc := daysBeforeYear_succ y
  have hsucc' := daysBeforeYear_succ (splitYear (daysBeforeYear y + d)).1
  have hy : (splitYear (daysBeforeYear y + d)).1 = y := by
    rcases Int.lt_trichotomy (splitYear (daysBeforeYear y + d)).1 y with hlt | heq | hgt
    · have := daysBeforeYear_mono (Int.add_one_le_of_lt hlt)
      omega
    · exact heq
    · have := daysBeforeYear_mono (Int.add_one_le_of_lt hgt)
      omega
  rw [hy] at h1
  exact Prod.ext hy (by omega)

/-! ## months -/

def monthLengths (leap : Bool) : List Nat :=
  [31, if leap then 29 else 28, 31, 30, 31, 30, 31, 31, 30, 31, 30, 31]

def daysBeforeMonth (leap : Bool) (mon : Nat) : Nat := ((monthLengths leap).take mon).sum

def daysInMonth (leap : Bool) (mon : Nat) : Nat := (monthLengths leap).getD mon 0

theorem monthLengths_sum (leap : Bool) : (monthLengths leap).sum = daysInYear leap := by
  cases leap <;> rfl

theorem daysInMonth_le (leap : Bool) (mon : Nat) : daysInMonth leap mon ≤ 31 := by
  have hall : ∀ l ∈ monthLengths leap, l ≤ 31 := by cases leap <;> decide
  unfold daysInMonth
  by_cases h : mon < (monthLengths leap).length
  · rw [List.getD_eq_getElem _ _ h]
    exact hall _ (List.getElem_mem h)
  · rw [List.getD_eq_default _ _ (Nat.not_lt.mp h)]
    exact Nat.zero_le 31

/-- the part of a division in which a day lies, and the days of this part before it -/
def splitParts : List Nat → Nat → Nat × Nat
  | [], d => (0, d)
  | l :: ls, d => if d < l then (0, d) else ((splitParts ls (d - l)).1 + 1, (splitParts ls (d - l)).2)

theorem splitParts_spec {ls : List Nat} {d : Nat} (h : d < ls.sum) :
    (splitParts ls d).1 < ls.length ∧ (splitParts ls d).2 < ls.getD (splitParts ls d).1 0 ∧
      (ls.take (splitParts ls d).1).sum + (splitParts ls d).2 = d := by
  induction ls generalizing d with
  | nil => exact absurd h (Nat.not_lt_zero d)
  | cons l ls ih =>
    unfold splitParts
    by_cases hd : d < l
    · rw [if_pos hd]
      exact ⟨Nat.succ_pos _, hd, Nat.zero_add d⟩
    · rw [if_neg hd]
      rw [List.sum_cons] at h
      obtain ⟨h1, h2, h3⟩ := ih (show d - l < ls.sum by omega)
      refine ⟨Nat.succ_lt_succ h1, ?_, ?_⟩
      · rw [List.getD_cons_succ]
        exact h2
      · rw [List.take_succ_cons, List.sum_cons]
        dsimp only
        omega

theorem splitParts_unique {ls : List Nat} {m r : Nat} (hm : m < ls.length) (hr : r < ls.getD m 0) :
    splitParts ls ((ls.take m).sum + r) = (m, r) := by
  induction ls generalizing m with
  | nil => exact absurd hm (Nat.not_lt_zero m)
  | cons l ls ih =>
    unfold splitParts
    cases m with
    | zero =>
      have hr : r < l := hr
      rw [List.take_zero, List.sum_nil, Nat.zero_add, if_pos hr]
    | succ m =>
      rw [List.take_succ_cons, List.sum_cons, if_neg (by omega)]
      have e : l + (ls.take m).sum + r - l = (ls.take m).sum + r := by omega
      rw [List.getD_cons_succ] at hr
      rw [e, ih (Nat.lt_of_succ_lt_succ hm) hr]

/-- a day of a month is a day of the year -/
theorem take_sum_add_lt {ls : List Nat} {m r : Nat} (hr : r < ls.getD m 0) :
    (ls.take m).sum + r < ls.sum := by
  induction ls generalizing m with
  | nil =>
    rw [List.getD_nil] at hr
    exact absurd hr (Nat.not_lt_zero r)
  | cons l ls ih =>
    cases m with
    | zero =>
      have hr : r < l := hr
      rw [List.take_zero, List.sum_nil, List.sum_cons]
      omega
    | succ m =>
      rw [List.getD_cons_succ] at hr
      have := ih hr
      rw [List.take_succ_cons, List.sum_cons, List.sum_cons]
      omega

/-! ## seconds -/

/-- the days from 0001-01-01 to 1970-01-01 -/
def epoch : Int := 719162

/-- the year after months out of range are carried over -/
def Tm.fullYear (tm : Tm) : Int := tm.year + 1900 + tm.mon / 12

def Tm.month (tm : Tm) : Nat := (tm.mon % 12).toNat

/-- the days from 0001-01-01 -/
def Tm.days (tm : Tm) : Int :=
  daysBeforeYear tm.fullYear + daysBeforeMonth (leap tm.fullYear) tm.month + (tm.mday - 1)

def timegm (tm : Tm) : Int :=
  86400 * (tm.days - epoch) + 3600 * tm.hour + 60 * tm.min + tm.sec

def gmtime (t : Int) : Tm :=
  let day := splitYear (t / 86400 + epoch)
  let month := splitParts (monthLengths (leap day.1)) day.2.toNat
  { sec := t % 60, min := t / 60 % 60, hour := t / 3600 % 24, mday := month.2 + 1, mon := month.1,
    year := day.1 - 1900 }

structure Tm.Valid (tm : Tm) : Prop where
  mon : 0 ≤ tm.mon ∧ tm.mon < 12
  mday : 1 ≤ tm.mday ∧ tm.mday ≤ daysInMonth (leap (tm.year + 1900)) tm.mon.toNat
  hour : 0 ≤ tm.hour ∧ tm.hour < 24
  min : 0 ≤ tm.min ∧ tm.min < 60
  sec : 0 ≤ tm.sec ∧ tm.sec < 60

theorem valid_iff (tm : Tm) : tm.Valid ↔ (0 ≤ tm.mon ∧ tm.mon < 12) ∧
    (1 ≤ tm.mday ∧ tm.mday ≤ daysInMonth (leap (tm.year + 1900)) tm.mon.toNat) ∧
    (0 ≤ tm.hour ∧ tm.hour < 24) ∧ (0 ≤ tm.min ∧ tm.min < 60) ∧ (0 ≤ tm.sec ∧ tm.sec < 60) :=
  ⟨fun h => ⟨h.mon, h.mday, h.hour, h.min, h.sec⟩, fun h => ⟨h.1, h.2.1, h.2.2.1, h.2.2.2.1, h.2.2.2.2⟩⟩

instance decidableValid (tm : Tm) : Decidable tm.Valid := decidable_of_iff' _ (valid_iff tm)

section
variable {tm : Tm} (h : tm.Valid)
include h

theorem Tm.Valid.fullYear : tm.fullYear = tm.year + 1900 := by
  have := h.mon
  unfold Tm.fullYear
  omega

theorem Tm.Valid.month : tm.month = tm.mon.toNat := by
  have := h.mon
  unfold Tm.month
  congr 1
  omega

/-- the day of the year is one of the year -/
theorem Tm.Valid.dayOfYear : ∃ r : Nat, tm.mday = r + 1 ∧
    r < daysInMonth (leap (tm.year + 1900)) tm.mon.toNat ∧
    daysBeforeMonth (leap (tm.year + 1900)) tm.mon.toNat + r < daysInYear (leap (tm.year + 1900)) := by
  obtain ⟨h1, h2⟩ := h.mday
  obtain ⟨r, hr⟩ := Int.eq_ofNat_of_zero_le (show 0 ≤ tm.mday - 1 by omega)
  have hlt : r < daysInMonth (leap (tm.year + 1900)) tm.mon.toNat := by omega
  refine ⟨r, by omega, hlt, ?_⟩
  rw [← monthLengths_sum]
  exact take_sum_add_lt hlt

/-- the seconds of a valid time, by its day of the year -/
theorem Tm.Valid.timegm_eq {r : Nat} (hr : tm.mday = r + 1) :
    timegm tm = 86400 * (daysBeforeYear (tm.year + 1900)
      + (daysBeforeMonth (leap (tm.year + 1900)) tm.mon.toNat + r : Nat) - epoch)
      + (3600 * tm.hour + 60 * tm.min + tm.sec) := by
  unfold timegm Tm.days
  rw [h.fullYear, h.month, hr]
  push_cast
  ring

theorem Tm.Valid.secondOfDay :
    0 ≤ 3600 * tm.hour + 60 * tm.min + tm.sec ∧ 3600 * tm.hour + 60 * tm.min + tm.sec < 86400 := by
  have := h.hour
  have := h.min
  have := h.sec
  omega

/-- **A valid time lies in its year.** -/
theorem year_bounds : 86400 * (daysBeforeYear (tm.year + 1900) - epoch) ≤ timegm tm ∧
    timegm tm < 86400 * (daysBeforeYear (tm.year + 1900 + 1) - epoch) := by
  obtain ⟨r, hday, _, hlt⟩ := h.dayOfYear
  have hsec := h.secondOfDay
  rw [daysBeforeYear_succ, h.timegm_eq hday]
  omega

/-- **A valid time is found again from its seconds.** -/
theorem gmtime_timegm : gmtime (timegm tm) = tm := by
  obtain ⟨r, hday, hr, hlt⟩ := h.dayOfYear
  have ht := h.timegm_eq hday
  have hsec := h.secondOfDay
  have hdays : timegm tm / 86400 + epoch = daysBeforeYear (tm.year + 1900)
      + (daysBeforeMonth (leap (tm.year + 1900)) tm.mon.toNat + r : Nat) := by
    omega
  have hmon : tm.mon.toNat < (monthLengths (leap (tm.year + 1900))).length := by
    have := h.mon
    show tm.mon.toNat < 12
    omega
  have hy := splitYear_unique (y := tm.year + 1900) (Int.natCast_nonneg _) (Int.ofNat_lt.mpr hlt)
  have hp : splitParts (monthLengths (leap (tm.year + 1900)))
      (daysBeforeMonth (leap (tm.year + 1900)) tm.mon.toNat + r) = (tm.mon.toNat, r) :=
    splitParts_unique hmon hr
  unfold gmtime
  rw [hdays, hy]
  dsimp only
  rw [Int.toNat_natCast, hp]
  obtain ⟨hhour, hmin, hs⟩ : timegm tm / 3600 % 24 = tm.hour ∧ timegm tm / 60 % 60 = tm.min ∧
      timegm tm % 60 = tm.sec := by
    have := h.hour
    have := h.min
    have := h.sec
    omega
  have hm : (tm.mon.toNat : Int) = tm.mon := Int.toNat_of_nonneg h.mon.1
  rw [hhour, hmin, hs, ← hday, hm, Int.add_sub_cancel]

end

section
variable (t : Int)

/-- the month and the day of the month that `gmtime` finds -/
theorem gmtime_day :
    (gmtime t).mon.toNat < 12 ∧ 0 ≤ (gmtime t).mon ∧ 1 ≤ (gmtime t).mday ∧
      (gmtime t).mday ≤ daysInMonth (leap ((gmtime t).year + 1900)) (gmtime t).mon.toNat ∧
      daysBeforeYear ((gmtime t).year + 1900)
        + daysBeforeMonth (leap ((gmtime t).year + 1900)) (gmtime t).mon.toNat
        + ((gmtime t).mday - 1) = t / 86400 + epoch := by
  obtain ⟨h1, h2, h3⟩ := splitYear_spec (t / 86400 + epoch)
  obtain ⟨d, hd⟩ := Int.eq_ofNat_of_zero_le h2
  have hyear : (gmtime t).year + 1900 = (splitYear (t / 86400 + epoch)).1 := Int.sub_add_cancel _ _
  have hlt : d < (monthLengths (leap (splitYear (t / 86400 + epoch)).1)).sum := by
    rw [monthLengths_sum]
    omega
  obtain ⟨hm, hr, hsum⟩ := splitParts_spec hlt
  have hmon : (gmtime t).mon
      = (splitParts (monthLengths (leap (splitYear (t / 86400 + epoch)).1)) d).1 := by
    show ((splitParts _ (splitYear (t / 86400 + epoch)).2.toNat).1 : Int) = _
    rw [hd]
    rfl
  have hmday : (gmtime t).mday
      = (splitParts (monthLengths (leap (splitYear (t / 86400 + epoch)).1)) d).2 + 1 := by
    show ((splitParts _ (splitYear (t / 86400 + epoch)).2.toNat).2 : Int) + 1 = _
    rw [hd]
    rfl
  rw [hyear, hmon, hmday, Int.toNat_natCast]
  unfold daysInMonth daysBeforeMonth
  refine ⟨hm, Int.natCast_nonneg _, by omega, by omega, by omega⟩

theorem gmtime_valid : (gmtime t).Valid := by
  obtain ⟨h1, h2, h3, h4, _⟩ := gmtime_day t
  refine ⟨⟨h2, by omega⟩, ⟨h3, h4⟩, ?_, ?_, ?_⟩
  · show 0 ≤ t / 3600 % 24 ∧ t / 3600 % 24 < 24
    omega
  · show 0 ≤ t / 60 % 60 ∧ t / 60 % 60 < 60
    omega
  · show 0 ≤ t % 60 ∧ t % 60 < 60
    omega

/-- **The broken-down time denotes the time.** -/
theorem timegm_gmtime : timegm (gmtime t) = t := by
  obtain ⟨_, _, _, _, hday⟩ := gmtime_day t
  have hv := gmtime_valid t
  have hdays : (gmtime t).days = t / 86400 + epoch := by
    unfold Tm.days
    rw [hv.fullYear, hv.month]
    exact hday
  unfold timegm
  rw [hdays]
  show 86400 * (t / 86400 + epoch - epoch) + 3600 * (t / 3600 % 24) + 60 * (t / 60 % 60) + t % 60 = t
  omega

end

end Calendar
