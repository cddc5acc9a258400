import ChainForge.Core.Timestamp
import ChainForge.Lib.Calendar
import ChainForge.Lib.Pattern
import Mathlib.Data.PNat.Defs

/-!
# ISO 8601 texts of times

`Timestamp::to_iso8601` and `Timestamp::from_iso8601` of `modules/core/src/timestamp.cpp`.  The text is
taken apart by a regular expression that looks at the shape only, and its numbers go to `std::mktime`,
which carries over what is out of range and takes them for local time.

`zone` is the offset of the local time of the host, east of UTC, in seconds; `ticks` is the number of
ticks of `std::chrono::system_clock` in a second.

* `fromIso8601_cases`    what is read of a text of the right shape, and that no other is read;
* `denotes_iff`          a text denotes a time exactly if it is the text that is printed of it;
* `iso8601_iff`          **which texts are read exactly, and which times survive being printed**.
-/

set_option linter.unusedSectionVars false

namespace ChainForge
namespace Timestamp
open Text Calendar

def stoiE (s : Str) : Except Exn Int := (stoi s).mapError (Exn.ofParse "stoi")

/-- `(\d{4})-(\d{2})-(\d{2})T(\d{2}):(\d{2}):(\d{2})Z` -/
def isoPattern : List Piece :=
  [.group 4, .char 45, .group 2, .char 45, .group 2, .char 84, .group 2, .char 58, .group 2,
   .char 58, .group 2, .char 90]

/-- the broken-down time that is filled in from the groups of a match -/
def tmOfMatches (groups : List Str) : Except Exn Tm := do
  let year ← stoiE (groups.getD 0 [])
  let mon ← stoiE (groups.getD 1 [])
  let mday ← stoiE (groups.getD 2 [])
  let hour ← stoiE (groups.getD 3 [])
  let min ← stoiE (groups.getD 4 [])
  let sec ← stoiE (groups.getD 5 [])
  return { year := year - 1900, mon := mon - 1, mday, hour, min, sec }

/-- `std::mktime` where the local time has a fixed offset -/
def mktime (zone : Int32) (tm : Tm) : Int := timegm tm - zone.toInt

/-- the last part of `parse_iso8601` -/
def secondsOfTm (zone : Int32) (tm : Tm) : Except Exn UInt64 :=
  let time := mktime zone tm
  if time = -1 then .error (.invalidArgument "Invalid date/time in ISO8601 string")
  else .ok (UInt64.ofNat (time % 2^64).toNat)

def parseIso8601 (zone : Int32) (isoString : Str) : Except Exn UInt64 :=
  match captures isoPattern isoString with
  | none => .error (.invalidArgument "Invalid ISO8601 format")
  | some groups => tmOfMatches groups >>= secondsOfTm zone

def fromIso8601 (zone : Int32) (isoString : Str) : Except Exn UInt64 :=
  parseIso8601 zone isoString >>= fromSeconds

/-- `to_time_point`: none where the multiplication leaves the 64-bit range -/
def toTimePoint (ticks : ℕ+) (t : UInt64) : Option Int :=
  let count := t.toInt64.toInt * (ticks : Nat)
  if -2^63 ≤ count ∧ count < 2^63 then some count else none

/-- `std::put_time` with `%Y-%m-%dT%H:%M:%SZ` -/
def putTime (tm : Tm) : Str :=
  intToDecimal (tm.year + 1900) ++ 45 :: (pad 2 (tm.mon + 1).toNat ++ 45 :: (pad 2 tm.mday.toNat
    ++ 84 :: (pad 2 tm.hour.toNat ++ 58 :: (pad 2 tm.min.toNat ++ 58 :: (pad 2 tm.sec.toNat
    ++ [90])))))

/-- none where the time point overflows, or where the year does not fit into `tm_year` -/
def toIso8601 (ticks : ℕ+) (t : UInt64) : Option Str := do
  let timePoint ← toTimePoint ticks t
  let tm := gmtime (timePoint.tdiv (ticks : Nat))
  if -2^31 ≤ tm.year ∧ tm.year < 2^31 then some (putTime tm) else none

/-! ## texts of the right shape -/

/-- the numbers have four and two digits -/
structure Written (tm : Tm) : Prop where
  year : 0 ≤ tm.year + 1900 ∧ tm.year + 1900 < 10000
  mon : 0 ≤ tm.mon + 1 ∧ tm.mon + 1 < 100
  mday : 0 ≤ tm.mday ∧ tm.mday < 100
  hour : 0 ≤ tm.hour ∧ tm.hour < 100
  min : 0 ≤ tm.min ∧ tm.min < 100
  sec : 0 ≤ tm.sec ∧ tm.sec < 100

def groupsOf (tm : Tm) : List Str :=
  [pad 4 (tm.year + 1900).toNat, pad 2 (tm.mon + 1).toNat, pad 2 tm.mday.toNat,
   pad 2 tm.hour.toNat, pad 2 tm.min.toNat, pad 2 tm.sec.toNat]

/-- `YYYY-MM-DDTHH:MM:SSZ` -/
def isoText (tm : Tm) : Str := fill isoPattern (groupsOf tm)

theorem stoiE_group {w : Nat} {g : Str} (hw : 0 < w) (hw' : w ≤ 4) (h : IsGroup w g) :
    stoiE g = .ok (ofDecimal g : Int) := by
  have hne : g ≠ [] := by
    intro hg
    have hlen := h.1
    rw [hg] at hlen
    exact Nat.ne_of_lt hw hlen
  have hlt := ofDecimal_lt h.2
  have hpow : 10^g.length ≤ 10^4 := Nat.pow_le_pow_right (by decide) (h.1.trans_le hw')
  unfold stoiE stoi
  rw [stoSigned_digits (2^31) g hne h.2 (by omega)]
  rfl

/-- groups that fit are those of one broken-down time -/
theorem tmOfMatches_fits {groups : List Str} (h : Fits isoPattern groups) :
    ∃ tm, Written tm ∧ groups = groupsOf tm ∧ tmOfMatches groups = .ok tm := by
  obtain ⟨y, _, rfl, hy, mo, _, rfl, hmo, d, _, rfl, hd, h', _, rfl, hh, mi, _, rfl, hmi, s, _, rfl, hs,
    rfl⟩ := h
  have hlt : ∀ {w : Nat} {g : Str}, IsGroup w g → ofDecimal g < 10^w := fun hg =>
    hg.1 ▸ ofDecimal_lt hg.2
  have h1 := hlt hy
  have h2 := hlt hmo
  have h3 := hlt hd
  have h4 := hlt hh
  have h5 := hlt hmi
  have h6 := hlt hs
  refine ⟨⟨ofDecimal s, ofDecimal mi, ofDecimal h', ofDecimal d, ofDecimal mo - 1,
    ofDecimal y - 1900⟩, ?_, ?_, ?_⟩
  · constructor <;> dsimp only <;> omega
  · unfold groupsOf
    dsimp only
    rw [Int.sub_add_cancel, Int.sub_add_cancel]
    simp only [Int.toNat_natCast]
    rw [pad_ofDecimal (by decide) hy, pad_ofDecimal (by decide) hmo, pad_ofDecimal (by decide) hd,
      pad_ofDecimal (by decide) hh, pad_ofDecimal (by decide) hmi, pad_ofDecimal (by decide) hs]
  · unfold tmOfMatches
    simp only [List.getD_cons_zero, List.getD_cons_succ]
    rw [stoiE_group (by decide) (by decide) hy, stoiE_group (by decide) (by decide) hmo,
      stoiE_group (by decide) (by decide) hd, stoiE_group (by decide) (by decide) hh,
      stoiE_group (by decide) (by decide) hmi, stoiE_group (by decide) (by decide) hs]
    rfl

theorem Written.fits {tm : Tm} (h : Written tm) : Fits isoPattern (groupsOf tm) := by
  have h2 : ∀ {n : Int}, 0 ≤ n ∧ n < 100 → IsGroup 2 (pad 2 n.toNat) := fun hn =>
    pad_isGroup (by decide) (by omega)
  have hy := h.year
  exact ⟨_, _, rfl, pad_isGroup (by decide) (by omega), _, _, rfl, h2 h.mon, _, _, rfl, h2 h.mday, _, _,
    rfl, h2 h.hour, _, _, rfl, h2 h.min, _, _, rfl, h2 h.sec, rfl⟩

theorem captures_isoText {tm : Tm} (h : Written tm) :
    captures isoPattern (isoText tm) = some (groupsOf tm) :=
  (captures_iff _ _ _).mpr ⟨h.fits, rfl⟩

theorem groupsOf_inj {tm tm' : Tm} (h : Written tm) (h' : Written tm')
    (e : groupsOf tm = groupsOf tm') : tm = tm' := by
  have hpad : ∀ {w : Nat} {m n : Int}, 0 ≤ m → 0 ≤ n → pad w m.toNat = pad w n.toNat → m = n := by
    intro w m n hm hn hp
    have hnat : m.toNat = n.toNat := by rw [← ofDecimal_pad w m.toNat, hp, ofDecimal_pad]
    omega
  simp only [groupsOf, List.cons.injEq, and_true] at e
  obtain ⟨hyear, hmon, hmday, hhour, hmin, hsec⟩ := e
  have hy := hpad h.year.1 h'.year.1 hyear
  have hmo := hpad h.mon.1 h'.mon.1 hmon
  have hd := hpad h.mday.1 h'.mday.1 hmday
  have hh := hpad h.hour.1 h'.hour.1 hhour
  have hmi := hpad h.min.1 h'.min.1 hmin
  have hs := hpad h.sec.1 h'.sec.1 hsec
  exact Tm.ext hs hmi hh hd (by omega) (by omega)

/-- the text determines the broken-down time -/
theorem isoText_inj {tm tm' : Tm} (h : Written tm) (h' : Written tm')
    (e : isoText tm = isoText tm') : tm = tm' := by
  have hc := captures_isoText h
  rw [e, captures_isoText h'] at hc
  exact groupsOf_inj h h' (Option.some.inj hc).symm

/-- a text of the right shape is read as the broken-down time it was written from -/
theorem fromIso8601_isoText (zone : Int32) {tm : Tm} (h : Written tm) :
    fromIso8601 zone (isoText tm) = secondsOfTm zone tm := by
  obtain ⟨tm', h', hgroups, hread⟩ := tmOfMatches_fits h.fits
  have htm := groupsOf_inj h h' hgroups
  have hparse : parseIso8601 zone (isoText tm) = secondsOfTm zone tm := by
    unfold parseIso8601
    rw [captures_isoText h]
    dsimp only
    rw [hread, ← htm]
    rfl
  unfold fromIso8601
  rw [hparse]
  unfold secondsOfTm
  dsimp only
  split
  · rfl
  · exact fromSeconds_eq _

/-- **What is read**: the texts of the right shape, and no others. -/
theorem fromIso8601_cases (zone : Int32) (s : Str) :
    (∃ tm, Written tm ∧ s = isoText tm ∧ fromIso8601 zone s = secondsOfTm zone tm) ∨
      (∀ tm, Written tm → s ≠ isoText tm) ∧
        fromIso8601 zone s = .error (.invalidArgument "Invalid ISO8601 format") := by
  cases hc : captures isoPattern s with
  | none =>
    refine .inr ⟨?_, ?_⟩
    · rintro tm h rfl
      rw [captures_isoText h] at hc
      cases hc
    · unfold fromIso8601 parseIso8601
      rw [hc]
      rfl
  | some groups =>
    obtain ⟨hfits, hs⟩ := (captures_iff _ _ _).mp hc
    obtain ⟨tm, h, rfl, _⟩ := tmOfMatches_fits hfits
    exact .inl ⟨tm, h, hs, hs ▸ fromIso8601_isoText zone h⟩

/-! ## texts that denote a time -/

/-- an existing date and time of the day, from 1970 on -/
def FromEpoch (tm : Tm) : Prop := tm.Valid ∧ 70 ≤ tm.year

/-- the first second of the year 10000 -/
def year10000 : Nat := 253402300800

/-- the text has the form `YYYY-MM-DDTHH:MM:SSZ` and denotes an existing date and time from 1970 on -/
structure Denotes (s : Str) (tm : Tm) : Prop where
  text : s = isoText tm
  fromEpoch : FromEpoch tm
  year : tm.year < 8100

theorem FromEpoch.written {tm : Tm} (h : FromEpoch tm) (hyear : tm.year < 8100) : Written tm := by
  obtain ⟨⟨hmon, hmday, hhour, hmin, hsec⟩, hy⟩ := h
  have hdays := daysInMonth_le (leap (tm.year + 1900)) tm.mon.toNat
  constructor <;> omega

theorem FromEpoch.bounds {tm : Tm} (h : FromEpoch tm) (hyear : tm.year < 8100) :
    0 ≤ timegm tm ∧ timegm tm < year10000 := by
  obtain ⟨hlo, hhi⟩ := year_bounds h.1
  have h1970 := daysBeforeYear_mono (show 1970 ≤ tm.year + 1900 by have := h.2; omega)
  have h10000 := daysBeforeYear_mono (show tm.year + 1900 + 1 ≤ 10000 by omega)
  have e1 : daysBeforeYear 1970 = epoch := by decide
  have e2 : 86400 * (daysBeforeYear 10000 - epoch) = year10000 := by decide
  omega

theorem gmtime_fromEpoch {t : Int} (h0 : 0 ≤ t) (h : t < year10000) :
    FromEpoch (gmtime t) ∧ (gmtime t).year < 8100 := by
  have hv := gmtime_valid t
  obtain ⟨hlo, hhi⟩ := year_bounds hv
  rw [timegm_gmtime] at hlo hhi
  have e1 : daysBeforeYear 1970 = epoch := by decide
  have e2 : 86400 * (daysBeforeYear 10000 - epoch) = year10000 := by decide
  refine ⟨⟨hv, ?_⟩, ?_⟩
  · by_contra hlt
    have := daysBeforeYear_mono (show (gmtime t).year + 1900 + 1 ≤ 1970 by omega)
    omega
  · by_contra hge
    have := daysBeforeYear_mono (show 10000 ≤ (gmtime t).year + 1900 by omega)
    omega

/-- **A text denotes a time exactly if it is the text of its date.** -/
theorem denotes_iff (s : Str) (t : Int) : (∃ tm, Denotes s tm ∧ timegm tm = t) ↔
    (0 ≤ t ∧ t < year10000) ∧ s = isoText (gmtime t) := by
  constructor
  · rintro ⟨tm, ⟨rfl, hfrom, hyear⟩, rfl⟩
    exact ⟨hfrom.bounds hyear, by rw [gmtime_timegm hfrom.1]⟩
  · rintro ⟨⟨h0, h⟩, rfl⟩
    obtain ⟨hfrom, hyear⟩ := gmtime_fromEpoch h0 h
    exact ⟨gmtime t, ⟨rfl, hfrom, hyear⟩, timegm_gmtime t⟩

/-- the printed text has the same shape -/
theorem putTime_eq {tm : Tm} (h : FromEpoch tm) : putTime tm = isoText tm := by
  have hyear : intToDecimal (tm.year + 1900) = pad 4 (tm.year + 1900).toNat := by
    have := h.2
    unfold intToDecimal
    rw [if_neg (by omega), pad_eq_toDecimal (by omega)]
  unfold putTime
  rw [hyear]
  rfl

/-! ## reading -/

/-- the text is read exactly if it denotes an existing date and time, and then as its seconds -/
def ReadsExactly (zone : Int32) (s : Str) : Prop :=
  ∀ t : UInt64, fromIso8601 zone s = .ok t ↔ ∃ tm, Denotes s tm ∧ timegm tm = t.toNat

/-- what `secondsOfTm` returns, as a whole number -/
theorem secondsOfTm_ok_iff (zone : Int32) (tm : Tm) (t : UInt64) :
    secondsOfTm zone tm = .ok t ↔ mktime zone tm ≠ -1 ∧ mktime zone tm % 2^64 = t.toNat := by
  unfold secondsOfTm
  dsimp only
  have hnat : (UInt64.ofNat (mktime zone tm % 2^64).toNat).toNat = (mktime zone tm % 2^64).toNat := by
    rw [UInt64.toNat_ofNat']
    omega
  by_cases h : mktime zone tm = -1
  · rw [if_pos h]
    exact ⟨fun e => (nomatch e), fun e => absurd h e.1⟩
  · rw [if_neg h, Except.ok.injEq, ← UInt64.toNat_inj, hnat]
    constructor
    · intro e
      exact ⟨h, by omega⟩
    · intro e
      omega

/-- the seconds of an existing date come out exactly if the host keeps UTC -/
theorem secondsOfTm_exact_iff (zone : Int32) {tm : Tm} (h : FromEpoch tm) (hyear : tm.year < 8100) :
    (∀ t : UInt64, secondsOfTm zone tm = .ok t ↔ timegm tm = t.toNat) ↔ zone = 0 := by
  obtain ⟨h0, hlt⟩ := h.bounds hyear
  have hbound : (year10000 : Int) < 2^64 := by decide
  have hlo := zone.le_toInt
  have hhi := zone.toInt_lt
  constructor
  · intro hall
    have ht : timegm tm = (UInt64.ofNat (timegm tm).toNat).toNat := by
      rw [UInt64.toNat_ofNat']
      omega
    obtain ⟨_, hmod⟩ := (secondsOfTm_ok_iff zone tm _).mp ((hall _).mpr ht)
    rw [← ht, mktime] at hmod
    have hz : zone.toInt = 0 := by omega
    exact Int32.toInt_inj.mp hz
  · rintro rfl t
    rw [secondsOfTm_ok_iff, mktime, show (0 : Int32).toInt = 0 from rfl]
    omega

section
variable {s : Str} {tm : Tm} (hw : Written tm) (hs : s = isoText tm)
include hw hs

/-- a text of the right shape denotes at most one time -/
theorem denotes_at (t : Int) :
    (∃ tm', Denotes s tm' ∧ timegm tm' = t) ↔ FromEpoch tm ∧ timegm tm = t := by
  have hyear : tm.year < 8100 := by
    have := hw.year
    omega
  constructor
  · rintro ⟨tm', ⟨hs', hfrom, hyear'⟩, ht⟩
    rw [isoText_inj hw (hfrom.written hyear') (hs ▸ hs')]
    exact ⟨hfrom, ht⟩
  · rintro ⟨hfrom, ht⟩
    exact ⟨tm, ⟨hs, hfrom, hyear⟩, ht⟩

/-- what holds of every time a text is written from holds of the one there is -/
theorem forall_written_iff (P : Tm → Prop) :
    (∀ tm', Written tm' → s = isoText tm' → P tm') ↔ P tm := by
  constructor
  · intro h
    exact h tm hw hs
  · intro h tm' hw' hs'
    rw [← isoText_inj hw hw' (hs ▸ hs')]
    exact h

end

/-- nothing is read where `mktime` returns -1, and something everywhere else -/
theorem secondsOfTm_fails_iff (zone : Int32) (tm : Tm) :
    (∀ t : UInt64, secondsOfTm zone tm ≠ .ok t) ↔ mktime zone tm = -1 := by
  constructor
  · intro h
    by_contra hne
    refine h (UInt64.ofNat (mktime zone tm % 2^64).toNat) ?_
    unfold secondsOfTm
    exact if_neg hne
  · intro h t ht
    exact ((secondsOfTm_ok_iff zone tm t).mp ht).1 h

/-- **Which texts are read exactly**: a text of the right shape that denotes an existing date only by
a host that keeps UTC, and one that does not only if it comes to the second before the epoch. -/
theorem readsExactly_iff (zone : Int32) (s : Str) : ReadsExactly zone s ↔
    ∀ tm, Written tm → s = isoText tm →
      FromEpoch tm ∧ zone = 0 ∨ ¬ FromEpoch tm ∧ mktime zone tm = -1 := by
  unfold ReadsExactly
  rcases fromIso8601_cases zone s with ⟨tm, hw, hs, hread⟩ | ⟨hno, hread⟩
  · rw [forall_written_iff hw hs]
    simp only [hread, denotes_at hw hs]
    by_cases hfrom : FromEpoch tm
    · simp only [hfrom, true_and, not_true, false_and, or_false]
      have hyear := hw.year
      exact secondsOfTm_exact_iff zone hfrom (by omega)
    · simp only [hfrom, false_and, not_false_eq_true, true_and, false_or, iff_false]
      exact secondsOfTm_fails_iff zone tm
  · constructor
    · intro _ tm hw hs
      exact absurd hs (hno tm hw)
    · intro _ t
      rw [hread]
      constructor
      · intro h
        cases h
      · rintro ⟨tm, ⟨hs, hfrom, hyear⟩, _⟩
        exact absurd hs (hno tm (hfrom.written hyear))

/-! ## printing and reading -/

/-- the printed text is read as the time again -/
def RoundTrips (zone : Int32) (ticks : ℕ+) (t : UInt64) : Prop :=
  ∃ s, toIso8601 ticks t = some s ∧ fromIso8601 zone s = .ok t

theorem toTimePoint_eq (ticks : ℕ+) {t : UInt64} (h : t.toNat < 2^63) :
    toTimePoint ticks t
      = if t.toNat * ticks < 2^63 then some ((t.toNat : Int) * (ticks : Nat)) else none := by
  have hcast := toInt_toInt64 t
  rw [if_pos h] at hcast
  have hcount : -2^63 ≤ (t.toNat : Int) * (ticks : Nat) ∧ (t.toNat : Int) * (ticks : Nat) < 2^63 ↔
      t.toNat * ticks < 2^63 := by
    have hpos : 0 ≤ (t.toNat : Int) * (ticks : Nat) := by positivity
    have hmul : ((t.toNat * ticks : Nat) : Int) = (t.toNat : Int) * (ticks : Nat) := by push_cast; rfl
    omega
  unfold toTimePoint
  rw [hcast]
  exact if_congr hcount rfl rfl

/-- what is printed of a time before the year 10000 -/
theorem toIso8601_eq (ticks : ℕ+) {t : UInt64} (h : t.toNat < year10000) :
    toIso8601 ticks t
      = if t.toNat * ticks < 2^63 then some (isoText (gmtime t.toNat)) else none := by
  obtain ⟨hfrom, hyear⟩ := gmtime_fromEpoch (t := t.toNat) (Int.natCast_nonneg _) (Int.ofNat_lt.mpr h)
  unfold toIso8601
  rw [toTimePoint_eq ticks (Nat.lt_trans h (by decide))]
  by_cases hfit : t.toNat * ticks < 2^63
  · have hdiv : ((t.toNat : Int) * (ticks : Nat)).tdiv (ticks : Nat) = t.toNat :=
      Int.mul_tdiv_cancel _ (Int.natCast_ne_zero.mpr ticks.pos.ne')
    have hrange : -2^31 ≤ (gmtime t.toNat).year ∧ (gmtime t.toNat).year < 2^31 := by
      have := hfrom.2
      omega
    rw [if_pos hfit, if_pos hfit, Option.bind_eq_bind, Option.bind_some, hdiv, if_pos hrange,
      putTime_eq hfrom]
  · rw [if_neg hfit, if_neg hfit]
    rfl

theorem roundTrips_iff (zone : Int32) (ticks : ℕ+) {t : UInt64} (h : t.toNat < year10000) :
    RoundTrips zone ticks t ↔ zone = 0 ∧ t.toNat * ticks < 2^63 := by
  obtain ⟨hfrom, hyear⟩ := gmtime_fromEpoch (t := t.toNat) (Int.natCast_nonneg _) (Int.ofNat_lt.mpr h)
  have hread := fromIso8601_isoText zone (hfrom.written hyear)
  have hlo := zone.le_toInt
  have hhi := zone.toInt_lt
  have hbound : year10000 < 2^63 := by decide
  have hzone : secondsOfTm zone (gmtime t.toNat) = .ok t ↔ zone = 0 := by
    rw [secondsOfTm_ok_iff, mktime, timegm_gmtime, ← Int32.toInt_inj]
    show _ ↔ zone.toInt = 0
    omega
  unfold RoundTrips
  rw [toIso8601_eq ticks h]
  by_cases hfit : t.toNat * ticks < 2^63
  · rw [if_pos hfit]
    constructor
    · rintro ⟨s, hs, hok⟩
      cases hs
      rw [hread] at hok
      exact ⟨hzone.mp hok, hfit⟩
    · rintro ⟨hz, _⟩
      exact ⟨_, rfl, hread.trans (hzone.mpr hz)⟩
  · rw [if_neg hfit]
    constructor
    · rintro ⟨s, hs, _⟩
      cases hs
    · intro hc
      exact absurd hc.2 hfit

/-- **Reading is exact, and times survive being printed**, exactly for the texts that
`readsExactly_iff` names and, before the year 10000, for a host that keeps UTC and times whose number
of ticks is below `2^63`. -/
theorem iso8601_iff (zone : Int32) (ticks : ℕ+) (s : Str) (t : UInt64) :
    ReadsExactly zone s ∧ (t.toNat < year10000 → RoundTrips zone ticks t) ↔
      (∀ tm, Written tm → s = isoText tm →
        FromEpoch tm ∧ zone = 0 ∨ ¬ FromEpoch tm ∧ mktime zone tm = -1) ∧
        (t.toNat < year10000 → zone = 0 ∧ t.toNat * ticks < 2^63) := by
  rw [readsExactly_iff]
  refine and_congr_right fun _ => ?_
  exact forall_congr' fun h => roundTrips_iff zone ticks h

/-- the thirteenth month of 2022 is read as January 2023, and a host one hour east of UTC reads the
first hour of 1970 as a time before the epoch -/
theorem thirteenth_month_is_read :
    fromIso8601 0 (str "2022-13-01T00:00:00Z") = .ok 1672531200 ∧
      ¬ ReadsExactly 0 (str "2022-13-01T00:00:00Z") ∧
      fromIso8601 3600 (str "1970-01-01T00:30:00Z") = .ok 18446744073709549816 := by
  have hread : fromIso8601 0 (str "2022-13-01T00:00:00Z") = .ok 1672531200 := by decide +kernel
  refine ⟨hread, fun h => ?_, by decide +kernel⟩
  -- it would have to be the text of the first of January
  obtain ⟨_, htext⟩ := (denotes_iff _ _).mp ((h 1672531200).mp hread)
  exact absurd htext (by decide +kernel)

end Timestamp
end ChainForge
