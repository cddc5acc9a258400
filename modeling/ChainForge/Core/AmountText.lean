import ChainForge.Core.Types
import ChainForge.Lib.Delimited
import Mathlib.Algebra.Order.Floor.Semifield
import Mathlib.Data.List.DropRight
import Mathlib.Data.Rat.Floor

/-!
# Amounts as texts

`Amount::to_string` and `Amount::from_string`.  The fraction of an amount passes through a
`uint32_t` in both directions, so it keeps its last 32 bits, and the numbers themselves are read by
`std::stoull`, which takes white space, a sign and whatever follows the digits.

* `fromString_ok_iff`         what `from_string` does not refuse;
* `fractionText_value`        eighteen digits after the point are the fraction in wei, rounded down;
* `fromString_toString_iff`   **when an amount survives the round trip**: its fraction has 32 bits;
* `Amount.parse`              what `from_string` is to read, from the value of a decimal numeral;
* `fromString_parse_iff`      **when it reads that**.
-/

set_option linter.unusedSectionVars false

namespace ChainForge
open Text

/-! ## the parts -/

/-- the eighteen characters after the point, filled up with zeros -/
def Amount.fractionText (frac : Str) : Str :=
  frac.take decimals ++ List.replicate (decimals - (frac.take decimals).length) 48

/-- a numeral; or, around a point, a numeral of at most 18 ether and one for the fraction -/
def Amount.Readable (s : Str) : Prop :=
  match s.idxOf? 46 with
  | none => Numeral s
  | some dotPos =>
    (∃ whole, stoull (s.take dotPos) = .ok whole ∧ whole ≤ 18446744073709551615 / weiPerEther) ∧
      Numeral (fractionText (s.drop (dotPos + 1)))

theorem mapError_eq_ok {ε ε' α : Type} (f : ε → ε') (x : Except ε α) (a : α) :
    x.mapError f = .ok a ↔ x = .ok a := by
  cases x with
  | ok v =>
    constructor
    · intro h
      cases h
      rfl
    · intro h
      cases h
      rfl
  | error e =>
    constructor
    · intro h
      cases h
    · intro h
      cases h

theorem bind_ok_iff {ε α β : Type} (x : Except ε α) (f : α → Except ε β) :
    (∃ b, (x >>= f) = .ok b) ↔ ∃ a, x = .ok a ∧ ∃ b, f a = .ok b := by
  cases x with
  | ok v =>
    constructor
    · intro h
      exact ⟨v, rfl, h⟩
    · rintro ⟨a, e, h⟩
      cases e
      exact h
  | error e =>
    constructor
    · rintro ⟨b, h⟩
      cases h
    · rintro ⟨a, h, _⟩
      cases h

theorem limit_eq_take (n : Nat) (frac : Str) :
    (if frac.length > n then frac.take n else frac) = frac.take n := by
  by_cases h : frac.length > n
  · rw [if_pos h]
  · rw [if_neg h, List.take_of_length_le (by omega)]

theorem Amount.ofWhole_ok_iff (whole : UInt64) (fraction : UInt32) :
    (∃ a, Amount.ofWhole whole fraction = .ok a) ↔ whole ≤ 18446744073709551615 / weiPerEther := by
  unfold Amount.ofWhole
  by_cases h : whole > 18446744073709551615 / weiPerEther
  · rw [if_pos h]
    constructor
    · rintro ⟨a, ha⟩
      cases ha
    · intro hle
      exact absurd h (UInt64.not_lt.mpr hle)
  · rw [if_neg h]
    exact ⟨fun _ => UInt64.not_lt.mp h, fun _ => ⟨_, rfl⟩⟩

theorem Amount.fromString_ok_iff (s : Str) :
    (∃ a, Amount.fromString s = .ok a) ↔ Amount.Readable s := by
  unfold Amount.fromString Amount.Readable
  cases s.idxOf? 46 with
  | none =>
    show (∃ a, (stoullE s >>= fun n => .ok (n * weiPerEther)) = .ok a) ↔ Numeral s
    rw [bind_ok_iff, ← stoull_ok_iff]
    simp only [stoullE, mapError_eq_ok]
    constructor
    · rintro ⟨n, h, _⟩
      exact ⟨n, h⟩
    · rintro ⟨n, h⟩
      exact ⟨n, h, _, rfl⟩
  | some dotPos =>
    dsimp only
    simp only [limit_eq_take, Amount.fractionText, bind_ok_iff, Amount.ofWhole_ok_iff, stoullE,
      stoulE, mapError_eq_ok, ← stoull_ok_iff]
    constructor
    · rintro ⟨whole, hw, fraction, hf, hle⟩
      exact ⟨⟨whole, hw, hle⟩, fraction, hf⟩
    · rintro ⟨⟨whole, hw, hle⟩, fraction, hf⟩
      exact ⟨whole, hw, fraction, hf, hle⟩

/-! ## texts without and with a point -/

theorem Amount.fromString_plain {s : Str} (h : 46 ∉ s) :
    Amount.fromString s = (stoullE s).bind fun n => .ok (n * weiPerEther) := by
  unfold Amount.fromString
  rw [List.idxOf?_eq_none_iff.mpr h]
  rfl

theorem Amount.fromString_point {whole : Str} (h : 46 ∉ whole) (frac : Str) :
    Amount.fromString (whole ++ 46 :: frac) =
      (stoullE whole).bind fun w => (stoulE (Amount.fractionText frac)).bind fun f =>
        Amount.ofWhole w f.toUInt32 := by
  obtain ⟨hpos, htake, hdrop⟩ := split_first h frac
  show Amount.fromString (keyed 46 whole frac) = _
  unfold Amount.fromString
  rw [hpos]
  dsimp only
  rw [limit_eq_take, htake, hdrop]
  rfl

theorem Amount.fractionText_length (frac : Str) : (Amount.fractionText frac).length = 18 := by
  unfold Amount.fractionText decimals
  rw [List.length_append, List.length_replicate, List.length_take]
  omega

theorem Amount.fractionText_isDigit {frac : Str} (h : ∀ d ∈ frac, isDigit d = true) :
    ∀ d ∈ Amount.fractionText frac, isDigit d = true := by
  intro d hd
  rcases List.mem_append.mp hd with hd | hd
  · exact h d (List.mem_of_mem_take hd)
  · rw [List.eq_of_mem_replicate hd]
    rfl

theorem Amount.fractionText_lt {frac : Str} (h : ∀ d ∈ frac, isDigit d = true) :
    ofDecimal (Amount.fractionText frac) < 10^18 := by
  have := ofDecimal_lt (Amount.fractionText_isDigit h)
  rwa [Amount.fractionText_length] at this

/-- **The fraction in wei**, rounded down. -/
theorem Amount.fractionText_value {frac : Str} (h : ∀ d ∈ frac, isDigit d = true) :
    ofDecimal (Amount.fractionText frac) = ofDecimal frac * 10^18 / 10^frac.length := by
  unfold Amount.fractionText decimals
  rw [ofDecimal_append, ofDecimal_zeros, Nat.add_zero, List.length_replicate, List.length_take]
  rcases Nat.le_total frac.length 18 with hle | hle
  · rw [List.take_of_length_le hle, Nat.min_eq_right hle]
    have hpow : 10^18 = 10^(18 - frac.length) * 10^frac.length := by
      rw [← Nat.pow_add, Nat.sub_add_cancel hle]
    rw [hpow, ← Nat.mul_assoc, Nat.mul_div_cancel _ (Nat.pow_pos (by decide))]
  · rw [ofDecimal_take h, Nat.min_eq_left hle, Nat.sub_self, Nat.pow_zero, Nat.mul_one]
    have hpow : 10^frac.length = 10^(frac.length - 18) * 10^18 := by
      rw [← Nat.pow_add, Nat.sub_add_cancel hle]
    rw [hpow, Nat.mul_div_mul_right _ _ (by decide)]

/-- digits are read as the number they are -/
theorem stoullE_digits {ds : Str} (hne : ds ≠ []) (hd : ∀ d ∈ ds, isDigit d = true)
    (hlt : ofDecimal ds < 2^64) : stoullE ds = .ok (UInt64.ofNat (ofDecimal ds)) := by
  unfold stoullE
  rw [stoull_digits ds hne hd hlt]
  rfl

theorem stoullE_of_ge {ds : Str} (hne : ds ≠ []) (hd : ∀ d ∈ ds, isDigit d = true)
    (hge : 2^64 ≤ ofDecimal ds) : stoullE ds = .error (.outOfRange "stoull") := by
  unfold stoullE
  rw [stoull_digits_of_ge ds hne hd hge]
  rfl

theorem Amount.stoulE_fractionText {frac : Str} (h : ∀ d ∈ frac, isDigit d = true) :
    stoulE (Amount.fractionText frac) = .ok (UInt64.ofNat (ofDecimal (Amount.fractionText frac))) := by
  have hlt := Amount.fractionText_lt h
  have hne : Amount.fractionText frac ≠ [] := by
    rw [← List.length_pos_iff, Amount.fractionText_length]
    decide
  unfold stoulE
  rw [stoull_digits _ hne (Amount.fractionText_isDigit h) (by omega)]
  rfl

/-- `Amount(whole, fraction)` of at most 18 ether does not wrap -/
theorem Amount.ofWhole_of_le {w : Nat} (hw : w ≤ 18) (f : Nat) :
    ∃ a, Amount.ofWhole (UInt64.ofNat w) (UInt64.ofNat f).toUInt32 = .ok a ∧
      a.toNat = w * 10^18 + f % 2^32 := by
  have hwhole : (UInt64.ofNat w).toNat = w :=
    UInt64.toNat_ofNat_of_lt' (Nat.lt_of_le_of_lt hw (by decide))
  have hfrac : (UInt64.ofNat f).toUInt32.toUInt64.toNat = f % 2^32 := by
    rw [UInt32.toNat_toUInt64, UInt64.toNat_toUInt32, UInt64.toNat_ofNat']
    omega
  have hunit : weiPerEther.toNat = 10^18 := rfl
  have hle : ¬ UInt64.ofNat w > 18446744073709551615 / weiPerEther := by
    rw [gt_iff_lt, UInt64.lt_iff_toNat_lt, hwhole, Nat.not_lt]
    exact hw
  refine ⟨_, if_neg hle, ?_⟩
  rw [UInt64.toNat_add, UInt64.toNat_mul, hwhole, hfrac, hunit]
  omega

theorem Amount.ofWhole_of_gt {w : Nat} (hw : 18 < w) (hlt : w < 2^64) (f : UInt32) :
    ∃ e, Amount.ofWhole (UInt64.ofNat w) f = .error e := by
  have hwhole : (UInt64.ofNat w).toNat = w := UInt64.toNat_ofNat_of_lt' hlt
  refine ⟨_, if_pos ?_⟩
  rw [gt_iff_lt, UInt64.lt_iff_toNat_lt, hwhole]
  exact hw

/-! ## the round trip -/

def Amount.whole (a : Amount) : UInt64 := a / weiPerEther

/-- narrowed to 32 bits -/
def Amount.fraction (a : Amount) : UInt32 := (a % weiPerEther).toUInt32

/-- a character that `to_string` erases at the end of the fraction -/
def Amount.isZeroDigit (c : UInt8) : Bool := c == 48

def Amount.toString (a : Amount) : Str :=
  let frac := Amount.fraction a
  let digits :=
    if frac == 0 then [48]
    else
      let fracStr := toDecimal frac.toNat
      let fracStr := List.replicate (decimals - fracStr.length) 48 ++ fracStr
      -- `frac_str.erase(frac_str.find_last_not_of('0') + 1)`
      let fracStr := fracStr.rdropWhile isZeroDigit
      if fracStr.isEmpty then [48] else fracStr
  toDecimal (Amount.whole a).toNat ++ 46 :: digits

/-- the zeros that were erased are filled in again -/
theorem Amount.fractionText_rdropWhile {s : Str} (hs : s.length = 18) :
    Amount.fractionText (s.rdropWhile Amount.isZeroDigit) = s := by
  have happ : s.rdropWhile Amount.isZeroDigit ++ s.rtakeWhile Amount.isZeroDigit = s :=
    List.rdropWhile_append_rtakeWhile
  have hzeros : s.rtakeWhile Amount.isZeroDigit
      = List.replicate (s.rtakeWhile Amount.isZeroDigit).length 48 := by
    refine List.eq_replicate_iff.mpr ⟨rfl, fun c hc => ?_⟩
    have hzero : Amount.isZeroDigit c = true := List.mem_rtakeWhile_imp hc
    exact beq_iff_eq.mp hzero
  have hlen := congrArg List.length happ
  rw [List.length_append, hs] at hlen
  have htake : (s.rdropWhile Amount.isZeroDigit).take 18 = s.rdropWhile Amount.isZeroDigit :=
    List.take_of_length_le (by omega)
  have hrest : 18 - (s.rdropWhile Amount.isZeroDigit).length
      = (s.rtakeWhile Amount.isZeroDigit).length := by omega
  unfold Amount.fractionText decimals
  rw [htake, hrest, ← hzeros, happ]

/-- eighteen digits of a fraction -/
theorem Amount.padded_fraction (f : UInt32) :
    let s := List.replicate (decimals - (toDecimal f.toNat).length) 48 ++ toDecimal f.toNat
    s.length = 18 ∧ (∀ d ∈ s, isDigit d = true) ∧ ofDecimal s = f.toNat := by
  intro s
  have hlen : (toDecimal f.toNat).length ≤ 18 :=
    toDecimal_length_le (by decide) (Nat.lt_trans f.toNat_lt (by decide))
  refine ⟨?_, fun d hd => ?_, ?_⟩
  · show (List.replicate (18 - _) 48 ++ toDecimal f.toNat).length = 18
    rw [List.length_append, List.length_replicate]
    omega
  · rcases List.mem_append.mp hd with hd | hd
    · rw [List.eq_of_mem_replicate hd]
      rfl
    · exact toDecimal_isDigit _ d hd
  · show ofDecimal (_ ++ _) = _
    rw [ofDecimal_append, ofDecimal_zeros, Nat.zero_mul, Nat.zero_add, ofDecimal_toDecimal]

/-- the digits after the point -/
theorem Amount.toString_fraction (a : Amount) :
    ∃ frac, Amount.toString a = toDecimal (Amount.whole a).toNat ++ 46 :: frac ∧
      (∀ d ∈ frac, isDigit d = true) ∧
      ofDecimal (Amount.fractionText frac) = (Amount.fraction a).toNat := by
  obtain ⟨hlen, hdigits, hvalue⟩ := Amount.padded_fraction (Amount.fraction a)
  have hzero : (∀ d ∈ ([48] : Str), isDigit d = true) ∧
      ofDecimal (Amount.fractionText [48]) = 0 :=
    ⟨List.forall_mem_singleton.mpr rfl, ofDecimal_zeros 18⟩
  refine ⟨_, rfl, ?_⟩
  split
  · rename_i h0
    rw [beq_iff_eq.mp h0]
    exact hzero
  · have hfill := Amount.fractionText_rdropWhile hlen
    dsimp only
    split
    · -- not reached: only the digits of zero are all erased
      rename_i hempty
      rw [List.isEmpty_iff.mp hempty] at hfill
      rw [← hvalue, ← hfill]
      exact hzero
    · refine ⟨fun d hd => hdigits d ?_, by rw [hfill, hvalue]⟩
      exact (List.rdropWhile_prefix _ _).subset hd

/-- the printed amount reads back with the fraction that was kept -/
theorem Amount.fromString_toString (a : Amount) :
    ∃ b, Amount.fromString (Amount.toString a) = .ok b ∧
      b.toNat = a.toNat / 10^18 * 10^18 + a.toNat % 10^18 % 2^32 := by
  have ha := a.toNat_lt
  have hwhole : (Amount.whole a).toNat = a.toNat / 10^18 := UInt64.toNat_div a weiPerEther
  have hfrac : (Amount.fraction a).toNat = a.toNat % 10^18 % 2^32 := by
    unfold Amount.fraction
    rw [UInt64.toNat_toUInt32, UInt64.toNat_mod]
    rfl
  obtain ⟨frac, htext, hdigits, hvalue⟩ := Amount.toString_fraction a
  have hpoint : 46 ∉ toDecimal (Amount.whole a).toNat := fun hm =>
    absurd (toDecimal_isDigit _ 46 hm) (by decide)
  obtain ⟨b, hb, hnat⟩ := Amount.ofWhole_of_le (w := a.toNat / 10^18) (by omega)
    (ofDecimal (Amount.fractionText frac))
  refine ⟨b, ?_, by rw [hnat, hvalue, hfrac]; omega⟩
  rw [htext, Amount.fromString_point hpoint, Amount.stoulE_fractionText hdigits]
  have hread : stoullE (toDecimal (Amount.whole a).toNat) = .ok (UInt64.ofNat (a.toNat / 10^18)) := by
    rw [← hwhole, UInt64.ofNat_toNat]
    unfold stoullE
    rw [stoull_toDecimal]
    rfl
  rw [hread]
  exact hb

/-- **When an amount survives the round trip**: exactly if its fraction, in wei, fits in 32 bits. -/
theorem fromString_toString_iff (a : Amount) :
    Amount.fromString (Amount.toString a) = .ok a ↔ a.toNat % 10^18 < 2^32 := by
  obtain ⟨b, hb, hnat⟩ := Amount.fromString_toString a
  rw [hb]
  constructor
  · intro h
    rw [Except.ok.inj h] at hnat
    omega
  · intro h
    refine congrArg Except.ok (UInt64.toNat_inj.mp ?_)
    omega

/-- half an ether -/
theorem half_ether_lost :
    Amount.toString 500000000000000000 = str "0.000000003551657984" ∧
      Amount.fromString (Amount.toString 500000000000000000) = .ok 3551657984 ∧
      (3551657984 : Amount) ≠ 500000000000000000 := by
  decide +kernel

/-! ## parsing -/

/-- the text before the first point -/
def Amount.wholeText (s : Str) : Str := s.takeWhile (· != 46)

/-- the text behind it -/
def Amount.fracText (s : Str) : Str := (s.dropWhile (· != 46)).tail

/-- digits, with at most one point and at least one digit before it -/
def Amount.wellFormed (s : Str) : Bool :=
  !(Amount.wholeText s).isEmpty && (Amount.wholeText s).all isDigit && (Amount.fracText s).all isDigit

/-- the number of ether that is written -/
def Amount.numeralValue (s : Str) : ℚ :=
  ofDecimal (Amount.wholeText s) + ofDecimal (Amount.fracText s) / 10^(Amount.fracText s).length

/-- what `from_string` is to return, in wei; `none` is an exception -/
def Amount.parse (s : Str) : Option ℕ :=
  if Amount.wellFormed s then
    let wei := ⌊Amount.numeralValue s * 10^18⌋₊
    if wei < 2^64 then some wei else none
  else none

/-- rounding down a decimal fraction -/
theorem floor_decimal (w f k : ℕ) :
    ⌊((w : ℚ) + f / 10^k) * 10^18⌋₊ = w * 10^18 + f * 10^18 / 10^k := by
  have hsum : ((w : ℚ) + f / 10^k) * 10^18
      = ((f * 10^18 : ℕ) : ℚ) / ((10^k : ℕ) : ℚ) + ((w * 10^18 : ℕ) : ℚ) := by
    push_cast
    ring
  rw [hsum, Nat.floor_add_natCast (by positivity), Nat.floor_div_eq_div, Nat.add_comm]

section
variable {s : Str}

theorem Amount.parts_of_no_point (h : 46 ∉ s) :
    Amount.wholeText s = s ∧ Amount.fracText s = [] := by
  unfold Amount.wholeText Amount.fracText
  rw [List.takeWhile_eq_self_iff.mpr (bne_of_not_mem h),
    List.dropWhile_eq_nil_iff.mpr (bne_of_not_mem h)]
  exact ⟨rfl, rfl⟩

theorem Amount.parts_of_point (h : 46 ∈ s) :
    s = Amount.wholeText s ++ 46 :: Amount.fracText s ∧ 46 ∉ Amount.wholeText s := by
  obtain ⟨w, f, rfl, hw⟩ := List.eq_append_cons_of_mem h
  unfold Amount.wholeText Amount.fracText
  rw [takeWhile_stop (bne_of_not_mem hw) (bne_self_eq_false 46),
    dropWhile_stop (bne_of_not_mem hw) (bne_self_eq_false 46)]
  exact ⟨rfl, hw⟩

theorem Amount.wellFormed_iff :
    Amount.wellFormed s = true ↔ Amount.wholeText s ≠ [] ∧
      (∀ d ∈ Amount.wholeText s, isDigit d = true) ∧ ∀ d ∈ Amount.fracText s, isDigit d = true := by
  unfold Amount.wellFormed
  rw [Bool.and_eq_true, Bool.and_eq_true, Bool.not_eq_true', List.isEmpty_eq_false_iff,
    List.all_eq_true, List.all_eq_true, and_assoc]

/-- **What is to be read**, in whole numbers. -/
theorem Amount.parse_of_wellFormed (hwf : Amount.wellFormed s = true) :
    Amount.parse s =
      let wei := ofDecimal (Amount.wholeText s) * 10^18
        + ofDecimal (Amount.fractionText (Amount.fracText s))
      if wei < 2^64 then some wei else none := by
  have hfrac := (Amount.wellFormed_iff.mp hwf).2.2
  unfold Amount.parse Amount.numeralValue
  rw [if_pos hwf, floor_decimal, Amount.fractionText_value hfrac]

/-- what `from_string` returns, in wei -/
def Amount.read (s : Str) : Option ℕ := (Amount.fromString s).toOption.map UInt64.toNat

theorem Amount.read_malformed_iff (hwf : Amount.wellFormed s = false) :
    Amount.read s = Amount.parse s ↔ ¬ Amount.Readable s := by
  have hparse : Amount.parse s = none := by
    unfold Amount.parse
    rw [hwf]
    rfl
  rw [hparse, ← Amount.fromString_ok_iff]
  unfold Amount.read
  cases Amount.fromString s with
  | ok a => exact ⟨fun h => (nomatch h), fun h => absurd ⟨a, rfl⟩ h⟩
  | error e =>
    refine ⟨fun _ => ?_, fun _ => rfl⟩
    rintro ⟨a, ha⟩
    cases ha

/-- without a point the product wraps -/
theorem Amount.read_plain_iff (hwf : Amount.wellFormed s = true) (hs : 46 ∉ s) :
    Amount.read s = Amount.parse s ↔
      ofDecimal (Amount.wholeText s) ≤ 18 ∨ 2^64 ≤ ofDecimal (Amount.wholeText s) := by
  obtain ⟨hne, hdigits, -⟩ := Amount.wellFormed_iff.mp hwf
  rw [Amount.parse_of_wellFormed hwf]
  obtain ⟨hwhole, hfrac⟩ := Amount.parts_of_no_point hs
  have hzero : ofDecimal (Amount.fractionText []) = 0 := ofDecimal_zeros 18
  rw [hwhole] at hne hdigits ⊢
  rw [hfrac, hzero]
  unfold Amount.read
  rw [Amount.fromString_plain hs]
  by_cases hlt : ofDecimal s < 2^64
  · have hnat : (UInt64.ofNat (ofDecimal s) * weiPerEther).toNat = ofDecimal s * 10^18 % 2^64 := by
      rw [UInt64.toNat_mul, UInt64.toNat_ofNat_of_lt' hlt]
      rfl
    rw [stoullE_digits hne hdigits hlt]
    show some (UInt64.ofNat (ofDecimal s) * weiPerEther).toNat = _ ↔ _
    rw [hnat]
    dsimp only
    split
    · rw [Option.some.injEq]
      omega
    · exact ⟨fun h => (nomatch h), fun h => by omega⟩
  · rw [stoullE_of_ge hne hdigits (by omega), if_neg (by omega)]
    exact ⟨fun _ => Or.inr (by omega), fun _ => rfl⟩

/-- with a point the fraction is narrowed -/
theorem Amount.read_point_iff (hwf : Amount.wellFormed s = true) (hs : 46 ∈ s) :
    Amount.read s = Amount.parse s ↔
      19 ≤ ofDecimal (Amount.wholeText s) ∨
        ofDecimal (Amount.fractionText (Amount.fracText s)) < 2^32 := by
  obtain ⟨hne, hdigits, hfrac⟩ := Amount.wellFormed_iff.mp hwf
  obtain ⟨hparts, hpoint⟩ := Amount.parts_of_point hs
  have hflt := Amount.fractionText_lt hfrac
  have hread : Amount.read s = ((stoullE (Amount.wholeText s)).bind fun w => Amount.ofWhole w
      (UInt64.ofNat (ofDecimal (Amount.fractionText (Amount.fracText s)))).toUInt32).toOption.map
        UInt64.toNat := by
    unfold Amount.read
    nth_rewrite 1 [hparts]
    rw [Amount.fromString_point hpoint, Amount.stoulE_fractionText hfrac]
    rfl
  rw [Amount.parse_of_wellFormed hwf, hread]
  generalize ofDecimal (Amount.fractionText (Amount.fracText s)) = f at hflt
  by_cases hlt : ofDecimal (Amount.wholeText s) < 2^64
  · rw [stoullE_digits hne hdigits hlt]
    by_cases hle : ofDecimal (Amount.wholeText s) ≤ 18
    · obtain ⟨a, ha, hnat⟩ := Amount.ofWhole_of_le hle f
      show (Amount.ofWhole _ _).toOption.map UInt64.toNat = _ ↔ _
      rw [ha]
      show some a.toNat = _ ↔ _
      rw [hnat]
      dsimp only
      split
      · rw [Option.some.injEq]
        omega
      · exact ⟨fun h => (nomatch h), fun h => by omega⟩
    · obtain ⟨e, he⟩ := Amount.ofWhole_of_gt (Nat.lt_of_not_le hle) hlt (UInt64.ofNat f).toUInt32
      show (Amount.ofWhole _ _).toOption.map UInt64.toNat = _ ↔ _
      rw [he, if_neg (by omega)]
      exact ⟨fun _ => Or.inl (by omega), fun _ => rfl⟩
  · rw [stoullE_of_ge hne hdigits (by omega), if_neg (by omega)]
    exact ⟨fun _ => Or.inl (by omega), fun _ => rfl⟩

end

/-- **When a text is read right.**  Digits alone: up to 18 ether or too large even for `stoull`.
With a point: too many ether, or a fraction of 32 bits in wei.  Any other text: one that the number
parsers refuse. -/
theorem fromString_parse_iff (s : Str) :
    Amount.read s = Amount.parse s ↔
      (Amount.wellFormed s = true ∧ 46 ∉ s ∧
          (ofDecimal (Amount.wholeText s) ≤ 18 ∨ 2^64 ≤ ofDecimal (Amount.wholeText s))) ∨
        (Amount.wellFormed s = true ∧ 46 ∈ s ∧
          (19 ≤ ofDecimal (Amount.wholeText s) ∨
            ofDecimal (Amount.fractionText (Amount.fracText s)) < 2^32)) ∨
        (Amount.wellFormed s = false ∧ ¬ Amount.Readable s) := by
  cases hwf : Amount.wellFormed s with
  | false =>
    rw [Amount.read_malformed_iff hwf]
    simp
  | true =>
    by_cases hs : 46 ∈ s
    · rw [Amount.read_point_iff hwf hs]
      simp [hs]
    · rw [Amount.read_plain_iff hwf hs]
      simp [hs]

/-- nineteen ether wrap around, half an ether is narrowed, and a text after the digits is accepted -/
theorem misread_amounts :
    Amount.fromString (str "19") = .ok 553255926290448384 ∧
      Amount.fromString (str "0.5") = .ok 3551657984 ∧
      Amount.fromString (str "1abc") = .ok 1000000000000000000 ∧
      Amount.wellFormed (str "19") = true ∧ Amount.wellFormed (str "0.5") = true ∧
      Amount.wellFormed (str "1abc") = false ∧
      ¬ Amount.read (str "0.5") = Amount.parse (str "0.5") := by
  decide +kernel

end ChainForge
