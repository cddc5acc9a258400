import ChainForge.Lib.Text
import Mathlib.Algebra.GroupWithZero.Nat

/-!
# Hexadecimal texts

Bytes written as two lower-case digits each, and `std::stoi` in base 16, which reads more than that:
white space, a sign and `0x` before the digits, and any text after them.

* `toHex l`          a stream with `std::hex`, `setw(2)` and `setfill('0')`;
* `stoi16 s`         `std::stoi(s, nullptr, 16)`;
* `stoull16_hexText`   a number that was printed with `std::hex` is read back by `std::stoull`;
* `readHex n s`      `n` bytes, each read by `stoi16` from two characters;
* `readHex_ok_iff`   **what is read**: a pair may begin with a blank or a sign, and may end with
                     anything after a digit;
* `readHex_digits`   digits are read as the bytes whose text they are, up to the case of the letters;
                     `toHex_inj`: these are the only ones.
-/

set_option linter.unusedSectionVars false

namespace Text

/-! ## digits -/

/-- `std::isxdigit` -/
def isHexDigit (c : UInt8) : Bool := isDigit c || (65 ≤ c && c ≤ 70) || (97 ≤ c && c ≤ 102)

/-- `std::tolower` -/
def toLower (c : UInt8) : UInt8 := if 65 ≤ c && c ≤ 90 then c + 32 else c

def hexValue (c : UInt8) : Nat :=
  if isDigit c then c.toNat - 48 else if c ≤ 70 then c.toNat - 55 else c.toNat - 87

/-- a digit of `std::hex` -/
def hexDigit (n : Nat) : UInt8 := UInt8.ofNat (if n < 10 then 48 + n else 87 + n)

theorem isHexDigit_iff (c : UInt8) : isHexDigit c = true ↔
    (48 ≤ c.toNat ∧ c.toNat ≤ 57) ∨ (65 ≤ c.toNat ∧ c.toNat ≤ 70) ∨
      (97 ≤ c.toNat ∧ c.toNat ≤ 102) := by
  simp only [isHexDigit, isDigit, Bool.or_eq_true, Bool.and_eq_true, decide_eq_true_eq,
    UInt8.le_iff_toNat_le, UInt8.reduceToNat, or_assoc]

theorem isHexDigit_plain {c : UInt8} (h : isHexDigit c = true) :
    isSpace c = false ∧ c ≠ 45 ∧ c ≠ 43 := by
  rw [isHexDigit_iff] at h
  refine ⟨?_, ?_, ?_⟩
  · simp only [isSpace, Bool.or_eq_false_iff, beq_eq_false_iff_ne, ne_eq, Bool.and_eq_false_iff,
      decide_eq_false_iff_not, ← UInt8.toNat_inj, UInt8.le_iff_toNat_le, UInt8.reduceToNat]
    omega
  · rintro rfl
    exact absurd h (by decide)
  · rintro rfl
    exact absurd h (by decide)

/-- the value of a digit, and the digit that is printed for it -/
theorem hexValue_spec {c : UInt8} (h : isHexDigit c = true) :
    hexValue c < 16 ∧ hexDigit (hexValue c) = toLower c := by
  rw [isHexDigit_iff] at h
  simp only [hexValue, hexDigit, toLower, isDigit, Bool.and_eq_true, decide_eq_true_eq,
    UInt8.le_iff_toNat_le, UInt8.reduceToNat, ← UInt8.toNat_inj]
  rcases h with h | h | h
  · rw [if_pos h, if_pos (by omega), if_neg (by omega), UInt8.toNat_ofNat']
    omega
  · rw [if_neg (by omega), if_pos (by omega), if_neg (by omega), if_pos (by omega),
      UInt8.toNat_ofNat', UInt8.toNat_add]
    show _ ∧ _ = (c.toNat + 32) % 2^8
    omega
  · rw [if_neg (by omega), if_neg (by omega), if_neg (by omega), if_neg (by omega),
      UInt8.toNat_ofNat']
    omega

theorem hexDigit_spec {n : Nat} (h : n < 16) :
    isHexDigit (hexDigit n) = true ∧ hexValue (hexDigit n) = n := by
  revert n
  decide

/-! ## printing -/

def toHex (l : List UInt8) : Str :=
  l.flatMap fun b => [hexDigit (b.toNat / 16), hexDigit (b.toNat % 16)]

theorem toHex_length (l : List UInt8) : (toHex l).length = 2 * l.length := by
  induction l with
  | nil => rfl
  | cons b l ih =>
    show (toHex l).length + 1 + 1 = _
    rw [ih, List.length_cons]
    omega

theorem toHex_isHexDigit (l : List UInt8) : ∀ c ∈ toHex l, isHexDigit c = true := by
  intro c hc
  obtain ⟨b, _, hb⟩ := List.mem_flatMap.mp hc
  have hlt := b.toNat_lt
  rcases List.mem_pair.mp hb with rfl | rfl
  · exact (hexDigit_spec (by omega)).1
  · exact (hexDigit_spec (by omega)).1

/-! ## `std::stoi` in base 16 -/

def ofHex (ds : Str) : Nat := ds.foldl (fun a d => 16 * a + hexValue d) 0

/-- `0x` or `0X` and a digit -/
def hexMark (s : Str) : Bool :=
  s.head? == some 48 && (s[1]? == some 120 || s[1]? == some 88) && s[2]?.any isHexDigit

/-- the sign and the digits that are read -/
def hexDigitsOf (s : Str) : Bool × Str :=
  let s := s.dropWhile isSpace
  let neg := s.head? == some 45
  let s := if neg || s.head? == some 43 then s.tail else s
  let s := if hexMark s then s.drop 2 else s
  (neg, s.takeWhile isHexDigit)

def stoi16 (s : Str) : Except ParseError Int :=
  let ds := (hexDigitsOf s).2
  let n : Int := if (hexDigitsOf s).1 then - (ofHex ds : Int) else ofHex ds
  if ds.isEmpty then .error .invalidArgument
  else if n < -2^31 ∨ 2^31 ≤ n then .error .outOfRange
  else .ok n

theorem hexDigitsOf_sublist (s : Str) : (hexDigitsOf s).2.Sublist s := by
  have hif : ∀ {c : Bool} {s t u : Str}, s.Sublist u → t.Sublist u →
      (if c = true then s else t).Sublist u := by
    intro c s t u hs ht
    cases c with
    | true => exact hs
    | false => exact ht
  have hspace : (s.dropWhile isSpace).Sublist s := List.dropWhile_sublist _
  have hsign := hif (c := (s.dropWhile isSpace).head? == some 45 || (s.dropWhile isSpace).head? == some 43)
    ((List.tail_sublist _).trans hspace) hspace
  exact (List.takeWhile_sublist _).trans (hif ((List.drop_sublist _ _).trans hsign) hsign)

theorem hexDigitsOf_isHexDigit (s : Str) : ∀ d ∈ (hexDigitsOf s).2, isHexDigit d = true :=
  fun _ hd => List.mem_takeWhile_imp hd

theorem ofHex_lt {ds : Str} (h : ∀ d ∈ ds, isHexDigit d = true) : ofHex ds < 16^ds.length := by
  induction ds using List.reverseRecOn with
  | nil => exact Nat.one_pos
  | append_singleton ds d ih =>
    have hd := (hexValue_spec (h d (List.mem_append_right _ List.mem_cons_self))).1
    have ih := ih fun c hc => h c (List.mem_append_left _ hc)
    have hstep : ofHex (ds ++ [d]) = 16 * ofHex ds + hexValue d := List.foldl_concat _ _ _ _
    rw [hstep, List.length_append, List.length_singleton, Nat.pow_succ]
    omega

/-- a short text is refused only if there are no digits in it -/
theorem stoi16_of_short {s : Str} (h : s.length ≤ 2) :
    stoi16 s = if (hexDigitsOf s).2.isEmpty then .error .invalidArgument
      else .ok (if (hexDigitsOf s).1 then - (ofHex (hexDigitsOf s).2 : Int)
        else ofHex (hexDigitsOf s).2) := by
  have hlt := ofHex_lt (hexDigitsOf_isHexDigit s)
  have hpow : 16^(hexDigitsOf s).2.length ≤ 16^2 :=
    Nat.pow_le_pow_right (by decide) ((hexDigitsOf_sublist s).length_le.trans h)
  have hrange : ¬ ((if (hexDigitsOf s).1 then - (ofHex (hexDigitsOf s).2 : Int)
      else ofHex (hexDigitsOf s).2) < -2^31 ∨
      2^31 ≤ if (hexDigitsOf s).1 then - (ofHex (hexDigitsOf s).2 : Int)
        else ofHex (hexDigitsOf s).2) := by
    split <;> omega
  unfold stoi16
  dsimp only
  rw [if_neg hrange]

/-! ## numbers -/

/-- `std::stoull(s, nullptr, 16)` -/
def stoull16 (s : Str) : Except ParseError UInt64 :=
  let ds := (hexDigitsOf s).2
  if ds.isEmpty then .error .invalidArgument
  else if 2^64 ≤ ofHex ds then .error .outOfRange
  else .ok (if (hexDigitsOf s).1 then - UInt64.ofNat (ofHex ds) else UInt64.ofNat (ofHex ds))

/-- a number in a stream with `std::hex` -/
def hexText (n : Nat) : Str :=
  if n < 16 then [hexDigit n] else hexText (n / 16) ++ [hexDigit (n % 16)]

theorem hexText_spec (n : Nat) :
    hexText n ≠ [] ∧ (∀ c ∈ hexText n, isHexDigit c = true) ∧ ofHex (hexText n) = n := by
  induction n using Nat.strongRecOn with
  | ind n ih =>
    rw [hexText]
    by_cases hn : n < 16
    · obtain ⟨hdigit, hvalue⟩ := hexDigit_spec hn
      rw [if_pos hn]
      refine ⟨List.cons_ne_nil _ _, fun c hc => List.mem_singleton.mp hc ▸ hdigit, ?_⟩
      show 16 * 0 + hexValue (hexDigit n) = n
      rw [hvalue]
      omega
    · obtain ⟨-, hdigits, hvalues⟩ := ih (n / 16) (by omega)
      obtain ⟨hdigit, hvalue⟩ := hexDigit_spec (Nat.mod_lt n (by decide : 16 > 0))
      rw [if_neg hn]
      refine ⟨List.append_ne_nil_of_right_ne_nil _ (List.cons_ne_nil _ _), fun c hc => ?_, ?_⟩
      · rcases List.mem_append.mp hc with hc | hc
        · exact hdigits c hc
        · exact List.mem_singleton.mp hc ▸ hdigit
      · have hstep : ofHex (hexText (n / 16) ++ [hexDigit (n % 16)])
            = 16 * ofHex (hexText (n / 16)) + hexValue (hexDigit (n % 16)) := List.foldl_concat _ _ _ _
        rw [hstep, hvalues, hvalue]
        omega

/-- digits are read as they stand -/
theorem hexDigitsOf_digits {ds : Str} (hne : ds ≠ []) (hd : ∀ d ∈ ds, isHexDigit d = true) :
    hexDigitsOf ds = (false, ds) := by
  obtain ⟨d, rest, rfl⟩ := List.exists_cons_of_ne_nil hne
  obtain ⟨hspace, hminus, hplus⟩ := isHexDigit_plain (hd d List.mem_cons_self)
  -- there is no letter x among digits
  have hmark : hexMark (d :: rest) = false := by
    have hx : ∀ c, isHexDigit c = false → ((d :: rest)[1]? == some c) = false := by
      intro c hc
      rw [beq_eq_false_iff_ne]
      intro h
      have := hd c (List.mem_of_getElem? h)
      rw [hc] at this
      cases this
    unfold hexMark
    rw [hx 120 (by decide), hx 88 (by decide), Bool.or_self, Bool.and_false, Bool.false_and]
  have hdrop : (d :: rest).dropWhile isSpace = d :: rest := by
    rw [List.dropWhile_cons, hspace]
    rfl
  unfold hexDigitsOf
  dsimp only
  rw [hdrop, List.head?_cons, beq_eq_false_iff_ne.mpr (fun h => hminus (Option.some.inj h)),
    beq_eq_false_iff_ne.mpr (fun h => hplus (Option.some.inj h))]
  simp only [Bool.or_self, Bool.false_eq_true, if_false, hmark, List.takeWhile_eq_self_iff.mpr hd]

/-- **Reading undoes printing.** -/
theorem stoull16_hexText (n : UInt64) : stoull16 (hexText n.toNat) = .ok n := by
  obtain ⟨hne, hdigits, hvalue⟩ := hexText_spec n.toNat
  have hlt : ¬ 2^64 ≤ n.toNat := Nat.not_le.mpr n.toNat_lt
  unfold stoull16
  rw [hexDigitsOf_digits hne hdigits]
  dsimp only
  rw [List.isEmpty_eq_false_iff.mpr hne, hvalue, if_neg Bool.false_ne_true, if_neg hlt,
    if_neg Bool.false_ne_true, UInt64.ofNat_toNat]

/-! ## pairs of characters -/

/-- two characters of which `std::stoi` makes a byte -/
def pairRead (a b : UInt8) : Bool :=
  isHexDigit a || (isSpace a || a == 43 || a == 45) && isHexDigit b

theorem hexDigitsOf_cons {a b : UInt8} (ha : isHexDigit a = true) :
    hexDigitsOf [a, b] = (false, a :: if isHexDigit b then [b] else []) := by
  obtain ⟨h1, h2, h3⟩ := isHexDigit_plain ha
  simp [hexDigitsOf, hexMark, h1, h2, h3, ha, List.takeWhile_cons]

theorem hexDigitsOf_pair (a b : UInt8) :
    (hexDigitsOf [a, b]).2.isEmpty = !pairRead a b := by
  unfold pairRead
  by_cases ha : isHexDigit a = true
  · rw [hexDigitsOf_cons ha, ha]
    rfl
  · rw [Bool.not_eq_true] at ha
    rw [ha, Bool.false_or]
    by_cases hs : isSpace a = true
    · -- a blank: the second character must be the digit
      by_cases hb : isHexDigit b = true
      · obtain ⟨h1, h2, h3⟩ := isHexDigit_plain hb
        simp [hexDigitsOf, hexMark, hs, h1, h2, h3, hb]
      · rw [Bool.not_eq_true] at hb
        by_cases hsb : isSpace b = true
        · simp [hexDigitsOf, hexMark, hs, hsb, hb]
        · by_cases hsign : b = 45 ∨ b = 43
          · simp [hexDigitsOf, hexMark, hs, hsb, hb, hsign]
          · simp [hexDigitsOf, hexMark, hs, hsb, hb, hsign]
    · rw [Bool.not_eq_true] at hs
      by_cases hsign : a = 45 ∨ a = 43
      · rcases hsign with rfl | rfl <;>
          cases hb : isHexDigit b <;> simp [hexDigitsOf, hexMark, hs, hb]
      · obtain ⟨h1, h2⟩ := not_or.mp hsign
        simp [hexDigitsOf, hexMark, hs, h1, h2, ha]

/-- a pair is refused by `std::stoi`, or makes a byte -/
theorem stoi16_pair_ok_iff (a b : UInt8) : (∃ v, stoi16 [a, b] = .ok v) ↔ pairRead a b = true := by
  rw [stoi16_of_short (s := [a, b]) (Nat.le_refl 2), hexDigitsOf_pair]
  cases pairRead a b with
  | true => exact ⟨fun _ => rfl, fun _ => ⟨_, rfl⟩⟩
  | false => exact ⟨fun h => (nomatch h), fun h => (nomatch h)⟩

theorem stoi16_digits {a b : UInt8} (ha : isHexDigit a = true) (hb : isHexDigit b = true) :
    stoi16 [a, b] = .ok ((16 * hexValue a + hexValue b : Nat) : Int) := by
  rw [stoi16_of_short (s := [a, b]) (Nat.le_refl 2), hexDigitsOf_cons ha, hb]
  show Except.ok ((16 * (16 * 0 + hexValue a) + hexValue b : Nat) : Int) = _
  rw [Nat.mul_zero, Nat.zero_add]

/-! ## bytes -/

/-- `static_cast<uint8_t>` of an `int` -/
def byteOfInt (v : Int) : UInt8 := UInt8.ofNat (v % 256).toNat

/-- the loop `result[i] = stoi(s.substr(i * 2, 2), nullptr, 16)` for `n` bytes -/
def readHex : Nat → Str → Except ParseError (List UInt8)
  | 0, _ => .ok []
  | n + 1, s => do
    let v ← stoi16 (s.take 2)
    let l ← readHex n (s.drop 2)
    return byteOfInt v :: l

theorem readHex_length {n : Nat} {s : Str} {l : List UInt8} (h : readHex n s = .ok l) :
    l.length = n := by
  induction n generalizing s l with
  | zero =>
    cases h
    rfl
  | succ n ih =>
    unfold readHex at h
    cases hv : stoi16 (s.take 2) with
    | error e =>
      rw [hv] at h
      cases h
    | ok v =>
      rw [hv] at h
      cases hl : readHex n (s.drop 2) with
      | error e =>
        simp only [hl, bind, Except.bind] at h
        cases h
      | ok l' =>
        simp only [hl, bind, Except.bind, pure, Except.pure] at h
        cases h
        rw [List.length_cons, ih hl]

/-- every pair of characters is read -/
def pairsRead : Str → Bool
  | a :: b :: s => pairRead a b && pairsRead s
  | _ => true

/-- a text of `2 * (n + 1)` characters begins with a pair -/
theorem exists_pair {n : Nat} {s : Str} (h : s.length = 2 * (n + 1)) :
    ∃ a b s', s = a :: b :: s' ∧ s'.length = 2 * n := by
  cases s with
  | nil => cases h
  | cons a s =>
    cases s with
    | nil =>
      rw [List.length_singleton] at h
      omega
    | cons b s =>
      rw [List.length_cons, List.length_cons] at h
      exact ⟨a, b, s, rfl, by omega⟩

/-- **What is read of `2 n` characters.** -/
theorem readHex_ok_iff {n : Nat} {s : Str} (h : s.length = 2 * n) :
    (∃ l, readHex n s = .ok l) ↔ pairsRead s = true := by
  induction n generalizing s with
  | zero =>
    obtain rfl := List.eq_nil_of_length_eq_zero h
    exact ⟨fun _ => rfl, fun _ => ⟨[], rfl⟩⟩
  | succ n ih =>
    obtain ⟨a, b, s, rfl, hs⟩ := exists_pair h
    show (∃ l, (stoi16 [a, b] >>= fun v => readHex n s >>= fun l => pure (byteOfInt v :: l)) = .ok l) ↔
      (pairRead a b && pairsRead s) = true
    rw [Bool.and_eq_true, ← stoi16_pair_ok_iff, ← ih hs]
    constructor
    · rintro ⟨l, hl⟩
      cases hv : stoi16 [a, b] with
      | error e =>
        rw [hv] at hl
        cases hl
      | ok v =>
        cases hl' : readHex n s with
        | error e =>
          rw [hv, hl'] at hl
          cases hl
        | ok l' => exact ⟨⟨v, rfl⟩, ⟨l', rfl⟩⟩
    · rintro ⟨⟨v, hv⟩, ⟨l, hl⟩⟩
      rw [hv, hl]
      exact ⟨_, rfl⟩

/-- **Digits are read as the bytes whose text they are.** -/
theorem readHex_digits {n : Nat} {s : Str} (hlen : s.length = 2 * n)
    (h : ∀ c ∈ s, isHexDigit c = true) : ∃ l, readHex n s = .ok l ∧ toHex l = s.map toLower := by
  induction n generalizing s with
  | zero =>
    obtain rfl := List.eq_nil_of_length_eq_zero hlen
    exact ⟨[], rfl, rfl⟩
  | succ n ih =>
    obtain ⟨a, b, s, rfl, hs⟩ := exists_pair hlen
    have ha := h a List.mem_cons_self
    have hb := h b (List.mem_cons_of_mem _ List.mem_cons_self)
    obtain ⟨l, hl, htext⟩ := ih hs fun c hc => h c (List.mem_cons_of_mem _ (List.mem_cons_of_mem _ hc))
    obtain ⟨hav, had⟩ := hexValue_spec ha
    obtain ⟨hbv, hbd⟩ := hexValue_spec hb
    have hbyte : (byteOfInt ((16 * hexValue a + hexValue b : Nat) : Int)).toNat
        = 16 * hexValue a + hexValue b := by
      unfold byteOfInt
      rw [UInt8.toNat_ofNat']
      omega
    refine ⟨byteOfInt ((16 * hexValue a + hexValue b : Nat) : Int) :: l, ?_, ?_⟩
    · show (stoi16 [a, b] >>= fun v => readHex n s >>= fun l => pure (byteOfInt v :: l)) = _
      rw [stoi16_digits ha hb, hl]
      rfl
    · show hexDigit (_ / 16) :: hexDigit (_ % 16) :: toHex l = toLower a :: toLower b :: s.map toLower
      rw [hbyte, htext, ← had, ← hbd]
      have hdiv : (16 * hexValue a + hexValue b) / 16 = hexValue a := by omega
      have hmod : (16 * hexValue a + hexValue b) % 16 = hexValue b := by omega
      rw [hdiv, hmod]

/-- different bytes have different texts -/
theorem toHex_inj {l l' : List UInt8} (h : toHex l = toHex l') : l = l' := by
  induction l generalizing l' with
  | nil =>
    cases l' with
    | nil => rfl
    | cons b l' => cases h
  | cons b l ih =>
    cases l' with
    | nil => cases h
    | cons b' l' =>
      have hlt := b.toNat_lt
      have hlt' := b'.toNat_lt
      simp only [toHex, List.flatMap_cons, List.cons_append, List.nil_append, List.cons.injEq] at h
      obtain ⟨h1, h2, h3⟩ := h
      have e1 := congrArg hexValue h1
      have e2 := congrArg hexValue h2
      rw [(hexDigit_spec (by omega)).2, (hexDigit_spec (by omega)).2] at e1 e2
      rw [ih h3, UInt8.toNat_inj.mp (show b.toNat = b'.toNat by omega)]

/-- a printed digit is a lower-case one -/
theorem toLower_toHex (l : List UInt8) : (toHex l).map toLower = toHex l := by
  have hdigit : ∀ n < 16, toLower (hexDigit n) = hexDigit n := by decide
  induction l with
  | nil => rfl
  | cons b l ih =>
    have hlt := b.toNat_lt
    show toLower (hexDigit (b.toNat / 16)) :: toLower (hexDigit (b.toNat % 16)) :: (toHex l).map toLower = _
    rw [hdigit _ (by omega), hdigit _ (by omega), ih]
    rfl

end Text
