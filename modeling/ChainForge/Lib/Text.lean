import Mathlib.Data.List.Basic
import Mathlib.Data.List.TakeWhile
import Mathlib.Data.Nat.Digits.Defs
import Mathlib.Data.UInt

/-!
# Byte strings: numerals and input streams

Strings are lists of bytes.  The functions follow the C++ standard library in the "C" locale:

* `toDecimal n`      `std::to_string` of an unsigned number, and `intToDecimal n` of a signed one;
* `stoull s`         `std::stoull`: leading white space, an optional sign, then the longest run of
                     digits; no digit is `invalidArgument`, a value of `2^64` or more is
                     `outOfRange`, a minus sign negates modulo `2^64`;
* `stoi`, `stoll`    the same for signed numbers of 32 and 64 bits;
* `trim s`           white space removed at both ends;
* `IStream`          an `std::istringstream`: the unread bytes and the two state bits, with
                     `getline`, `readToken` (`>>` into a string) and `read`.

* `lines delim p`    the loop `while (std::getline(stream, line, delim) && p(line))`.

`stoull_toDecimal`: a printed 64-bit number reads back.  `ofDecimal_append`, `ofDecimal_take`: the
value of digits put together, and of their first ones.  `getline_line`, `readToken_word`: a line,
or a word, at the front of a good stream is read exactly.  `lines_append`, `lines_end`: what the
loop reads of a text that starts with delimited lines, and where it stops.  `line_induction`: a text
line by line; `lines_append_text`, `lines_take`, `lines_reach`: the lines of a longer text, and of the
first bytes of a text.  `read_eq`,
`lines_suffix`: what is read is a part of the text.
-/

set_option linter.unusedSectionVars false

namespace Text

/-- a `std::string` -/
abbrev Str := List UInt8

/-- the bytes of an ASCII literal -/
def str (s : String) : Str := s.toList.map fun c => UInt8.ofNat c.toNat

/-! ## character classes -/

/-- `std::isspace`: blank, `\t`, `\n`, `\v`, `\f`, `\r` -/
def isSpace (c : UInt8) : Bool := c == 32 || (9 ≤ c && c ≤ 13)

def isDigit (c : UInt8) : Bool := 48 ≤ c && c ≤ 57

theorem isDigit_not_space {c : UInt8} (h : isDigit c = true) : isSpace c = false := by
  simp only [isDigit, isSpace, Bool.and_eq_true, decide_eq_true_eq, UInt8.le_iff_toNat_le] at h ⊢
  simp only [Bool.or_eq_false_iff, beq_eq_false_iff_ne, ne_eq, Bool.and_eq_false_iff,
    decide_eq_false_iff_not, ← UInt8.toNat_inj]
  simp only [UInt8.reduceToNat] at h ⊢
  omega

/-! ## numerals -/

def toDecimal (n : Nat) : Str := (Nat.toDigits 10 n).map fun c => UInt8.ofNat c.toNat

/-- `std::to_string` of a signed number -/
def intToDecimal (n : Int) : Str := if n < 0 then 45 :: toDecimal n.natAbs else toDecimal n.toNat

/-- the value of a list of digits -/
def ofDecimal (ds : Str) : Nat := ds.foldl (fun a d => 10 * a + (d.toNat - 48)) 0

private theorem digit_code {c : Char} (h : c.isDigit = true) : 48 ≤ c.toNat ∧ c.toNat ≤ 57 := by
  simp only [Char.isDigit, Bool.and_eq_true, decide_eq_true_eq, ge_iff_le, UInt32.le_iff_toNat_le]
    at h
  exact h

private theorem digit_byte {c : Char} (h : c.isDigit = true) :
    (UInt8.ofNat c.toNat).toNat = c.toNat := by
  obtain ⟨_, h2⟩ := digit_code h
  rw [UInt8.toNat_ofNat']
  omega

theorem ofDecimal_toDecimal (n : Nat) : ofDecimal (toDecimal n) = n := by
  have key : ∀ (l : List Char) (a : Nat), (∀ c ∈ l, c.isDigit = true) →
      (l.map fun c => UInt8.ofNat c.toNat).foldl (fun a d => 10 * a + (d.toNat - 48)) a
        = Nat.ofDigitChars 10 l a := by
    intro l
    induction l with
    | nil => intro a _; rfl
    | cons c l ih =>
      intro a h
      rw [List.map_cons, List.foldl_cons, ih _ (fun c' h' => h c' (List.mem_cons_of_mem _ h')),
        digit_byte (h c List.mem_cons_self), Nat.ofDigitChars_cons]
      rfl
  have h := key (Nat.toDigits 10 n) 0
    (fun c hc => Nat.isDigit_of_mem_toDigits (by decide) (by decide) hc)
  rw [Nat.ofDigitChars_ten_toDigits] at h
  exact h

theorem toDecimal_isDigit (n : Nat) : ∀ d ∈ toDecimal n, isDigit d = true := by
  intro d hd
  obtain ⟨c, hc, rfl⟩ := List.mem_map.mp hd
  have hdig := Nat.isDigit_of_mem_toDigits (by decide) (by decide) hc
  obtain ⟨h1, h2⟩ := digit_code hdig
  simp only [isDigit, Bool.and_eq_true, decide_eq_true_eq, UInt8.le_iff_toNat_le, digit_byte hdig]
  exact ⟨h1, h2⟩

theorem toDecimal_ne_nil (n : Nat) : toDecimal n ≠ [] := by
  intro h
  exact Nat.toDigits_ne_nil (List.map_eq_nil_iff.mp h)

theorem toDecimal_length_le {n e : Nat} (he : 0 < e) (h : n < 10^e) : (toDecimal n).length ≤ e := by
  unfold toDecimal
  rw [List.length_map]
  exact Nat.toDigits_length 10 n e he h

theorem ofDecimal_append (ds ds' : Str) :
    ofDecimal (ds ++ ds') = ofDecimal ds * 10^ds'.length + ofDecimal ds' := by
  have key : ∀ (l : Str) (a : Nat), l.foldl (fun a d => 10 * a + (d.toNat - 48)) a
      = a * 10^l.length + ofDecimal l := by
    intro l
    induction l with
    | nil => intro a; simp [ofDecimal]
    | cons d l ih =>
      intro a
      have hd : ofDecimal (d :: l) = (10 * 0 + (d.toNat - 48)) * 10^l.length + ofDecimal l := ih _
      rw [List.foldl_cons, ih, hd, List.length_cons, Nat.pow_succ]
      ring
  unfold ofDecimal
  rw [List.foldl_append, key]
  rfl

theorem ofDecimal_zeros (k : Nat) : ofDecimal (List.replicate k 48) = 0 := by
  induction k with
  | zero => rfl
  | succ k ih =>
    rw [List.replicate_succ', ofDecimal_append, ih, Nat.zero_mul]
    rfl

theorem ofDecimal_lt {ds : Str} (h : ∀ d ∈ ds, isDigit d = true) : ofDecimal ds < 10^ds.length := by
  induction ds using List.reverseRecOn with
  | nil => exact Nat.one_pos
  | append_singleton ds d ih =>
    have hd := h d (List.mem_append_right _ List.mem_cons_self)
    have ih := ih fun c hc => h c (List.mem_append_left _ hc)
    have hlast : ofDecimal [d] ≤ 9 := by
      simp only [isDigit, Bool.and_eq_true, decide_eq_true_eq, UInt8.le_iff_toNat_le] at hd
      show 10 * 0 + (d.toNat - 48) ≤ 9
      simp only [UInt8.reduceToNat] at hd
      omega
    rw [ofDecimal_append, List.length_append, List.length_singleton, Nat.pow_one, Nat.pow_succ]
    omega

/-- leaving out the last digits is rounding down -/
theorem ofDecimal_take {ds : Str} (h : ∀ d ∈ ds, isDigit d = true) (k : Nat) :
    ofDecimal (ds.take k) = ofDecimal ds / 10^(ds.length - k) := by
  have happ := ofDecimal_append (ds.take k) (ds.drop k)
  have hlt : ofDecimal (ds.drop k) < 10^(ds.drop k).length :=
    ofDecimal_lt fun d hd => h d (List.mem_of_mem_drop hd)
  rw [List.take_append_drop, List.length_drop] at happ
  rw [List.length_drop] at hlt
  rw [happ, Nat.mul_comm, Nat.mul_add_div (Nat.pow_pos (by decide)), Nat.div_eq_of_lt hlt,
    Nat.add_zero]

/-- the two exceptions of the `std::sto*` functions -/
inductive ParseError where
  | invalidArgument
  | outOfRange
  deriving DecidableEq, Repr

/-- `std::stoull` in base ten (`std::stoul` is the same function where `long` has 64 bits) -/
def stoull (s : Str) : Except ParseError UInt64 :=
  let s := s.dropWhile isSpace
  let neg := s.head? == some 45
  let s := if neg || s.head? == some 43 then s.tail else s
  let ds := s.takeWhile isDigit
  if ds.isEmpty then .error .invalidArgument
  else if 2^64 ≤ ofDecimal ds then .error .outOfRange
  else .ok (if neg then - UInt64.ofNat (ofDecimal ds) else UInt64.ofNat (ofDecimal ds))

/-- `std::stoi` and its like, for a signed type with the values from `-bound` to `bound - 1` -/
def stoSigned (bound : Nat) (s : Str) : Except ParseError Int :=
  let s := s.dropWhile isSpace
  let neg := s.head? == some 45
  let s := if neg || s.head? == some 43 then s.tail else s
  let ds := s.takeWhile isDigit
  let n : Int := if neg then - (ofDecimal ds : Int) else ofDecimal ds
  if ds.isEmpty then .error .invalidArgument
  else if n < - (bound : Int) ∨ (bound : Int) ≤ n then .error .outOfRange
  else .ok n

def stoi : Str → Except ParseError Int := stoSigned (2^31)
def stoll : Str → Except ParseError Int := stoSigned (2^63)

/-- digits have no white space in front of them and no sign -/
theorem digits_plain {ds : Str} (hne : ds ≠ []) (hd : ∀ d ∈ ds, isDigit d = true) :
    ds.dropWhile isSpace = ds ∧ (ds.head? == some 45) = false ∧ (ds.head? == some 43) = false ∧
      ds.takeWhile isDigit = ds ∧ ds.isEmpty = false := by
  cases ds with
  | nil => exact absurd rfl hne
  | cons d ds =>
    have hd0 := hd d List.mem_cons_self
    have hspace : (d :: ds).dropWhile isSpace = d :: ds := by
      rw [List.dropWhile_cons, isDigit_not_space hd0]
      rfl
    have hsign : ∀ c, isDigit c = false → ((d :: ds).head? == some c) = false := by
      intro c hc
      rw [List.head?_cons, beq_eq_false_iff_ne]
      intro e
      rw [Option.some.inj e, hc] at hd0
      cases hd0
    exact ⟨hspace, hsign 45 (by decide), hsign 43 (by decide), List.takeWhile_eq_self_iff.mpr hd, rfl⟩

theorem stoull_digits (ds : Str) (hne : ds ≠ []) (hd : ∀ d ∈ ds, isDigit d = true)
    (hlt : ofDecimal ds < 2^64) : stoull ds = .ok (UInt64.ofNat (ofDecimal ds)) := by
  obtain ⟨hspace, hneg, hplus, hdigits, hempty⟩ := digits_plain hne hd
  have hge : ¬ 2^64 ≤ ofDecimal ds := by omega
  simp only [stoull, hspace, hneg, hplus, Bool.or_self, Bool.false_eq_true, if_false, hdigits, hempty,
    if_neg hge]

theorem stoull_digits_of_ge (ds : Str) (hne : ds ≠ []) (hd : ∀ d ∈ ds, isDigit d = true)
    (hge : 2^64 ≤ ofDecimal ds) : stoull ds = .error .outOfRange := by
  obtain ⟨hspace, hneg, hplus, hdigits, hempty⟩ := digits_plain hne hd
  simp only [stoull, hspace, hneg, hplus, Bool.or_self, Bool.false_eq_true, if_false, hdigits, hempty,
    if_pos hge]

theorem stoSigned_digits (bound : Nat) (ds : Str) (hne : ds ≠ []) (hd : ∀ d ∈ ds, isDigit d = true)
    (hlt : ofDecimal ds < bound) : stoSigned bound ds = .ok (ofDecimal ds : Int) := by
  obtain ⟨hspace, hneg, hplus, hdigits, hempty⟩ := digits_plain hne hd
  have hrange : ¬ ((ofDecimal ds : Int) < - (bound : Int) ∨ (bound : Int) ≤ ofDecimal ds) := by omega
  simp only [stoSigned, hspace, hneg, hplus, Bool.or_self, Bool.false_eq_true, if_false, hdigits,
    hempty, if_neg hrange]

theorem stoll_toDecimal {n : Nat} (h : n < 2^63) : stoll (toDecimal n) = .ok (n : Int) := by
  have hv := ofDecimal_toDecimal n
  have hs := stoSigned_digits (2^63) (toDecimal n) (toDecimal_ne_nil n) (toDecimal_isDigit n)
    (by rw [hv]; exact h)
  rwa [hv] at hs

theorem stoull_toDecimal (n : UInt64) : stoull (toDecimal n.toNat) = .ok n := by
  have hv := ofDecimal_toDecimal n.toNat
  have hlt : ofDecimal (toDecimal n.toNat) < 2^64 := by rw [hv]; exact n.toNat_lt
  rw [stoull_digits _ (toDecimal_ne_nil _) (toDecimal_isDigit _) hlt, hv, UInt64.ofNat_toNat]

/-- the digits that `stoull` reads -/
def digitsOf (s : Str) : Str :=
  let s := s.dropWhile isSpace
  (if s.head? == some 45 || s.head? == some 43 then s.tail else s).takeWhile isDigit

/-- white space, a sign, and digits of a number below `2^64`, of which there is at least one -/
def Numeral (s : Str) : Prop := digitsOf s ≠ [] ∧ ofDecimal (digitsOf s) < 2^64

instance decidableNumeral (s : Str) : Decidable (Numeral s) :=
  inferInstanceAs (Decidable (_ ∧ _))

theorem stoull_ok_iff (s : Str) : (∃ n, stoull s = .ok n) ↔ Numeral s := by
  unfold stoull Numeral
  dsimp only
  rw [← digitsOf]
  by_cases hnil : digitsOf s = []
  · rw [hnil]
    constructor
    · rintro ⟨n, h⟩
      cases h
    · intro h
      exact absurd rfl h.1
  have he : (digitsOf s).isEmpty = false := List.isEmpty_eq_false_iff.mpr hnil
  by_cases hlt : 2^64 ≤ ofDecimal (digitsOf s)
  · rw [he, if_neg Bool.false_ne_true, if_pos hlt]
    constructor
    · rintro ⟨n, h⟩
      cases h
    · intro h
      have := h.2
      omega
  · rw [he, if_neg Bool.false_ne_true, if_neg hlt]
    exact ⟨fun _ => ⟨hnil, by omega⟩, fun _ => ⟨_, rfl⟩⟩

-- a text after the digits is no obstacle, one before them is
example : Numeral (str " -7x") ∧ ¬ Numeral (str "x7") := by decide +kernel

/-! ## white space -/

def trim (s : Str) : Str := ((s.dropWhile isSpace).reverse.dropWhile isSpace).reverse

/-- no white space at either end -/
def Trimmed (s : Str) : Prop :=
  (∀ c ∈ s.head?, isSpace c = false) ∧ ∀ c ∈ s.getLast?, isSpace c = false

theorem dropWhile_eq_self {p : UInt8 → Bool} {s : Str} (h : ∀ c ∈ s.head?, p c = false) :
    s.dropWhile p = s := by
  cases s with
  | nil => rfl
  | cons c s =>
    rw [List.dropWhile_cons, h c rfl]
    rfl

theorem trim_eq_self {s : Str} (h : Trimmed s) : trim s = s := by
  unfold trim
  rw [dropWhile_eq_self h.1, dropWhile_eq_self, List.reverse_reverse]
  intro c hc
  rw [List.head?_reverse] at hc
  exact h.2 c hc

theorem trim_cons_space {c : UInt8} {s : Str} (hc : isSpace c = true) (h : Trimmed s) :
    trim (c :: s) = s := by
  have e : (c :: s).dropWhile isSpace = s.dropWhile isSpace := by
    rw [List.dropWhile_cons, if_pos hc]
  unfold trim
  rw [e]
  exact trim_eq_self h

theorem trimmed_of_no_space {s : Str} (h : ∀ c ∈ s, isSpace c = false) : Trimmed s :=
  ⟨fun c hc => h c (List.mem_of_mem_head? hc), fun c hc => h c (List.mem_of_mem_getLast? hc)⟩

theorem takeWhile_stop {p : UInt8 → Bool} {l : Str} (h : ∀ c ∈ l, p c = true) {d : UInt8}
    (hd : p d = false) (r : Str) : (l ++ d :: r).takeWhile p = l := by
  have hn : ¬ p d = true := by rw [hd]; exact Bool.false_ne_true
  rw [List.takeWhile_append_of_pos h, List.takeWhile_cons_of_neg hn, List.append_nil]

theorem dropWhile_stop {p : UInt8 → Bool} {l : Str} (h : ∀ c ∈ l, p c = true) {d : UInt8}
    (hd : p d = false) (r : Str) : (l ++ d :: r).dropWhile p = d :: r := by
  have hn : ¬ p d = true := by rw [hd]; exact Bool.false_ne_true
  rw [List.dropWhile_append_of_pos h, List.dropWhile_cons_of_neg hn]

theorem idxOf?_stop {d : UInt8} {l : Str} (h : d ∉ l) (r : Str) :
    (l ++ d :: r).idxOf? d = some l.length := by
  induction l with
  | nil => simp [List.idxOf?_cons]
  | cons c l ih =>
    rw [List.mem_cons, not_or] at h
    rw [List.cons_append, List.idxOf?_cons, beq_eq_false_iff_ne.mpr (Ne.symm h.1), ih h.2]
    rfl

theorem bne_of_not_mem {d : UInt8} {l : Str} (h : d ∉ l) : ∀ c ∈ l, (c != d) = true := by
  intro c hc
  rw [bne_iff_ne]
  rintro rfl
  exact h hc

/-! ## input streams -/

/-- an `std::istringstream`: the unread bytes, `eofbit` and `failbit` -/
structure IStream where
  rest : Str
  eof : Bool := false
  fail : Bool := false
  deriving DecidableEq, Repr

namespace IStream

/-- what the sentry of an input operation asks for -/
def good (st : IStream) : Bool := !st.eof && !st.fail

/-- `std::getline(stream, line, delim)`: `none` when the stream converts to false -/
def getline (delim : UInt8) (st : IStream) : Option Str × IStream :=
  if st.good then
    let line := st.rest.takeWhile (· != delim)
    match st.rest.dropWhile (· != delim) with
    | _ :: rest => (some line, { st with rest := rest })
    | [] =>
      if line.isEmpty then (none, ⟨[], true, true⟩) else (some line, ⟨[], true, false⟩)
  else (none, { st with fail := true })

/-- `stream >> word`: white space is skipped, then the bytes up to the next white space -/
def readToken (st : IStream) : Option Str × IStream :=
  if st.good then
    let s := st.rest.dropWhile isSpace
    let word := s.takeWhile (! isSpace ·)
    let rest := s.dropWhile (! isSpace ·)
    if word.isEmpty then (none, ⟨rest, rest.isEmpty, true⟩)
    else (some word, ⟨rest, rest.isEmpty, false⟩)
  else (none, { st with fail := true })

/-- `stream.read(buffer, n)`: the bytes stored -/
def read (n : Nat) (st : IStream) : Str × IStream :=
  if st.good then
    if n ≤ st.rest.length then (st.rest.take n, { st with rest := st.rest.drop n })
    else (st.rest, ⟨[], true, true⟩)
  else ([], { st with fail := true })

theorem getline_line (delim : UInt8) (line rest : Str) (h : delim ∉ line) :
    getline delim ⟨line ++ delim :: rest, false, false⟩ = (some line, ⟨rest, false, false⟩) := by
  have hd : (delim != delim) = false := bne_self_eq_false delim
  simp only [getline, good, Bool.not_false, Bool.and_self, if_true,
    takeWhile_stop (bne_of_not_mem h) hd, dropWhile_stop (bne_of_not_mem h) hd]

theorem getline_last (delim : UInt8) (line : Str) (h : delim ∉ line) :
    getline delim ⟨line, false, false⟩
      = if line.isEmpty then (none, ⟨[], true, true⟩) else (some line, ⟨[], true, false⟩) := by
  have hp := bne_of_not_mem h
  have h1 : line.takeWhile (· != delim) = line := List.takeWhile_eq_self_iff.mpr hp
  have h2 : line.dropWhile (· != delim) = [] := List.dropWhile_eq_nil_iff.mpr hp
  simp only [getline, good, Bool.not_false, Bool.and_self, if_true, h1, h2]

theorem getline_not_good (delim : UInt8) (st : IStream) (h : st.good = false) :
    getline delim st = (none, { st with fail := true }) := by
  simp only [getline, h, Bool.false_eq_true, if_false]

theorem readToken_word (w rest : Str) (c : UInt8) (hne : w ≠ []) (hw : ∀ b ∈ w, isSpace b = false)
    (hc : isSpace c = true) :
    readToken ⟨w ++ c :: rest, false, false⟩ = (some w, ⟨c :: rest, false, false⟩) := by
  have h1 : (w ++ c :: rest).dropWhile isSpace = w ++ c :: rest := by
    apply dropWhile_eq_self
    intro b hb
    cases w with
    | nil => exact absurd rfl hne
    | cons a w =>
      rw [List.cons_append, List.head?_cons] at hb
      rw [← Option.some.inj hb]
      exact hw a List.mem_cons_self
  have hp : ∀ b ∈ w, (! isSpace b) = true := fun b hb => by rw [hw b hb]; rfl
  have hn : (! isSpace c) = false := by rw [hc]; rfl
  have h2 : (w ++ c :: rest).takeWhile (! isSpace ·) = w := takeWhile_stop hp hn rest
  have h3 : (w ++ c :: rest).dropWhile (! isSpace ·) = c :: rest := dropWhile_stop hp hn rest
  have h4 : w.isEmpty = false := by
    cases w with
    | nil => exact absurd rfl hne
    | cons a w => rfl
  simp only [readToken, good, Bool.not_false, Bool.and_self, if_true, h1, h2, h3, h4,
    Bool.false_eq_true, if_false, List.isEmpty_cons]

theorem readToken_skip (c : UInt8) (s : Str) (hc : isSpace c = true) :
    readToken ⟨c :: s, false, false⟩ = readToken ⟨s, false, false⟩ := by
  have e : (c :: s).dropWhile isSpace = s.dropWhile isSpace := by
    rw [List.dropWhile_cons, if_pos hc]
  simp only [readToken, good, Bool.not_false, Bool.and_self, if_true, e]

/-! ### reading line by line -/

/-- what is left to read: nothing once a state bit is set -/
def weight (st : IStream) : Nat := if st.good then st.rest.length + 1 else 0

/-- `while (std::getline(stream, line, delim) && p(line))`, at most `n` times: the lines for which
the body of the loop runs, and the stream after the loop -/
def linesUpTo (delim : UInt8) (p : Str → Bool) : Nat → IStream → List Str × IStream
  | 0, st => ([], st)
  | n + 1, st =>
    match getline delim st with
    | (none, st) => ([], st)
    | (some line, st) =>
      if p line then (line :: (linesUpTo delim p n st).1, (linesUpTo delim p n st).2) else ([], st)

def lines (delim : UInt8) (p : Str → Bool) (st : IStream) : List Str × IStream :=
  linesUpTo delim p (st.weight + 1) st

theorem getline_weight {delim : UInt8} {st st' : IStream} {line : Str}
    (h : getline delim st = (some line, st')) : st'.weight < st.weight := by
  by_cases hg : st.good = true
  · have hw : st.weight = st.rest.length + 1 := if_pos hg
    unfold getline at h
    rw [if_pos hg] at h
    have hle := (List.dropWhile_suffix (l := st.rest) (· != delim)).length_le
    cases hd : st.rest.dropWhile (· != delim) with
    | nil =>
      rw [hd] at h
      dsimp only at h
      split at h
      · cases h
      · have hst := (Prod.mk.inj h).2
        rw [hw, ← hst]
        exact Nat.succ_pos _
    | cons c rest =>
      rw [hd] at h hle
      have hst := (Prod.mk.inj h).2
      have hw' : st'.weight = rest.length + 1 := by
        rw [← hst]
        exact if_pos hg
      rw [List.length_cons] at hle
      omega
  · rw [getline_not_good delim st (by simpa using hg)] at h
    cases h

/-- more rounds than the stream can take make no difference -/
theorem linesUpTo_enough {delim : UInt8} {p : Str → Bool} {n m : Nat} {st : IStream}
    (hn : st.weight < n) (hm : st.weight < m) : linesUpTo delim p n st = linesUpTo delim p m st := by
  induction n generalizing m st with
  | zero => omega
  | succ n ih =>
    obtain ⟨k, rfl⟩ : ∃ k, m = k + 1 := ⟨m - 1, by omega⟩
    unfold linesUpTo
    cases hg : getline delim st with
    | mk line st' =>
      cases line with
      | none => rfl
      | some line =>
        have hw := getline_weight hg
        dsimp only
        rw [ih (m := k) (by omega) (by omega)]

theorem lines_eq (delim : UInt8) (p : Str → Bool) (st : IStream) :
    lines delim p st = match getline delim st with
      | (none, st') => ([], st')
      | (some line, st') =>
        if p line then (line :: (lines delim p st').1, (lines delim p st').2) else ([], st') := by
  show linesUpTo delim p (st.weight + 1) st = _
  unfold linesUpTo
  cases hg : getline delim st with
  | mk line st' =>
    cases line with
    | none => rfl
    | some line =>
      have hw := getline_weight hg
      have hlines : linesUpTo delim p st.weight st' = lines delim p st' :=
        linesUpTo_enough hw (Nat.lt_succ_self _)
      dsimp only
      rw [hlines]

theorem lines_line (delim : UInt8) (p : Str → Bool) (line rest : Str) (h : delim ∉ line)
    (hp : p line = true) :
    lines delim p ⟨line ++ delim :: rest, false, false⟩
      = (line :: (lines delim p ⟨rest, false, false⟩).1, (lines delim p ⟨rest, false, false⟩).2) := by
  rw [lines_eq, getline_line delim line rest h]
  dsimp only
  rw [if_pos hp]

theorem lines_append (delim : UInt8) (p : Str → Bool) (ls : List Str) (rest : Str)
    (h : ∀ l ∈ ls, delim ∉ l ∧ p l = true) :
    lines delim p ⟨ls.flatMap (· ++ [delim]) ++ rest, false, false⟩
      = (ls ++ (lines delim p ⟨rest, false, false⟩).1, (lines delim p ⟨rest, false, false⟩).2) := by
  induction ls with
  | nil => rfl
  | cons l ls ih =>
    have hl := h l List.mem_cons_self
    have htext : (l :: ls).flatMap (· ++ [delim]) ++ rest
        = l ++ delim :: (ls.flatMap (· ++ [delim]) ++ rest) := by simp
    rw [htext, lines_line delim p l _ hl.1 hl.2, ih (fun l' h' => h l' (List.mem_cons_of_mem _ h'))]
    rfl

/-- a text has no delimiter, or it begins with a line that has one behind it -/
theorem line_induction (delim : UInt8) {motive : Str → Prop}
    (last : ∀ s, delim ∉ s → motive s)
    (line : ∀ l rest, delim ∉ l → motive rest → motive (l ++ delim :: rest)) (s : Str) : motive s := by
  induction hn : s.length using Nat.strong_induction_on generalizing s with
  | _ n ih =>
    by_cases hd : delim ∈ s
    · obtain ⟨l, rest, hs, hl⟩ := List.eq_append_cons_of_mem hd
      have hlt : rest.length < n := by
        rw [← hn, hs, List.length_append, List.length_cons]
        omega
      rw [hs]
      exact line l rest hl (ih rest.length hlt rest rfl)
    · exact last s hd

/-- what the loop makes of a text without a delimiter -/
theorem lines_last (delim : UInt8) (p : Str → Bool) {s : Str} (h : delim ∉ s) :
    (lines delim p ⟨s, false, false⟩).1 = (if s.isEmpty || !p s then [] else [s]) ∧
      (lines delim p ⟨s, false, false⟩).2.good = false := by
  rw [lines_eq, getline_last delim s h]
  by_cases he : s.isEmpty = true
  · rw [if_pos he, he, Bool.true_or, if_pos rfl]
    exact ⟨rfl, rfl⟩
  · rw [if_neg he, Bool.eq_false_of_not_eq_true he, Bool.false_or]
    dsimp only
    by_cases hp : p s = true
    · rw [if_pos hp, lines_eq, getline_not_good _ _ rfl, hp]
      exact ⟨rfl, rfl⟩
    · rw [if_neg hp, Bool.eq_false_of_not_eq_true hp]
      exact ⟨rfl, rfl⟩

/-- the loop stops behind a line that it does not take -/
theorem lines_stop (delim : UInt8) (p : Str → Bool) {line : Str} (rest : Str) (h : delim ∉ line)
    (hp : p line = false) :
    lines delim p ⟨line ++ delim :: rest, false, false⟩ = ([], ⟨rest, false, false⟩) := by
  rw [lines_eq, getline_line delim line rest h]
  dsimp only
  rw [if_neg (Bool.eq_false_iff.mp hp)]

/-- the loop ends with a stream that is not good, or behind a delimiter -/
theorem lines_end (delim : UInt8) (p : Str → Bool) (s : Str) :
    (lines delim p ⟨s, false, false⟩).2.good = false ∨
      ∃ x r, (lines delim p ⟨s, false, false⟩).2 = ⟨r, false, false⟩ ∧ s = x ++ r ∧ delim ∈ x := by
  induction s using line_induction delim with
  | last s hs => exact .inl (lines_last delim p hs).2
  | line l rest hl ih =>
    cases hp : p l with
    | true =>
      rw [lines_line delim p l rest hl hp]
      rcases ih with hbad | ⟨x, r, hst, hrest, -⟩
      · exact .inl hbad
      · refine .inr ⟨l ++ delim :: x, r, hst, ?_, List.mem_append_right _ List.mem_cons_self⟩
        rw [hrest, List.append_assoc, List.cons_append]
    | false =>
      rw [lines_stop delim p rest hl hp]
      refine .inr ⟨l ++ [delim], rest, rfl, ?_, List.mem_append_right _ List.mem_cons_self⟩
      rw [List.append_assoc]
      rfl

/-- a text of whole lines, and more: the loop stops in it, or goes on behind it -/
theorem lines_append_text (delim : UInt8) (p : Str → Bool) {s : Str}
    (hs : ∀ c ∈ s.getLast?, c = delim) (x : Str) :
    lines delim p ⟨s ++ x, false, false⟩ =
      if (lines delim p ⟨s, false, false⟩).2.good then
        ((lines delim p ⟨s, false, false⟩).1,
          ⟨(lines delim p ⟨s, false, false⟩).2.rest ++ x, false, false⟩)
      else
        ((lines delim p ⟨s, false, false⟩).1 ++ (lines delim p ⟨x, false, false⟩).1,
          (lines delim p ⟨x, false, false⟩).2) := by
  induction s using line_induction delim with
  | last s hd =>
    have hnil : s = [] := by
      rcases List.eq_nil_or_concat s with hnil | ⟨t, c, rfl⟩
      · exact hnil
      · have hc : c = delim := hs c (by rw [List.concat_eq_append, List.getLast?_concat]; rfl)
        exact absurd (by rw [List.concat_eq_append, hc]; simp) hd
    subst hnil
    obtain ⟨hlines, hbad⟩ := lines_last delim p hd
    rw [hbad, if_neg Bool.false_ne_true, hlines]
    rfl
  | line l rest hl ih =>
    have hrest : ∀ c ∈ rest.getLast?, c = delim := by
      intro c hc
      refine hs c ?_
      rw [List.getLast?_append, List.getLast?_cons, Option.mem_def.mp hc]
      rfl
    rw [List.append_assoc, List.cons_append]
    cases hp : p l with
    | true =>
      rw [lines_line delim p l _ hl hp, lines_line delim p l rest hl hp, ih hrest]
      dsimp only
      split <;> rfl
    | false =>
      rw [lines_stop delim p _ hl hp, lines_stop delim p rest hl hp]
      rfl

/-! ### what is left to read -/

/-- the bytes that a read can still get -/
def unread (st : IStream) : Str := if st.good then st.rest else []

theorem read_eq (n : Nat) (st : IStream) : (read n st).1 = st.unread.take n := by
  unfold read unread
  by_cases hg : st.good = true
  · rw [if_pos hg, if_pos hg]
    split
    · rfl
    · rename_i h
      exact (List.take_of_length_le (Nat.le_of_not_le h)).symm
  · rw [if_neg hg, if_neg hg, List.take_nil]

theorem unread_suffix (st : IStream) : st.unread <:+ st.rest := by
  unfold unread
  split
  · exact List.suffix_refl _
  · exact List.nil_suffix

theorem getline_suffix (delim : UInt8) (st : IStream) : (getline delim st).2.rest <:+ st.rest := by
  unfold getline
  split
  · dsimp only
    cases hd : st.rest.dropWhile (· != delim) with
    | nil =>
      dsimp only
      split <;> exact List.nil_suffix
    | cons c rest =>
      have hsuffix : c :: rest <:+ st.rest := hd ▸ List.dropWhile_suffix _
      exact (List.suffix_cons c rest).trans hsuffix
  · exact List.suffix_refl _

theorem lines_suffix (delim : UInt8) (p : Str → Bool) (st : IStream) :
    (lines delim p st).2.rest <:+ st.rest := by
  have key : ∀ n st, (linesUpTo delim p n st).2.rest <:+ st.rest := by
    intro n
    induction n with
    | zero => exact fun st => List.suffix_refl _
    | succ n ih =>
      intro st
      have hline := getline_suffix delim st
      unfold linesUpTo
      cases hg : getline delim st with
      | mk line st' =>
        rw [hg] at hline
        cases line with
        | none => exact hline
        | some line =>
          dsimp only
          split
          · exact (ih st').trans hline
          · exact hline
  exact key _ st

/-! ### the first bytes of a text -/

theorem take_line {delim : UInt8} (line rest : Str) (m : Nat) :
    (line ++ delim :: rest).take m = line.take m ∨
      ∃ k, (line ++ delim :: rest).take m = line ++ delim :: rest.take k := by
  rcases Nat.lt_or_ge line.length m with hlt | hle
  · obtain ⟨k, rfl⟩ : ∃ k, m = line.length + (k + 1) := ⟨m - line.length - 1, by omega⟩
    exact .inr ⟨k, by rw [List.take_length_add_append, List.take_succ_cons]⟩
  · exact .inl (List.take_append_of_le_length hle)

theorem unread_of_not_good {st : IStream} (h : st.good = false) : st.unread = [] := by
  unfold unread
  rw [h]
  rfl

/-- the only line of a text without a delimiter -/
theorem mem_lines_last {delim : UInt8} {p : Str → Bool} {s l : Str} (h : delim ∉ s) :
    l ∈ (lines delim p ⟨s, false, false⟩).1 ↔ l = s ∧ s ≠ [] ∧ p s = true := by
  rw [(lines_last delim p h).1]
  cases s with
  | nil => simp
  | cons c s => cases p (c :: s) <;> simp

/-- the lines of the first bytes are first bytes of lines, and what is left of them is the beginning of
what is left -/
theorem lines_take (delim : UInt8) {p : Str → Bool} (hp : ∀ u l, u <+: l → p u = true → p l = true)
    (s : Str) (m : Nat) :
    (∀ u ∈ (lines delim p ⟨s.take m, false, false⟩).1,
        ∃ l ∈ (lines delim p ⟨s, false, false⟩).1, u <+: l) ∧
      (lines delim p ⟨s.take m, false, false⟩).2.unread <+:
        (lines delim p ⟨s, false, false⟩).2.unread := by
  have hpart : ∀ {l : Str} (k : Nat), delim ∉ l → delim ∉ l.take k :=
    fun k hl hm => hl (List.mem_of_mem_take hm)
  induction s using line_induction delim generalizing m with
  | last s hs =>
    constructor
    · intro u hu
      obtain ⟨rfl, hne, hpu⟩ := (mem_lines_last (hpart m hs)).mp hu
      have hsne : s ≠ [] := fun e => hne (by rw [e, List.take_nil])
      exact ⟨s, (mem_lines_last hs).mpr ⟨rfl, hsne, hp _ _ (List.take_prefix m s) hpu⟩,
        List.take_prefix m s⟩
    · rw [unread_of_not_good (lines_last delim p (hpart m hs)).2]
      exact List.nil_prefix
  | line l rest hl ih =>
    rcases take_line l rest m with htake | ⟨k, htake⟩
    · rw [htake]
      constructor
      · intro u hu
        obtain ⟨rfl, -, hpu⟩ := (mem_lines_last (hpart m hl)).mp hu
        refine ⟨l, ?_, List.take_prefix m l⟩
        rw [lines_line delim p l rest hl (hp _ _ (List.take_prefix m l) hpu)]
        exact List.mem_cons_self
      · rw [unread_of_not_good (lines_last delim p (hpart m hl)).2]
        exact List.nil_prefix
    · rw [htake]
      cases hpl : p l with
      | true =>
        rw [lines_line delim p l _ hl hpl, lines_line delim p l rest hl hpl]
        refine ⟨fun u hu => ?_, (ih k).2⟩
        rcases List.mem_cons.mp hu with rfl | hu
        · exact ⟨u, List.mem_cons_self, List.prefix_rfl⟩
        · obtain ⟨l', hl', hprefix⟩ := (ih k).1 u hu
          exact ⟨l', List.mem_cons_of_mem l hl', hprefix⟩
      | false =>
        rw [lines_stop delim p _ hl hpl, lines_stop delim p rest hl hpl]
        exact ⟨nofun, List.take_prefix k rest⟩

/-- first bytes of a line are the last line of first bytes -/
theorem lines_reach (delim : UInt8) {p : Str → Bool} {s l u : Str}
    (hl : l ∈ (lines delim p ⟨s, false, false⟩).1) (hu : u <+: l) (hne : u ≠ []) (hpu : p u = true) :
    ∃ m ls, (lines delim p ⟨s.take m, false, false⟩).1 = ls ++ [u] := by
  have halone : ∀ {line : Str}, delim ∉ line → u <+: line →
      (lines delim p ⟨u, false, false⟩).1 = [] ++ [u] := by
    intro line hline hfront
    have hd : delim ∉ u := fun hm => hline (hfront.subset hm)
    rw [(lines_last delim p hd).1, hpu, if_neg (by simpa using hne)]
    rfl
  induction s using line_induction delim with
  | last s hs =>
    obtain ⟨rfl, -, -⟩ := (mem_lines_last hs).mp hl
    refine ⟨u.length, [], ?_⟩
    rw [← List.prefix_iff_eq_take.mp hu]
    exact halone hs hu
  | line line rest hline ih =>
    cases hp : p line with
    | false =>
      rw [lines_stop delim p rest hline hp] at hl
      cases hl
    | true =>
      rw [lines_line delim p line rest hline hp] at hl
      rcases List.mem_cons.mp hl with rfl | hl
      · refine ⟨u.length, [], ?_⟩
        rw [← List.prefix_iff_eq_take.mp (hu.trans (List.prefix_append _ _))]
        exact halone hline hu
      · obtain ⟨m, ls, hm⟩ := ih hl
        refine ⟨line.length + (m + 1), line :: ls, ?_⟩
        rw [List.take_length_add_append, List.take_succ_cons, lines_line delim p line _ hline hp, hm]
        rfl

theorem read_short {n : Nat} {r : Str} (h : r.length < n) : (read n ⟨r, false, false⟩).1 = r := by
  have hn : ¬ n ≤ r.length := by omega
  show (if n ≤ r.length then _ else _ : Str × IStream).1 = r
  rw [if_neg hn]

theorem read_not_good {n : Nat} {st : IStream} (h : st.good = false) : (read n st).1 = [] := by
  unfold read
  rw [h]
  rfl

end IStream

end Text
