import ChainForge.Lib.Text

/-!
# Patterns of digit groups and fixed characters

The regular expressions that are a sequence of groups `(\d{n})` and of characters that stand for
themselves, matched against a whole string, and the numerals of fixed width that fill such groups.

* `captures ps s`     the groups of a match (`std::regex_match`), if there is one;
* `fill ps gs`        the string with the groups `gs`;
* `captures_iff`      **a match is a string filled with groups that fit**;
* `pad w n`           a number with at least `w` digits;
* `pad_ofDecimal`, `ofDecimal_pad`   digits of a fixed width and the numbers they stand for.
-/

set_option linter.unusedSectionVars false

namespace Text

inductive Piece where
  /-- `(\d{n})` -/
  | group (n : Nat)
  | char (c : UInt8)
  deriving DecidableEq, Repr

def IsGroup (n : Nat) (g : Str) : Prop := g.length = n ∧ ∀ d ∈ g, isDigit d = true

instance decidableIsGroup (n : Nat) (g : Str) : Decidable (IsGroup n g) :=
  inferInstanceAs (Decidable (_ ∧ _))

def captures : List Piece → Str → Option (List Str)
  | [], s => if s.isEmpty then some [] else none
  | .group n :: ps, s =>
    if IsGroup n (s.take n) then (captures ps (s.drop n)).map (s.take n :: ·) else none
  | .char c :: ps, s => if s.head? = some c then captures ps s.tail else none

def fill : List Piece → List Str → Str
  | [], _ => []
  | .group _ :: ps, gs => gs.headD [] ++ fill ps gs.tail
  | .char c :: ps, gs => c :: fill ps gs

/-- one group of digits of the right length for each group of the pattern -/
def Fits : List Piece → List Str → Prop
  | [], gs => gs = []
  | .group n :: ps, gs => ∃ g gs', gs = g :: gs' ∧ IsGroup n g ∧ Fits ps gs'
  | .char _ :: ps, gs => Fits ps gs

theorem captures_nil (s : Str) (gs : List Str) : captures [] s = some gs ↔ gs = [] ∧ s = [] := by
  cases s with
  | nil => simp [captures, eq_comm]
  | cons c s => simp [captures]

/-- a group is matched by the digits at the front -/
theorem captures_group (n : Nat) (ps : List Piece) (s : Str) (gs : List Str) :
    captures (.group n :: ps) s = some gs ↔
      ∃ g s' gs', IsGroup n g ∧ s = g ++ s' ∧ captures ps s' = some gs' ∧ gs = g :: gs' := by
  rw [captures]
  constructor
  · intro h
    by_cases hg : IsGroup n (s.take n)
    · rw [if_pos hg] at h
      obtain ⟨gs', hgs, rfl⟩ := Option.map_eq_some_iff.mp h
      exact ⟨_, _, gs', hg, (List.take_append_drop n s).symm, hgs, rfl⟩
    · rw [if_neg hg] at h
      cases h
  · rintro ⟨g, s', gs', hg, rfl, hgs, rfl⟩
    rw [List.take_left' hg.1, List.drop_left' hg.1, if_pos hg, hgs]
    rfl

theorem captures_char (c : UInt8) (ps : List Piece) (s : Str) (gs : List Str) :
    captures (.char c :: ps) s = some gs ↔ ∃ s', s = c :: s' ∧ captures ps s' = some gs := by
  rw [captures]
  constructor
  · intro h
    by_cases hc : s.head? = some c
    · rw [if_pos hc] at h
      exact ⟨s.tail, (List.cons_head?_tail hc).symm, h⟩
    · rw [if_neg hc] at h
      cases h
  · rintro ⟨s', rfl, h⟩
    exact (if_pos rfl).trans h

/-- **A match is a string filled with groups that fit.** -/
theorem captures_iff (ps : List Piece) (s : Str) (gs : List Str) :
    captures ps s = some gs ↔ Fits ps gs ∧ s = fill ps gs := by
  induction ps generalizing s gs with
  | nil => exact captures_nil s gs
  | cons p ps ih =>
    cases p with
    | group n =>
      rw [captures_group]
      constructor
      · rintro ⟨g, s', gs', hg, rfl, hgs, rfl⟩
        obtain ⟨hfits, rfl⟩ := (ih _ _).mp hgs
        exact ⟨⟨g, gs', rfl, hg, hfits⟩, rfl⟩
      · rintro ⟨⟨g, gs', rfl, hg, hfits⟩, rfl⟩
        exact ⟨g, fill ps gs', gs', hg, rfl, (ih _ _).mpr ⟨hfits, rfl⟩, rfl⟩
    | char c =>
      rw [captures_char]
      constructor
      · rintro ⟨s', rfl, h⟩
        obtain ⟨hfits, rfl⟩ := (ih _ _).mp h
        exact ⟨hfits, rfl⟩
      · rintro ⟨hfits, rfl⟩
        exact ⟨fill ps gs, rfl, (ih _ _).mpr ⟨hfits, rfl⟩⟩

/-! ## numerals of fixed width -/

/-- `n` with zeros in front, up to `w` digits -/
def pad (w n : Nat) : Str := List.replicate (w - (toDecimal n).length) 48 ++ toDecimal n

theorem pad_isDigit (w n : Nat) : ∀ d ∈ pad w n, isDigit d = true := by
  intro d hd
  rcases List.mem_append.mp hd with h | h
  · rw [List.eq_of_mem_replicate h]
    rfl
  · exact toDecimal_isDigit n d h

theorem ofDecimal_pad (w n : Nat) : ofDecimal (pad w n) = n := by
  unfold pad
  rw [ofDecimal_append, ofDecimal_zeros, Nat.zero_mul, Nat.zero_add, ofDecimal_toDecimal]

theorem pad_length {w n : Nat} (hw : 0 < w) (h : n < 10^w) : (pad w n).length = w := by
  have hlen := toDecimal_length_le hw h
  unfold pad
  rw [List.length_append, List.length_replicate]
  omega

theorem pad_isGroup {w n : Nat} (hw : 0 < w) (h : n < 10^w) : IsGroup w (pad w n) :=
  ⟨pad_length hw h, pad_isDigit w n⟩

/-- a number with `w` digits or more is not padded -/
theorem pad_eq_toDecimal {w n : Nat} (h : 10^w ≤ n) : pad (w + 1) n = toDecimal n := by
  have hlt := ofDecimal_lt (toDecimal_isDigit n)
  rw [ofDecimal_toDecimal] at hlt
  have hlen : w < (toDecimal n).length := by
    by_contra hle
    have := Nat.pow_le_pow_right (show 0 < 10 by decide) (Nat.not_lt.mp hle)
    omega
  unfold pad
  rw [Nat.sub_eq_zero_of_le hlen]
  rfl

theorem ofDecimal_digit {c : UInt8} (hc : isDigit c = true) :
    48 ≤ c.toNat ∧ c.toNat ≤ 57 ∧ ofDecimal [c] = c.toNat - 48 := by
  simp only [isDigit, Bool.and_eq_true, decide_eq_true_eq, UInt8.le_iff_toNat_le] at hc
  refine ⟨hc.1, hc.2, ?_⟩
  show 10 * 0 + (c.toNat - 48) = _
  omega

/-- digits of one width are determined by their value -/
theorem ofDecimal_inj {ds ds' : Str} (hlen : ds.length = ds'.length)
    (hd : ∀ d ∈ ds, isDigit d = true) (hd' : ∀ d ∈ ds', isDigit d = true)
    (h : ofDecimal ds = ofDecimal ds') : ds = ds' := by
  induction ds using List.reverseRecOn generalizing ds' with
  | nil => exact (List.eq_nil_of_length_eq_zero hlen.symm).symm
  | append_singleton ds d ih =>
    cases ds' using List.reverseRecOn with
    | nil =>
      rw [List.length_append] at hlen
      cases hlen
    | append_singleton ds' d' =>
      rw [List.length_append, List.length_append] at hlen
      -- the last digit is below ten, so that both numbers split in the same way
      obtain ⟨h1, h2, h3⟩ := ofDecimal_digit (hd d (List.mem_append_right _ List.mem_cons_self))
      obtain ⟨h1', h2', h3'⟩ := ofDecimal_digit (hd' d' (List.mem_append_right _ List.mem_cons_self))
      rw [ofDecimal_append, ofDecimal_append, h3, h3', List.length_singleton, List.length_singleton,
        Nat.pow_one] at h
      have hds : ds = ds' := ih (Nat.add_right_cancel hlen)
        (fun c hc => hd c (List.mem_append_left _ hc))
        (fun c hc => hd' c (List.mem_append_left _ hc)) (by omega)
      have hdd : d = d' := UInt8.toNat_inj.mp (by omega)
      rw [hds, hdd]

theorem pad_ofDecimal {w : Nat} {g : Str} (hw : 0 < w) (h : IsGroup w g) :
    pad w (ofDecimal g) = g := by
  have hlt := ofDecimal_lt h.2
  rw [h.1] at hlt
  exact ofDecimal_inj ((pad_length hw hlt).trans h.1.symm) (pad_isDigit _ _) h.2 (ofDecimal_pad _ _)

end Text
