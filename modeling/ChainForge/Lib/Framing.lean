import Mathlib.Data.List.Basic
import Mathlib.Data.List.Infix

/-!
# Texts of lines with a two-character end of line

The end of a line is `[c, d]`, and no line contains `c` or `d`.

* `block c d lines`     the lines, each with its end;
* `block_eq`            the last end set apart: the lines joined by their ends;
* `blank_position`      **an empty line does not occur before the end of a block of lines that are not
                        empty**, whatever follows the block.
-/

set_option linter.unusedSectionVars false

namespace Framing

section
variable {α : Type*} (c d : α)

def block (lines : List (List α)) : List α := lines.flatMap (· ++ [c, d])

/-- neither of the two characters occurs -/
def Plain (line : List α) : Prop := c ∉ line ∧ d ∉ line

instance decidablePlain [DecidableEq α] (line : List α) : Decidable (Plain c d line) :=
  inferInstanceAs (Decidable (c ∉ line ∧ d ∉ line))

theorem block_cons (line : List α) (lines : List (List α)) :
    block c d (line :: lines) = line ++ c :: d :: block c d lines := by
  simp [block]

theorem block_eq {lines : List (List α)} (h : lines ≠ []) :
    block c d lines = [c, d].intercalate lines ++ [c, d] := by
  induction lines with
  | nil => exact absurd rfl h
  | cons line lines ih =>
    cases lines with
    | nil => simp [block]
    | cons line' lines =>
      rw [block_cons, ih (List.cons_ne_nil _ _), List.intercalate_cons_cons]
      simp

variable {c d}

theorem Plain.append {a b : List α} (ha : Plain c d a) (hb : Plain c d b) : Plain c d (a ++ b) := by
  simp [Plain, ha.1, ha.2, hb.1, hb.2]

/-- a text that starts with `c` does not start within a line -/
theorem not_prefix_within {line rest t : List α} (hp : Plain c d line) {i : Nat}
    (hi : i < line.length) : ¬ c :: t <+: (line ++ rest).drop i := by
  rw [List.drop_append_of_le_length (Nat.le_of_lt hi), List.drop_eq_getElem_cons hi]
  intro h
  have hc := (List.cons_prefix_cons.mp h).1
  exact hp.1 (hc ▸ List.getElem_mem hi)

theorem length_block_cons (line : List α) (lines : List (List α)) :
    (block c d (line :: lines)).length = line.length + 2 + (block c d lines).length := by
  rw [block_cons, List.length_append, List.length_cons, List.length_cons]
  omega

/-- **The first empty line.**  By induction on the lines: it begins neither within a line, nor at the
end of a line that another one follows. -/
theorem blank_position {lines : List (List α)} (hcd : c ≠ d)
    (h : ∀ line ∈ lines, line ≠ [] ∧ Plain c d line) (rest : List α) {i : Nat}
    (hi : [c, d, c, d] <+: (block c d lines ++ c :: d :: rest).drop i) :
    (block c d lines).length ≤ i + 2 := by
  induction lines generalizing i with
  | nil => exact Nat.zero_le _
  | cons line lines ih =>
    have hline := h line List.mem_cons_self
    have hlen := length_block_cons (c := c) (d := d) line lines
    rw [block_cons, List.append_assoc, List.cons_append, List.cons_append] at hi
    rcases Nat.lt_trichotomy i line.length with hlt | heq | hgt
    · -- within the line
      exact absurd hi (not_prefix_within hline.2 hlt)
    · -- at its end
      rw [heq, List.drop_left, List.cons_prefix_cons, List.cons_prefix_cons] at hi
      cases lines with
      | nil =>
        rw [hlen, heq]
        exact Nat.le_refl _
      | cons line' lines =>
        have hnext := h line' (List.mem_cons_of_mem _ List.mem_cons_self)
        rw [block_cons, List.append_assoc] at hi
        exact absurd hi.2.2 (not_prefix_within (i := 0) hnext.2 (List.length_pos_iff.mpr hnext.1))
    · rw [List.drop_append, List.drop_of_length_le (Nat.le_of_lt hgt), List.nil_append] at hi
      obtain ⟨k, rfl⟩ : ∃ k, i = line.length + 1 + k := ⟨i - (line.length + 1), by omega⟩
      rw [show line.length + 1 + k - line.length = k + 1 by omega, List.drop_succ_cons] at hi
      cases k with
      | zero =>
        rw [List.drop_zero] at hi
        exact absurd (List.cons_prefix_cons.mp hi).1 hcd
      | succ k =>
        rw [List.drop_succ_cons] at hi
        have := ih (fun l hl => h l (List.mem_cons_of_mem _ hl)) hi
        omega

end

end Framing
