import Mathlib.Data.List.Sort

/-!
# Cursors over sorted lists

A cursor is a state with an item to show, if any, and a way to move on: `item : σ → Option β` and
`next : σ → σ`.

* `Yields item next s l`   the loop `while (valid()) { item(); next(); }` started at `s` stops, and
                           the items it shows are `l`;
* `yields_drop`            **traversal rule**: a cursor that shows `l[i]?` at position `i` and moves
                           from `i` to `i + 1` shows from there on what is left of `l`;
* `lowerBound l k`         `std::lower_bound`, the number of elements in front that are below `k`;
* `drop_lowerBound`        from there on a sorted list holds its elements from `k` upwards;
* `getElem?_lowerBound`    and `k` itself is found there, if at all.
-/

set_option linter.unusedSectionVars false

namespace Cursor

/-! ## traversals -/

section
variable {σ β : Type*} {item : σ → Option β} {next : σ → σ}

def Yields (item : σ → Option β) (next : σ → σ) : σ → List β → Prop
  | s, [] => item s = none
  | s, b :: l => item s = some b ∧ Yields item next (next s) l

theorem yields_of_none {s : σ} (h : item s = none) {l : List β} : Yields item next s l ↔ l = [] := by
  cases l with
  | nil => exact ⟨fun _ => rfl, fun _ => h⟩
  | cons b l =>
    constructor
    · intro hy
      rw [hy.1] at h
      cases h
    · intro e
      cases e

/-- **Traversal rule.** -/
theorem yields_drop {pos : Nat → σ} {l : List β} (hitem : ∀ i ≤ l.length, item (pos i) = l[i]?)
    (hnext : ∀ i < l.length, next (pos i) = pos (i + 1)) {i : Nat} (hi : i ≤ l.length) :
    Yields item next (pos i) (l.drop i) := by
  -- by induction on the number of items that are left
  obtain ⟨n, hn⟩ := Nat.exists_eq_add_of_le hi
  induction n generalizing i with
  | zero =>
    have hend : l.length ≤ i := by omega
    rw [List.drop_eq_nil_of_le hend]
    show item (pos i) = none
    rw [hitem i hi, List.getElem?_eq_none hend]
  | succ n ih =>
    have hlt : i < l.length := by omega
    rw [List.drop_eq_getElem_cons hlt]
    refine ⟨?_, ?_⟩
    · rw [hitem i hi, List.getElem?_eq_getElem hlt]
    · rw [hnext i hlt]
      exact ih hlt (by omega)

theorem yields_all {pos : Nat → σ} {l : List β} (hitem : ∀ i ≤ l.length, item (pos i) = l[i]?)
    (hnext : ∀ i < l.length, next (pos i) = pos (i + 1)) : Yields item next (pos 0) l := by
  have h := yields_drop hitem hnext (Nat.zero_le l.length)
  rwa [List.drop_zero] at h

end

/-! ## lower bounds -/

section
variable {α : Type*} [LinearOrder α] {l : List α} {k : α}

def lowerBound (l : List α) (k : α) : Nat := (l.takeWhile fun a => decide (a < k)).length

theorem lowerBound_le (l : List α) (k : α) : lowerBound l k ≤ l.length :=
  (List.takeWhile_sublist _).length_le

theorem lowerBound_cons (a : α) (l : List α) (k : α) :
    lowerBound (a :: l) k = if a < k then lowerBound l k + 1 else 0 := by
  unfold lowerBound
  rw [List.takeWhile_cons]
  by_cases h : a < k <;> simp [h]

theorem drop_lowerBound (h : l.Pairwise (· < ·)) :
    l.drop (lowerBound l k) = l.filter fun a => decide (k ≤ a) := by
  induction l with
  | nil => rfl
  | cons a l ih =>
    obtain ⟨hhead, htail⟩ := List.pairwise_cons.mp h
    rw [lowerBound_cons]
    by_cases ha : a < k
    · rw [if_pos ha, List.drop_succ_cons, ih htail, List.filter_cons_of_neg (by simpa using ha)]
    · -- the first element that is not below `k`: neither is any after it
      have hall : ∀ b ∈ a :: l, decide (k ≤ b) = true := by
        intro b hb
        rw [decide_eq_true_iff]
        rcases List.mem_cons.mp hb with e | hb
        · rw [e]
          exact not_lt.mp ha
        · exact (not_lt.mp ha).trans (hhead b hb).le
      rw [if_neg ha, List.drop_zero, List.filter_eq_self.mpr hall]

theorem getElem?_lowerBound (h : l.Pairwise (· < ·)) : l[lowerBound l k]? = some k ↔ k ∈ l := by
  induction l with
  | nil => simp
  | cons a l ih =>
    obtain ⟨hhead, htail⟩ := List.pairwise_cons.mp h
    rw [lowerBound_cons, List.mem_cons]
    by_cases ha : a < k
    · rw [if_pos ha, List.getElem?_cons_succ, ih htail]
      exact ⟨Or.inr, fun hk => hk.resolve_left ha.ne'⟩
    · rw [if_neg ha, List.getElem?_cons_zero, Option.some_inj]
      constructor
      · intro e
        exact Or.inl e.symm
      · rintro (e | hk)
        · exact e.symm
        · exact absurd (hhead k hk) ha

end

end Cursor
