import Mathlib.Order.Defs.Unbundled
import Mathlib.Data.List.Basic

/-!
# Ordered sets

`std::set` with a comparison `r`, as the list of its elements in order.  The standard asks of `r`
that it is a strict weak order; then two elements are the same to the set if neither comes before
the other.

* `insert`   the element is inserted unless an equivalent one is there;
* `erase`    an equivalent element is removed;
* `sweep`    the loop over the set that erases the elements that meet a condition.
-/

set_option linter.unusedSectionVars false

universe u

/-- the elements in strictly ascending order -/
structure OrderedSet {α : Type u} (r : α → α → Prop) where
  elems : List α := []
  sorted : elems.Pairwise r := by exact List.Pairwise.nil

namespace OrderedSet

section
variable {α : Type u} (r : α → α → Prop) [DecidableRel r]

/-- neither comes before the other -/
def equivalent (a b : α) : Bool := !decide (r a b) && !decide (r b a)

/-- the elements with `a` in its place, or `none` if there is an equivalent element -/
def insertElems (a : α) : List α → Option (List α)
  | [] => some [a]
  | b :: l =>
    if r a b then some (a :: b :: l)
    else if r b a then (insertElems a l).map (b :: ·)
    else none

/-- the elements that remain; `i` were looked at before -/
def sweepElems (stale : Nat → α → Bool) : Nat → List α → List α
  | _, [] => []
  | i, a :: l => if stale i a then sweepElems stale (i + 1) l else a :: sweepElems stale (i + 1) l

variable {r}

theorem mem_insertElems_iff {a b : α} {l l' : List α} (h : insertElems r a l = some l') :
    b ∈ l' ↔ b = a ∨ b ∈ l := by
  induction l generalizing l' with
  | nil =>
    cases h
    simp
  | cons c l ih =>
    unfold insertElems at h
    split at h
    · cases h
      exact List.mem_cons
    · split at h
      · obtain ⟨m, hm, rfl⟩ := Option.map_eq_some_iff.mp h
        rw [List.mem_cons, ih hm, List.mem_cons, or_left_comm]
      · cases h

/-- an insertion is refused because of an equivalent element -/
theorem insertElems_none {a : α} {l : List α} (h : insertElems r a l = none) :
    ∃ b ∈ l, equivalent r a b = true := by
  induction l with
  | nil => cases h
  | cons c l ih =>
    unfold insertElems at h
    split at h
    · cases h
    · rename_i hac
      split at h
      · rw [Option.map_eq_none_iff] at h
        obtain ⟨b, hb, he⟩ := ih h
        exact ⟨b, List.mem_cons_of_mem c hb, he⟩
      · rename_i hca
        exact ⟨c, List.mem_cons_self, by simp [equivalent, hac, hca]⟩

theorem length_insertElems {a : α} {l l' : List α} (h : insertElems r a l = some l') :
    l'.length = l.length + 1 := by
  induction l generalizing l' with
  | nil =>
    cases h
    rfl
  | cons c l ih =>
    unfold insertElems at h
    split at h
    · cases h
      rfl
    · split at h
      · obtain ⟨m, hm, rfl⟩ := Option.map_eq_some_iff.mp h
        rw [List.length_cons, ih hm, List.length_cons]
      · cases h

theorem sorted_insertElems [IsStrictWeakOrder α r] {a : α} {l l' : List α} (hl : l.Pairwise r)
    (h : insertElems r a l = some l') : l'.Pairwise r := by
  induction l generalizing l' with
  | nil =>
    cases h
    exact List.pairwise_singleton r a
  | cons c l ih =>
    obtain ⟨hc, hl⟩ := List.pairwise_cons.mp hl
    unfold insertElems at h
    split at h
    · rename_i hac
      cases h
      refine List.pairwise_cons.mpr ⟨fun b hb => ?_, List.pairwise_cons.mpr ⟨hc, hl⟩⟩
      rcases List.mem_cons.mp hb with rfl | hb
      · exact hac
      · exact IsTrans.trans _ _ _ hac (hc b hb)
    · split at h
      · rename_i hca
        obtain ⟨m, hm, rfl⟩ := Option.map_eq_some_iff.mp h
        refine List.pairwise_cons.mpr ⟨fun b hb => ?_, ih hl hm⟩
        rcases (mem_insertElems_iff hm).mp hb with rfl | hb
        · exact hca
        · exact hc b hb
      · cases h

/-- what is inserted was not there: no element is equivalent to it -/
theorem insertElems_some [IsStrictWeakOrder α r] {a : α} {l l' : List α} (hl : l.Pairwise r)
    (h : insertElems r a l = some l') : ∀ b ∈ l, equivalent r a b = false := by
  induction l generalizing l' with
  | nil => simp
  | cons c l ih =>
    obtain ⟨hc, hl⟩ := List.pairwise_cons.mp hl
    unfold insertElems at h
    split at h
    · rename_i hac
      intro b hb
      have hab : r a b := by
        rcases List.mem_cons.mp hb with rfl | hb
        · exact hac
        · exact IsTrans.trans _ _ _ hac (hc b hb)
      simp [equivalent, hab]
    · split at h
      · rename_i hca
        obtain ⟨m, hm, rfl⟩ := Option.map_eq_some_iff.mp h
        intro b hb
        rcases List.mem_cons.mp hb with rfl | hb
        · simp [equivalent, hca]
        · exact ih hl hm b hb
      · cases h

theorem sweepElems_sublist (stale : Nat → α → Bool) (i : Nat) (l : List α) :
    (sweepElems stale i l).Sublist l := by
  induction l generalizing i with
  | nil => exact List.Sublist.slnil
  | cons a l ih =>
    unfold sweepElems
    split
    · exact (ih (i + 1)).cons a
    · exact (ih (i + 1)).cons_cons a

theorem mem_sweepElems {stale : Nat → α → Bool} {b : α} {i : Nat} {l : List α} :
    b ∈ sweepElems stale i l ↔ ∃ j, l[j]? = some b ∧ stale (i + j) b = false := by
  induction l generalizing i with
  | nil => simp [sweepElems]
  | cons a l ih =>
    have hrest : (∃ j, (a :: l)[j]? = some b ∧ stale (i + j) b = false) ↔
        (a = b ∧ stale i b = false) ∨ ∃ j, l[j]? = some b ∧ stale (i + 1 + j) b = false := by
      constructor
      · rintro ⟨j, hj, hs⟩
        cases j with
        | zero => exact .inl ⟨by simpa using hj, hs⟩
        | succ j => exact .inr ⟨j, by simpa using hj, by rwa [Nat.add_right_comm]⟩
      · rintro (⟨rfl, hs⟩ | ⟨j, hj, hs⟩)
        · exact ⟨0, rfl, hs⟩
        · exact ⟨j + 1, by simpa using hj, by rwa [Nat.add_right_comm] at hs⟩
    rw [hrest, ← ih]
    show b ∈ (if stale i a then sweepElems stale (i + 1) l else a :: sweepElems stale (i + 1) l) ↔ _
    by_cases hstale : stale i a = true
    · rw [if_pos hstale]
      refine (or_iff_right ?_).symm
      rintro ⟨rfl, hs⟩
      rw [hstale] at hs
      cases hs
    · rw [if_neg hstale, List.mem_cons]
      refine or_congr_left ⟨?_, fun h => h.1.symm⟩
      rintro rfl
      exact ⟨rfl, by simpa using hstale⟩

end

section
variable {α : Type u} {r : α → α → Prop} [DecidableRel r] [IsStrictWeakOrder α r]

def size (s : OrderedSet r) : Nat := s.elems.length

/-- the second component of the pair of `std::set::insert`, and the set after it -/
def insert (s : OrderedSet r) (a : α) : Bool × OrderedSet r :=
  match h : insertElems r a s.elems with
  | some l => (true, ⟨l, sorted_insertElems s.sorted h⟩)
  | none => (false, s)

/-- whether an element was erased, and the set after it -/
def erase (s : OrderedSet r) (a : α) : Bool × OrderedSet r :=
  (s.elems.any (equivalent r a), ⟨s.elems.filter (!equivalent r a ·), s.sorted.filter _⟩)

def sweep (s : OrderedSet r) (stale : Nat → α → Bool) : OrderedSet r :=
  ⟨sweepElems stale 0 s.elems, s.sorted.sublist (sweepElems_sublist stale 0 s.elems)⟩

variable {s : OrderedSet r} {a : α}

/-- an insertion adds one element, or changes nothing because an equivalent one is there -/
theorem insert_cases : (∃ s' : OrderedSet r, s.insert a = (true, s') ∧ s'.size = s.size + 1 ∧
      (∀ b, b ∈ s'.elems ↔ b = a ∨ b ∈ s.elems) ∧ ∀ b ∈ s.elems, equivalent r a b = false) ∨
    s.insert a = (false, s) ∧ ∃ b ∈ s.elems, equivalent r a b = true := by
  unfold insert
  split
  · rename_i l h
    exact .inl ⟨_, rfl, length_insertElems h, fun b => mem_insertElems_iff h,
      insertElems_some s.sorted h⟩
  · rename_i h
    exact .inr ⟨rfl, insertElems_none h⟩

theorem mem_sweep {stale : Nat → α → Bool} {b : α} :
    b ∈ (s.sweep stale).elems ↔ ∃ j, s.elems[j]? = some b ∧ stale j b = false := by
  show b ∈ sweepElems stale 0 s.elems ↔ _
  rw [mem_sweepElems]
  simp only [Nat.zero_add]

theorem erase_sublist : (s.erase a).2.elems.Sublist s.elems := List.filter_sublist

theorem sweep_sublist (stale : Nat → α → Bool) : (s.sweep stale).elems.Sublist s.elems :=
  sweepElems_sublist stale 0 s.elems

end

end OrderedSet
