import Mathlib.Data.List.Sort
import Mathlib.Order.Basic

/-!
# Priority queues over a linear order

`PriorityQueue α` is a max-heap seen from outside: the list `elems` of its elements in the order
in which popping delivers them, which the field `sorted` keeps non-increasing.  Equal elements are
equal values, so the order of delivery is determined.

* `emplace`, `ofList`             the operations;
* `emplace_perm`, `ofList_perm`   what they do to the elements.
-/

set_option linter.unusedSectionVars false

structure PriorityQueue (α : Type*) [LinearOrder α] where
  elems : List α
  sorted : elems.Pairwise (· ≥ ·)

namespace PriorityQueue

section
variable {α : Type*} [LinearOrder α]

def empty : PriorityQueue α := ⟨[], List.Pairwise.nil⟩

def emplace (q : PriorityQueue α) (x : α) : PriorityQueue α :=
  ⟨q.elems.orderedInsert (· ≥ ·) x, q.sorted.orderedInsert x q.elems⟩

/-- the queue after `emplace` of every element of `l`, head first -/
def ofList (l : List α) : PriorityQueue α := l.foldl emplace empty

theorem emplace_perm (q : PriorityQueue α) (x : α) : (q.emplace x).elems.Perm (x :: q.elems) :=
  List.perm_orderedInsert _ x q.elems

private theorem foldl_emplace_perm (l : List α) (q : PriorityQueue α) :
    (l.foldl emplace q).elems.Perm (l ++ q.elems) := by
  induction l generalizing q with
  | nil => exact List.Perm.refl _
  | cons x l ih =>
    refine (ih (q.emplace x)).trans ?_
    exact ((emplace_perm q x).append_left l).trans List.perm_middle

theorem ofList_perm (l : List α) : (ofList l).elems.Perm l := by
  have h := foldl_emplace_perm l empty
  rwa [show (empty : PriorityQueue α).elems = [] from rfl, List.append_nil] at h

end

end PriorityQueue
