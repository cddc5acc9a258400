import ChainForge.Lib.Text
import Mathlib.Data.List.Forall2

/-!
# Readers

A reader takes what it reads from the front of a text and returns the rest.  Some texts end only where
something else begins, as numbers do, so a reader may ask something of what follows.

* `readList`         elements up to a closing character; `readList_elements`;
* `readMany`         elements with commas between them; `readMany_bracketed`: **they are read from their
                     text**;
* `forall_of_readMany`   what holds of every element that is read holds of all elements of a list.
-/

set_option linter.unusedSectionVars false

namespace Readers
open Text

abbrev Reader (α : Type) := Str → Option (α × Str)

variable {α : Type}

/-- up to the closing character; with `n` elements at most -/
def readList (r : Reader α) (close : UInt8) : Nat → Reader (List α)
  | 0, _ => none
  | n + 1, s =>
    if s.head? = some close then some ([], s.tail)
    else (r s).bind fun p => (readList r close n p.2).map fun q => (p.1 :: q.1, q.2)

/-- behind a comma -/
def comma (r : Reader α) : Reader α := fun s => if s.head? = some 44 then r s.tail else none

/-- a list with commas between its elements -/
def readMany (r : Reader α) (close : UInt8) : Reader (List α) := fun s =>
  if s.head? = some close then some ([], s.tail)
  else (r s).bind fun p =>
    (readList (comma r) close s.length p.2).map fun q => (p.1 :: q.1, q.2)

/-- the text of a list, behind its opening bracket -/
def bracketed (close : UInt8) : List Str → Str
  | [] => [close]
  | t :: ts => t ++ (ts.map (44 :: ·)).flatten ++ [close]

/-- the text `t` of an element `a`; `E` is what the reader wants to follow it -/
structure Element (E : Str → Prop) (r : Reader α) (close : UInt8) (t : Str) (a : α) : Prop where
  head : ∃ c ∈ t.head?, c ≠ close
  follows : ∀ rest, E (t ++ rest)
  reads : ∀ rest, E rest → r (t ++ rest) = some (a, rest)

variable {E : Str → Prop} {r : Reader α} {close : UInt8}

theorem head?_append_of_mem {c : UInt8} {t : Str} (h : c ∈ t.head?) (rest : Str) :
    (t ++ rest).head? = some c := by
  rw [List.head?_append, Option.mem_def.mp h, Option.some_or]

theorem readList_elements (hclose : ∀ rest, E (close :: rest)) {ts : List Str} {as : List α}
    (h : List.Forall₂ (Element E r close) ts as) {n : Nat} (hn : ts.length < n) (rest : Str) :
    readList r close n (ts.flatten ++ close :: rest) = some (as, rest) := by
  induction h generalizing n with
  | nil =>
    cases n with
    | zero => cases hn
    | succ n => exact if_pos rfl
  | @cons t a ts as ht hts ih =>
    cases n with
    | zero => cases hn
    | succ n =>
      obtain ⟨c, hc, hne⟩ := ht.head
      rw [List.flatten_cons, List.append_assoc, readList, head?_append_of_mem hc,
        if_neg fun e => hne (Option.some.inj e), ht.reads, Option.bind_some,
        ih (Nat.lt_of_succ_lt_succ hn)]
      · rfl
      · cases hts with
        | nil => exact hclose rest
        | cons ht' _ =>
          rw [List.flatten_cons, List.append_assoc]
          exact ht'.follows _

theorem length_le_of_elements {ts : List Str} {as : List α} (h : List.Forall₂ (Element E r close) ts as) :
    ts.length ≤ ts.flatten.length := by
  induction h with
  | nil => exact Nat.le_refl 0
  | @cons t a ts as ht _ ih =>
    obtain ⟨c, hc, -⟩ := ht.head
    have hpos : 0 < t.length := List.length_pos_iff.mpr fun e => by
      rw [e] at hc
      cases hc
    rw [List.flatten_cons, List.length_append, List.length_cons]
    omega

/-- a comma and an element -/
theorem comma_element (hcomma : ∀ rest, E (44 :: rest)) (hclose : (44 : UInt8) ≠ close) {t : Str} {a : α}
    (h : ∀ rest, E rest → r (t ++ rest) = some (a, rest)) : Element E (comma r) close (44 :: t) a where
  head := ⟨44, rfl, hclose⟩
  follows := fun rest => hcomma (t ++ rest)
  reads := fun rest hrest => (if_pos rfl).trans (h rest hrest)

/-- **The elements of a list are read from its text**, if each of them is. -/
theorem readMany_bracketed (hcomma : ∀ rest, E (44 :: rest)) (hends : ∀ rest, E (close :: rest))
    (hclose : (44 : UInt8) ≠ close) {ts : List Str} {as : List α}
    (h : List.Forall₂ (fun t a => (∃ c ∈ t.head?, c ≠ close) ∧
      ∀ rest, E rest → r (t ++ rest) = some (a, rest)) ts as) (rest : Str) :
    readMany r close (bracketed close ts ++ rest) = some (as, rest) := by
  cases h with
  | nil => exact if_pos rfl
  | @cons t a ts as ht hts =>
    obtain ⟨⟨c, hc, hne⟩, hread⟩ := ht
    have helements : List.Forall₂ (Element E (comma r) close) (ts.map (44 :: ·)) as :=
      List.forall₂_map_left_iff.mpr (hts.imp fun _ _ h => comma_element hcomma hclose h.2)
    have htext : bracketed close (t :: ts) ++ rest
        = t ++ ((ts.map (44 :: ·)).flatten ++ close :: rest) := by
      simp only [bracketed, List.append_assoc, List.singleton_append]
    have hfollows : E ((ts.map (44 :: ·)).flatten ++ close :: rest) := by
      cases ts with
      | nil => exact hends rest
      | cons t' ts' => exact hcomma _
    have hlen : (ts.map (44 :: ·)).length
        < (t ++ ((ts.map (44 :: ·)).flatten ++ close :: rest)).length := by
      have := length_le_of_elements helements
      rw [List.length_append, List.length_append, List.length_cons]
      omega
    unfold readMany
    rw [htext, head?_append_of_mem hc, if_neg fun e => hne (Option.some.inj e), hread _ hfollows,
      Option.bind_some, readList_elements hends helements hlen]
    rfl

theorem length_lt_bracketed (close : UInt8) {t : Str} {ts : List Str} (h : t ∈ ts) :
    t.length < (bracketed close ts).length := by
  cases ts with
  | nil => cases h
  | cons t' ts =>
    rw [bracketed, List.length_append, List.length_append, List.length_singleton]
    rcases List.mem_cons.mp h with rfl | h
    · omega
    · have hlen := (List.sublist_flatten_of_mem (List.mem_map_of_mem (f := (44 :: ·)) h)).length_le
      rw [List.length_cons] at hlen
      omega

/-- what holds of all that is read holds of the elements of a list -/
theorem forall_of_readList {P : α → Prop} (hr : ∀ {s a rest}, r s = some (a, rest) → P a) {n : Nat}
    {s : Str} {as : List α} {rest : Str} (h : readList r close n s = some (as, rest)) :
    ∀ a ∈ as, P a := by
  induction n generalizing s as rest with
  | zero => cases h
  | succ n ih =>
    rw [readList] at h
    split at h
    · cases h
      exact nofun
    · obtain ⟨⟨a, s'⟩, ha, hq⟩ := Option.bind_eq_some_iff.mp h
      obtain ⟨⟨as', rest'⟩, has, heq⟩ := Option.map_eq_some_iff.mp hq
      cases heq
      exact List.forall_mem_cons.mpr ⟨hr ha, ih has⟩

theorem forall_of_readMany {P : α → Prop} (hr : ∀ {s a rest}, r s = some (a, rest) → P a)
    {s : Str} {as : List α} {rest : Str} (h : readMany r close s = some (as, rest)) :
    ∀ a ∈ as, P a := by
  have hcomma : ∀ {s a rest}, comma r s = some (a, rest) → P a := by
    intro s a rest h
    unfold comma at h
    split at h
    · exact hr h
    · cases h
  unfold readMany at h
  split at h
  · cases h
    exact nofun
  · obtain ⟨⟨a, s'⟩, ha, hq⟩ := Option.bind_eq_some_iff.mp h
    obtain ⟨⟨as', rest'⟩, has, heq⟩ := Option.map_eq_some_iff.mp hq
    cases heq
    exact List.forall_mem_cons.mpr ⟨hr ha, forall_of_readList hcomma has⟩

end Readers
