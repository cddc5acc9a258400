import ChainForge.Lib.Text
import Mathlib.Data.List.Infix

/-!
# Reading in chunks

A loop that receives chunks of at most `limit + 1` bytes, takes each for a C string, and stops when
what it has got contains a pattern (`readUntil`).  What it ends with depends on how the bytes were
cut.

* `Loses limit r x`   `x` is `r` without its zeros, each of which may take up to `limit` bytes behind
                      it with it;
* `Arrives`           what the loop can end with, said without chunks: bytes up to the end of the
                      pattern, some of them lost, and up to `limit` bytes more;
* `arrives_iff`       **these are exactly the results of the loop**;
* `arrives_head_iff`  where no zero stands in front of the end of the pattern, nothing is lost.
-/

set_option linter.unusedSectionVars false

namespace Chunks
open Text

/-- a chunk with a zero behind it, as a C string -/
def cstr (chunk : Str) : Str := chunk.takeWhile (· != 0)

def readUntil (pat data : Str) : List Str → Str × Bool
  | [] => (data, false)
  | chunk :: chunks =>
    if pat <:+: data ++ cstr chunk then (data ++ cstr chunk, true)
    else readUntil pat (data ++ cstr chunk) chunks

/-- the bytes `r` come in these chunks -/
structure Cut (limit : Nat) (r : Str) (chunks : List Str) : Prop where
  flatten : chunks.flatten = r
  size : ∀ chunk ∈ chunks, chunk ≠ [] ∧ chunk.length ≤ limit + 1

inductive Loses (limit : Nat) : Str → Str → Prop
  | nil : Loses limit [] []
  | byte {c : UInt8} {r x : Str} (hc : c ≠ 0) (h : Loses limit r x) : Loses limit (c :: r) (c :: x)
  | zero (y : Str) {r x : Str} (hy : y.length ≤ limit) (h : Loses limit r x) :
    Loses limit (0 :: (y ++ r)) x

inductive Arrives (limit : Nat) (pat r : Str) : Str × Bool → Prop
  | found (a : Str) (c : UInt8) (b x : Str) (m : Nat) (hr : r = a ++ c :: b) (hc : c ≠ 0)
      (ha : Loses limit a x) (hx : ¬ pat <:+: x) (hxc : pat <:+: x ++ [c]) (hm : m ≤ limit) :
    Arrives limit pat r (x ++ c :: (cstr b).take m, true)
  | ended (x : Str) (hr : Loses limit r x) (hx : ¬ pat <:+: x) : Arrives limit pat r (x, false)

section
variable {limit : Nat} {pat : Str}

/-! ## C strings -/

theorem cstr_cons {c : UInt8} (hc : c ≠ 0) (s : Str) : cstr (c :: s) = c :: cstr s :=
  List.takeWhile_cons_of_pos (bne_iff_ne.mpr hc)

theorem cstr_zero (s : Str) : cstr (0 :: s) = [] := rfl

theorem cstr_append {u : Str} (hu : 0 ∉ u) (s : Str) : cstr (u ++ s) = u ++ cstr s :=
  List.takeWhile_append_of_pos (bne_of_not_mem hu)

theorem zero_not_mem_cstr (s : Str) : 0 ∉ cstr s := by
  intro h
  have := List.mem_takeWhile_imp h
  exact absurd this (by decide)

/-- a string is its C string, and a zero with what follows it -/
theorem cstr_split (s : Str) : s = cstr s ∨ ∃ y, s = cstr s ++ 0 :: y := by
  induction s with
  | nil => exact .inl rfl
  | cons c s ih =>
    by_cases hc : c = 0
    · subst hc
      exact .inr ⟨s, rfl⟩
    · rw [cstr_cons hc]
      rcases ih with h | ⟨y, h⟩
      · exact .inl (congrArg (c :: ·) h)
      · exact .inr ⟨y, congrArg (c :: ·) h⟩

theorem cstr_take (s : Str) (m : Nat) : cstr (s.take m) = (cstr s).take m :=
  List.take_takeWhile.symm

/-! ## losses -/

theorem Loses.append {a b x y : Str} (ha : Loses limit a x) (hb : Loses limit b y) :
    Loses limit (a ++ b) (x ++ y) := by
  induction ha with
  | nil => exact hb
  | byte hc _ ih => exact .byte hc ih
  | zero z hz _ ih =>
    rw [List.cons_append, List.append_assoc]
    exact .zero z hz ih

theorem loses_self {u : Str} (hu : 0 ∉ u) : Loses limit u u := by
  induction u with
  | nil => exact .nil
  | cons c u ih =>
    rw [List.mem_cons, not_or] at hu
    exact .byte (Ne.symm hu.1) (ih hu.2)

theorem loses_chunk {chunk : Str} (h : chunk.length ≤ limit + 1) :
    Loses limit chunk (cstr chunk) := by
  rcases cstr_split chunk with he | ⟨y, he⟩
  · have hz := zero_not_mem_cstr chunk
    rw [← he] at hz ⊢
    exact loses_self hz
  · have hy : y.length ≤ limit := by
      have hl := congrArg List.length he
      rw [List.length_append, List.length_cons] at hl
      omega
    have hzero : Loses limit (0 :: y) [] := by
      have := Loses.zero y hy (.nil : Loses limit [] [])
      rwa [List.append_nil] at this
    have := (loses_self (zero_not_mem_cstr chunk)).append hzero
    rwa [← he, List.append_nil] at this

/-- in front of its first zero nothing is lost -/
theorem Loses.of_append {u r x : Str} (hu : 0 ∉ u) (h : Loses limit (u ++ r) x) :
    ∃ y, x = u ++ y ∧ Loses limit r y := by
  induction u generalizing x with
  | nil => exact ⟨x, rfl, h⟩
  | cons c u ih =>
    rw [List.mem_cons, not_or] at hu
    generalize hs : c :: u ++ r = s at h
    cases h with
    | nil => cases hs
    | byte hc h =>
      cases hs
      obtain ⟨y, rfl, hy⟩ := ih hu.2 h
      exact ⟨y, rfl, hy⟩
    | zero z hz h => exact absurd (List.cons.inj hs).1.symm hu.1

theorem Loses.eq_self {u x : Str} (hu : 0 ∉ u) (h : Loses limit u x) : x = u := by
  rw [← List.append_nil u] at h
  obtain ⟨y, rfl, hy⟩ := h.of_append hu
  cases hy
  rw [List.append_nil]

/-! ## the pattern -/

theorem found_append {x : Str} (h : pat <:+: x) (y : Str) : pat <:+: x ++ y :=
  h.trans (List.prefix_append x y).isInfix

theorem not_found_of_append {x y : Str} (h : ¬ pat <:+: x ++ y) : ¬ pat <:+: x :=
  fun hx => h (found_append hx y)

/-- the byte at which the pattern is complete -/
theorem exists_found {x u : Str} (hx : ¬ pat <:+: x) (hu : pat <:+: x ++ u) :
    ∃ u₁ c u₂, u = u₁ ++ c :: u₂ ∧ ¬ pat <:+: x ++ u₁ ∧ pat <:+: x ++ u₁ ++ [c] := by
  induction u generalizing x with
  | nil =>
    rw [List.append_nil] at hu
    exact absurd hu hx
  | cons c u ih =>
    by_cases hc : pat <:+: x ++ [c]
    · refine ⟨[], c, u, rfl, ?_, ?_⟩
      · rwa [List.append_nil]
      · rwa [List.append_nil]
    · have hu' : pat <:+: x ++ [c] ++ u := by
        rwa [List.append_assoc, List.singleton_append]
      obtain ⟨u₁, d, u₂, rfl, h1, h2⟩ := ih hc hu'
      rw [List.append_assoc x [c], List.singleton_append] at h1 h2
      exact ⟨c :: u₁, d, u₂, rfl, h1, h2⟩

/-! ## the loop -/

/-- by induction on the chunks; the bytes `a` have been read before -/
theorem arrives_readUntil {chunks : List Str} {a x : Str} (ha : Loses limit a x)
    (hx : ¬ pat <:+: x) (hsize : ∀ chunk ∈ chunks, chunk ≠ [] ∧ chunk.length ≤ limit + 1) :
    Arrives limit pat (a ++ chunks.flatten) (readUntil pat x chunks) := by
  induction chunks generalizing a x with
  | nil =>
    rw [List.flatten_nil, List.append_nil]
    exact .ended x ha hx
  | cons chunk chunks ih =>
    have hlen : chunk.length ≤ limit + 1 := (hsize chunk List.mem_cons_self).2
    unfold readUntil
    rw [List.flatten_cons]
    split
    · rename_i hfound
      obtain ⟨u, c, v, hu, h1, h2⟩ := exists_found hx hfound
      have hz := zero_not_mem_cstr chunk
      rw [hu, List.mem_append, List.mem_cons, not_or, not_or] at hz
      -- what follows the pattern in the chunk
      obtain ⟨w, hw⟩ : ∃ w, chunk = u ++ c :: (v ++ w) := by
        rcases cstr_split chunk with he | ⟨y, he⟩
        · exact ⟨[], by rw [he, hu, List.append_nil]⟩
        · exact ⟨0 :: y, by rw [he, hu, List.append_assoc, List.cons_append]⟩
      have hv : v.length ≤ limit := by
        rw [hw, List.length_append, List.length_cons, List.length_append] at hlen
        omega
      have hdata : x ++ cstr chunk = x ++ u ++ c :: (cstr (v ++ (w ++ chunks.flatten))).take v.length := by
        rw [hu, cstr_append hz.2.2, List.take_left, List.append_assoc]
      rw [hdata]
      refine .found (a ++ u) c (v ++ (w ++ chunks.flatten)) (x ++ u) v.length ?_ (Ne.symm hz.2.1)
        (ha.append (loses_self hz.1)) h1 h2 hv
      rw [hw]
      simp only [List.append_assoc, List.cons_append]
    · rename_i hfound
      rw [← List.append_assoc]
      exact ih (ha.append (loses_chunk hlen)) hfound
        fun c hc => hsize c (List.mem_cons_of_mem chunk hc)

/-- where the loop does not find the pattern, it is not in what was received -/
theorem not_found_of_readUntil {data : Str} {chunks : List Str} (hdata : ¬ pat <:+: data)
    (h : (readUntil pat data chunks).2 = false) : ¬ pat <:+: data ++ (chunks.map cstr).flatten := by
  induction chunks generalizing data with
  | nil => rwa [List.map_nil, List.flatten_nil, List.append_nil]
  | cons chunk chunks ih =>
    unfold readUntil at h
    split at h
    · cases h
    · rename_i hnot
      rw [List.map_cons, List.flatten_cons, ← List.append_assoc]
      exact ih hnot h

/-- chunks that lose just this -/
theorem Loses.exists_chunks (pat : Str) {a x : Str} (h : Loses limit a x) :
    ∃ chunks, Cut limit a chunks ∧ ∀ data rest, ¬ pat <:+: data ++ x →
      readUntil pat data (chunks ++ rest) = readUntil pat (data ++ x) rest := by
  induction h with
  | nil => exact ⟨[], ⟨rfl, nofun⟩, fun data rest _ => by rw [List.append_nil]; rfl⟩
  | @byte c r x hc _ ih =>
    obtain ⟨chunks, hcut, hread⟩ := ih
    refine ⟨[c] :: chunks, ⟨?_, ?_⟩, fun data rest hn => ?_⟩
    · rw [List.flatten_cons, hcut.flatten]
      rfl
    · intro chunk hm
      rcases List.mem_cons.mp hm with rfl | hm
      · exact ⟨List.cons_ne_nil _ _, Nat.le_add_left 1 limit⟩
      · exact hcut.size chunk hm
    · have hcons : data ++ c :: x = data ++ [c] ++ x := by
        rw [List.append_assoc, List.singleton_append]
      rw [hcons] at hn ⊢
      rw [List.cons_append, readUntil, cstr_cons hc, show cstr [] = [] from rfl,
        if_neg (not_found_of_append hn)]
      exact hread (data ++ [c]) rest hn
  | @zero y r x hy _ ih =>
    obtain ⟨chunks, hcut, hread⟩ := ih
    refine ⟨(0 :: y) :: chunks, ⟨?_, ?_⟩, fun data rest hn => ?_⟩
    · rw [List.flatten_cons, hcut.flatten]
      rfl
    · intro chunk hm
      rcases List.mem_cons.mp hm with rfl | hm
      · exact ⟨List.cons_ne_nil _ _, Nat.succ_le_succ hy⟩
      · exact hcut.size chunk hm
    · rw [List.cons_append, readUntil, cstr_zero, List.append_nil, if_neg (not_found_of_append hn)]
      exact hread data rest hn

theorem cut_singles (s : Str) : Cut limit s (s.map fun c => [c]) := by
  refine ⟨?_, ?_⟩
  · induction s with
    | nil => rfl
    | cons c s ih => rw [List.map_cons, List.flatten_cons, ih]; rfl
  · intro chunk hm
    obtain ⟨c, -, rfl⟩ := List.mem_map.mp hm
    exact ⟨List.cons_ne_nil _ _, Nat.le_add_left 1 limit⟩

theorem Cut.append {a b : Str} {as bs : List Str} (ha : Cut limit a as) (hb : Cut limit b bs) :
    Cut limit (a ++ b) (as ++ bs) := by
  refine ⟨by rw [List.flatten_append, ha.flatten, hb.flatten], fun chunk hm => ?_⟩
  rcases List.mem_append.mp hm with hm | hm
  · exact ha.size chunk hm
  · exact hb.size chunk hm

theorem Arrives.exists_chunks {r : Str} {o : Str × Bool} (h : Arrives limit pat r o) :
    ∃ chunks, Cut limit r chunks ∧ readUntil pat [] chunks = o := by
  cases h with
  | found a c b x m hr hc ha hx hxc hm =>
    obtain ⟨chunks, hcut, hread⟩ := ha.exists_chunks pat
    have hchunk : Cut limit (c :: b.take m) [c :: b.take m] := by
      refine ⟨List.append_nil _, fun chunk hmem => ?_⟩
      rw [List.mem_singleton.mp hmem]
      refine ⟨List.cons_ne_nil _ _, ?_⟩
      rw [List.length_cons]
      exact Nat.succ_le_succ ((List.length_take_le m b).trans hm)
    refine ⟨chunks ++ ([c :: b.take m] ++ (b.drop m).map fun d => [d]), ?_, ?_⟩
    · have := hcut.append (hchunk.append (cut_singles (b.drop m)))
      rwa [List.cons_append, List.take_append_drop, ← hr] at this
    · rw [hread [] _ hx, List.nil_append, List.singleton_append, readUntil, cstr_cons hc, cstr_take,
        if_pos]
      have := found_append hxc ((cstr b).take m)
      rwa [List.append_assoc, List.singleton_append] at this
  | ended x hr hx =>
    obtain ⟨chunks, hcut, hread⟩ := hr.exists_chunks pat
    refine ⟨chunks, hcut, ?_⟩
    have := hread [] [] hx
    rwa [List.append_nil] at this

/-- **What the loop can end with.** -/
theorem arrives_iff (hpat : pat ≠ []) {r : Str} {o : Str × Bool} :
    (∃ chunks, Cut limit r chunks ∧ readUntil pat [] chunks = o) ↔ Arrives limit pat r o := by
  constructor
  · rintro ⟨chunks, hcut, rfl⟩
    have hnil : ¬ pat <:+: [] := fun h => hpat (List.infix_nil.mp h)
    have := arrives_readUntil (.nil : Loses limit [] []) hnil hcut.size
    rwa [List.nil_append, hcut.flatten] at this
  · exact Arrives.exists_chunks

/-- what begins with a text that has the pattern, and no zero, has the pattern after any losses -/
theorem Loses.found {u r x : Str} (hu : 0 ∉ u) (hfound : pat <:+: u) (h : Loses limit (u ++ r) x) :
    pat <:+: x := by
  obtain ⟨y, rfl, -⟩ := h.of_append hu
  exact found_append hfound y

/-- the pattern is complete where the head ends: not before, and not after -/
theorem Loses.head_unique {h a b body x : Str} {c d : UInt8} (hz : 0 ∉ h ++ [c])
    (hfound : pat <:+: h ++ [c]) (hfirst : ¬ pat <:+: h) (hr : h ++ c :: body = a ++ d :: b)
    (ha : Loses limit a x) (hx : ¬ pat <:+: x) (hxd : pat <:+: x ++ [d]) : a = h := by
  rcases List.append_eq_append_iff.mp hr with ⟨t, rfl, ht⟩ | ⟨t, rfl, ht⟩
  · cases t with
    | nil => exact List.append_nil h
    | cons e t =>
      cases (List.cons.inj ht).1
      rw [← List.singleton_append, ← List.append_assoc] at ha
      exact absurd (ha.found hz hfound) hx
  · cases t with
    | nil => exact (List.append_nil a).symm
    | cons e t =>
      cases (List.cons.inj ht).1
      have hza : 0 ∉ a := fun hm => hz (List.mem_append_left _ (List.mem_append_left _ hm))
      rw [ha.eq_self hza] at hxd
      have := found_append hxd t
      rw [List.append_assoc, List.singleton_append] at this
      exact absurd this hfirst

/-- a text that ends with the first pattern in it, without a zero: it arrives as it is, with bytes
of what follows it -/
theorem arrives_head_iff {head body : Str} (hz : 0 ∉ head) (hfound : pat <:+: head)
    (hfirst : ¬ pat <:+: head.dropLast) {o : Str × Bool} :
    Arrives limit pat (head ++ body) o ↔ ∃ m ≤ limit, o = (head ++ (cstr body).take m, true) := by
  have hne : head ≠ [] := by
    rintro rfl
    exact hfirst hfound
  obtain ⟨h, c, rfl⟩ : ∃ h c, head = h ++ [c] := ⟨_, _, (List.dropLast_concat_getLast hne).symm⟩
  rw [List.dropLast_concat] at hfirst
  have hzh : 0 ∉ h ∧ 0 ≠ c := by
    rwa [List.mem_append, not_or, List.mem_singleton] at hz
  have hsplit : ∀ y : Str, h ++ [c] ++ y = h ++ c :: y := fun y => by
    rw [List.append_assoc, List.singleton_append]
  constructor
  · intro ho
    cases ho with
    | found a d b x m hr hd ha hx hxd hm =>
      rw [hsplit] at hr
      obtain rfl : a = h := ha.head_unique hz hfound hfirst hr hx hxd
      cases List.append_cancel_left hr
      rw [ha.eq_self hzh.1]
      exact ⟨m, hm, by rw [hsplit]⟩
    | ended x hr hx => exact absurd (hr.found hz hfound) hx
  · rintro ⟨m, hm, rfl⟩
    rw [hsplit ((cstr body).take m)]
    exact .found h c body h m (hsplit body) (Ne.symm hzh.2) (loses_self hzh.1) hfirst hfound hm

end

end Chunks
