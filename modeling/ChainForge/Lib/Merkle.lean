import Mathlib.Algebra.GroupWithZero.Nat
import Mathlib.Data.Nat.Log
import Mathlib.Data.List.Basic
import Mathlib.Logic.Function.Iterate

/-!
# Trees by pairing

A list of values is combined level by level: neighbours are paired, an odd last value is paired with
itself, and the pairs are combined, until one value is left (`loop`).  `combined` are all the pairs of
the way there.

* `tree c d l`          the same value from the top: the tree of depth `d` over `l`, cut at powers of
                        two, where a part that is missing is a copy of the part before it;
* `tree_succ`           one level of pairing is one level of the tree;
* `loop_eq_tree`        **the loop computes the tree** of the least depth that holds the list, and as
                        many rounds as there are values are enough;
* `Collides c ps`       two different pairs of `ps` are combined to one value;
* `loop_inj`            **binding**: lists of one length with one root are equal or collide;
* `loop_append_iff`     without a collision, one value more keeps the root exactly if the list ends
                        in copies of it that the padding makes anyway (`Padded`), or if the root is
                        a fixed point (`Fixed`).
-/

set_option linter.unusedSectionVars false

namespace Merkle

section
variable {α : Type*} (c : α → α → α)

/-- the pairs of one level -/
def pairs : List α → List (α × α)
  | a :: b :: l => (a, b) :: pairs l
  | [a] => [(a, a)]
  | [] => []

def level (l : List α) : List α := (pairs l).map fun p => c p.1 p.2

/-- at most `n` rounds -/
def loop : Nat → List α → List α
  | 0, l => l
  | n + 1, l => if l.length > 1 then loop n (level c l) else l

/-- the pairs combined in these rounds -/
def combined : Nat → List α → List (α × α)
  | 0, _ => []
  | n + 1, l => if l.length > 1 then pairs l ++ combined n (level c l) else []

/-- the tree of depth `d`, for `1` to `2^d` values -/
def tree : Nat → List α → Option α
  | 0, [x] => some x
  | 0, _ => none
  | d + 1, l =>
    if l.length ≤ 2^d then do
      let r ← tree d l
      return c r r
    else do
      let a ← tree d (l.take (2^d))
      let b ← tree d (l.drop (2^d))
      return c a b

/-- two different pairs with the same value -/
def Collides (ps : List (α × α)) : Prop :=
  ∃ p ∈ ps, ∃ q ∈ ps, p ≠ q ∧ c p.1 p.2 = c q.1 q.2

instance decidableCollides [DecidableEq α] (ps : List (α × α)) : Decidable (Collides c ps) :=
  inferInstanceAs (Decidable (∃ p ∈ ps, ∃ q ∈ ps, p ≠ q ∧ c p.1 p.2 = c q.1 q.2))

end

section
variable {α : Type*} {c : α → α → α}

/-! ## one level -/

theorem pairs_length : ∀ l : List α, (pairs l).length = (l.length + 1) / 2
  | [] => by simp [pairs]
  | [_] => by simp [pairs]
  | _ :: _ :: l => by
    have ih := pairs_length l
    simp only [pairs, List.length_cons]
    omega

theorem level_length (l : List α) : (level c l).length = (l.length + 1) / 2 := by
  rw [level, List.length_map, pairs_length]

/-- a list is cut behind a pair -/
theorem pairs_append : ∀ {l l' : List α}, 2 ∣ l.length → pairs (l ++ l') = pairs l ++ pairs l'
  | [], _, _ => rfl
  | [_], _, h => by
    rw [List.length_singleton] at h
    omega
  | a :: b :: l, l', h => by
    have hl : 2 ∣ l.length := by
      simp only [List.length_cons] at h
      omega
    simp only [List.cons_append, pairs, pairs_append hl]

theorem level_append {l l' : List α} (h : 2 ∣ l.length) :
    level c (l ++ l') = level c l ++ level c l' := by
  rw [level, pairs_append h, List.map_append]
  rfl

theorem level_cut (l : List α) (k : Nat) (h : 2 * k ≤ l.length) :
    level c (l.take (2 * k)) = (level c l).take k ∧
      level c (l.drop (2 * k)) = (level c l).drop k := by
  have hlen : (l.take (2 * k)).length = 2 * k := List.length_take_of_le h
  have heven : 2 ∣ (l.take (2 * k)).length := by
    rw [hlen]
    exact Nat.dvd_mul_right 2 k
  have hcut : level c l = level c (l.take (2 * k)) ++ level c (l.drop (2 * k)) := by
    rw [← level_append heven, List.take_append_drop]
  have hk : (level c (l.take (2 * k))).length = k := by
    rw [level_length, hlen]
    omega
  rw [hcut, List.take_left' hk, List.drop_left' hk]
  exact ⟨rfl, rfl⟩

/-! ## the tree -/

theorem tree_of_le {d : Nat} {l : List α} (h : l.length ≤ 2^d) :
    tree c (d + 1) l = (tree c d l).bind fun r => some (c r r) := by
  rw [tree, if_pos h]
  rfl

theorem tree_of_lt {d : Nat} {l : List α} (h : 2^d < l.length) :
    tree c (d + 1) l =
      (tree c d (l.take (2^d))).bind fun a => (tree c d (l.drop (2^d))).bind fun b =>
        some (c a b) := by
  rw [tree, if_neg (Nat.not_le.mpr h)]
  rfl

/-- **One level of pairing is one level of the tree.** -/
theorem tree_succ {d : Nat} {l : List α} (hl : l ≠ []) (h : l.length ≤ 2^(d + 1)) :
    tree c (d + 1) l = tree c d (level c l) := by
  induction d generalizing l with
  | zero =>
    match l, h with
    | [x], _ => rfl
    | [x, y], _ => rfl
  | succ d ih =>
    have hpos := List.length_pos_iff.mpr hl
    have hpow : 2^(d + 2) = 2 * 2^(d + 1) := Nat.pow_succ'
    have hpow' : 2^(d + 1) = 2 * 2^d := Nat.pow_succ'
    have hlen := level_length (c := c) l
    by_cases hle : l.length ≤ 2^(d + 1)
    · rw [tree_of_le hle, ih hl hle, tree_of_le (by omega)]
    · have htake : (l.take (2^(d + 1))).length = 2^(d + 1) := List.length_take_of_le (by omega)
      have hdrop : (l.drop (2^(d + 1))).length = l.length - 2^(d + 1) := List.length_drop
      obtain ⟨hleft, hright⟩ := level_cut (c := c) l (2^d) (by omega)
      rw [tree_of_lt (by omega), ih (List.length_pos_iff.mp (by omega)) (by omega),
        ih (List.length_pos_iff.mp (by omega)) (by omega), tree_of_lt (by omega), hpow', hleft,
        hright]

theorem tree_replicate (d : Nat) (x : α) : tree c d [x] = some ((fun y => c y y)^[d] x) := by
  induction d generalizing x with
  | zero => rfl
  | succ d ih =>
    rw [tree_succ (List.cons_ne_nil x []) (Nat.one_le_two_pow)]
    exact ih (c x x)

/-- **The loop computes the tree.** -/
theorem loop_eq_tree {n : Nat} {l : List α} (hl : l ≠ []) (hn : l.length ≤ n) :
    ∃ r, loop c n l = [r] ∧ tree c (Nat.clog 2 l.length) l = some r := by
  induction n generalizing l with
  | zero =>
    have hpos := List.length_pos_iff.mpr hl
    omega
  | succ n ih =>
    have hpos := List.length_pos_iff.mpr hl
    have hlen := level_length (c := c) l
    rw [loop]
    by_cases h1 : l.length > 1
    · have hclog : Nat.clog 2 l.length = Nat.clog 2 (level c l).length + 1 := by
        rw [hlen]
        exact Nat.clog_of_two_le Nat.one_lt_two h1
      have hfits : l.length ≤ 2^(Nat.clog 2 (level c l).length + 1) := by
        rw [← hclog]
        exact Nat.le_pow_clog Nat.one_lt_two _
      rw [if_pos h1, hclog, tree_succ hl hfits]
      exact ih (List.length_pos_iff.mp (by omega)) (by omega)
    · obtain ⟨x, rfl⟩ : ∃ x, l = [x] := List.length_eq_one_iff.mp (by omega)
      refine ⟨x, if_neg h1, ?_⟩
      rw [List.length_singleton, Nat.clog_one_right]
      rfl

/-- what `c` takes over from its left argument, the root takes over from the first value -/
theorem tree_head {β : Type*} {f : α → β} (hf : ∀ a b, f (c a b) = f a) {d : Nat} {l : List α} {r : α}
    (h : tree c d l = some r) : l.head?.map f = some (f r) := by
  induction d generalizing l r with
  | zero =>
    match l, h with
    | [x], h => rw [← Option.some.inj h]; rfl
  | succ d ih =>
    by_cases hle : l.length ≤ 2^d
    · rw [tree_of_le hle, Option.bind_eq_some_iff] at h
      obtain ⟨a, ha, hr⟩ := h
      rw [ih ha, ← Option.some.inj hr, hf]
    · rw [tree_of_lt (Nat.lt_of_not_le hle), Option.bind_eq_some_iff] at h
      obtain ⟨a, ha, h⟩ := h
      obtain ⟨b, -, hr⟩ := Option.bind_eq_some_iff.mp h
      have hhead : l.head? = (l.take (2^d)).head? := by
        rw [List.head?_take, if_neg (Nat.two_pow_pos d).ne']
      rw [hhead, ih ha, ← Option.some.inj hr, hf]

/-! ## enough rounds -/

theorem level_length_lt {l : List α} (h : l.length > 1) : (level c l).length < l.length := by
  rw [level_length]
  omega

theorem loop_rounds {n m : Nat} {l : List α} (hn : l.length ≤ n) (hm : l.length ≤ m) :
    loop c n l = loop c m l := by
  induction n generalizing l m with
  | zero =>
    obtain rfl := List.length_eq_zero_iff.mp (Nat.le_zero.mp hn)
    cases m <;> rfl
  | succ n ih =>
    cases m with
    | zero =>
      obtain rfl := List.length_eq_zero_iff.mp (Nat.le_zero.mp hm)
      rfl
    | succ m =>
      rw [loop, loop]
      split
      · rename_i h1
        have hlt := level_length_lt (c := c) h1
        exact ih (by omega) (by omega)
      · rfl

theorem combined_rounds {n m : Nat} {l : List α} (hn : l.length ≤ n) (hm : l.length ≤ m) :
    combined c n l = combined c m l := by
  induction n generalizing l m with
  | zero =>
    obtain rfl := List.length_eq_zero_iff.mp (Nat.le_zero.mp hn)
    cases m <;> rfl
  | succ n ih =>
    cases m with
    | zero =>
      obtain rfl := List.length_eq_zero_iff.mp (Nat.le_zero.mp hm)
      rfl
    | succ m =>
      rw [combined, combined]
      split
      · rename_i h1
        have hlt := level_length_lt (c := c) h1
        rw [ih (m := m) (by omega) (by omega)]
      · rfl

theorem loop_of_gt {n : Nat} {l : List α} (h : l.length > 1) :
    loop c (n + 1) l = loop c n (level c l) := if_pos h

theorem combined_of_gt {n : Nat} {l : List α} (h : l.length > 1) :
    combined c (n + 1) l = pairs l ++ combined c n (level c l) := if_pos h

/-! ## binding -/

theorem Collides.mono {ps qs : List (α × α)} (h : Collides c ps) (hsub : ∀ p ∈ ps, p ∈ qs) :
    Collides c qs := by
  obtain ⟨p, hp, q, hq, hne, heq⟩ := h
  exact ⟨p, hsub p hp, q, hsub q hq, hne, heq⟩

theorem eq_of_not_collides {ps : List (α × α)} (h : ¬ Collides c ps) {p q : α × α} (hp : p ∈ ps)
    (hq : q ∈ ps) (heq : c p.1 p.2 = c q.1 q.2) : p = q := by
  by_contra hne
  exact h ⟨p, hp, q, hq, hne, heq⟩

/-- the pairs of one level of two computations, and those of the levels above -/
theorem not_collides_cut {ps qs rs ts : List (α × α)} (h : ¬ Collides c (ps ++ qs ++ (rs ++ ts))) :
    ¬ Collides c (ps ++ rs) ∧ ¬ Collides c (qs ++ ts) := by
  constructor
  · refine fun hcol => h (hcol.mono fun p hp => ?_)
    rcases List.mem_append.mp hp with hp | hp
    · exact List.mem_append_left _ (List.mem_append_left _ hp)
    · exact List.mem_append_right _ (List.mem_append_left _ hp)
  · refine fun hcol => h (hcol.mono fun p hp => ?_)
    rcases List.mem_append.mp hp with hp | hp
    · exact List.mem_append_left _ (List.mem_append_right _ hp)
    · exact List.mem_append_right _ (List.mem_append_right _ hp)

theorem pairs_inj : ∀ {l l' : List α}, l.length = l'.length → pairs l = pairs l' → l = l'
  | [], [], _, _ => rfl
  | [a], [b], _, h => by
    simp only [pairs, List.cons.injEq, Prod.mk.injEq] at h
    rw [h.1.1]
  | a :: b :: l, a' :: b' :: l', hlen, h => by
    simp only [pairs, List.cons.injEq, Prod.mk.injEq] at h
    simp only [List.length_cons, Nat.add_right_cancel_iff] at hlen
    rw [h.1.1, h.1.2, pairs_inj hlen h.2]

theorem eq_of_map_eq {β γ : Type*} {f : β → γ} {ps qs : List β}
    (hf : ∀ p ∈ ps, ∀ q ∈ qs, f p = f q → p = q) (h : ps.map f = qs.map f) : ps = qs := by
  induction ps generalizing qs with
  | nil => exact (List.map_eq_nil_iff.mp h.symm).symm
  | cons p ps ih =>
    cases qs with
    | nil => cases h
    | cons q qs =>
      rw [List.map_cons, List.map_cons, List.cons.injEq] at h
      rw [hf p List.mem_cons_self q List.mem_cons_self h.1,
        ih (fun p hp q hq => hf p (List.mem_cons_of_mem _ hp) q (List.mem_cons_of_mem _ hq)) h.2]

theorem level_inj {l l' : List α} (hlen : l.length = l'.length)
    (hc : ¬ Collides c (pairs l ++ pairs l')) (h : level c l = level c l') : l = l' := by
  refine pairs_inj hlen (eq_of_map_eq (fun p hp q hq heq => ?_) h)
  exact eq_of_not_collides hc (List.mem_append_left _ hp) (List.mem_append_right _ hq) heq

/-- **Binding**: lists of one length with one root are equal, or two pairs collide. -/
theorem loop_inj {n : Nat} {l l' : List α} (hlen : l.length = l'.length)
    (hc : ¬ Collides c (combined c n l ++ combined c n l')) (h : loop c n l = loop c n l') :
    l = l' := by
  induction n generalizing l l' with
  | zero => exact h
  | succ n ih =>
    by_cases h1 : l.length > 1
    · have h1' : l'.length > 1 := hlen ▸ h1
      rw [combined_of_gt h1, combined_of_gt h1'] at hc
      rw [loop_of_gt h1, loop_of_gt h1'] at h
      obtain ⟨hcpairs, hcrest⟩ := not_collides_cut hc
      refine level_inj hlen hcpairs (ih ?_ hcrest h)
      rw [level_length, level_length, hlen]
    · have h1' : ¬ l'.length > 1 := hlen ▸ h1
      rw [loop, if_neg h1, loop, if_neg h1'] at h
      exact h

/-! ## one value more -/

/-- the list ends in `2^v` copies of `t`, with a multiple of `2^(v+1)` values before them -/
def Padded (l : List α) (t : α) : Prop :=
  ∃ l₀ v, l = l₀ ++ List.replicate (2^v) t ∧ l₀ ≠ [] ∧ 2^(v + 1) ∣ l₀.length

/-- a full tree whose root stays, combined with the tree over `t` alone -/
def Fixed (c : α → α → α) (l : List α) (t : α) : Prop :=
  ∃ v r, l.length = 2^v ∧ tree c v l = some r ∧ c r ((fun y => c y y)^[v] t) = r

theorem pairs_replicate (k : Nat) (t : α) :
    pairs (List.replicate (2 * k) t) = List.replicate k (t, t) := by
  induction k with
  | zero => rfl
  | succ k ih =>
    rw [show 2 * (k + 1) = 2 * k + 1 + 1 by omega]
    simp only [List.replicate_succ, pairs, ih]

theorem level_replicate (k : Nat) (t : α) :
    level c (List.replicate (2 * k) t) = List.replicate k (c t t) := by
  rw [level, pairs_replicate, List.map_replicate]

theorem level_concat {l : List α} (h : 2 ∣ l.length) (t : α) :
    level c (l ++ [t]) = level c l ++ [c t t] := level_append h

/-- the copies at the end are what an odd level is filled with -/
theorem loop_of_padded {n : Nat} {l : List α} {t : α} (h : Padded l t) (hn : l.length < n) :
    loop c n (l ++ [t]) = loop c n l := by
  obtain ⟨l₀, v, rfl, hne, hdvd⟩ := h
  -- by induction on `v`, one level at a time
  induction v generalizing l₀ t n with
  | zero =>
    have hpos := List.length_pos_iff.mpr hne
    have heven : 2 ∣ l₀.length := hdvd
    obtain ⟨n, rfl⟩ : ∃ m, n = m + 1 := ⟨n - 1, by omega⟩
    have hlast : l₀ ++ List.replicate (2^0) t = l₀ ++ [t] := rfl
    rw [hlast, loop_of_gt (by simp only [List.length_append, List.length_singleton]; omega),
      loop_of_gt (by simp only [List.length_append, List.length_singleton]; omega),
      List.append_assoc, level_append heven, level_append heven]
    rfl
  | succ v ih =>
    have hpos := List.length_pos_iff.mpr hne
    have hpow : 2^(v + 1) = 2 * 2^v := Nat.pow_succ'
    have hpow' : 2^(v + 2) = 2 * 2^(v + 1) := Nat.pow_succ'
    have hv : 0 < 2^v := Nat.two_pow_pos v
    rw [hpow'] at hdvd
    have heven : 2 ∣ l₀.length := Nat.dvd_trans (Nat.dvd_mul_right 2 _) hdvd
    have hlen : (l₀ ++ List.replicate (2^(v + 1)) t).length = l₀.length + 2^(v + 1) := by
      rw [List.length_append, List.length_replicate]
    have hlevel : level c (l₀ ++ List.replicate (2^(v + 1)) t)
        = level c l₀ ++ List.replicate (2^v) (c t t) := by
      rw [level_append heven, hpow, level_replicate]
    have heven' : 2 ∣ (l₀ ++ List.replicate (2^(v + 1)) t).length := by omega
    have hlen₀ : (level c l₀).length = l₀.length / 2 := by
      rw [level_length]
      omega
    obtain ⟨n, rfl⟩ : ∃ m, n = m + 1 := ⟨n - 1, by omega⟩
    rw [loop_of_gt (by rw [List.length_append, List.length_singleton]; omega),
      loop_of_gt (by omega), level_concat heven', hlevel]
    refine ih (level c l₀) ?_ (List.length_pos_iff.mp (by omega)) ?_
    · rw [List.length_append, List.length_replicate]
      omega
    · rw [hlen₀]
      exact Nat.dvd_div_of_mul_dvd hdvd

/-- the root of a full tree and one value more -/
theorem tree_full {v : Nat} {l : List α} (hl : l.length = 2^v) (t : α) :
    tree c (v + 1) (l ++ [t]) =
      (tree c v l).bind fun r => some (c r ((fun y => c y y)^[v] t)) := by
  have hlt : 2^v < (l ++ [t]).length := by
    rw [List.length_append, List.length_singleton]
    omega
  rw [tree_of_lt hlt, List.take_left' hl, List.drop_left' hl, tree_replicate]
  rfl

/-- without a collision, a level that ends in copies of `c t t` comes from one that ends in copies
of `t` -/
theorem Padded.of_level {l : List α} {t : α} (heven : 2 ∣ l.length)
    (hc : ¬ Collides c (pairs (l ++ [t]))) (h : Padded (level c l) (c t t)) : Padded l t := by
  obtain ⟨l₀, v, hl₀, hne, hdvd⟩ := h
  have hpow : 2^(v + 1) = 2 * 2^v := Nat.pow_succ'
  have hlen : l₀.length + 2^v = (l.length + 1) / 2 := by
    rw [← level_length (c := c), hl₀, List.length_append, List.length_replicate]
  have hpos := List.length_pos_iff.mpr hne
  obtain ⟨-, hrest⟩ := level_cut (c := c) l l₀.length (by omega)
  rw [hl₀, List.drop_left, ← level_replicate] at hrest
  have hcut : pairs (l ++ [t]) = pairs (l.take (2 * l₀.length)) ++ pairs (l.drop (2 * l₀.length))
      ++ [(t, t)] := by
    have htake : 2 ∣ (l.take (2 * l₀.length)).length := by
      rw [List.length_take_of_le (by omega)]
      exact Nat.dvd_mul_right 2 _
    rw [pairs_append heven, ← pairs_append htake, List.take_append_drop]
    simp only [pairs]
  have hcopies : l.drop (2 * l₀.length) = List.replicate (2 * 2^v) t := by
    refine level_inj ?_ (fun hcol => hc (hcol.mono fun p hp => ?_)) hrest
    · rw [List.length_drop, List.length_replicate]
      omega
    · rw [hcut]
      rcases List.mem_append.mp hp with hp | hp
      · exact List.mem_append_left _ (List.mem_append_right _ hp)
      · rw [pairs_replicate] at hp
        rw [List.eq_of_mem_replicate hp]
        exact List.mem_append_right _ List.mem_cons_self
  refine ⟨l.take (2 * l₀.length), v + 1, ?_, List.length_pos_iff.mp ?_, ?_⟩
  · rw [hpow, ← hcopies, List.take_append_drop]
  · rw [List.length_take_of_le (by omega)]
    omega
  · rw [List.length_take_of_le (by omega), Nat.pow_succ']
    exact Nat.mul_dvd_mul_left 2 hdvd

theorem Fixed.of_level {l : List α} {t : α} (heven : 2 ∣ l.length) (h : Fixed c (level c l) (c t t)) :
    Fixed c l t := by
  obtain ⟨v, r, hlen, htree, hr⟩ := h
  have hpow : 2^(v + 1) = 2 * 2^v := Nat.pow_succ'
  have hv : 0 < 2^v := Nat.two_pow_pos v
  rw [level_length] at hlen
  refine ⟨v + 1, r, by omega, ?_, hr⟩
  rw [tree_succ (List.length_pos_iff.mp (by omega)) (by omega)]
  exact htree

/-- an odd list and one value more: the last value is paired with itself, or with the new one -/
theorem last_eq_of_level_eq {l : List α} {x t : α} (heven : 2 ∣ l.length)
    (hc : ¬ Collides c (pairs (l ++ [x]) ++ pairs (l ++ [x] ++ [t])))
    (h : level c (l ++ [x]) = level c (l ++ [x] ++ [t])) : x = t := by
  rw [List.append_assoc, level_append heven, level_append heven] at h
  have hpair : (x, x) = (x, t) := by
    refine eq_of_not_collides hc (List.mem_append_left _ ?_) (List.mem_append_right _ ?_)
      (List.singleton_inj.mp (List.append_cancel_left h))
    · rw [pairs_append heven]
      exact List.mem_append_right _ List.mem_cons_self
    · rw [List.append_assoc, pairs_append heven]
      exact List.mem_append_right _ List.mem_cons_self
  exact (Prod.mk.inj hpair).2

/-- an odd list: only a copy of its last value changes nothing -/
theorem padded_of_odd {n : Nat} {l : List α} {t : α} (hl : 2 ≤ l.length) (hodd : ¬ 2 ∣ l.length)
    (hcpairs : ¬ Collides c (pairs l ++ pairs (l ++ [t])))
    (hcrest : ¬ Collides c (combined c n (level c l) ++ combined c n (level c (l ++ [t]))))
    (h : loop c n (level c l) = loop c n (level c (l ++ [t]))) : Padded l t := by
  obtain ⟨l₀, x, rfl⟩ : ∃ l₀ x, l = l₀ ++ [x] :=
    ⟨_, _, (List.dropLast_append_getLast (List.length_pos_iff.mp (by omega))).symm⟩
  rw [List.length_append, List.length_singleton] at hl hodd
  have heven₀ : 2 ∣ l₀.length := by omega
  have hlevels : level c (l₀ ++ [x]) = level c (l₀ ++ [x] ++ [t]) := by
    refine loop_inj ?_ hcrest h
    rw [level_length, level_length]
    simp only [List.length_append, List.length_singleton]
    omega
  obtain rfl : x = t := last_eq_of_level_eq heven₀ hcpairs hlevels
  exact ⟨l₀, 0, rfl, List.length_pos_iff.mp (by omega), heven₀⟩

/-- the level of the list is its root alone -/
theorem fixed_of_root {n : Nat} {l : List α} {t r : α} (heven : 2 ∣ l.length)
    (hr : level c l = [r]) (h : loop c (n + 2) [r] = loop c (n + 2) ([r] ++ [c t t])) :
    Fixed c l t := by
  have hroot : [r] = [c r (c t t)] := h
  refine Fixed.of_level heven ⟨0, r, ?_, ?_, (List.singleton_inj.mp hroot).symm⟩
  · rw [hr]
    rfl
  · rw [hr]
    rfl

/-- without a collision there is no other way to keep the root -/
theorem padded_or_fixed {n : Nat} {l : List α} {t : α} (hl : 2 ≤ l.length) (hn : l.length < n)
    (hc : ¬ Collides c (combined c n l ++ combined c n (l ++ [t])))
    (h : loop c n l = loop c n (l ++ [t])) : Padded l t ∨ Fixed c l t := by
  induction n generalizing l t with
  | zero => omega
  | succ n ih =>
    have hlt : (l ++ [t]).length > 1 := by
      rw [List.length_append, List.length_singleton]
      omega
    rw [combined_of_gt hl, combined_of_gt hlt] at hc
    rw [loop_of_gt hl, loop_of_gt hlt] at h
    obtain ⟨hcpairs, hcrest⟩ := not_collides_cut hc
    by_cases heven : 2 ∣ l.length
    · rw [level_concat heven] at h hcrest
      have hlevel := level_length (c := c) l
      by_cases h2 : 2 ≤ (level c l).length
      · rcases ih h2 (by omega) hcrest h with hp | hf
        · exact Or.inl (hp.of_level heven fun hcol =>
            hcpairs (hcol.mono fun p hp => List.mem_append_right _ hp))
        · exact Or.inr (hf.of_level heven)
      · obtain ⟨r, hr⟩ : ∃ r, level c l = [r] := List.length_eq_one_iff.mp (by omega)
        obtain ⟨n, rfl⟩ : ∃ m, n = m + 2 := ⟨n - 2, by omega⟩
        rw [hr] at h
        exact Or.inr (fixed_of_root heven hr h)
    · exact Or.inl (padded_of_odd hl heven hcpairs hcrest h)

theorem loop_of_fixed {n : Nat} {l : List α} {t : α} (h : Fixed c l t) (hn : l.length < n) :
    loop c n (l ++ [t]) = loop c n l := by
  obtain ⟨v, r, hlen, htree, hr⟩ := h
  have hv : 0 < 2^v := Nat.two_pow_pos v
  have hlen' : (l ++ [t]).length = 2^v + 1 := by
    rw [List.length_append, List.length_singleton, hlen]
  have hclog : Nat.clog 2 (2^v + 1) = v + 1 := by
    refine Nat.le_antisymm (Nat.clog_le_of_le_pow ?_) ?_
    · rw [Nat.pow_succ']
      omega
    · exact (Nat.lt_clog_iff_pow_lt Nat.one_lt_two).mpr (Nat.lt_succ_self _)
  obtain ⟨a, ha, hta⟩ := loop_eq_tree (c := c) (List.length_pos_iff.mp (by omega)) (Nat.le_of_lt hn)
  obtain ⟨b, hb, htb⟩ := loop_eq_tree (c := c) (l := l ++ [t]) (List.length_pos_iff.mp (by omega))
    (by omega : (l ++ [t]).length ≤ n)
  rw [hlen, Nat.clog_pow 2 v Nat.one_lt_two, htree] at hta
  rw [hlen', hclog, tree_full hlen, htree] at htb
  rw [ha, hb, ← Option.some.inj hta, ← Option.some.inj htb, hr]

/-- **When one value more keeps the root**: it collides, or copies of it stand at the end of the list
where the padding makes them anyway, or the root is a fixed point. -/
theorem loop_append_iff {n : Nat} {l : List α} {t : α} (hl : 2 ≤ l.length) (hn : l.length < n) :
    (loop c n l = loop c n (l ++ [t]) →
        Collides c (combined c n l ++ combined c n (l ++ [t]))) ↔
      (Collides c (combined c n l ++ combined c n (l ++ [t])) ∨ ¬ (Padded l t ∨ Fixed c l t)) := by
  constructor
  · intro h
    by_cases hroot : Padded l t ∨ Fixed c l t
    · left
      refine h ?_
      rcases hroot with hp | hf
      · exact (loop_of_padded hp hn).symm
      · exact (loop_of_fixed hf hn).symm
    · exact Or.inr hroot
  · rintro (hc | hroot) h
    · exact hc
    · by_contra hc
      exact hroot (padded_or_fixed hl hn hc h)

end

end Merkle
