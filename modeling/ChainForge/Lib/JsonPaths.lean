import ChainForge.Lib.Json
import Mathlib.Data.List.Basic

/-!
# Places in a JSON value

A value is known from what stands at its paths: at each of them a value of its own, or an object,
whose fields have paths of their own.

* `faceAt p j`         what stands at the path `p`: for an object only that it is one;
* `Canonical.ext`      **a value with ordered fields is known from its faces**;
* `faceAt_update_set`  setting a field through a pointer changes what stands at the field and below it;
* `inForce`            of a list of entries, those that no later entry overwrites, at their place or
                       above it; `mem_inForce_concat`: one entry more.
-/

set_option linter.unusedSectionVars false

open Text

namespace Json
variable {D : Type}

/-- a value without its fields -/
def face : Json D → Json D
  | object _ => object []
  | j => j

def faceAt : List Str → Json D → Option (Json D)
  | [], j => some (face j)
  | key :: p, object fs => (findField key fs).bind (faceAt p)
  | _ :: _, _ => none

/-- the fields of every object stand in the order of their keys -/
inductive Canonical : Json D → Prop
  | leaf {j : Json D} (h : ∀ fs, j ≠ object fs) : Canonical j
  | object {fs : Fields D} (sorted : fs.Pairwise fun f g => f.1 < g.1)
      (h : ∀ f ∈ fs, Canonical f.2) : Canonical (object fs)

/-! ## values from faces -/

theorem face_leaf {j : Json D} (h : ∀ fs, j ≠ object fs) : face j = j := by
  cases j with
  | object fs => exact absurd rfl (h fs)
  | _ => rfl

theorem face_eq_object {j : Json D} (h : face j = object []) : ∃ fs, j = object fs := by
  cases j with
  | object fs => exact ⟨fs, rfl⟩
  | _ => cases h

theorem findField_head (f : Str × Json D) (fs : Fields D) : findField f.1 (f :: fs) = some f.2 :=
  (if_neg (List.lt_irrefl _)).trans (if_pos rfl)

theorem findField_of_lt {key : Str} {fs : Fields D} (h : ∀ f ∈ fs, key < f.1) :
    findField key fs = none := by
  cases fs with
  | nil => rfl
  | cons f fs => exact if_pos (h f List.mem_cons_self)

/-- behind the first of its fields an object holds the greater keys -/
theorem findField_tail {f : Str × Json D} {fs : Fields D} (h : ∀ g ∈ fs, f.1 < g.1) (key : Str) :
    findField key fs = if f.1 < key then findField key (f :: fs) else none := by
  split
  · rename_i hlt
    rw [findField, if_neg (List.lt_asymm hlt), if_neg fun e : key = f.1 => List.lt_irrefl f.1 (e ▸ hlt)]
  · rename_i hlt
    refine findField_of_lt fun g hg => ?_
    by_cases he : key < f.1
    · exact List.lt_trans he (h g hg)
    · rw [List.le_antisymm (List.not_lt.mp hlt) (List.not_lt.mp he)]
      exact h g hg

/-- ordered fields are known from what is found in them, if the values are known from their faces -/
theorem fields_ext {fs gs : Fields D} (hfs : fs.Pairwise fun f g => f.1 < g.1)
    (hgs : gs.Pairwise fun f g => f.1 < g.1)
    (hvalue : ∀ f ∈ fs, ∀ g ∈ gs, (∀ p, faceAt p f.2 = faceAt p g.2) → f.2 = g.2)
    (h : ∀ key p, (findField key fs).bind (faceAt p) = (findField key gs).bind (faceAt p)) :
    fs = gs := by
  induction fs generalizing gs with
  | nil =>
    cases gs with
    | nil => rfl
    | cons g gs =>
      have hg := h g.1 []
      rw [findField_head] at hg
      cases hg
  | cons f fs ih =>
    cases gs with
    | nil =>
      have hf := h f.1 []
      rw [findField_head] at hf
      cases hf
    | cons g gs =>
      obtain ⟨hf, hftail⟩ := List.pairwise_cons.mp hfs
      obtain ⟨hg, hgtail⟩ := List.pairwise_cons.mp hgs
      have hfg : ¬ f.1 < g.1 := by
        intro hlt
        have hnone := h f.1 []
        rw [findField_head, show findField f.1 (g :: gs) = none from if_pos hlt] at hnone
        cases hnone
      have hgf : ¬ g.1 < f.1 := by
        intro hlt
        have hnone := h g.1 []
        rw [findField_head, show findField g.1 (f :: fs) = none from if_pos hlt] at hnone
        cases hnone
      have hkey : f.1 = g.1 := List.le_antisymm (List.not_lt.mp hgf) (List.not_lt.mp hfg)
      have hhead : f = g := by
        refine Prod.ext hkey (hvalue f List.mem_cons_self g List.mem_cons_self fun p => ?_)
        have hp := h f.1 p
        rw [findField_head, hkey, findField_head] at hp
        exact hp
      subst hhead
      congr 1
      refine ih hftail hgtail (fun a ha b hb => hvalue a (List.mem_cons_of_mem _ ha) b
        (List.mem_cons_of_mem _ hb)) fun key p => ?_
      rw [findField_tail hf, findField_tail hg]
      split
      · exact h key p
      · rfl

/-- **A value with ordered fields is known from its faces.** -/
theorem Canonical.ext {j j' : Json D} (hj : Canonical j) (hj' : Canonical j')
    (h : ∀ p, faceAt p j = faceAt p j') : j = j' := by
  induction hj generalizing j' with
  | @leaf j hleaf =>
    have hface : face j = face j' := Option.some.inj (h [])
    rw [face_leaf hleaf] at hface
    cases hj' with
    | leaf hleaf' => exact hface.trans (face_leaf hleaf')
    | object => exact absurd hface (hleaf [])
  | @object fs sorted _ ih =>
    obtain ⟨gs, rfl⟩ : ∃ gs, j' = .object gs := face_eq_object (Option.some.inj (h [])).symm
    cases hj' with
    | leaf hleaf => exact absurd rfl (hleaf gs)
    | object sorted' hgs =>
      congr 1
      exact fields_ext sorted sorted' (fun f hf g hg => ih f hf (hgs g hg)) fun key p => h (key :: p)

/-! ## setting a field -/

theorem Canonical.setField {key : Str} {v : Json D} {fs : Fields D} (h : Canonical (.object fs))
    (hv : Canonical v) : Canonical (.object (setField key v fs)) := by
  cases h with
  | leaf hleaf => exact absurd rfl (hleaf fs)
  | object sorted hfs =>
    refine .object (setField_sorted sorted) fun f hf => ?_
    rcases mem_setField hf with rfl | hf
    · exact hv
    · exact hfs f hf

theorem faceAt_setField (key : Str) (v : Json D) (fs : Fields D) (name : Str) (q : List Str) :
    faceAt (name :: q) (.object (setField key v fs))
      = if key = name then faceAt q v else faceAt (name :: q) (.object fs) := by
  rw [faceAt, faceAt]
  split
  · rename_i he
    rw [← he, findField_setField, Option.bind_some]
  · rename_i hne
    rw [findField_setField_of_ne (Ne.symm hne)]

/-- above an object there are objects -/
theorem faceAt_of_prefix {p q : List Str} {j : Json D} (h : faceAt p j = some (.object []))
    (hq : q <+: p) : faceAt q j = some (.object []) := by
  induction p generalizing q j with
  | nil => rwa [List.prefix_nil.mp hq]
  | cons key p ih =>
    cases j with
    | object fs =>
      cases q with
      | nil => rfl
      | cons name q =>
        obtain ⟨rfl, htail⟩ := List.cons_prefix_cons.mp hq
        obtain ⟨u, hfind, hu⟩ := Option.bind_eq_some_iff.mp h
        exact Option.bind_eq_some_iff.mpr ⟨u, hfind, ih hu htail⟩
    | _ => cases h

/-- what stands where after a field was set through a pointer to its object: at the field and below it
the new value, and elsewhere what stood there.  By induction on the path. -/
theorem faceAt_update_set {p : List Str} {j : Json D} (key : Str) (v : Json D) (hj : Canonical j)
    (hv : Canonical v) (hp : faceAt p j = some (.object []) ∨ p = [] ∧ j = .null) :
    ∃ j', update p (set key v) j = some j' ∧ Canonical j' ∧ face j' = .object [] ∧
      ∀ name q, faceAt (name :: q) j' =
        if p ++ [key] <+: name :: q then faceAt (q.drop p.length) v else faceAt (name :: q) j := by
  induction p generalizing j with
  | nil =>
    have htop : ∀ fs : Fields D, ∀ name q, faceAt (name :: q) (.object (setField key v fs)) =
        if [key] <+: name :: q then faceAt q v else faceAt (name :: q) (.object fs) := by
      intro fs name q
      rw [faceAt_setField]
      simp only [List.cons_prefix_cons, List.nil_prefix, and_true]
    rcases hp with hface | ⟨-, rfl⟩
    · obtain ⟨fs, rfl⟩ := face_eq_object (Option.some.inj hface)
      exact ⟨_, rfl, hj.setField hv, rfl, htop fs⟩
    · exact ⟨_, rfl, Canonical.setField (.object .nil nofun) hv, rfl, htop []⟩
  | cons k p ih =>
    obtain hface : faceAt (k :: p) j = some (.object []) := hp.resolve_right fun h => nomatch h.1
    cases j with
    | object fs =>
      obtain ⟨u, hfind, hu⟩ := Option.bind_eq_some_iff.mp hface
      have hcu : Canonical u := by
        cases hj with
        | leaf hleaf => exact absurd rfl (hleaf fs)
        | object sorted hfs => exact hfs _ (findField_mem hfind)
      obtain ⟨u', hupdate, hcanon, hobject, hfaces⟩ := ih hcu (.inl hu)
      refine ⟨.object (setField k u' fs), ?_, hj.setField hcanon, rfl, fun name q => ?_⟩
      · rw [update_object, hfind, Option.bind_some, hupdate]
        rfl
      · rw [faceAt_setField, List.cons_append]
        by_cases hname : k = name
        · subst hname
          rw [if_pos rfl, faceAt, hfind, Option.bind_some]
          simp only [List.cons_prefix_cons, true_and]
          cases q with
          | nil =>
            -- the object in which the path begins is one before and after
            rw [faceAt, hobject, faceAt_of_prefix hu List.nil_prefix, if_neg]
            exact fun h => List.append_ne_nil_of_right_ne_nil _ (List.cons_ne_nil _ _) (List.prefix_nil.mp h)
          | cons name q => exact hfaces name q
        · rw [if_neg hname, if_neg fun h => hname (List.cons_prefix_cons.mp h).1]
    | _ => cases hface

end Json

/-! ## entries one by one -/

section
variable {α β : Type*} [DecidableEq α]

/-- of the entries, each a place and a value, those that are not overwritten: no later entry is at the
same place or above it -/
def inForce : List (List α × β) → List (List α × β)
  | [] => []
  | e :: rest => if rest.any fun d => d.1.isPrefixOf e.1 then inForce rest else e :: inForce rest

theorem mem_inForce_concat (entries : List (List α × β)) (last e : List α × β) :
    e ∈ inForce (entries ++ [last]) ↔ e = last ∨ (¬ last.1 <+: e.1 ∧ e ∈ inForce entries) := by
  induction entries with
  | nil => simp [inForce]
  | cons d entries ih =>
    rw [List.cons_append, inForce, inForce, List.any_append]
    by_cases hany : entries.any (fun c => c.1.isPrefixOf d.1) = true
    · rw [hany, Bool.true_or, if_pos rfl, if_pos rfl, ih]
    · rw [Bool.not_eq_true] at hany
      rw [hany, Bool.false_or, if_neg Bool.false_ne_true, List.any_cons, List.any_nil, Bool.or_false]
      by_cases hlast : last.1 <+: d.1
      · rw [if_pos (List.isPrefixOf_iff_prefix.mpr hlast), ih, List.mem_cons]
        refine or_congr_right (and_congr_right fun hnot => ?_)
        rw [or_iff_right]
        rintro rfl
        exact hnot hlast
      · rw [if_neg fun h => hlast (List.isPrefixOf_iff_prefix.mp h), List.mem_cons, List.mem_cons, ih]
        constructor
        · rintro (rfl | rfl | h)
          · exact .inr ⟨hlast, .inl rfl⟩
          · exact .inl rfl
          · exact .inr ⟨h.1, .inr h.2⟩
        · rintro (rfl | ⟨hnot, rfl | h⟩)
          · exact .inr (.inl rfl)
          · exact .inl rfl
          · exact .inr (.inr ⟨hnot, h⟩)

end
