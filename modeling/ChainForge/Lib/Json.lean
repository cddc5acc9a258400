import ChainForge.Lib.Text

/-!
# JSON values

An object is the list of its fields in the order of their keys, as in an `std::map`; a search stops
where the key would stand.

* `set`          `j[key] = v`: null becomes an object, and a value of another kind throws;
* `update p f`   `f` applied to the value at the path `p`, as through a pointer to it;
* `update_bind`, `update_append`   how updates compose; `field_update`: what they leave alone;
* `depthSum`     the sum of the depths of all fields that are not in an array; `depthSum_update_set`:
                 setting a field through a pointer adds at most its depth.
-/

set_option linter.unusedSectionVars false

open Text

/-- `D` is the type of floating point numbers -/
inductive Json (D : Type) where
  | null
  | boolean (b : Bool)
  | integer (n : Int)
  | double (x : D)
  | string (s : Str)
  | array (items : List (Json D))
  | object (fields : List (Str × Json D))

namespace Json
variable {D : Type}

abbrev Fields (D : Type) := List (Str × Json D)

def findField (key : Str) : Fields D → Option (Json D)
  | [] => none
  | (k, v) :: fs => if key < k then none else if key = k then some v else findField key fs

def setField (key : Str) (value : Json D) : Fields D → Fields D
  | [] => [(key, value)]
  | (k, v) :: fs =>
    if key < k then (key, value) :: (k, v) :: fs
    else if key = k then (key, value) :: fs
    else (k, v) :: setField key value fs

def set (key : Str) (value : Json D) : Json D → Option (Json D)
  | null => some (object (setField key value []))
  | object fs => some (object (setField key value fs))
  | _ => none

/-- the field of an object -/
def field (key : Str) : Json D → Option (Json D)
  | object fs => findField key fs
  | _ => none

/-- `none` if there is no value at the path -/
def update : List Str → (Json D → Option (Json D)) → Json D → Option (Json D)
  | [], f, j => f j
  | key :: p, f, object fs =>
    (findField key fs).bind fun v => (update p f v).map fun v => object (setField key v fs)
  | _ :: _, _, _ => none

/-! ## fields -/

section
variable (key : Str) (v w : Json D) (fs : Fields D)

@[simp] theorem findField_setField : findField key (setField key v fs) = some v := by
  induction fs with
  | nil => simp [setField, findField]
  | cons f fs ih =>
    obtain ⟨k, u⟩ := f
    unfold setField
    split
    · simp [findField]
    · split
      · simp [findField]
      · rename_i hlt hne
        rw [findField, if_neg hlt, if_neg hne, ih]

@[simp] theorem setField_setField : setField key w (setField key v fs) = setField key w fs := by
  induction fs with
  | nil => simp [setField]
  | cons f fs ih =>
    obtain ⟨k, u⟩ := f
    by_cases hlt : key < k
    · simp [setField, hlt]
    · by_cases he : key = k
      · subst he
        simp only [setField, if_neg hlt, if_true]
      · simp only [setField, if_neg hlt, if_neg he, ih]

end

theorem findField_setField_of_ne {key name : Str} (h : name ≠ key) (v : Json D) (fs : Fields D) :
    findField name (setField key v fs) = findField name fs := by
  induction fs with
  | nil =>
    show (if name < key then none else if name = key then some v else none) = none
    rw [if_neg h]
    split <;> rfl
  | cons f fs ih =>
    obtain ⟨k, u⟩ := f
    by_cases hk : key < k
    · rw [setField, if_pos hk, findField, if_neg h]
      by_cases hlt : name < key
      · rw [if_pos hlt, findField, if_pos (List.lt_trans hlt hk)]
      · rw [if_neg hlt]
    · by_cases he : key = k
      · rw [setField, if_neg hk, if_pos he, findField, findField, ← he, if_neg h, if_neg h]
      · rw [setField, if_neg hk, if_neg he, findField, findField, ih]

theorem findField_mem {key : Str} {v : Json D} {fs : Fields D} (h : findField key fs = some v) :
    (key, v) ∈ fs := by
  induction fs with
  | nil => cases h
  | cons f fs ih =>
    obtain ⟨k, u⟩ := f
    unfold findField at h
    split at h
    · cases h
    · split at h
      · rename_i he
        cases h
        rw [he]
        exact List.mem_cons_self
      · exact List.mem_cons_of_mem _ (ih h)

theorem mem_setField {key : Str} {v : Json D} {fs : Fields D} {f : Str × Json D}
    (h : f ∈ setField key v fs) : f = (key, v) ∨ f ∈ fs := by
  induction fs with
  | nil => exact .inl (List.mem_singleton.mp h)
  | cons g fs ih =>
    obtain ⟨k, u⟩ := g
    unfold setField at h
    split at h
    · exact List.mem_cons.mp h
    · split at h
      · exact (List.mem_cons.mp h).imp_right (List.mem_cons_of_mem _)
      · rcases List.mem_cons.mp h with h | h
        · exact .inr (by rw [h]; exact List.mem_cons_self)
        · exact (ih h).imp_right (List.mem_cons_of_mem _)

theorem setField_sorted {key : Str} {v : Json D} {fs : Fields D}
    (h : fs.Pairwise fun f g => f.1 < g.1) : (setField key v fs).Pairwise fun f g => f.1 < g.1 := by
  induction fs with
  | nil => exact List.pairwise_singleton _ _
  | cons f fs ih =>
    obtain ⟨k, u⟩ := f
    obtain ⟨hf, hfs⟩ := List.pairwise_cons.mp h
    unfold setField
    split
    · rename_i hlt
      refine List.pairwise_cons.mpr ⟨fun g hg => ?_, h⟩
      rcases List.mem_cons.mp hg with rfl | hg
      · exact hlt
      · exact List.lt_trans hlt (hf g hg)
    · split
      · rename_i hkey
        refine List.pairwise_cons.mpr ⟨fun g hg => ?_, hfs⟩
        rw [hkey]
        exact hf g hg
      · rename_i hlt hne
        refine List.pairwise_cons.mpr ⟨fun g hg => ?_, ih hfs⟩
        rcases mem_setField hg with rfl | hg
        · by_contra hge
          exact hne (List.le_antisymm (List.not_lt.mp hge) (List.not_lt.mp hlt))
        · exact hf g hg

/-! ## updates -/

theorem update_object (key : Str) (p : List Str) (f : Json D → Option (Json D)) (fs : Fields D) :
    update (key :: p) f (object fs)
      = (findField key fs).bind fun v => (update p f v).map fun v => object (setField key v fs) :=
  rfl

theorem update_append (p q : List Str) (f : Json D → Option (Json D)) (j : Json D) :
    update (p ++ q) f j = update p (update q f) j := by
  induction p generalizing j with
  | nil => rfl
  | cons key p ih =>
    cases j with
    | object fs =>
      rw [List.cons_append, update_object, update_object]
      congr 1
      funext v
      rw [ih]
    | _ => rfl

/-- two updates at one place -/
theorem update_bind (p : List Str) (f g : Json D → Option (Json D)) (j : Json D) :
    (update p f j).bind (update p g) = update p (fun x => (f x).bind g) j := by
  induction p generalizing j with
  | nil => rfl
  | cons key p ih =>
    cases j with
    | object fs =>
      rw [update_object, update_object]
      cases findField key fs with
      | none => rfl
      | some v =>
        rw [Option.bind_some, Option.bind_some, ← ih]
        cases update p f v with
        | none => rfl
        | some u =>
          rw [Option.map_some, Option.bind_some, Option.bind_some, update_object, findField_setField,
            Option.bind_some]
          simp only [setField_setField]
    | _ => rfl

/-- a value that was set is there -/
theorem update_fix {p : List Str} {f g : Json D → Option (Json D)}
    (h : ∀ x y, f x = some y → g y = some y) {j j' : Json D} (hj : update p f j = some j') :
    update p g j' = some j' := by
  induction p generalizing j j' with
  | nil => exact h j j' hj
  | cons key p ih =>
    cases j with
    | object fs =>
      rw [update_object, Option.bind_eq_some_iff] at hj
      obtain ⟨v, -, hv⟩ := hj
      obtain ⟨u, hu, rfl⟩ := Option.map_eq_some_iff.mp hv
      rw [update_object, findField_setField, Option.bind_some, ih hu, Option.map_some,
        setField_setField]
    | _ => cases hj

/-- a field that was set is there -/
theorem update_of_set {key : Str} {value j j' : Json D} (h : set key value j = some j') :
    update [key] some j' = some j' := by
  have hfields : ∀ fs : Fields D, update [key] some (object (setField key value fs))
      = some (object (setField key value fs)) := by
    intro fs
    rw [update_object, findField_setField, Option.bind_some]
    show some (object (setField key value (setField key value fs))) = _
    rw [setField_setField]
  cases j with
  | null =>
    cases h
    exact hfields []
  | object fs =>
    cases h
    exact hfields fs
  | _ => cases h

/-- a field of the whole stays as it is where the path leads to another one -/
theorem field_update {name key : Str} {path : List Str} {value j j' : Json D}
    (hpath : path.head? ≠ some name) (hkey : path = [] → key ≠ name)
    (h : update path (set key value) j = some j') : field name j' = field name j := by
  cases path with
  | nil =>
    have hne : name ≠ key := Ne.symm (hkey rfl)
    cases j with
    | null =>
      cases h
      exact findField_setField_of_ne hne value []
    | object fs =>
      cases h
      exact findField_setField_of_ne hne value fs
    | _ => cases h
  | cons k path =>
    have hne : name ≠ k := fun e => hpath (congrArg some e.symm)
    cases j with
    | object fs =>
      rw [update_object, Option.bind_eq_some_iff] at h
      obtain ⟨v, -, hv⟩ := h
      obtain ⟨u, -, rfl⟩ := Option.map_eq_some_iff.mp hv
      exact findField_setField_of_ne hne u fs
    | _ => cases h

/-! ## depths -/

mutual

/-- the sum of the depths of the fields of a value that is at the depth `d` -/
def depthSum (d : Nat) : Json D → Nat
  | object fs => depthSumFields d fs
  | _ => 0

def depthSumFields (d : Nat) : Fields D → Nat
  | [] => 0
  | (_, v) :: fs => d + 1 + depthSum (d + 1) v + depthSumFields d fs

end

section
variable {key : Str} {fs : Fields D}

theorem depthSum_replace (d : Nat) {v : Json D} (h : findField key fs = some v) (w : Json D) :
    depthSumFields d (setField key w fs) + depthSum (d + 1) v
      = depthSumFields d fs + depthSum (d + 1) w := by
  induction fs with
  | nil => cases h
  | cons f fs ih =>
    obtain ⟨k, u⟩ := f
    unfold findField at h
    unfold setField
    split at h
    · cases h
    · rename_i hlt
      rw [if_neg hlt]
      split at h
      · rename_i he
        cases h
        rw [if_pos he]
        simp only [depthSumFields]
        omega
      · rename_i he
        have := ih h
        rw [if_neg he]
        simp only [depthSumFields]
        omega

theorem depthSum_insert (d : Nat) (h : findField key fs = none) (w : Json D) :
    depthSumFields d (setField key w fs) = depthSumFields d fs + (d + 1) + depthSum (d + 1) w := by
  induction fs with
  | nil =>
    simp only [setField, depthSumFields]
    omega
  | cons f fs ih =>
    obtain ⟨k, u⟩ := f
    unfold findField at h
    unfold setField
    split at h
    · rename_i hlt
      rw [if_pos hlt]
      simp only [depthSumFields]
      omega
    · rename_i hlt
      rw [if_neg hlt]
      split at h
      · cases h
      · rename_i he
        have := ih h
        rw [if_neg he]
        simp only [depthSumFields]
        omega

theorem depthSum_setField_le (d : Nat) (key : Str) (fs : Fields D) (w : Json D) :
    depthSumFields d (setField key w fs) ≤ depthSumFields d fs + (d + 1) + depthSum (d + 1) w := by
  cases h : findField key fs with
  | none => exact Nat.le_of_eq (depthSum_insert d h w)
  | some v =>
    have := depthSum_replace d h w
    omega

/-- a field without fields of its own, set through a pointer -/
theorem depthSum_update_set (d : Nat) {p : List Str} {value : Json D} (hv : ∀ d, depthSum d value = 0)
    {j j' : Json D} (h : update p (set key value) j = some j') :
    depthSum d j' ≤ depthSum d j + (d + p.length + 1) := by
  induction p generalizing d j j' with
  | nil =>
    cases j with
    | null =>
      cases h
      have := depthSum_setField_le d key [] value
      rw [hv] at this
      exact this
    | object fs =>
      cases h
      have := depthSum_setField_le d key fs value
      rw [hv] at this
      exact this
    | _ => cases h
  | cons k p ih =>
    cases j with
    | object fs =>
      rw [update_object, Option.bind_eq_some_iff] at h
      obtain ⟨v, hfind, hv'⟩ := h
      obtain ⟨u, hu, rfl⟩ := Option.map_eq_some_iff.mp hv'
      have h1 := ih (d + 1) hu
      have h2 := depthSum_replace d hfind u
      simp only [depthSum, List.length_cons]
      omega
    | _ => cases h

end

end Json
