import ChainForge.Logging.Block

/-!
# What the YAML reader makes of a block mapping

An entry that follows a nested mapping is put into the right object only at the top level: below, it
goes to an object one level up, so that its depth in the result is less than its depth in the
mapping.  The sum of the depths of all entries tells whether this happened.

* `read_inner`, `read_root`   what the reader makes of a mapping without such entries;
* `run_depth`                 **every entry gets at most its own depth**, and less in the other case;
* `yaml_tree_iff`             when the tree is kept;
* `displaced_entry`           when it is not.
-/

set_option linter.unusedSectionVars false

namespace ChainForge
namespace Logging
open Text ConfigLoader

section
variable {D : Type} {stod : Str → Except ParseError D} {s : YamlState D}

/-! ## a tame mapping -/

/-- the entries set one by one -/
def Block.addTo : Block → Json D → Option (Json D)
  | .empty, j => some j
  | .leaf key value rest, j => (Json.set key value.toJson j).bind rest.addTo
  | .mapping key entries rest, j =>
    (Json.set key (.object (entries.fields [])) j).bind rest.addTo

theorem addTo_object (b : Block) (fs : Json.Fields D) :
    b.addTo (.object fs) = some (.object (b.fields fs)) := by
  induction b generalizing fs with
  | empty => rfl
  | leaf key value rest ih => exact ih _
  | mapping key entries rest _ ih => exact ih _

theorem addTo_null {b : Block} (h : b ≠ .empty) :
    b.addTo (.null : Json D) = some b.toJson := by
  cases b with
  | empty => exact absurd rfl h
  | leaf key value rest => exact addTo_object rest _
  | mapping key entries rest => exact addTo_object rest _

/-- a new object, and then its entries -/
theorem set_update (key : Str) (b : Block) (j : Json D) :
    (Json.set key (.object []) j).bind (Json.update [key] b.addTo)
      = Json.set key (.object (b.fields [])) j := by
  have hfields : ∀ fs : Json.Fields D,
      Json.update [key] b.addTo (.object (Json.setField key (.object []) fs))
        = some (.object (Json.setField key (.object (b.fields [])) fs)) := by
    intro fs
    rw [Json.update_object, Json.findField_setField, Option.bind_some]
    show (b.addTo (.object [])).map _ = _
    rw [addTo_object, Option.map_some, Json.setField_setField]
  cases j with
  | null => exact hfields []
  | object fs => exact hfields fs
  | _ => rfl

/-- a line with this indentation closes nothing -/
def Settled (indent : Nat) (s : YamlState D) : Prop := ∀ i ∈ s.indentStack.head?, i < indent

theorem dedent_settled {indent : Nat} (h : Settled indent s) : dedent indent s = s := by
  have hpop : popWhile indent s.indentStack s.objectStack s.currentObject
      = (s.indentStack, s.objectStack, s.currentObject) := by
    unfold Settled at h
    cases hi : s.indentStack with
    | nil => rfl
    | cons i indents =>
      cases s.objectStack with
      | nil => rfl
      | cons o objects =>
        rw [hi] at h
        have hlt : i < indent := h i rfl
        rw [popWhile, if_neg (by omega)]
  unfold dedent
  rw [hpop]

/-- by induction on the entries, of which only the last one can be a mapping -/
theorem read_inner {b : Block} (hw : b.WellFormed) (ht : b.tameAt true = true) (level : Nat)
    (hs : Settled (2 * level) s) (hp : s.result.update s.currentObject some = some s.result) :
    (runLines stod s (b.lines level)).map (·.result) = s.result.update s.currentObject b.addTo := by
  induction b generalizing s level with
  | empty => exact hp.symm
  | leaf key value rest ih =>
    obtain ⟨hk, -, hv, hrest⟩ := hw
    show (runLines stod s (keyLine level key (32 :: value.text) :: rest.lines level)).map _
      = s.result.update s.currentObject fun x => (Json.set key value.toJson x).bind rest.addTo
    rw [runLines_leaf hk hv, dedent_settled hs, Option.map_bind, ← Json.update_bind]
    unfold assign
    cases hu : s.result.update s.currentObject (Json.set key value.toJson) with
    | none => rfl
    | some result =>
      exact ih hrest ht level (s := { s with result }) hs (Json.update_fix (fun _ _ _ => rfl) hu)
  | mapping key entries rest ihe _ =>
    obtain ⟨hk, -, hentries, -⟩ := hw
    obtain ⟨hte, htr⟩ := Bool.and_eq_true_iff.mp ht
    obtain rfl : rest = .empty := beq_iff_eq.mp htr
    show (runLines stod s (keyLine level key [] :: (entries.lines (level + 1) ++ []))).map _
      = s.result.update s.currentObject fun x =>
          (Json.set key (.object (entries.fields [])) x).bind some
    have hset : (fun x : Json D => (Json.set key (.object (entries.fields [])) x).bind some)
        = fun x => (Json.set key (.object []) x).bind (Json.update [key] entries.addTo) := by
      funext x
      rw [set_update, Option.bind_fun_some]
    rw [runLines_mapping hk, dedent_settled hs, List.append_nil, Option.map_bind, hset, ← Json.update_bind]
    unfold openObject
    cases hu : s.result.update s.currentObject (Json.set key (.object [])) with
    | none => rfl
    | some result =>
      have hpath : result.update (s.currentObject ++ [key]) some = some result := by
        rw [Json.update_append]
        exact Json.update_fix (fun _ _ h => Json.update_of_set h) hu
      have hdeep := ihe hentries hte (level + 1)
        (s := ⟨result, s.currentObject ++ [key], s.currentObject :: s.objectStack,
          2 * level :: s.indentStack⟩) (fun i hi => by cases hi; omega) hpath
      rw [Json.update_append] at hdeep
      exact hdeep

/-! ### the top level -/

/-- the two stacks have the same height, and where they are empty the current object is the result -/
def Parallel (s : YamlState D) : Prop :=
  s.indentStack.length = s.objectStack.length ∧ (s.indentStack = [] → s.currentObject = [])

theorem popWhile_parallel (indent : Nat) {indents : List Nat} {objects : List (List Str)}
    {current : List Str} (hlen : indents.length = objects.length)
    (hroot : indents = [] → current = []) :
    (popWhile indent indents objects current).1.length
        = (popWhile indent indents objects current).2.1.length ∧
      ((popWhile indent indents objects current).1 = [] →
        (popWhile indent indents objects current).2.2 = []) ∧
      (indent = 0 → (popWhile indent indents objects current).1 = []) := by
  induction indents generalizing objects current with
  | nil =>
    cases objects with
    | nil => exact ⟨rfl, hroot, fun _ => rfl⟩
    | cons o objects => cases hlen
  | cons i indents ih =>
    cases objects with
    | nil => cases hlen
    | cons o objects =>
      unfold popWhile
      split
      · refine ih (Nat.succ.inj hlen) ?_
        rintro rfl
        rw [List.eq_nil_of_length_eq_zero (Nat.succ.inj hlen).symm]
        rfl
      · rename_i hle
        exact ⟨hlen, nofun, fun h => absurd (h ▸ Nat.zero_le i) hle⟩

theorem Parallel.dedent (h : Parallel s) (indent : Nat) : Parallel (dedent indent s) := by
  obtain ⟨h1, h2, -⟩ := popWhile_parallel indent h.1 h.2
  exact ⟨h1, h2⟩

theorem Parallel.dedent_zero (h : Parallel s) : ConfigLoader.dedent 0 s = { result := s.result } := by
  obtain ⟨h1, h2, h3⟩ := popWhile_parallel 0 h.1 h.2
  have hi := h3 rfl
  have ho := List.eq_nil_of_length_eq_zero (h1.symm.trans (congrArg List.length hi))
  unfold ConfigLoader.dedent
  dsimp only
  rw [hi, ho, h2 hi]

theorem openObject_eq_some {indent : Nat} {key : Str} {t : YamlState D}
    (h : openObject indent key s = some t) :
    ∃ result, s.result.update s.currentObject (Json.set key (.object [])) = some result ∧
      t = ⟨result, s.currentObject ++ [key], s.currentObject :: s.objectStack,
        indent :: s.indentStack⟩ := by
  obtain ⟨result, hr, ht⟩ := Option.bind_eq_some_iff.mp h
  exact ⟨result, hr, (Option.some.inj ht).symm⟩

theorem assign_eq_some {key : Str} {value : Json D} {t : YamlState D}
    (h : assign key value s = some t) :
    ∃ result, s.result.update s.currentObject (Json.set key value) = some result ∧
      t = { s with result } := by
  obtain ⟨result, hr, ht⟩ := Option.bind_eq_some_iff.mp h
  exact ⟨result, hr, (Option.some.inj ht).symm⟩

theorem Parallel.readLine (h : Parallel s) {l : Str} {t : YamlState D}
    (ht : ConfigLoader.readLine stod s l = some t) : Parallel t := by
  unfold ConfigLoader.readLine at ht
  split at ht
  · cases ht
    exact h
  · have hd := h.dedent (indentOf l)
    dsimp only at ht
    split at ht
    · split at ht
      · obtain ⟨result, -, rfl⟩ := openObject_eq_some ht
        exact ⟨congrArg Nat.succ hd.1, nofun⟩
      · obtain ⟨result, -, rfl⟩ := assign_eq_some ht
        exact hd
    · cases ht
      exact hd

theorem Parallel.runLines (h : Parallel s) {ls : List Str} {t : YamlState D}
    (ht : Logging.runLines stod s ls = some t) : Parallel t := by
  induction ls generalizing s with
  | nil =>
    cases ht
    exact h
  | cons l ls ih =>
    rw [runLines_cons, Option.bind_eq_some_iff] at ht
    obtain ⟨u, hu, ht⟩ := ht
    exact ih (h.readLine hu) ht

/-- by induction on the entries: each of them starts with an empty stack -/
theorem read_root {b : Block} (hw : b.WellFormed) (ht : b.tameAt false = true) (hs : Parallel s) :
    (runLines stod s (b.lines 0)).map (·.result) = b.addTo s.result := by
  induction b generalizing s with
  | empty => rfl
  | leaf key value rest ih =>
    obtain ⟨hk, -, hv, hrest⟩ := hw
    show (runLines stod s (keyLine 0 key (32 :: value.text) :: rest.lines 0)).map _
      = (Json.set key value.toJson s.result).bind rest.addTo
    rw [runLines_leaf hk hv, hs.dedent_zero, Option.map_bind]
    show ((Json.set key value.toJson s.result).bind _).bind _ = _
    cases hu : Json.set key value.toJson s.result with
    | none => rfl
    | some result => exact ih hrest ht (s := { result }) ⟨rfl, fun _ => rfl⟩
  | mapping key entries rest _ ihr =>
    obtain ⟨hk, -, hentries, hrest⟩ := hw
    obtain ⟨hte, htr⟩ := Bool.and_eq_true_iff.mp ht
    show (runLines stod s (keyLine 0 key [] :: (entries.lines 1 ++ rest.lines 0))).map _
      = (Json.set key (.object (entries.fields [])) s.result).bind rest.addTo
    rw [runLines_mapping hk, hs.dedent_zero, Option.map_bind, ← set_update]
    show ((Json.set key (.object []) s.result).bind _).bind _ = _
    cases hu : Json.set key (.object []) s.result with
    | none => rfl
    | some result =>
      have hinner : (runLines stod ⟨result, [key], [[]], [0]⟩ (entries.lines 1)).map (·.result)
          = Json.update [key] entries.addTo result :=
        read_inner hentries hte 1 (fun i hi => by cases hi; omega) (Json.update_of_set hu)
      show (runLines stod ⟨result, [key], [[]], [0]⟩ (entries.lines 1 ++ rest.lines 0)).map _
        = (Json.update [key] entries.addTo result).bind rest.addTo
      rw [← hinner, runLines_append, Option.map_bind]
      cases hr : runLines stod (⟨result, [key], [[]], [0]⟩ : YamlState D) (entries.lines 1) with
      | none => rfl
      | some t =>
        exact ihr hrest htr (Parallel.runLines (s := ⟨result, [key], [[]], [0]⟩) ⟨rfl, nofun⟩ hr)

/-! ## depths -/

/-- the stacks at the level `d`: of the object that holds the entries of a level, the depth is at
most that level -/
inductive Stacked : Nat → List Nat → List (List Str) → Prop
  | nil : Stacked 0 [] []
  | cons {d : Nat} {indents : List Nat} {objects : List (List Str)} {o : List Str}
      (h : Stacked d indents objects) (ho : o.length ≤ d) :
    Stacked (d + 1) (2 * d :: indents) (o :: objects)

/-- a line of the level `d` comes next; `after` says that it follows a nested mapping, so that it
closes objects -/
def At (d : Nat) (after : Bool) (s : YamlState D) : Prop :=
  ∃ upper uppers indents objects, s.indentStack = upper ++ indents ∧
    s.objectStack = uppers ++ objects ∧ upper.length = uppers.length ∧ (∀ i ∈ upper, 2 * d ≤ i) ∧
    Stacked d indents objects ∧
    if after then upper ≠ [] else upper = [] ∧ s.currentObject.length ≤ d

section
variable {d : Nat} {indents upper : List Nat} {objects uppers : List (List Str)}

theorem Stacked.popWhile (h : Stacked d indents objects) (current : List Str) :
    ConfigLoader.popWhile (2 * d) indents objects current = (indents, objects, current) := by
  cases h with
  | nil => rfl
  | @cons d _ _ _ h ho => rw [ConfigLoader.popWhile, if_neg (by omega)]

theorem Stacked.head_length (h : Stacked d indents objects) :
    (objects.head?.getD []).length ≤ d - 1 := by
  cases h with
  | nil => exact Nat.le_refl 0
  | cons h ho => exact ho

/-- the objects above are closed, and the current object is one too far up -/
theorem Stacked.popWhile_append (h : Stacked d indents objects) (hlen : upper.length = uppers.length)
    (hge : ∀ i ∈ upper, 2 * d ≤ i) (hne : upper ≠ []) (current : List Str) :
    ConfigLoader.popWhile (2 * d) (upper ++ indents) (uppers ++ objects) current
      = (indents, objects, objects.head?.getD []) := by
  induction upper generalizing uppers current with
  | nil => exact absurd rfl hne
  | cons i upper ih =>
    cases uppers with
    | nil => cases hlen
    | cons o uppers =>
      rw [List.cons_append, List.cons_append, ConfigLoader.popWhile,
        if_pos (hge i List.mem_cons_self)]
      cases upper with
      | nil =>
        rw [List.eq_nil_of_length_eq_zero (Nat.succ.inj hlen).symm]
        exact h.popWhile _
      | cons j upper =>
        exact ih (Nat.succ.inj hlen) (fun i hi => hge i (List.mem_cons_of_mem _ hi))
          (List.cons_ne_nil _ _) _

end

theorem At.dedent {d : Nat} {after : Bool} (h : At d after s) :
    Stacked d (dedent (2 * d) s).indentStack (dedent (2 * d) s).objectStack ∧
      (dedent (2 * d) s).currentObject.length ≤ d ∧
      (after = true → 0 < d → (dedent (2 * d) s).currentObject.length < d) := by
  obtain ⟨upper, uppers, indents, objects, hi, ho, hlen, hge, hst, hafter⟩ := h
  unfold ConfigLoader.dedent
  rw [hi, ho]
  cases after with
  | false =>
    obtain ⟨rfl, hcur⟩ := hafter
    rw [List.eq_nil_of_length_eq_zero hlen.symm, List.nil_append, List.nil_append, hst.popWhile]
    exact ⟨hst, hcur, nofun⟩
  | true =>
    rw [hst.popWhile_append hlen hge hafter]
    have := hst.head_length
    exact ⟨hst, by dsimp only; omega, fun _ _ => by dsimp only; omega⟩

theorem Stacked.at {d : Nat} (h : Stacked d s.indentStack s.objectStack)
    (hcur : s.currentObject.length ≤ d) : At d false s :=
  ⟨[], [], _, _, rfl, rfl, rfl, nofun, h, rfl, hcur⟩

/-- a nested mapping has ended -/
theorem At.close {d : Nat} {after : Bool} (h : At (d + 1) after s) : At d true s := by
  obtain ⟨upper, uppers, indents, objects, hi, ho, hlen, hge, hst, -⟩ := h
  cases hst with
  | @cons d indents objects o hst hol =>
    refine ⟨upper ++ [2 * d], uppers ++ [o], indents, objects, ?_, ?_, ?_, ?_, hst, ?_⟩
    · rw [hi, List.append_assoc, List.singleton_append]
    · rw [ho, List.append_assoc, List.singleton_append]
    · rw [List.length_append, List.length_append, hlen]
      rfl
    · intro i hm
      rcases List.mem_append.mp hm with hm | hm
      · have := hge i hm
        omega
      · rw [List.mem_singleton.mp hm]
    · exact List.append_ne_nil_of_right_ne_nil _ (List.cons_ne_nil _ _)

/-- one line with a leaf -/
theorem At.leaf {key : Str} {value : Leaf} {ls : List Str} {d : Nat} {after : Bool}
    {t : YamlState D} (hs : At d after s) (hk : IsKey key) (hv : value.WellFormed)
    (ht : runLines stod s (keyLine d key (32 :: value.text) :: ls) = some t) :
    ∃ u, runLines stod u ls = some t ∧ At d false u ∧
      u.result.depthSum 0 ≤ s.result.depthSum 0 + (d + 1) ∧
      (after = true → 0 < d → u.result.depthSum 0 < s.result.depthSum 0 + (d + 1)) := by
  obtain ⟨hst, hcur, hless⟩ := hs.dedent
  rw [runLines_leaf hk hv, Option.bind_eq_some_iff] at ht
  obtain ⟨u, hu, ht⟩ := ht
  obtain ⟨result, hr, rfl⟩ := assign_eq_some hu
  have hset : result.depthSum 0 ≤ s.result.depthSum 0 + (0 + _ + 1) :=
    Json.depthSum_update_set 0 (leaf_depthSum value) hr
  refine ⟨_, ht, Stacked.at hst hcur, ?_, fun ha hd => ?_⟩
  · dsimp only
    omega
  · have := hless ha hd
    dsimp only
    omega

/-- one line that opens a mapping -/
theorem At.mapping {key : Str} {ls : List Str} {d : Nat} {after : Bool} {t : YamlState D}
    (hs : At d after s) (hk : IsKey key) (ht : runLines stod s (keyLine d key [] :: ls) = some t) :
    ∃ u, runLines stod u ls = some t ∧ At (d + 1) false u ∧
      u.result.depthSum 0 ≤ s.result.depthSum 0 + (d + 1) ∧
      (after = true → 0 < d → u.result.depthSum 0 < s.result.depthSum 0 + (d + 1)) := by
  obtain ⟨hst, hcur, hless⟩ := hs.dedent
  rw [runLines_mapping hk, Option.bind_eq_some_iff] at ht
  obtain ⟨u, hu, ht⟩ := ht
  obtain ⟨result, hr, rfl⟩ := openObject_eq_some hu
  have hset : result.depthSum 0 ≤ s.result.depthSum 0 + (0 + _ + 1) :=
    Json.depthSum_update_set 0 (fun _ => rfl) hr
  refine ⟨_, ht, Stacked.at (hst.cons hcur) (by simp; omega), ?_, fun ha hd => ?_⟩
  · dsimp only
    omega
  · have := hless ha hd
    dsimp only
    omega

/-- **No entry gets deeper than it should**, and one that is displaced does not get as deep.  By
induction on the entries. -/
theorem run_depth {b : Block} (hw : b.WellFormed) {d : Nat} {after : Bool} {t : YamlState D}
    (hs : At d after s) (ht : runLines stod s (b.lines d) = some t) :
    (∃ after, At d after t) ∧ t.result.depthSum 0 ≤ s.result.depthSum 0 + b.depthSum d ∧
      (b.tameAt (decide (0 < d)) = false ∨ (after = true ∧ 0 < d ∧ b ≠ .empty) →
        t.result.depthSum 0 < s.result.depthSum 0 + b.depthSum d) := by
  induction b generalizing s d after t with
  | empty =>
    cases ht
    refine ⟨⟨after, hs⟩, Nat.le_refl _, ?_⟩
    rintro (h | ⟨-, -, h⟩)
    · cases h
    · exact absurd rfl h
  | leaf key value rest ih =>
    obtain ⟨hk, -, hv, hrest⟩ := hw
    obtain ⟨u, hrun, hat, hset, hless⟩ := hs.leaf hk hv ht
    obtain ⟨hend, hle, hlt⟩ := ih hrest hat hrun
    simp only [Block.depthSum]
    refine ⟨hend, by omega, ?_⟩
    rintro (hbad | ⟨ha, hd, -⟩)
    · have := hlt (.inl hbad)
      omega
    · have := hless ha hd
      omega
  | mapping key entries rest ihe ihr =>
    obtain ⟨hk, -, hentries, hrest⟩ := hw
    obtain ⟨u, hrun, hat, hset, hless⟩ := hs.mapping hk ht
    rw [runLines_append, Option.bind_eq_some_iff] at hrun
    obtain ⟨v, hv, hrun⟩ := hrun
    obtain ⟨⟨a, hend⟩, hle, hlt⟩ := ihe hentries hat hv
    obtain ⟨hend', hle', hlt'⟩ := ihr hrest hend.close hrun
    simp only [Block.depthSum]
    refine ⟨hend', by omega, ?_⟩
    rintro (hbad | ⟨ha, hd, -⟩)
    · -- within the nested mapping, or behind it
      simp only [Block.tameAt, Bool.and_eq_false_iff] at hbad
      rcases hbad with hbad | hbad
      · have := hlt (.inl (by rw [decide_eq_true (Nat.succ_pos d)]; exact hbad))
        omega
      · by_cases hd : 0 < d
        · rw [decide_eq_true hd, if_pos rfl, beq_eq_false_iff_ne] at hbad
          have := hlt' (.inr ⟨rfl, hd, hbad⟩)
          omega
        · rw [decide_eq_false hd, if_neg Bool.false_ne_true] at hbad
          have := hlt' (.inl (by rw [decide_eq_false hd]; exact hbad))
          omega
    · have := hless ha hd
      omega

/-- one entry more, with a key that neither the object nor the rest of the entries has -/
theorem setField_fresh {key : Str} {keys : List Str} {fs : Json.Fields D} (d : Nat) (value : Json D)
    (hfresh : ∀ k ∈ key :: keys, k ∉ fs.map (·.1)) (hkey : key ∉ keys) :
    Json.depthSumFields d (Json.setField key value fs)
        = Json.depthSumFields d fs + (d + 1) + value.depthSum (d + 1) ∧
      ∀ k ∈ keys, k ∉ (Json.setField key value fs).map (·.1) := by
  refine ⟨Json.depthSum_insert d ?_ value, fun k hk hm => ?_⟩
  · cases hf : Json.findField key fs with
    | none => rfl
    | some v =>
      exact absurd (List.mem_map_of_mem (Json.findField_mem hf)) (hfresh key List.mem_cons_self)
  · obtain ⟨f, hf, rfl⟩ := List.mem_map.mp hm
    rcases Json.mem_setField hf with rfl | hf
    · exact hkey hk
    · exact hfresh f.1 (List.mem_cons_of_mem _ hk) (List.mem_map_of_mem hf)

theorem fields_depthSum {b : Block} (hw : b.WellFormed) (d : Nat) {fs : Json.Fields D}
    (hfresh : ∀ key ∈ b.keys, key ∉ fs.map (·.1)) :
    Json.depthSumFields d (b.fields fs) = Json.depthSumFields d fs + b.depthSum d := by
  induction b generalizing d fs with
  | empty => rfl
  | leaf key value rest ih =>
    obtain ⟨-, hkey, -, hrest⟩ := hw
    obtain ⟨hsum, hnext⟩ := setField_fresh d value.toJson hfresh hkey
    rw [leaf_depthSum] at hsum
    rw [Block.fields, ih hrest d hnext, hsum, Block.depthSum]
    omega
  | mapping key entries rest ihe ihr =>
    obtain ⟨-, hkey, hentries, hrest⟩ := hw
    obtain ⟨hsum, hnext⟩ := setField_fresh d (.object (entries.fields [])) hfresh hkey
    have hinner : (Json.object (entries.fields []) : Json D).depthSum (d + 1)
        = entries.depthSum (d + 1) := by
      rw [Json.depthSum, ihe hentries (d + 1) (fun _ _ => List.not_mem_nil), Json.depthSumFields,
        Nat.zero_add]
    rw [hinner] at hsum
    rw [Block.fields, ihr hrest d hnext, hsum, Block.depthSum]
    omega

end

/-! ## the tree -/

/-- **When the reader keeps the tree** of a well-formed mapping: exactly if no mapping below the top
level has an entry that follows a nested mapping. -/
theorem yaml_tree_iff {D : Type} (stod : Str → Except ParseError D) (b : Block) (hne : b ≠ .empty)
    (hw : b.WellFormed) : yamlToJson stod b.text = some b.toJson ↔ b.tame = true := by
  rw [yamlToJson_text hw]
  constructor
  · intro h
    by_contra ht
    obtain ⟨t, hrun, hresult⟩ := Option.map_eq_some_iff.mp h
    have hstart : At 0 false ({} : YamlState D) := Stacked.at .nil (Nat.le_refl 0)
    have hlt := (run_depth hw hstart hrun).2.2 (.inl (Bool.eq_false_of_not_eq_true ht))
    have hsum : (b.toJson : Json D).depthSum 0 = b.depthSum 0 := by
      rw [Block.toJson, Json.depthSum, fields_depthSum hw 0 (fun _ _ => List.not_mem_nil), Json.depthSumFields,
        Nat.zero_add]
    rw [hresult, hsum] at hlt
    exact absurd hlt (by simp [Json.depthSum])
  · intro ht
    have hroot : (runLines stod {} (b.lines 0)).map (·.result) = b.addTo .null :=
      read_root hw ht ⟨rfl, fun _ => rfl⟩
    rw [hroot, addTo_null hne]

/-- `a` holds a mapping `b`, and then `y` -/
def sampleBlock : Block :=
  .mapping (str "a") (.mapping (str "b") (.leaf (str "x") (.natural 1) .empty)
    (.leaf (str "y") (.natural 2) .empty)) .empty

theorem sampleBlock_wellFormed : sampleBlock.WellFormed := by
  refine ⟨isKey_singleton rfl, nofun, ⟨isKey_singleton rfl, ?_,
    ⟨isKey_singleton rfl, nofun, ?_, trivial⟩, isKey_singleton rfl, nofun, ?_, trivial⟩, trivial⟩
  · decide
  · show 1 < 2^63
    decide
  · show 2 < 2^63
    decide

theorem yaml_tree_sample :
    yamlToJson (fun _ => .error .invalidArgument : Str → Except ParseError Unit) sampleBlock.text
      = some sampleBlock.toJson ↔ sampleBlock.tame = true :=
  yaml_tree_iff _ sampleBlock (by decide) sampleBlock_wellFormed

/-- `y` becomes a neighbour of `a` -/
theorem displaced_entry :
    sampleBlock.text = str "a:\n  b:\n    x: 1\n  y: 2\n" ∧
    yamlToJson (fun _ => .error .invalidArgument : Str → Except ParseError Unit) sampleBlock.text
      = some (.object [(str "a", .object [(str "b", .object [(str "x", .integer 1)])]),
          (str "y", .integer 2)]) ∧
    (sampleBlock.toJson : Json Unit)
      = .object [(str "a", .object [(str "b", .object [(str "x", .integer 1)]),
          (str "y", .integer 2)])] :=
  ⟨by decide +kernel, rfl, rfl⟩

end Logging
end ChainForge
