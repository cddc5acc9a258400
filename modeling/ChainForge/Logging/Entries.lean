import ChainForge.Lib.JsonPaths
import ChainForge.Logging.Yaml

/-!
# The entries of a configuration

Where the reader puts a line does not depend on what it has read: the two stacks and the current
object follow from the indentation, the keys and the colons of the lines alone.

* `Layout.read`        what a line does to them, and the entry that it makes;
* `entries`            the entries of a text, each with its place;
* `Standing.readLine`, `Standing.run`   the reader never fails, for the object it writes to is always
                       there, and what stands at a place of its result is the entry in force there;
* `yamlToJson_eq_iff`  **two texts are read alike exactly if the same entries are in force in them**.
-/

set_option linter.unusedSectionVars false

namespace ChainForge
namespace Logging
open Text ConfigLoader

/-- the current object and the stacks of the reader -/
structure Layout where
  currentObject : List Str := []
  objectStack : List (List Str) := []
  indentStack : List Nat := []

/-- a place in the result, and the value that is put there -/
abbrev Placed (D : Type) := List Str × Json D

def linesOf (text : Str) : List Str := (IStream.lines 10 (fun _ => true) ⟨text, false, false⟩).1

namespace Layout

def dedent (indent : Nat) (l : Layout) : Layout :=
  let (indentStack, objectStack, currentObject) :=
    popWhile indent l.indentStack l.objectStack l.currentObject
  ⟨currentObject, objectStack, indentStack⟩

section
variable {D : Type} (stod : Str → Except ParseError D)

def read (l : Layout) (line : Str) : Layout × Option (Placed D) :=
  if isSkipped line then (l, none)
  else
    let indent := indentOf line
    let line := line.dropWhile isBlank
    let l := l.dedent indent
    match line.idxOf? 58 with
    | some colonPos =>
      let place := l.currentObject ++ [trimBlank (line.take colonPos)]
      let value := trimBlank (line.drop (colonPos + 1))
      if value.isEmpty then
        (⟨place, l.currentObject :: l.objectStack, indent :: l.indentStack⟩, some (place, .object []))
      else (l, some (place, parseScalar stod value))
    | none => (l, none)

end

end Layout

/-- the entries of the lines, from a layout on -/
def entries {D : Type} (stod : Str → Except ParseError D) (l : Layout) : List Str → List (Placed D)
  | [] => []
  | line :: lines => (l.read stod line).2.toList ++ entries stod (l.read stod line).1 lines

def YamlState.layout {D : Type} (s : YamlState D) : Layout :=
  ⟨s.currentObject, s.objectStack, s.indentStack⟩

section
variable {D : Type} {stod : Str → Except ParseError D} {s : YamlState D} {es : List (Placed D)}

/-! ## the reader writes entries -/

/-- the result after the entries `es`: what stands in it are the entries in force, and the objects on
the way to the current one, among them those of the stack, are there -/
structure Standing (s : YamlState D) (es : List (Placed D)) : Prop where
  canonical : s.result.Canonical
  current : Json.faceAt s.currentObject s.result = some (.object []) ∨
    s.currentObject = [] ∧ s.result = .null
  stack : (s.currentObject :: s.objectStack).Pairwise fun p q => q <+: p
  places : ∀ e ∈ es, e.1 ≠ []
  root : s.result.face = if es.isEmpty then .null else .object []
  faces : ∀ name q v, Json.faceAt (name :: q) s.result = some v ↔ (name :: q, v) ∈ inForce es

theorem standing_start : Standing ({} : YamlState D) [] where
  canonical := .leaf nofun
  current := .inr ⟨rfl, rfl⟩
  stack := List.pairwise_singleton _ _
  places := nofun
  root := rfl
  faces := fun _ _ _ => ⟨nofun, nofun⟩

/-- closing objects goes up on the way to the current one -/
theorem popWhile_way (indent : Nat) (indents : List Nat) {objects : List (List Str)}
    {current : List Str} (h : (current :: objects).Pairwise fun p q => q <+: p) :
    ((popWhile indent indents objects current).2.2 ::
        (popWhile indent indents objects current).2.1).Pairwise (fun p q => q <+: p) ∧
      (popWhile indent indents objects current).2.2 <+: current := by
  induction indents generalizing objects current with
  | nil => exact ⟨by unfold popWhile; exact h, by unfold popWhile; exact List.prefix_rfl⟩
  | cons i indents ih =>
    cases objects with
    | nil => exact ⟨h, List.prefix_rfl⟩
    | cons o objects =>
      obtain ⟨hcurrent, hstack⟩ := List.pairwise_cons.mp h
      unfold popWhile
      split
      · have hnext : (objects.head?.getD [] :: objects).Pairwise fun p q => q <+: p := by
          refine List.pairwise_cons.mpr ⟨fun q hq => ?_, (List.pairwise_cons.mp hstack).2⟩
          cases objects with
          | nil => cases hq
          | cons p objects =>
            rcases List.mem_cons.mp hq with rfl | hq
            · exact List.prefix_rfl
            · exact (List.pairwise_cons.mp (List.pairwise_cons.mp hstack).2).1 q hq
        obtain ⟨hway, hup⟩ := ih hnext
        refine ⟨hway, hup.trans ?_⟩
        cases objects with
        | nil => exact List.nil_prefix
        | cons p objects => exact hcurrent p (List.mem_cons_of_mem _ List.mem_cons_self)
      · exact ⟨h, List.prefix_rfl⟩

theorem Standing.dedent (h : Standing s es) (indent : Nat) : Standing (dedent indent s) es := by
  obtain ⟨hway, hpop⟩ := popWhile_way indent s.indentStack h.stack
  have hup : (ConfigLoader.dedent indent s).currentObject <+: s.currentObject := hpop
  refine ⟨h.canonical, ?_, hway, h.places, h.root, h.faces⟩
  rcases h.current with hface | ⟨hnil, hnull⟩
  · exact .inl (Json.faceAt_of_prefix hface hup)
  · rw [hnil] at hup
    exact .inr ⟨List.prefix_nil.mp hup, hnull⟩

/-- a value of its own, or an object without fields -/
def Bare (v : Json D) : Prop := (∀ fs, v ≠ .object fs) ∨ v = .object []

theorem Bare.canonical {v : Json D} (h : Bare v) : v.Canonical := by
  rcases h with hleaf | rfl
  · exact .leaf hleaf
  · exact .object .nil fun _ h => absurd h List.not_mem_nil

theorem Bare.faceAt {v : Json D} (h : Bare v) (q : List Str) :
    Json.faceAt q v = if q = [] then some v else none := by
  cases q with
  | nil =>
    rw [if_pos rfl]
    rcases h with hleaf | rfl
    · exact congrArg some (Json.face_leaf hleaf)
    · rfl
  | cons name q =>
    rw [if_neg (List.cons_ne_nil name q)]
    cases v with
    | object fs =>
      obtain h | h := h
      · exact absurd rfl (h fs)
      · cases h
        rfl
    | _ => rfl

theorem parseScalar_bare (value : Str) : Bare (parseScalar stod value) := by
  refine .inl fun fs => ?_
  unfold parseScalar
  repeat' split
  all_goals exact nofun

/-- a field that is set is an entry more -/
theorem stands_concat {j result : Json D} {place : List Str} {key : Str} {v : Json D} (hv : Bare v)
    (hold : ∀ name q w, Json.faceAt (name :: q) j = some w ↔ (name :: q, w) ∈ inForce es)
    (hnew : ∀ name q, Json.faceAt (name :: q) result = if place ++ [key] <+: name :: q
      then Json.faceAt (q.drop place.length) v else Json.faceAt (name :: q) j)
    (name : Str) (q : List Str) (w : Json D) :
    Json.faceAt (name :: q) result = some w ↔
      (name :: q, w) ∈ inForce (es ++ [(place ++ [key], v)]) := by
  rw [hnew, mem_inForce_concat]
  by_cases hplace : place ++ [key] <+: name :: q
  · -- at the place of the entry its value stands, and below it nothing
    obtain ⟨below, hq⟩ := hplace
    have hbelow : q.drop place.length = below := by
      have hdrop := congrArg (List.drop (place.length + 1)) hq
      rw [List.drop_left' (by simp), List.drop_succ_cons] at hdrop
      exact hdrop.symm
    rw [if_pos ⟨below, hq⟩, hbelow, hv.faceAt]
    constructor
    · intro hw
      split at hw
      · rename_i hnil
        rw [hnil, List.append_nil] at hq
        rw [Option.some.inj hw, hq]
        exact .inl rfl
      · cases hw
    · rintro (he | ⟨hnot, -⟩)
      · obtain ⟨hsame, rfl⟩ := Prod.mk.inj he
        rw [hsame] at hq
        rw [if_pos (List.append_right_eq_self.mp hq)]
      · exact absurd ⟨below, hq⟩ hnot
  · rw [if_neg hplace, hold]
    constructor
    · exact fun hw => .inr ⟨hplace, hw⟩
    · rintro (he | ⟨-, hw⟩)
      · rw [(Prod.mk.inj he).1] at hplace
        exact absurd List.prefix_rfl hplace
      · exact hw

/-- one entry more, in the current object -/
theorem Standing.write (h : Standing s es) (key : Str) {v : Json D} (hv : Bare v) :
    ∃ result, s.result.update s.currentObject (Json.set key v) = some result ∧
      Standing { s with result } (es ++ [(s.currentObject ++ [key], v)]) := by
  obtain ⟨result, hupdate, hcanonical, hface, hfaces⟩ :=
    Json.faceAt_update_set key v h.canonical hv.canonical h.current
  have hcurrent : Json.faceAt s.currentObject result = some (.object []) := by
    cases hc : s.currentObject with
    | nil => exact congrArg some hface
    | cons name q =>
      have hthere := h.current.resolve_right fun hn => List.cons_ne_nil name q (hc ▸ hn.1)
      rw [hc] at hthere
      rw [hfaces, if_neg, hthere]
      intro hle
      rw [hc] at hle
      exact absurd hle.length_le (by simp)
  refine ⟨result, hupdate, hcanonical, .inl hcurrent, h.stack, fun e he => ?_, ?_,
    stands_concat hv h.faces hfaces⟩
  · rcases List.mem_append.mp he with he | he
    · exact h.places e he
    · rw [List.mem_singleton.mp he]
      exact List.append_ne_nil_of_right_ne_nil _ (List.cons_ne_nil _ _)
  · rw [hface, if_neg]
    simp

/-- an object that is opened is there -/
theorem Standing.openObject (h : Standing s es) (indent : Nat) (key : Str) :
    ∃ t, openObject indent key s = some t ∧
      t.layout = ⟨s.currentObject ++ [key], s.currentObject :: s.objectStack,
        indent :: s.indentStack⟩ ∧
      Standing t (es ++ [(s.currentObject ++ [key], .object [])]) := by
  obtain ⟨result, hupdate, hw⟩ := h.write key (v := .object []) (.inr rfl)
  refine ⟨⟨result, s.currentObject ++ [key], s.currentObject :: s.objectStack,
    indent :: s.indentStack⟩, ?_, rfl, hw.canonical, .inl ?_, ?_, hw.places, hw.root, hw.faces⟩
  · unfold ConfigLoader.openObject
    rw [hupdate]
    rfl
  · obtain ⟨name, q, hplace⟩ := List.exists_cons_of_ne_nil
      (List.append_ne_nil_of_right_ne_nil s.currentObject (List.cons_ne_nil key []))
    dsimp only
    rw [hplace]
    refine (hw.faces name q _).mpr ((mem_inForce_concat _ _ _).mpr (.inl ?_))
    rw [hplace]
  · refine List.pairwise_cons.mpr ⟨fun q hq => ?_, h.stack⟩
    rcases List.mem_cons.mp hq with rfl | hq
    · exact List.prefix_append _ _
    · exact ((List.pairwise_cons.mp h.stack).1 q hq).trans (List.prefix_append _ _)

/-- **One line**: the reader does not fail, and the entry of the line is in force after it. -/
theorem Standing.readLine (h : Standing s es) (stod : Str → Except ParseError D) (line : Str) :
    ∃ t, readLine stod s line = some t ∧ t.layout = (s.layout.read stod line).1 ∧
      Standing t (es ++ (s.layout.read stod line).2.toList) := by
  unfold ConfigLoader.readLine Layout.read
  by_cases hskip : isSkipped line = true
  · rw [if_pos hskip, if_pos hskip]
    exact ⟨s, rfl, rfl, by rwa [Option.toList_none, List.append_nil]⟩
  · rw [if_neg hskip, if_neg hskip]
    have hd := h.dedent (indentOf line)
    dsimp only
    cases (line.dropWhile isBlank).idxOf? 58 with
    | none => exact ⟨_, rfl, rfl, by rwa [Option.toList_none, List.append_nil]⟩
    | some colonPos =>
      dsimp only
      by_cases hempty :
          (trimBlank ((line.dropWhile isBlank).drop (colonPos + 1))).isEmpty = true
      · rw [if_pos hempty, if_pos hempty]
        exact hd.openObject (indentOf line) _
      · rw [if_neg hempty, if_neg hempty]
        obtain ⟨result, hupdate, hw⟩ :=
          hd.write (trimBlank ((line.dropWhile isBlank).take colonPos)) (parseScalar_bare _)
        refine ⟨_, ?_, rfl, hw⟩
        unfold assign
        rw [hupdate]
        rfl

/-- **All lines**, by induction on them. -/
theorem Standing.run (h : Standing s es) (stod : Str → Except ParseError D) (lines : List Str) :
    ∃ t, runLines stod s lines = some t ∧ Standing t (es ++ entries stod s.layout lines) := by
  induction lines generalizing s es with
  | nil => exact ⟨s, rfl, by rwa [entries, List.append_nil]⟩
  | cons line lines ih =>
    obtain ⟨t, hread, hlayout, ht⟩ := h.readLine stod line
    obtain ⟨u, hrun, hu⟩ := ih ht
    refine ⟨u, ?_, ?_⟩
    · rw [runLines_cons, hread]
      exact hrun
    · rwa [hlayout, List.append_assoc] at hu

end

end Logging
end ChainForge
