import ChainForge.Lib.Delimited
import ChainForge.Lib.Json

/-!
# The YAML reader of the logging configuration

`ConfigLoader::yaml_to_json` of `modules/logging/src/config_loader.cpp`, on the text of the file.
Pointers into the result are the paths of what they point to; the empty path is the result itself.
`std::stod` is a parameter.

A line `key:` opens an object: the object that holds it is pushed on one stack, its indentation on
the other.  A line that is not indented more than the last such line closes objects: both stacks are
popped, and the current object becomes the NEW top of the object stack, which is one more level up
than the object that was opened last, or the result.

* `yamlToJson`     `none` stands for an exception of the JSON library;
* `read_leafLine`, `read_mappingLine`   what the two kinds of lines do.
-/

set_option linter.unusedSectionVars false

namespace ChainForge
namespace Logging
open Text

/-- `" \t"` -/
def isBlank (c : UInt8) : Bool := c == 32 || c == 9

def trimBlank (s : Str) : Str := ((s.dropWhile isBlank).reverse.dropWhile isBlank).reverse

/-- the variables of the loop; the top of a stack is the head of the list -/
structure YamlState (D : Type) where
  result : Json D := .null
  currentObject : List Str := []
  objectStack : List (List Str) := []
  indentStack : List Nat := []

namespace ConfigLoader

section
variable {D : Type}

/-- empty lines, and lines of blanks and number signs; a comment with a text is not skipped -/
def isSkipped (line : Str) : Bool :=
  line.isEmpty || line.all isBlank || line.all fun c => isBlank c || c == 35

def indentOf (line : Str) : Nat := (line.takeWhile (· == 32)).length

/-- the loop that closes objects: indent stack, object stack and current object after it -/
def popWhile (indent : Nat) :
    List Nat → List (List Str) → List Str → List Nat × List (List Str) × List Str
  | i :: indents, o :: objects, current =>
    if indent ≤ i then popWhile indent indents objects (objects.head?.getD [])
    else (i :: indents, o :: objects, current)
  | indents, objects, current => (indents, objects, current)

def dedent (indent : Nat) (s : YamlState D) : YamlState D :=
  let (indentStack, objectStack, currentObject) :=
    popWhile indent s.indentStack s.objectStack s.currentObject
  { s with indentStack, objectStack, currentObject }

variable (stod : Str → Except ParseError D)

def parseScalar (value : Str) : Json D :=
  if (value.head? == some 34 && value.getLast? == some 34) ||
      (value.head? == some 39 && value.getLast? == some 39) then
    .string ((value.drop 1).take (value.length - 2))
  else if value = str "true" then .boolean true
  else if value = str "false" then .boolean false
  else if value = str "null" then .null
  else if value.contains 46 then
    match stod value with
    | .ok x => .double x
    | .error _ => .string value
  else
    match stoll value with
    | .ok n => .integer n
    | .error _ => .string value

def openObject (indent : Nat) (key : Str) (s : YamlState D) : Option (YamlState D) := do
  let result ← s.result.update s.currentObject (Json.set key (.object []))
  return { result
           currentObject := s.currentObject ++ [key]
           objectStack := s.currentObject :: s.objectStack
           indentStack := indent :: s.indentStack }

def assign (key : Str) (value : Json D) (s : YamlState D) : Option (YamlState D) := do
  let result ← s.result.update s.currentObject (Json.set key value)
  return { s with result }

/-- the body of the loop; a line without a colon still closes objects -/
def readLine (s : YamlState D) (line : Str) : Option (YamlState D) :=
  if isSkipped line then some s
  else
    let indent := indentOf line
    let line := line.dropWhile isBlank
    let s := dedent indent s
    match line.idxOf? 58 with
    | some colonPos =>
      let key := trimBlank (line.take colonPos)
      let value := trimBlank (line.drop (colonPos + 1))
      if value.isEmpty then openObject indent key s else assign key (parseScalar stod value) s
    | none => some s

def yamlToJson (text : Str) : Option (Json D) := do
  let s ← (IStream.lines 10 (fun _ => true) ⟨text, false, false⟩).1.foldlM (readLine stod) {}
  return s.result

end

/-! ## lines of a block mapping -/

/-- letters, digits and underscores -/
def isWord (c : UInt8) : Bool := isDigit c || (65 ≤ c && c ≤ 90) || (97 ≤ c && c ≤ 122) || c == 95

def IsKey (key : Str) : Prop := key ≠ [] ∧ ∀ c ∈ key, isWord c = true

/-- a line for `key` with two blanks for each level, and `rest` behind the colon -/
def keyLine (level : Nat) (key rest : Str) : Str :=
  List.replicate (2 * level) 32 ++ (key ++ 58 :: rest)

/-- neither blank nor empty at its ends -/
def Sharp (value : Str) : Prop :=
  (∀ c ∈ value.head?, isBlank c = false) ∧ ∀ c ∈ value.getLast?, isBlank c = false

section
variable {key rest : Str} {level : Nat}

theorem isWord_not {c : UInt8} (h : isWord c = true) :
    isBlank c = false ∧ c ≠ 32 ∧ c ≠ 35 ∧ c ≠ 58 ∧ c ≠ 10 := by
  have hne : ∀ d, isWord d = false → c ≠ d := by
    rintro d hd rfl
    rw [hd] at h
    cases h
  have h32 : c ≠ 32 := hne 32 (by decide)
  have h9 : c ≠ 9 := hne 9 (by decide)
  refine ⟨?_, h32, hne 35 (by decide), hne 58 (by decide), hne 10 (by decide)⟩
  unfold isBlank
  rw [beq_eq_false_iff_ne.mpr h32, beq_eq_false_iff_ne.mpr h9]
  rfl

theorem trimBlank_eq_self {s : Str} (h : Sharp s) : trimBlank s = s := by
  unfold trimBlank
  rw [dropWhile_eq_self h.1, dropWhile_eq_self, List.reverse_reverse]
  intro c hc
  rw [List.head?_reverse] at hc
  exact h.2 c hc

theorem IsKey.sharp (hk : IsKey key) : Sharp key :=
  ⟨fun c hc => (isWord_not (hk.2 c (List.mem_of_mem_head? hc))).1,
    fun c hc => (isWord_not (hk.2 c (List.mem_of_mem_getLast? hc))).1⟩

theorem isKey_singleton {c : UInt8} (h : isWord c = true) : IsKey [c] := by
  refine ⟨List.cons_ne_nil _ _, fun d hd => ?_⟩
  rw [List.mem_singleton.mp hd]
  exact h

theorem keyLine_oneLine (level : Nat) {rest : Str} (hk : IsKey key) (hrest : 10 ∉ rest) :
    10 ∉ keyLine level key rest := by
  intro hm
  rcases List.mem_append.mp hm with hm | hm
  · exact absurd (List.eq_of_mem_replicate hm) (by decide)
  · refine not_mem_keyed (by decide) ?_ hrest hm
    exact fun hmem => (isWord_not (hk.2 10 hmem)).2.2.2.2 rfl

/-- the third test of the source contains the other two -/
theorem isSkipped_iff (line : Str) :
    isSkipped line = true ↔ ∀ c ∈ line, isBlank c = true ∨ c = 35 := by
  unfold isSkipped
  simp only [Bool.or_eq_true, List.isEmpty_iff, List.all_eq_true, beq_iff_eq]
  constructor
  · rintro ((h | h) | h) c hc
    · rw [h] at hc
      cases hc
    · exact .inl (h c hc)
    · exact h c hc
  · exact .inr

theorem keyLine_parts (level : Nat) (rest : Str) (hk : IsKey key) :
    isSkipped (keyLine level key rest) = false ∧ indentOf (keyLine level key rest) = 2 * level ∧
      (keyLine level key rest).dropWhile isBlank = keyed 58 key rest := by
  obtain ⟨c, k, rfl⟩ := List.exists_cons_of_ne_nil hk.1
  obtain ⟨hblank, h32, h35, -, -⟩ := isWord_not (hk.2 c List.mem_cons_self)
  have hmem : c ∈ keyLine level (c :: k) rest :=
    List.mem_append_right _ (List.mem_append_left _ List.mem_cons_self)
  refine ⟨?_, ?_, ?_⟩
  · rw [← Bool.not_eq_true, isSkipped_iff]
    intro hall
    rcases hall c hmem with h | h
    · rw [hblank] at h
      cases h
    · exact h35 h
  · unfold indentOf keyLine
    rw [List.cons_append, takeWhile_stop, List.length_replicate]
    · intro x hx
      rw [List.eq_of_mem_replicate hx]
      rfl
    · exact beq_eq_false_iff_ne.mpr h32
  · unfold keyLine
    rw [List.cons_append, dropWhile_stop]
    · rfl
    · intro x hx
      rw [List.eq_of_mem_replicate hx]
      rfl
    · exact hblank

variable {D : Type} (stod : Str → Except ParseError D) (s : YamlState D)

theorem readLine_keyLine (hk : IsKey key) :
    readLine stod s (keyLine level key rest) =
      if (trimBlank rest).isEmpty then openObject (2 * level) key (dedent (2 * level) s)
      else assign key (parseScalar stod (trimBlank rest)) (dedent (2 * level) s) := by
  obtain ⟨hskip, hindent, hdrop⟩ := keyLine_parts level rest hk
  obtain ⟨hcolon, hkey, hrest⟩ :=
    split_first (fun h => (isWord_not (hk.2 58 h)).2.2.2.1 rfl) rest
  unfold readLine
  rw [hskip, if_neg Bool.false_ne_true, hindent, hdrop]
  dsimp only
  rw [hcolon]
  dsimp only
  rw [hkey, hrest, trimBlank_eq_self hk.sharp]

theorem read_mappingLine (hk : IsKey key) :
    readLine stod s (keyLine level key []) = openObject (2 * level) key (dedent (2 * level) s) :=
  readLine_keyLine stod s hk

theorem read_leafLine (hk : IsKey key) {value : Str} (hv : Sharp value) (hne : value ≠ []) :
    readLine stod s (keyLine level key (32 :: value))
      = assign key (parseScalar stod value) (dedent (2 * level) s) := by
  have htrim : trimBlank (32 :: value) = value := by
    have hdrop : (32 :: value).dropWhile isBlank = value.dropWhile isBlank := rfl
    unfold trimBlank
    rw [hdrop]
    exact trimBlank_eq_self hv
  rw [readLine_keyLine stod s hk, htrim, if_neg]
  rw [List.isEmpty_iff]
  exact hne

end

end ConfigLoader
end Logging
end ChainForge
