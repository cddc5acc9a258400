import ChainForge.Logging.ConfigLoader

/-!
# YAML block mappings

A block mapping (`Block`) is written with two more blanks of indentation per level, a key and a
colon on each line, and a leaf behind the colon: a double-quoted string, a boolean or a number.

* `parseScalar_leaf`    the reader of the logging configuration reads a leaf back;
* `yamlToJson_text`     the reader goes through the lines of the mapping;
* `runLines_leaf`, `runLines_mapping`   what it does with the two kinds of lines.
-/

set_option linter.unusedSectionVars false

namespace ChainForge
namespace Logging
open Text ConfigLoader

/-! ## block mappings -/

inductive Leaf where
  | quoted (s : Str)
  | boolean (b : Bool)
  | natural (n : Nat)
  deriving DecidableEq, Repr

/-- the entries of a mapping, in the order in which they are written -/
inductive Block where
  | empty
  | leaf (key : Str) (value : Leaf) (rest : Block)
  | mapping (key : Str) (entries rest : Block)
  deriving DecidableEq, Repr

namespace Leaf

def text : Leaf → Str
  | quoted s => 34 :: (s ++ [34])
  | boolean true => str "true"
  | boolean false => str "false"
  | natural n => toDecimal n

def toJson {D : Type} : Leaf → Json D
  | quoted s => .string s
  | boolean b => .boolean b
  | natural n => .integer n

/-- strings on one line, numbers below `2^63` -/
def WellFormed : Leaf → Prop
  | quoted s => 10 ∉ s
  | boolean _ => True
  | natural n => n < 2^63

end Leaf

namespace Block

def lines (level : Nat) : Block → List Str
  | empty => []
  | leaf key value rest => keyLine level key (32 :: value.text) :: lines level rest
  | mapping key entries rest =>
    keyLine level key [] :: (lines (level + 1) entries ++ lines level rest)

def text (b : Block) : Str := (b.lines 0).flatMap (· ++ [10])

def keys : Block → List Str
  | empty => []
  | leaf key _ rest => key :: rest.keys
  | mapping key _ rest => key :: rest.keys

/-- the object with these entries, added to those of `fs` -/
def fields {D : Type} : Block → Json.Fields D → Json.Fields D
  | empty, fs => fs
  | leaf key value rest, fs => rest.fields (Json.setField key value.toJson fs)
  | mapping key entries rest, fs =>
    rest.fields (Json.setField key (.object (entries.fields [])) fs)

def toJson {D : Type} (b : Block) : Json D := .object (b.fields [])

/-- distinct keys in each mapping -/
def WellFormed : Block → Prop
  | empty => True
  | leaf key value rest => IsKey key ∧ key ∉ rest.keys ∧ value.WellFormed ∧ rest.WellFormed
  | mapping key entries rest =>
    IsKey key ∧ key ∉ rest.keys ∧ entries.WellFormed ∧ rest.WellFormed

/-- no entry of a mapping that is nested itself follows a nested mapping -/
def tameAt : Bool → Block → Bool
  | _, empty => true
  | nested, leaf _ _ rest => rest.tameAt nested
  | nested, mapping _ entries rest =>
    entries.tameAt true && (if nested then rest == empty else rest.tameAt false)

def tame (b : Block) : Bool := b.tameAt false

/-- the sum of the depths of the entries -/
def depthSum (d : Nat) : Block → Nat
  | empty => 0
  | leaf _ _ rest => d + 1 + rest.depthSum d
  | mapping _ entries rest => d + 1 + entries.depthSum (d + 1) + rest.depthSum d

end Block

/-! ## leaves -/

section
variable {value : Leaf}

theorem leaf_sharp (value : Leaf) : Sharp value.text ∧ value.text ≠ [] := by
  cases value with
  | quoted s =>
    refine ⟨⟨?_, ?_⟩, List.cons_ne_nil _ _⟩
    · intro c hc
      cases hc
      rfl
    · intro c hc
      have hlast : (Leaf.quoted s).text.getLast? = some 34 := by
        show (34 :: (s ++ [34])).getLast? = _
        rw [← List.cons_append, List.getLast?_concat]
      rw [hlast] at hc
      cases hc
      rfl
  | boolean b =>
    cases b with
    | true => exact ⟨by unfold Sharp; decide +kernel, by decide⟩
    | false => exact ⟨by unfold Sharp; decide +kernel, by decide⟩
  | natural n =>
    have hd : ∀ c ∈ toDecimal n, isBlank c = false := by
      intro c hc
      have := toDecimal_isDigit n c hc
      exact (isWord_not (by unfold isWord; rw [this]; rfl)).1
    exact ⟨⟨fun c hc => hd c (List.mem_of_mem_head? hc),
      fun c hc => hd c (List.mem_of_mem_getLast? hc)⟩, toDecimal_ne_nil n⟩

theorem leaf_line (hv : value.WellFormed) : 10 ∉ value.text := by
  cases value with
  | quoted s =>
    have hs : 10 ∉ s := hv
    simp [Leaf.text, hs]
  | boolean b => cases b <;> decide
  | natural n => exact fun h => absurd (toDecimal_isDigit n 10 h) (by decide)

theorem parseScalar_leaf {D : Type} (stod : Str → Except ParseError D) (hv : value.WellFormed) :
    parseScalar stod value.text = value.toJson := by
  cases value with
  | quoted s =>
    have hlast : (34 :: (s ++ [34])).getLast? = some (34 : UInt8) := by
      rw [← List.cons_append, List.getLast?_concat]
    have hinner : ((34 :: (s ++ [34])).drop 1).take ((34 :: (s ++ [34])).length - 2) = s := by
      simp
    unfold parseScalar Leaf.text
    rw [hlast, hinner]
    rfl
  | boolean b => cases b <;> rfl
  | natural n =>
    have hfree : ∀ c, isDigit c = false → c ∉ toDecimal n := by
      intro c hc hm
      rw [toDecimal_isDigit n c hm] at hc
      cases hc
    have hhead : ∀ c, isDigit c = false → ((toDecimal n).head? == some c) = false := by
      intro c hc
      rw [beq_eq_false_iff_ne]
      exact fun h => hfree c hc (List.mem_of_mem_head? h)
    have hword : ∀ w : Str, (∃ c ∈ w, isDigit c = false) → toDecimal n ≠ w := by
      rintro w ⟨c, hc, hd⟩ rfl
      exact hfree c hd hc
    have hpoint : ¬ (toDecimal n).contains 46 = true := by
      rw [List.contains_iff_mem]
      exact hfree 46 (by decide)
    have hn : n < 2^63 := hv
    show parseScalar stod (toDecimal n) = .integer n
    unfold parseScalar
    rw [hhead 34 (by decide), hhead 39 (by decide), Bool.false_and, Bool.false_and, Bool.or_self,
      if_neg Bool.false_ne_true, if_neg (hword _ ⟨116, by decide, by decide⟩),
      if_neg (hword _ ⟨102, by decide, by decide⟩), if_neg (hword _ ⟨110, by decide, by decide⟩),
      if_neg hpoint, stoll_toDecimal hn]

theorem leaf_depthSum {D : Type} (value : Leaf) (d : Nat) :
    Json.depthSum d (value.toJson : Json D) = 0 := by
  cases value <;> rfl

end

/-! ## runs -/

section
variable {D : Type} (stod : Str → Except ParseError D)

def runLines (s : YamlState D) (ls : List Str) : Option (YamlState D) := ls.foldlM (readLine stod) s

variable {stod} {s : YamlState D}

theorem runLines_cons (l : Str) (ls : List Str) :
    runLines stod s (l :: ls) = (readLine stod s l).bind fun t => runLines stod t ls :=
  List.foldlM_cons

theorem runLines_append (ls ms : List Str) :
    runLines stod s (ls ++ ms) = (runLines stod s ls).bind fun t => runLines stod t ms :=
  List.foldlM_append

theorem runLines_leaf {key : Str} {value : Leaf} {level : Nat} (hk : IsKey key)
    (hv : value.WellFormed) (ls : List Str) :
    runLines stod s (keyLine level key (32 :: value.text) :: ls)
      = (assign key value.toJson (dedent (2 * level) s)).bind fun t => runLines stod t ls := by
  obtain ⟨hsharp, hne⟩ := leaf_sharp value
  rw [runLines_cons, read_leafLine stod s hk hsharp hne, parseScalar_leaf stod hv]

theorem runLines_mapping {key : Str} {level : Nat} (hk : IsKey key) (ls : List Str) :
    runLines stod s (keyLine level key [] :: ls)
      = (openObject (2 * level) key (dedent (2 * level) s)).bind fun t => runLines stod t ls := by
  rw [runLines_cons, read_mappingLine stod s hk]

theorem lines_no_newline {b : Block} (hw : b.WellFormed) (level : Nat) :
    ∀ l ∈ b.lines level, 10 ∉ l := by
  induction b generalizing level with
  | empty => exact nofun
  | leaf key value rest ih =>
    obtain ⟨hk, -, hv, hrest⟩ := hw
    intro l hl
    rcases List.mem_cons.mp hl with rfl | hl
    · refine keyLine_oneLine level hk ?_
      rw [List.mem_cons, not_or]
      exact ⟨by decide, leaf_line hv⟩
    · exact ih hrest level l hl
  | mapping key entries rest ihe ihr =>
    obtain ⟨hk, -, hentries, hrest⟩ := hw
    intro l hl
    rcases List.mem_cons.mp hl with rfl | hl
    · exact keyLine_oneLine level hk nofun
    · rcases List.mem_append.mp hl with hl | hl
      · exact ihe hentries (level + 1) l hl
      · exact ihr hrest level l hl

theorem yamlToJson_text {b : Block} (hw : b.WellFormed) :
    yamlToJson stod b.text = (runLines stod {} (b.lines 0)).map (·.result) := by
  have hlines : (IStream.lines 10 (fun _ => true) ⟨b.text, false, false⟩).1 = b.lines 0 := by
    have h := IStream.lines_append 10 (fun _ => true) (b.lines 0) []
      fun l hl => ⟨lines_no_newline hw 0 l hl, rfl⟩
    rw [List.append_nil] at h
    unfold Block.text
    rw [h]
    exact List.append_nil _
  unfold yamlToJson
  rw [hlines]
  show (runLines stod {} (b.lines 0)).bind _ = _
  cases runLines stod {} (b.lines 0) <;> rfl

end

end Logging
end ChainForge
