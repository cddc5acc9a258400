import ChainForge.Lib.Hex
import ChainForge.Lib.JsonText
import ChainForge.Lib.Readers

/-!
# A printer and a parser

JSON without floating point numbers.  The printer leaves no blanks, escapes the control characters, the
quote and the backslash, and prints the other bytes as they are; the parser reads such texts.

A number ends where no digit follows, so a value is read from its text only in front of something else.

* `read_render`      **a value is read from its text**;
* `read_printable`   what is read is printable;
* `plainText`        the pair.
-/

set_option linter.unusedSectionVars false

namespace Json
open Text Readers

/-! ## strings -/

/-- the characters with an escape of their own, and its letter -/
def escapes : List (UInt8 × UInt8) :=
  [(8, 98), (9, 116), (10, 110), (12, 102), (13, 114), (34, 34), (92, 92)]

def escape (c : UInt8) : Str :=
  match escapes.find? fun e => e.1 == c with
  | some e => [92, e.2]
  | none =>
    if c < 32 then [92, 117, 48, 48, hexDigit (c.toNat / 16), hexDigit (c.toNat % 16)] else [c]

/-- in quotes -/
def quote (s : Str) : Str := 34 :: ((s.map escape).flatten ++ [34])

/-- four digits, the first of them zeros -/
def readCode : Reader UInt8
  | y :: z :: a :: b :: s =>
    if y = 48 ∧ z = 48 ∧ isHexDigit a ∧ isHexDigit b then
      some (UInt8.ofNat (16 * hexValue a + hexValue b), s)
    else none
  | _ => none

/-- behind a backslash -/
def readEscape : Reader UInt8
  | [] => none
  | letter :: s =>
    if letter = 117 then readCode s
    else (escapes.find? fun e => e.2 == letter).map fun e => (e.1, s)

def readChar : Reader UInt8
  | [] => none
  | c :: s => if c = 92 then readEscape s else if c < 32 then none else some (c, s)

/-- up to the closing quote -/
def readString : Reader Str := fun s =>
  (readList readChar 34 (s.length + 1) s).filter fun p => utf8 p.1

theorem find_letter {e : UInt8 × UInt8} (h : e ∈ escapes) :
    e.2 ≠ 117 ∧ (escapes.find? fun e' => e'.2 == e.2) = some e := by
  have hall : (escapes.all fun e => e.2 != 117 && (escapes.find? fun e' => e'.2 == e.2) == some e)
      = true := by decide
  have he := Bool.and_eq_true_iff.mp (List.all_eq_true.mp hall e h)
  exact ⟨bne_iff_ne.mp he.1, beq_iff_eq.mp he.2⟩

theorem escape_element (c : UInt8) : Element (fun _ => True) readChar 34 (escape c) c := by
  unfold escape
  cases hc : escapes.find? fun e => e.1 == c with
  | some e =>
    have hbyte := List.find?_some hc
    obtain rfl : e.1 = c := beq_iff_eq.mp hbyte
    obtain ⟨hletter, hfind⟩ := find_letter (List.mem_of_find?_eq_some hc)
    refine ⟨⟨92, rfl, by decide⟩, fun _ => trivial, fun rest _ => ?_⟩
    show readEscape (e.2 :: rest) = _
    rw [readEscape, if_neg hletter, hfind]
    rfl
  | none =>
    have hplain : c ≠ 34 ∧ c ≠ 92 := by
      constructor
      · rintro rfl
        cases hc
      · rintro rfl
        cases hc
    dsimp only
    split
    · have hhi : c.toNat / 16 < 16 := by
        have := c.toNat_lt
        omega
      obtain ⟨ha, hva⟩ := hexDigit_spec hhi
      obtain ⟨hb, hvb⟩ := hexDigit_spec (Nat.mod_lt c.toNat (by decide : 16 > 0))
      refine ⟨⟨92, rfl, by decide⟩, fun _ => trivial, fun rest _ => ?_⟩
      show readCode (48 :: 48 :: hexDigit (c.toNat / 16) :: hexDigit (c.toNat % 16) :: rest) = _
      rw [readCode, if_pos ⟨rfl, rfl, ha, hb⟩, hva, hvb, Nat.div_add_mod, UInt8.ofNat_toNat]
    · rename_i hlt
      refine ⟨⟨c, rfl, hplain.1⟩, fun _ => trivial, fun rest _ => ?_⟩
      show readChar (c :: rest) = _
      rw [readChar, if_neg hplain.2, if_neg hlt]

theorem readString_quoted {s : Str} (h : utf8 s = true) (rest : Str) :
    readString ((s.map escape).flatten ++ 34 :: rest) = some (s, rest) := by
  have helements : List.Forall₂ (Element (fun _ => True) readChar 34) (s.map escape) s :=
    List.forall₂_map_left_iff.mpr (List.forall₂_same.mpr fun c _ => escape_element c)
  have hlen : (s.map escape).length < ((s.map escape).flatten ++ 34 :: rest).length + 1 := by
    have := length_le_of_elements helements
    rw [List.length_append]
    omega
  unfold readString
  rw [readList_elements (fun _ => trivial) helements hlen]
  exact Option.filter_some_pos h

theorem readString_utf8 {s text rest : Str} (h : readString text = some (s, rest)) : utf8 s = true :=
  (Option.filter_eq_some_iff.mp h).2

/-! ## integers -/

def leadingInteger (s : Str) : Int :=
  if s.head? = some 45 then -ofDecimal (s.tail.takeWhile isDigit) else ofDecimal (s.takeWhile isDigit)

/-- as many digits as there are -/
def readInteger : Reader Int := fun s =>
  let n := leadingInteger s
  if intToDecimal n <+: s ∧ Word n then some (n, s.drop (intToDecimal n).length) else none

/-- a number ends here -/
def Ends (rest : Str) : Prop := ∀ c ∈ rest.head?, isDigit c = false

theorem ends_cons {c : UInt8} (h : isDigit c = false) (rest : Str) : Ends (c :: rest) := by
  intro d hd
  cases hd
  exact h

theorem ends_nil : Ends [] := nofun

theorem ends_comma (rest : Str) : Ends (44 :: rest) := ends_cons (by decide) rest

theorem takeWhile_digits {ds rest : Str} (hds : ∀ d ∈ ds, isDigit d = true) (hrest : Ends rest) :
    (ds ++ rest).takeWhile isDigit = ds := by
  rw [List.takeWhile_append_of_pos hds]
  cases rest with
  | nil => exact List.append_nil ds
  | cons c rest =>
    rw [List.takeWhile_cons_of_neg (by rw [hrest c rfl]; exact Bool.false_ne_true), List.append_nil]

theorem toDecimal_head (n : Nat) : ∃ d ∈ (toDecimal n).head?, isDigit d = true := by
  obtain ⟨d, ds, hd⟩ := List.exists_cons_of_ne_nil (toDecimal_ne_nil n)
  exact ⟨d, by rw [hd]; rfl, toDecimal_isDigit n d (by rw [hd]; exact List.mem_cons_self)⟩

theorem leadingInteger_text (n : Int) {rest : Str} (hrest : Ends rest) :
    leadingInteger (intToDecimal n ++ rest) = n := by
  unfold leadingInteger intToDecimal
  by_cases hneg : n < 0
  · rw [if_pos hneg, List.cons_append, List.head?_cons, if_pos rfl, List.tail_cons,
      takeWhile_digits (toDecimal_isDigit _) hrest, ofDecimal_toDecimal]
    omega
  · obtain ⟨d, hd, hdigit⟩ := toDecimal_head n.toNat
    have hplus : ¬ (toDecimal n.toNat ++ rest).head? = some 45 := by
      rw [head?_append_of_mem hd]
      rintro ⟨⟩
      cases hdigit
    rw [if_neg hneg, if_neg hplus, takeWhile_digits (toDecimal_isDigit _) hrest, ofDecimal_toDecimal]
    omega

theorem readInteger_text {n : Int} (h : Word n) {rest : Str} (hrest : Ends rest) :
    readInteger (intToDecimal n ++ rest) = some (n, rest) := by
  unfold readInteger
  rw [leadingInteger_text n hrest]
  exact (if_pos ⟨List.prefix_append _ _, h⟩).trans (by rw [List.drop_left])

theorem readInteger_word {n : Int} {s rest : Str} (h : readInteger s = some (n, rest)) : Word n := by
  unfold readInteger at h
  generalize leadingInteger s = m at h
  dsimp only at h
  split at h
  · rename_i hn
    cases h
    exact hn.2
  · cases h

/-! ## values -/

mutual

def render : Json Empty → Str
  | null => str "null"
  | boolean true => str "true"
  | boolean false => str "false"
  | integer n => intToDecimal n
  | double x => x.elim
  | string s => quote s
  | array items => 91 :: bracketed 93 (renderItems items)
  | object fs => 123 :: bracketed 125 (renderFields fs)

def renderItems : List (Json Empty) → List Str
  | [] => []
  | j :: items => render j :: renderItems items

def renderFields : Fields Empty → List Str
  | [] => []
  | (key, v) :: fs => (quote key ++ 58 :: render v) :: renderFields fs

end

/-- a key, a colon and a value -/
def readField (r : Reader (Json Empty)) : Reader (Str × Json Empty) := fun s =>
  if s.head? = some 34 then
    (readString s.tail).bind fun p =>
      if p.2.head? = some 58 then (r p.2.tail).map fun q => ((p.1, q.1), q.2) else none
  else none

/-- the later of two fields with one key counts -/
def objectOf (fs : Fields Empty) : Json Empty :=
  object (fs.foldl (fun gs f => setField f.1 f.2 gs) [])

def literals : List (Str × Json Empty) :=
  [(str "null", null), (str "true", boolean true), (str "false", boolean false)]

def readLiteral : Reader (Json Empty) := fun s =>
  (literals.find? fun l => l.1.isPrefixOf s).map fun l => (l.2, s.drop l.1.length)

/-- with `n` brackets open at most -/
def readValue : Nat → Reader (Json Empty)
  | 0, _ => none
  | n + 1, s =>
    if s.head? = some 34 then (readString s.tail).map fun p => (string p.1, p.2)
    else if s.head? = some 91 then (readMany (readValue n) 93 s.tail).map fun p => (array p.1, p.2)
    else if s.head? = some 123 then
      (readMany (readField (readValue n)) 125 s.tail).map fun p => (objectOf p.1, p.2)
    else if s.head? = some 45 ∨ s.head?.any isDigit then
      (readInteger s).map fun p => (integer p.1, p.2)
    else readLiteral s

/-! ### what is read from a text -/

theorem renderItems_eq (items : List (Json Empty)) : renderItems items = items.map render := by
  induction items with
  | nil => rfl
  | cons j items ih => rw [renderItems, ih, List.map_cons]

theorem renderFields_eq (fs : Fields Empty) :
    renderFields fs = fs.map fun f => quote f.1 ++ 58 :: render f.2 := by
  induction fs with
  | nil => rfl
  | cons f fs ih => rw [renderFields, ih, List.map_cons]

theorem render_head (j : Json Empty) : ∃ c ∈ (render j).head?, c ≠ 93 := by
  have hdigit : ∀ {c : UInt8}, isDigit c = true → c ≠ 93 := by
    rintro c hc rfl
    cases hc
  cases j with
  | null => exact ⟨110, rfl, by decide⟩
  | boolean b =>
    cases b with
    | false => exact ⟨102, rfl, by decide⟩
    | true => exact ⟨116, rfl, by decide⟩
  | integer n =>
    rw [render]
    unfold intToDecimal
    split
    · exact ⟨45, rfl, by decide⟩
    · obtain ⟨d, hd, hdig⟩ := toDecimal_head n.toNat
      exact ⟨d, hd, hdigit hdig⟩
  | double x => exact x.elim
  | string s => exact ⟨34, rfl, by decide⟩
  | array items => exact ⟨91, rfl, by decide⟩
  | object fs => exact ⟨123, rfl, by decide⟩

theorem quote_append (s rest : Str) :
    quote s ++ rest = 34 :: ((s.map escape).flatten ++ 34 :: rest) := by
  rw [quote, List.cons_append, List.append_assoc, List.singleton_append]

theorem readField_text {r : Reader (Json Empty)} {key : Str} {v : Json Empty} (hkey : utf8 key = true)
    (hv : ∀ rest, Ends rest → r (render v ++ rest) = some (v, rest)) (rest : Str) (hrest : Ends rest) :
    readField r ((quote key ++ 58 :: render v) ++ rest) = some ((key, v), rest) := by
  rw [List.append_assoc, quote_append]
  unfold readField
  rw [List.head?_cons, if_pos rfl, List.tail_cons, readString_quoted hkey, Option.bind_some]
  dsimp only
  rw [List.cons_append, List.head?_cons, if_pos rfl, List.tail_cons, hv rest hrest]
  rfl

/-- ordered fields stay as they are when they are set one by one -/
theorem objectOf_sorted {fs : Fields Empty} (h : fs.Pairwise fun f g => f.1 < g.1) :
    objectOf fs = object fs := by
  have hlast : ∀ (gs : Fields Empty) (f : Str × Json Empty), (∀ g ∈ gs, g.1 < f.1) →
      setField f.1 f.2 gs = gs ++ [f] := by
    intro gs f hgs
    induction gs with
    | nil => rfl
    | cons g gs ih =>
      have hg := hgs g List.mem_cons_self
      rw [setField, if_neg (List.lt_asymm hg), if_neg fun e : f.1 = g.1 => List.lt_irrefl g.1 (e ▸ hg),
        ih fun g' hg' => hgs g' (List.mem_cons_of_mem g hg')]
      rfl
  have hfold : ∀ gs : Fields Empty, (gs ++ fs).Pairwise (fun f g => f.1 < g.1) →
      fs.foldl (fun gs f => setField f.1 f.2 gs) gs = gs ++ fs := by
    clear h
    induction fs with
    | nil => exact fun gs _ => (List.append_nil gs).symm
    | cons f fs ih =>
      intro gs hgs
      have hbefore : ∀ g ∈ gs, g.1 < f.1 := fun g hg =>
        (List.pairwise_append.mp hgs).2.2 g hg f List.mem_cons_self
      rw [List.foldl_cons, hlast gs f hbefore, ih _ (by rwa [List.append_assoc]), List.append_assoc]
      rfl
  exact congrArg object (hfold [] h)

theorem readValue_integer {n : Int} (hn : Word n) (fuel : Nat) (rest : Str) (hrest : Ends rest) :
    readValue (fuel + 1) (intToDecimal n ++ rest) = some (integer n, rest) := by
  have hhead : ∃ c, (intToDecimal n ++ rest).head? = some c ∧ (c = 45 ∨ isDigit c = true) := by
    unfold intToDecimal
    split
    · exact ⟨45, rfl, .inl rfl⟩
    · obtain ⟨d, hd, hdigit⟩ := toDecimal_head n.toNat
      exact ⟨d, head?_append_of_mem hd rest, .inr hdigit⟩
  obtain ⟨c, hc, hsign⟩ := hhead
  have hother : ∀ d : UInt8, d ≠ 45 → isDigit d = false → some c ≠ some d := by
    rintro d hd hdigit ⟨⟩
    rcases hsign with h | h
    · exact hd h
    · rw [hdigit] at h
      cases h
  have hnumber : some c = some 45 ∨ (some c).any isDigit = true := hsign.imp (congrArg some) id
  rw [readValue, hc, if_neg (hother 34 (by decide) (by decide)),
    if_neg (hother 91 (by decide) (by decide)), if_neg (hother 123 (by decide) (by decide)),
    if_pos hnumber, readInteger_text hn hrest]
  rfl

theorem readValue_string {s : Str} (h : utf8 s = true) (fuel : Nat) (rest : Str) :
    readValue (fuel + 1) (render (.string s) ++ rest) = some (string s, rest) := by
  show readValue (fuel + 1) (quote s ++ rest) = _
  rw [quote_append, readValue, List.head?_cons, if_pos rfl, List.tail_cons, readString_quoted h]
  rfl

theorem readValue_array {items : List (Json Empty)} {fuel : Nat}
    (h : ∀ j ∈ items, ∀ rest, Ends rest → readValue fuel (render j ++ rest) = some (j, rest))
    (rest : Str) : readValue (fuel + 1) (render (.array items) ++ rest) = some (array items, rest) := by
  have hitems : List.Forall₂ (fun t a => (∃ c ∈ t.head?, c ≠ 93) ∧
      ∀ rest, Ends rest → readValue fuel (t ++ rest) = some (a, rest)) (renderItems items) items := by
    rw [renderItems_eq]
    exact List.forall₂_map_left_iff.mpr (List.forall₂_same.mpr fun j hj => ⟨render_head j, h j hj⟩)
  have hmany := readMany_bracketed ends_comma (ends_cons (by decide)) (by decide) hitems rest
  show readValue (fuel + 1) (91 :: (bracketed 93 (renderItems items) ++ rest)) = _
  rw [readValue, List.head?_cons, if_neg (by decide), if_pos rfl, List.tail_cons, hmany]
  rfl

theorem readValue_object {fs : Fields Empty} (sorted : fs.Pairwise fun f g => f.1 < g.1)
    (keys : ∀ f ∈ fs, utf8 f.1 = true) {fuel : Nat}
    (h : ∀ f ∈ fs, ∀ rest, Ends rest → readValue fuel (render f.2 ++ rest) = some (f.2, rest))
    (rest : Str) : readValue (fuel + 1) (render (.object fs) ++ rest) = some (object fs, rest) := by
  have hfields : List.Forall₂ (fun t a => (∃ c ∈ t.head?, c ≠ 125) ∧
      ∀ rest, Ends rest → readField (readValue fuel) (t ++ rest) = some (a, rest))
      (renderFields fs) fs := by
    rw [renderFields_eq]
    exact List.forall₂_map_left_iff.mpr (List.forall₂_same.mpr fun f hf =>
      ⟨⟨34, rfl, by decide⟩, readField_text (keys f hf) (h f hf)⟩)
  have hmany := readMany_bracketed ends_comma (ends_cons (by decide)) (by decide) hfields rest
  show readValue (fuel + 1) (123 :: (bracketed 125 (renderFields fs) ++ rest)) = _
  rw [readValue, List.head?_cons, if_neg (by decide), if_neg (by decide), if_pos rfl, List.tail_cons,
    hmany, Option.map_some, objectOf_sorted sorted]

/-- no text is empty -/
theorem exists_fuel {j : Json Empty} {n : Nat} (hn : (render j).length ≤ n) : ∃ m, n = m + 1 := by
  obtain ⟨c, hc, -⟩ := render_head j
  have hne : render j ≠ [] := by
    intro e
    rw [e] at hc
    cases hc
  exact Nat.exists_eq_add_one.mpr (Nat.lt_of_lt_of_le (List.length_pos_iff.mpr hne) hn)

/-- an element has a shorter text -/
theorem length_lt_array {items : List (Json Empty)} {j : Json Empty} (h : j ∈ items) :
    (render j).length < (render (.array items)).length := by
  have hlt := length_lt_bracketed 93 (List.mem_map_of_mem (f := render) h)
  rw [render, renderItems_eq, List.length_cons]
  omega

theorem length_lt_object {fs : Fields Empty} {f : Str × Json Empty} (h : f ∈ fs) :
    (render f.2).length < (render (.object fs)).length := by
  have hlt := length_lt_bracketed 125
    (List.mem_map_of_mem (f := fun f : Str × Json Empty => quote f.1 ++ 58 :: render f.2) h)
  rw [List.length_append, List.length_cons] at hlt
  rw [render, renderFields_eq, List.length_cons]
  omega

/-- **A value is read from its text.**  By induction on the value; the text is long enough for the
brackets in it. -/
theorem read_render {j : Json Empty} (h : Printable j) {n : Nat} (hn : (render j).length ≤ n)
    {rest : Str} (hrest : Ends rest) : readValue n (render j ++ rest) = some (j, rest) := by
  induction h generalizing n rest with
  | @array items _ ih =>
    obtain ⟨m, rfl⟩ := exists_fuel hn
    exact readValue_array (fun j hj _ =>
      ih j hj (Nat.le_of_lt_succ (Nat.lt_of_lt_of_le (length_lt_array hj) hn))) rest
  | @object fs sorted keys _ ih =>
    obtain ⟨m, rfl⟩ := exists_fuel hn
    exact readValue_object sorted keys (fun f hf _ =>
      ih f hf (Nat.le_of_lt_succ (Nat.lt_of_lt_of_le (length_lt_object hf) hn))) rest
  | null =>
    obtain ⟨m, rfl⟩ := exists_fuel hn
    rfl
  | boolean b =>
    obtain ⟨m, rfl⟩ := exists_fuel hn
    cases b <;> rfl
  | integer hword =>
    obtain ⟨m, rfl⟩ := exists_fuel hn
    exact readValue_integer hword m rest hrest
  | double x => exact x.elim
  | string hs =>
    obtain ⟨m, rfl⟩ := exists_fuel hn
    exact readValue_string hs m rest

/-! ### what is read is printable -/

theorem objectOf_printable {fs : Fields Empty} (h : ∀ f ∈ fs, utf8 f.1 = true ∧ Printable f.2) :
    Printable (objectOf fs) := by
  have hfold : ∀ gs : Fields Empty, Printable (object gs) →
      Printable (object (fs.foldl (fun gs f => setField f.1 f.2 gs) gs)) := by
    induction fs with
    | nil => exact fun gs hgs => hgs
    | cons f fs ih =>
      intro gs hgs
      obtain ⟨hf, hfs⟩ := List.forall_mem_cons.mp h
      exact ih hfs _ (hgs.setField hf.1 hf.2)
  exact hfold [] .empty

theorem readField_printable {r : Reader (Json Empty)}
    (hr : ∀ {s v rest}, r s = some (v, rest) → Printable v) {s rest : Str} {f : Str × Json Empty}
    (h : readField r s = some (f, rest)) : utf8 f.1 = true ∧ Printable f.2 := by
  unfold readField at h
  split at h
  · obtain ⟨⟨key, s'⟩, hkey, h⟩ := Option.bind_eq_some_iff.mp h
    dsimp only at h
    split at h
    · obtain ⟨⟨v, s''⟩, hv, heq⟩ := Option.map_eq_some_iff.mp h
      cases heq
      exact ⟨readString_utf8 hkey, hr hv⟩
    · cases h
  · cases h

theorem literals_printable : ∀ l ∈ literals, Printable l.2 := by
  simp only [literals, List.forall_mem_cons]
  exact ⟨.null, .boolean true, .boolean false, nofun⟩

theorem read_printable {n : Nat} {s rest : Str} {j : Json Empty}
    (h : readValue n s = some (j, rest)) : Printable j := by
  induction n generalizing s rest j with
  | zero => cases h
  | succ n ih =>
    rw [readValue] at h
    split at h
    · obtain ⟨⟨text, s'⟩, htext, heq⟩ := Option.map_eq_some_iff.mp h
      cases heq
      exact .string (readString_utf8 htext)
    split at h
    · obtain ⟨⟨items, s'⟩, hitems, heq⟩ := Option.map_eq_some_iff.mp h
      cases heq
      exact .array (forall_of_readMany ih hitems)
    split at h
    · obtain ⟨⟨fs, s'⟩, hfs, heq⟩ := Option.map_eq_some_iff.mp h
      cases heq
      exact objectOf_printable (forall_of_readMany (readField_printable ih) hfs)
    split at h
    · obtain ⟨⟨m, s'⟩, hm, heq⟩ := Option.map_eq_some_iff.mp h
      cases heq
      exact .integer (readInteger_word hm)
    · obtain ⟨l, hl, heq⟩ := Option.map_eq_some_iff.mp h
      cases heq
      exact literals_printable l (List.mem_of_find?_eq_some hl)

/-! ## the pair -/

/-- nothing is lost where there are no floating point numbers -/
theorem printed_eq {finite : Empty → Bool} {j : Json Empty} (h : Printable j) :
    printed finite j = j := by
  induction h with
  | double x => exact x.elim
  | @array items _ ih => rw [printed, printedItems_eq, List.map_congr_left ih, List.map_id']
  | @object fs _ _ _ ih =>
    have hfs : ∀ f ∈ fs, (f.1, printed finite f.2) = f := fun f hf => Prod.ext rfl (ih f hf)
    rw [printed, printedFields_eq, List.map_congr_left hfs, List.map_id']
  | _ => rfl

def plainParse (text : Str) : Option (Json Empty) :=
  (readValue text.length text).bind fun p => if p.2 = [] then some p.1 else none

def plainDump (j : Json Empty) : Option Str := if isPrintable j then some (render j) else none

theorem plainParse_render {j : Json Empty} (h : Printable j) : plainParse (render j) = some j := by
  have hread := read_render h (Nat.le_refl _) ends_nil
  rw [List.append_nil] at hread
  unfold plainParse
  rw [hread]
  rfl

def plainText : JsonText Empty where
  parse := plainParse
  dump := plainDump
  finite := fun x => x.elim
  parse_printable := by
    intro text j h
    obtain ⟨p, hp, hj⟩ := Option.bind_eq_some_iff.mp h
    split at hj
    · cases hj
      exact read_printable hp
    · cases hj
  dump_isSome := by
    intro j
    unfold plainDump
    rw [← isPrintable_iff]
    split
    · rename_i h
      exact ⟨fun _ => h, fun _ => rfl⟩
    · rename_i h
      exact ⟨fun e => absurd e Bool.false_ne_true, fun e => absurd e h⟩
  parse_dump := by
    intro j text h
    unfold plainDump at h
    split at h
    · rename_i hj
      cases h
      have hprintable := isPrintable_iff.mp hj
      rw [printed_eq hprintable]
      exact plainParse_render hprintable
    · cases h

end Json
