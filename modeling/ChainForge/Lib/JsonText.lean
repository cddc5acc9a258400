import ChainForge.Lib.Json

/-!
# JSON values and their texts

A text is UTF-8.  A value with a string that is not UTF-8 has none, and printing it throws.

* `utf8`             whether a string is UTF-8; `utf8_of_ascii`;
* `Json.Printable`   a value that has a text: its strings are UTF-8, its integers have 64 bits, and the
                     fields of its objects stand in the order of their keys, as in memory they do;
                     `Printable.setField`: setting a field keeps it;
* `Json.printed`     what is left of a value in its text, where a number that is not finite is null;
* `JsonText D`       a parser and a printer of which this is known: exactly the printable values are
                     printed, and a parser finds in the text what is left of the value.
-/

set_option linter.unusedSectionVars false

namespace Text

/-- the ranges of the bytes that have to follow the first byte of a character -/
def utf8Rest (a : UInt8) : Option (List (UInt8 × UInt8)) :=
  if a < 0x80 then some []
  else if a < 0xC2 then none
  else if a < 0xE0 then some [(0x80, 0xBF)]
  else if a = 0xE0 then some [(0xA0, 0xBF), (0x80, 0xBF)]
  else if a = 0xED then some [(0x80, 0x9F), (0x80, 0xBF)]
  else if a < 0xF0 then some [(0x80, 0xBF), (0x80, 0xBF)]
  else if a = 0xF0 then some [(0x90, 0xBF), (0x80, 0xBF), (0x80, 0xBF)]
  else if a < 0xF4 then some [(0x80, 0xBF), (0x80, 0xBF), (0x80, 0xBF)]
  else if a = 0xF4 then some [(0x80, 0x8F), (0x80, 0xBF), (0x80, 0xBF)]
  else none

/-- in a character of which bytes in these ranges are missing -/
def utf8From : List (UInt8 × UInt8) → Str → Bool
  | [], [] => true
  | [], a :: s => (utf8Rest a).elim false fun ranges => utf8From ranges s
  | _ :: _, [] => false
  | r :: ranges, a :: s => r.1 ≤ a && a ≤ r.2 && utf8From ranges s

def utf8 (s : Str) : Bool := utf8From [] s

def ascii (s : Str) : Bool := s.all (· < 0x80)

theorem ascii_append (s t : Str) : ascii (s ++ t) = (ascii s && ascii t) := List.all_append

theorem utf8_of_ascii {s : Str} (h : ascii s = true) : utf8 s = true := by
  induction s with
  | nil => rfl
  | cons c s ih =>
    have hboth := Bool.and_eq_true_iff.mp h
    show (utf8Rest c).elim false (fun ranges => utf8From ranges s) = true
    rw [utf8Rest, if_pos (of_decide_eq_true hboth.1)]
    exact ih hboth.2

theorem ascii_toDecimal (n : Nat) : ascii (toDecimal n) = true := by
  refine List.all_eq_true.mpr fun c hc => decide_eq_true ?_
  have hdigit := toDecimal_isDigit n c hc
  simp only [isDigit, Bool.and_eq_true, decide_eq_true_eq, UInt8.le_iff_toNat_le,
    UInt8.reduceToNat] at hdigit
  simp only [UInt8.lt_iff_toNat_lt, UInt8.reduceToNat]
  omega

theorem utf8_intToDecimal (n : Int) : utf8 (intToDecimal n) = true := by
  refine utf8_of_ascii ?_
  unfold intToDecimal
  split
  · exact ascii_toDecimal _
  · exact ascii_toDecimal _

end Text

namespace Json
open Text
variable {D : Type}

/-! ## values that have a text -/

/-- a signed or an unsigned number of 64 bits -/
abbrev Word (n : Int) : Prop := -9223372036854775808 ≤ n ∧ n < 18446744073709551616

inductive Printable : Json D → Prop
  | null : Printable null
  | boolean (b : Bool) : Printable (boolean b)
  | integer {n : Int} (h : Word n) : Printable (integer n)
  | double (x : D) : Printable (double x)
  | string {s : Str} (h : utf8 s = true) : Printable (string s)
  | array {items : List (Json D)} (h : ∀ j ∈ items, Printable j) : Printable (array items)
  | object {fs : Fields D} (sorted : fs.Pairwise fun f g => f.1 < g.1)
      (keys : ∀ f ∈ fs, utf8 f.1 = true) (values : ∀ f ∈ fs, Printable f.2) : Printable (object fs)

theorem Printable.empty : Printable (.object [] : Json D) := .object .nil nofun nofun

theorem Printable.setField {key : Str} {v : Json D} {fs : Fields D} (h : Printable (.object fs))
    (hkey : utf8 key = true) (hv : Printable v) : Printable (.object (setField key v fs)) := by
  cases h with
  | object sorted keys values =>
    refine .object (setField_sorted sorted) (fun f hf => ?_) fun f hf => ?_
    · rcases mem_setField hf with rfl | hf
      · exact hkey
      · exact keys f hf
    · rcases mem_setField hf with rfl | hf
      · exact hv
      · exact values f hf

/-- the fields of a printable value are printable -/
theorem Printable.field {key : Str} {j v : Json D} (h : Printable j) (hv : field key j = some v) :
    Printable v := by
  cases h with
  | object sorted keys values => exact values _ (findField_mem hv)
  | _ => cases hv

mutual

def isPrintable : Json D → Bool
  | integer n => decide (Word n)
  | string s => utf8 s
  | array items => areItemsPrintable items
  | object fs => decide (fs.Pairwise fun f g => f.1 < g.1) && areFieldsPrintable fs
  | _ => true

def areItemsPrintable : List (Json D) → Bool
  | [] => true
  | j :: items => isPrintable j && areItemsPrintable items

def areFieldsPrintable : Fields D → Bool
  | [] => true
  | (key, v) :: fs => utf8 key && isPrintable v && areFieldsPrintable fs

end

theorem areItemsPrintable_iff {items : List (Json D)} :
    areItemsPrintable items = true ↔ ∀ j ∈ items, isPrintable j = true := by
  induction items with
  | nil => exact ⟨fun _ => nofun, fun _ => rfl⟩
  | cons j items ih => rw [areItemsPrintable, Bool.and_eq_true, ih, List.forall_mem_cons]

theorem areFieldsPrintable_iff {fs : Fields D} :
    areFieldsPrintable fs = true ↔ ∀ f ∈ fs, utf8 f.1 = true ∧ isPrintable f.2 = true := by
  induction fs with
  | nil => exact ⟨fun _ => nofun, fun _ => rfl⟩
  | cons f fs ih =>
    rw [areFieldsPrintable, Bool.and_eq_true, Bool.and_eq_true, ih, List.forall_mem_cons]

mutual

theorem printable_of_isPrintable : ∀ j : Json D, isPrintable j = true → Printable j
  | null, _ => .null
  | boolean b, _ => .boolean b
  | integer _, h => .integer (of_decide_eq_true h)
  | double x, _ => .double x
  | string _, h => .string h
  | array items, h => .array (items_of_isPrintable items h)
  | object fs, h =>
    have hfs := (Bool.and_eq_true_iff.mp h)
    .object (of_decide_eq_true hfs.1) (fun f hf => (areFieldsPrintable_iff.mp hfs.2 f hf).1)
      (fields_of_isPrintable fs hfs.2)

theorem items_of_isPrintable : ∀ items : List (Json D), areItemsPrintable items = true →
    ∀ j ∈ items, Printable j
  | [], _ => nofun
  | j :: items, h =>
    have hboth := Bool.and_eq_true_iff.mp h
    List.forall_mem_cons.mpr ⟨printable_of_isPrintable j hboth.1, items_of_isPrintable items hboth.2⟩

theorem fields_of_isPrintable : ∀ fs : Fields D, areFieldsPrintable fs = true →
    ∀ f ∈ fs, Printable f.2
  | [], _ => nofun
  | (_, v) :: fs, h =>
    have hboth := Bool.and_eq_true_iff.mp h
    List.forall_mem_cons.mpr ⟨printable_of_isPrintable v (Bool.and_eq_true_iff.mp hboth.1).2,
      fields_of_isPrintable fs hboth.2⟩

end

theorem isPrintable_iff {j : Json D} : isPrintable j = true ↔ Printable j := by
  refine ⟨printable_of_isPrintable j, fun h => ?_⟩
  induction h with
  | integer h => exact decide_eq_true h
  | string h => exact h
  | array _ ih => exact areItemsPrintable_iff.mpr ih
  | object sorted keys _ ih =>
    exact Bool.and_eq_true_iff.mpr ⟨decide_eq_true sorted,
      areFieldsPrintable_iff.mpr fun f hf => ⟨keys f hf, ih f hf⟩⟩
  | _ => rfl

/-! ## what is left in a text -/

section
variable (finite : D → Bool)

mutual

def printed : Json D → Json D
  | double x => if finite x then double x else null
  | array items => array (printedItems items)
  | object fs => object (printedFields fs)
  | j => j

def printedItems : List (Json D) → List (Json D)
  | [] => []
  | j :: items => printed j :: printedItems items

def printedFields : Fields D → Fields D
  | [] => []
  | (key, v) :: fs => (key, printed v) :: printedFields fs

end

theorem printedItems_eq (items : List (Json D)) :
    printedItems finite items = items.map (printed finite) := by
  induction items with
  | nil => rfl
  | cons j items ih => rw [printedItems, ih, List.map_cons]

theorem printedFields_eq (fs : Fields D) :
    printedFields finite fs = fs.map fun f => (f.1, printed finite f.2) := by
  induction fs with
  | nil => rfl
  | cons f fs ih => rw [printedFields, ih, List.map_cons]

theorem findField_printed (key : Str) (fs : Fields D) :
    findField key (printedFields finite fs) = (findField key fs).map (printed finite) := by
  induction fs with
  | nil => rfl
  | cons f fs ih =>
    obtain ⟨k, v⟩ := f
    rw [printedFields, findField, findField, ih]
    split
    · rfl
    · split <;> rfl

theorem field_printed (key : Str) (j : Json D) :
    field key (printed finite j) = (field key j).map (printed finite) := by
  cases j with
  | object fs => exact findField_printed finite key fs
  | double x =>
    rw [printed]
    split <;> rfl
  | _ => rfl

end

end Json

open Text in
structure JsonText (D : Type) where
  /-- none if the text is not JSON -/
  parse : Str → Option (Json D)
  /-- none is an exception -/
  dump : Json D → Option Str
  finite : D → Bool
  parse_printable : ∀ {text j}, parse text = some j → j.Printable
  dump_isSome : ∀ j, (dump j).isSome ↔ j.Printable
  parse_dump : ∀ {j text}, dump j = some text → parse text = some (j.printed finite)

/-- a value that is printed is found in its text -/
theorem JsonText.exists_dump {D : Type} (json : JsonText D) {j : Json D} (h : j.Printable) :
    ∃ text, json.dump j = some text ∧ json.parse text = some (j.printed json.finite) := by
  obtain ⟨text, htext⟩ := Option.isSome_iff_exists.mp ((json.dump_isSome j).mpr h)
  exact ⟨text, htext, json.parse_dump htext⟩
