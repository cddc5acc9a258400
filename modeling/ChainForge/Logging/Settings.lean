import ChainForge.Lib.Hex
import ChainForge.Logging.Comments
import ChainForge.Logging.LogManager
import ChainForge.Logging.Yaml

/-!
# The settings of the logging

`load_from_yaml`, `load_from_json`, `parse_log_level`, `parse_size_string` and `create_default` of
`config_loader.cpp`: from the text of a configuration file to the `LogConfig` that the `LogManager`
gets.  An exception is `none`; `initialize_logging_from_config` then takes the defaults.

The reader of the text closes one object too many (see `ConfigLoader`), and the loader looks for its
settings below `logging` only.

* `loadFromJson`             the settings of a JSON document;
* `Apart`, `Apart.runLines`  once the reader is outside of an object, no later line gets into it;
* `Opened`, `Opened.close`   where the reader is after the first section of `logging`;
* `later_sections_ignored`   **the settings end with the first section**: all that follows it is
                             without effect.
-/

set_option linter.unusedSectionVars false

namespace ChainForge
namespace Logging
open Text ConfigLoader

/-! ## settings -/

section
variable {D : Type}

/-- `contains`, and the value if it does -/
def field (j : Json D) (key : String) : Option (Json D) := j.field (str key)

def getBool : Json D → Option Bool
  | .boolean b => some b
  | _ => none

def getString : Json D → Option Str
  | .string s => some s
  | _ => none

/-- `get<size_t>`; `truncate` is the cast of a floating point number -/
def getSize (truncate : D → Nat) : Json D → Option Nat
  | .integer n => some (n % 18446744073709551616).toNat
  | .double x => some (truncate x)
  | _ => none

/-- the pairs that `items()` goes through; a value that is not an object is one with an empty key -/
def items : Json D → List (Str × Json D)
  | .object fs => fs
  | .null => []
  | j => [([], j)]

def lower (s : Str) : Str := s.map toLower

def parseLogLevel (level : Str) : LogLevel :=
  let level := lower level
  if level = str "trace" then .trace
  else if level = str "debug" then .debug
  else if level = str "info" then .info
  else if level = str "warn" ∨ level = str "warning" then .warn
  else if level = str "error" then .error
  else if level = str "critical" ∨ level = str "fatal" then .critical
  else if level = str "off" ∨ level = str "none" then .off
  else .info

/-- the digits in front, with a point and more digits if these follow, and the rest -/
def splitNumeral (s : Str) : Str × Str :=
  let whole := s.takeWhile isDigit
  let rest := s.dropWhile isDigit
  match rest with
  | 46 :: more =>
    if (more.takeWhile isDigit).isEmpty then (whole, rest)
    else (whole ++ 46 :: more.takeWhile isDigit, more.dropWhile isDigit)
  | _ => (whole, rest)

/-- the unit, in small letters -/
def multiplier (unit : Str) : Option Nat :=
  if unit = [] ∨ unit = str "b" then some 1
  else if unit = str "kb" then some 1024
  else if unit = str "mb" then some (1024 * 1024)
  else if unit = str "gb" then some (1024 * 1024 * 1024)
  else if unit = str "tb" then some (1024 * 1024 * 1024 * 1024)
  else none

variable (stod : Str → Except ParseError D) (truncate : D → Nat) (times : D → Nat → Nat)

/-- `times` multiplies and casts to `size_t` -/
def parseSizeString (size : Str) : Option Nat := do
  let (numeral, rest) := splitNumeral size
  if numeral.isEmpty then none
  let factor ← multiplier (lower (rest.dropWhile isSpace))
  let value ← (stod numeral).toOption
  return times value factor

def createDefault : LogConfig (Json D) :=
  { globalFields := [(str "service", .string (str "chainforge")), (str "version", .string (str "1.0.0"))] }

/-- one setting: read if it is there, and it throws if it has the wrong type -/
def setting {β : Type} (j : Json D) (key : String) (get : Json D → Option β)
    (put : LogConfig (Json D) → β → LogConfig (Json D)) (config : LogConfig (Json D)) :
    Option (LogConfig (Json D)) :=
  match field j key with
  | none => some config
  | some v => (get v).map (put config)

def loadConsole (console : Json D) (config : LogConfig (Json D)) : Option (LogConfig (Json D)) := do
  let config ← setting console "enabled" getBool (fun c b => { c with enableConsoleOutput := b }) config
  let config ← setting console "level" getString (fun c s => { c with consoleLevel := parseLogLevel s }) config
  setting console "pretty_print" getBool (fun c b => { c with prettyPrintConsole := b }) config

def loadFile (file : Json D) (config : LogConfig (Json D)) : Option (LogConfig (Json D)) := do
  let config ← setting file "enabled" getBool (fun c b => { c with enableFileOutput := b }) config
  let config ← setting file "level" getString (fun c s => { c with fileLevel := parseLogLevel s }) config
  let config ← setting file "directory" getString (fun c s => { c with logDirectory := s }) config
  let config ← setting file "filename" getString (fun c s => { c with logFilePattern := s }) config
  let config ← setting file "max_size" (fun j => (getString j).bind (parseSizeString stod times))
    (fun c n => { c with maxFileSize := n }) config
  let config ← setting file "max_files" (getSize truncate) (fun c n => { c with maxFiles := n }) config
  setting file "pretty_print" getBool (fun c b => { c with prettyPrintFile := b }) config

def loadFromJson (j : Json D) : Option (LogConfig (Json D)) :=
  match field j "logging" with
  | none => some createDefault
  | some logging => do
    let config ← (field logging "console").elim some loadConsole createDefault
    let config ← (field logging "file").elim some (loadFile stod truncate times) config
    let config ← setting logging "format" getString
      (fun c s => { c with enableJsonFormat := s == str "json" }) config
    setting logging "global_fields" some (fun c j => { c with globalFields := items j }) config

def loadFromYaml (text : Str) : Option (LogConfig (Json D)) :=
  (yamlToJson stod text).bind (loadFromJson stod truncate times)

end

/-! ## outside of an object -/

/-- the key of a line, if it has one -/
def keyOf (line : Str) : Option Str :=
  if isSkipped line then none
  else
    let line := line.dropWhile isBlank
    (line.idxOf? 58).map fun colonPos => trimBlank (line.take colonPos)

/-- the path does not lead into the object `name` of the result -/
def Outside (name : Str) (path : List Str) : Prop := path.head? ≠ some name

section
variable {D : Type} {stod : Str → Except ParseError D} {s t : YamlState D} {name : Str}

/-- the reader is outside of the object `name`, and so is all that it may come back to -/
structure Apart (name : Str) (s : YamlState D) : Prop where
  current : Outside name s.currentObject
  stack : ∀ path ∈ s.objectStack, Outside name path

theorem outside_root : Outside name [] := fun h => nomatch h

theorem Apart.popWhile (indent : Nat) (indents : List Nat) {objects : List (List Str)}
    {current : List Str} (hcurrent : Outside name current) (hobjects : ∀ p ∈ objects, Outside name p) :
    Outside name (ConfigLoader.popWhile indent indents objects current).2.2 ∧
      ∀ p ∈ (ConfigLoader.popWhile indent indents objects current).2.1, Outside name p := by
  induction indents generalizing objects current with
  | nil => exact ⟨hcurrent, hobjects⟩
  | cons i indents ih =>
    cases objects with
    | nil => exact ⟨hcurrent, hobjects⟩
    | cons o objects =>
      have hrest : ∀ p ∈ objects, Outside name p := fun p hp => hobjects p (List.mem_cons_of_mem o hp)
      unfold ConfigLoader.popWhile
      split
      · refine ih ?_ hrest
        cases objects with
        | nil => exact outside_root
        | cons p objects => exact hrest p List.mem_cons_self
      · exact ⟨hcurrent, hobjects⟩

theorem Apart.dedent (h : Apart name s) (indent : Nat) : Apart name (dedent indent s) := by
  obtain ⟨h1, h2⟩ := Apart.popWhile indent s.indentStack h.current h.stack
  exact ⟨h1, h2⟩

theorem Outside.append {path : List Str} {key : Str} (h : Outside name path) (hkey : key ≠ name) :
    Outside name (path ++ [key]) := by
  cases path with
  | nil => exact fun e => hkey (Option.some.inj e)
  | cons k path => exact h

/-- a line that is read outside of the object -/
theorem readLine_apart {l : Str} (hskip : isSkipped l = false)
    (hd : Apart name (ConfigLoader.dedent (indentOf l) s)) (hl : keyOf l ≠ some name)
    (ht : ConfigLoader.readLine stod s l = some t) :
    Apart name t ∧ t.result.field name = s.result.field name := by
  unfold ConfigLoader.readLine at ht
  unfold keyOf at hl
  rw [hskip, if_neg Bool.false_ne_true] at ht hl
  dsimp only at ht hl
  cases hcolon : (l.dropWhile isBlank).idxOf? 58 with
  | none =>
    rw [hcolon] at ht
    cases ht
    exact ⟨hd, rfl⟩
  | some colonPos =>
    rw [hcolon] at ht hl
    dsimp only at ht
    have hkey : trimBlank ((l.dropWhile isBlank).take colonPos) ≠ name := fun e => hl (congrArg some e)
    split at ht
    · obtain ⟨result, hresult, rfl⟩ := openObject_eq_some ht
      refine ⟨⟨hd.current.append hkey, ?_⟩, Json.field_update hd.current (fun _ => hkey) hresult⟩
      intro path hpath
      rcases List.mem_cons.mp hpath with rfl | hpath
      · exact hd.current
      · exact hd.stack path hpath
    · obtain ⟨result, hresult, rfl⟩ := assign_eq_some ht
      exact ⟨⟨hd.current, hd.stack⟩, Json.field_update hd.current (fun _ => hkey) hresult⟩

theorem Apart.readLine (h : Apart name s) {l : Str} (hl : keyOf l ≠ some name)
    (ht : ConfigLoader.readLine stod s l = some t) :
    Apart name t ∧ t.result.field name = s.result.field name := by
  cases hskip : isSkipped l with
  | false => exact readLine_apart hskip (h.dedent (indentOf l)) hl ht
  | true =>
    unfold ConfigLoader.readLine at ht
    rw [if_pos hskip] at ht
    cases ht
    exact ⟨h, rfl⟩

/-- **Later lines do not get into the object.** -/
theorem Apart.runLines (h : Apart name s) {ls : List Str} (hls : ∀ l ∈ ls, keyOf l ≠ some name)
    (ht : Logging.runLines stod s ls = some t) : t.result.field name = s.result.field name := by
  induction ls generalizing s with
  | nil =>
    cases ht
    rfl
  | cons l ls ih =>
    rw [runLines_cons, Option.bind_eq_some_iff] at ht
    obtain ⟨u, hu, ht⟩ := ht
    obtain ⟨hapart, hfield⟩ := h.readLine (hls l List.mem_cons_self) hu
    exact (ih hapart (fun l' hl' => hls l' (List.mem_cons_of_mem l hl')) ht).trans hfield

/-! ## the first section -/

/-- below an object that was opened at the indentation `width` in one at 0 -/
def Opened (width : Nat) (s : YamlState D) : Prop :=
  ∃ upper uppers path, s.indentStack = upper ++ [width, 0] ∧ s.objectStack = uppers ++ [path, []] ∧
    upper.length = uppers.length ∧ ∀ i ∈ upper, width < i

section
variable {width : Nat}

theorem popWhile_above {indent : Nat} (hindent : width < indent) (path : List Str) {upper : List Nat}
    {uppers : List (List Str)} (current : List Str) (hlen : upper.length = uppers.length)
    (hupper : ∀ i ∈ upper, width < i) : ∃ upper' uppers' current',
      popWhile indent (upper ++ [width, 0]) (uppers ++ [path, []]) current
        = (upper' ++ [width, 0], uppers' ++ [path, []], current') ∧
      upper'.length = uppers'.length ∧ ∀ i ∈ upper', width < i := by
  induction upper generalizing uppers current with
  | nil =>
    rw [List.eq_nil_of_length_eq_zero hlen.symm]
    refine ⟨[], [], current, ?_, rfl, fun i hi => nomatch hi⟩
    rw [List.nil_append, List.nil_append, popWhile, if_neg (by omega)]
  | cons i upper ih =>
    cases uppers with
    | nil => cases hlen
    | cons p uppers =>
      rw [List.cons_append, List.cons_append, popWhile]
      by_cases hle : indent ≤ i
      · rw [if_pos hle]
        exact ih _ (Nat.succ.inj hlen) fun j hj => hupper j (List.mem_cons_of_mem i hj)
      · rw [if_neg hle]
        exact ⟨i :: upper, p :: uppers, current, rfl, hlen, hupper⟩

theorem popWhile_below {indent : Nat} (hindent : indent ≤ width) (path : List Str) {upper : List Nat}
    {uppers : List (List Str)} (current : List Str) (hlen : upper.length = uppers.length)
    (hupper : ∀ i ∈ upper, width < i) :
    (popWhile indent (upper ++ [width, 0]) (uppers ++ [path, []]) current).2.2 = [] ∧
      ∀ p ∈ (popWhile indent (upper ++ [width, 0]) (uppers ++ [path, []]) current).2.1, p = [] := by
  induction upper generalizing uppers current with
  | nil =>
    rw [List.eq_nil_of_length_eq_zero hlen.symm, List.nil_append, List.nil_append, popWhile,
      if_pos hindent, popWhile]
    by_cases h0 : indent ≤ 0
    · rw [if_pos h0]
      exact ⟨rfl, fun p hp => absurd hp List.not_mem_nil⟩
    · rw [if_neg h0]
      exact ⟨rfl, fun p hp => List.mem_singleton.mp hp⟩
  | cons i upper ih =>
    cases uppers with
    | nil => cases hlen
    | cons p uppers =>
      have hi := hupper i List.mem_cons_self
      rw [List.cons_append, List.cons_append, popWhile, if_pos (by omega)]
      exact ih _ (Nat.succ.inj hlen) fun j hj => hupper j (List.mem_cons_of_mem i hj)

theorem Opened.dedent (h : Opened width s) {indent : Nat} (hindent : width < indent) :
    Opened width (ConfigLoader.dedent indent s) := by
  obtain ⟨upper, uppers, path, hindents, hobjects, hlen, hupper⟩ := h
  obtain ⟨upper', uppers', current', hpop, hlen', hupper'⟩ :=
    popWhile_above hindent path s.currentObject hlen hupper
  unfold ConfigLoader.dedent
  rw [hindents, hobjects, hpop]
  exact ⟨upper', uppers', path, rfl, rfl, hlen', hupper'⟩

/-- **Where the first section ends**, the reader leaves the whole object. -/
theorem Opened.close (h : Opened width s) {indent : Nat} (hindent : indent ≤ width) (name : Str) :
    Apart name (ConfigLoader.dedent indent s) := by
  obtain ⟨upper, uppers, path, hindents, hobjects, hlen, hupper⟩ := h
  obtain ⟨hcurrent, hstack⟩ := popWhile_below hindent path s.currentObject hlen hupper
  unfold ConfigLoader.dedent
  rw [hindents, hobjects]
  refine ⟨?_, fun p hp => ?_⟩
  · dsimp only
    rw [hcurrent]
    exact outside_root
  · rw [hstack p hp]
    exact outside_root

theorem Opened.readLine (h : Opened width s) {l : Str} (hl : isSkipped l = true ∨ width < indentOf l)
    (ht : ConfigLoader.readLine stod s l = some t) : Opened width t := by
  unfold ConfigLoader.readLine at ht
  by_cases hskip : isSkipped l = true
  · rw [if_pos hskip] at ht
    cases ht
    exact h
  · have hindent := hl.resolve_left hskip
    have hd := h.dedent hindent
    rw [if_neg hskip] at ht
    dsimp only at ht
    split at ht
    · split at ht
      · obtain ⟨result, -, rfl⟩ := openObject_eq_some ht
        obtain ⟨upper, uppers, path, hindents, hobjects, hlen, hupper⟩ := hd
        refine ⟨indentOf l :: upper, _ :: uppers, path, congrArg _ hindents, congrArg _ hobjects,
          congrArg Nat.succ hlen, fun i hi => ?_⟩
        rcases List.mem_cons.mp hi with rfl | hi
        · exact hindent
        · exact hupper i hi
      · obtain ⟨result, -, rfl⟩ := assign_eq_some ht
        exact hd
    · cases ht
      exact hd

theorem Opened.runLines (h : Opened width s) {ls : List Str}
    (hls : ∀ l ∈ ls, isSkipped l = true ∨ width < indentOf l)
    (ht : Logging.runLines stod s ls = some t) : Opened width t := by
  induction ls generalizing s with
  | nil =>
    cases ht
    exact h
  | cons l ls ih =>
    rw [runLines_cons, Option.bind_eq_some_iff] at ht
    obtain ⟨u, hu, ht⟩ := ht
    exact ih (h.readLine (hls l List.mem_cons_self) hu)
      (fun l' hl' => hls l' (List.mem_cons_of_mem l hl')) ht

end

end

/-- the line is `key:`, with nothing but blanks behind the colon -/
def opensMapping (line : Str) : Bool :=
  !isSkipped line &&
    ((line.dropWhile isBlank).idxOf? 58).any fun colonPos =>
      (trimBlank ((line.dropWhile isBlank).drop (colonPos + 1))).isEmpty

theorem isKey_logging : IsKey (str "logging") := ⟨by decide, by decide +kernel⟩

def loggingLine : Line := ⟨keyLine 0 (str "logging") [], keyLine_oneLine 0 isKey_logging nofun⟩

/-- a file up to the end of the first section of `logging`: the section begins with the first line
below `logging:` that opens a mapping, at any indentation, and goes on as long as the lines are
indented more than this one -/
structure FirstSection where
  before : List Line
  settings : List Line
  inner : ∀ l ∈ settings, isSkipped l.1 = true ∨ opensMapping l.1 = false ∧ 0 < indentOf l.1
  header : Line
  opens : opensMapping header.1 = true
  indented : 0 < indentOf header.1
  entries : List Line
  deep : ∀ l ∈ entries, isSkipped l.1 = true ∨ indentOf header.1 < indentOf l.1

def FirstSection.lines (f : FirstSection) : List Line :=
  f.before ++ loggingLine :: (f.settings ++ f.header :: f.entries)

section
variable {D : Type} {stod : Str → Except ParseError D} {s t : YamlState D}

/-- a line that opens no mapping leaves the stacks as they are after it has closed what it closes -/
theorem readLine_inner {l : Str} (hskip : isSkipped l = false) (hl : opensMapping l = false)
    (ht : ConfigLoader.readLine stod s l = some t) :
    t.indentStack = (dedent (indentOf l) s).indentStack ∧
      t.objectStack = (dedent (indentOf l) s).objectStack := by
  unfold ConfigLoader.readLine at ht
  unfold opensMapping at hl
  rw [hskip, Bool.not_false, Bool.true_and] at hl
  rw [hskip, if_neg Bool.false_ne_true] at ht
  dsimp only at ht
  cases hcolon : (l.dropWhile isBlank).idxOf? 58 with
  | none =>
    rw [hcolon] at ht
    cases ht
    exact ⟨rfl, rfl⟩
  | some colonPos =>
    rw [hcolon] at ht hl
    dsimp only at ht
    rw [Option.any_some] at hl
    rw [hl, if_neg Bool.false_ne_true] at ht
    obtain ⟨result, -, rfl⟩ := assign_eq_some ht
    exact ⟨rfl, rfl⟩

theorem readLine_opens {l : Str} (hl : opensMapping l = true)
    (ht : ConfigLoader.readLine stod s l = some t) :
    ∃ path, t.indentStack = indentOf l :: (dedent (indentOf l) s).indentStack ∧
      t.objectStack = path :: (dedent (indentOf l) s).objectStack := by
  obtain ⟨hskip, hempty⟩ := Bool.and_eq_true_iff.mp hl
  rw [Bool.not_eq_true'] at hskip
  unfold ConfigLoader.readLine at ht
  rw [hskip, if_neg Bool.false_ne_true] at ht
  dsimp only at ht
  cases hcolon : (l.dropWhile isBlank).idxOf? 58 with
  | none =>
    rw [hcolon] at hempty
    cases hempty
  | some colonPos =>
    rw [hcolon] at ht hempty
    dsimp only at ht
    rw [Option.any_some] at hempty
    rw [hempty, if_pos rfl] at ht
    obtain ⟨result, -, rfl⟩ := openObject_eq_some ht
    exact ⟨_, rfl, rfl⟩

/-- settings of `logging` itself leave the stacks as they are -/
theorem runLines_settings {settings : List Str}
    (hl : ∀ l ∈ settings, isSkipped l = true ∨ opensMapping l = false ∧ 0 < indentOf l)
    (hs : s.indentStack = [0]) (ht : runLines stod s settings = some t) :
    t.indentStack = [0] ∧ t.objectStack = s.objectStack := by
  induction settings generalizing s with
  | nil =>
    cases ht
    exact ⟨hs, rfl⟩
  | cons l settings ih =>
    rw [runLines_cons, Option.bind_eq_some_iff] at ht
    obtain ⟨u, hu, ht⟩ := ht
    have hnext := fun l' hl' => hl l' (List.mem_cons_of_mem l hl')
    by_cases hskip : isSkipped l = true
    · unfold ConfigLoader.readLine at hu
      rw [if_pos hskip] at hu
      cases hu
      exact ih hnext hs ht
    · obtain ⟨hopens, hindent⟩ := (hl l List.mem_cons_self).resolve_left hskip
      obtain ⟨hindents, hobjects⟩ := readLine_inner (Bool.eq_false_of_not_eq_true hskip) hopens hu
      rw [dedent_settled (by intro i hi; rw [hs] at hi; cases hi; exact hindent)] at hindents hobjects
      obtain ⟨h1, h2⟩ := ih hnext (hindents.trans hs) ht
      exact ⟨h1, h2.trans hobjects⟩

/-- the reader at the end of the first section -/
theorem opened_first (f : FirstSection) (ht : runLines stod {} (f.lines.map (·.1)) = some t) :
    Opened (indentOf f.header.1) t := by
  unfold FirstSection.lines at ht
  rw [List.map_append, runLines_append, Option.bind_eq_some_iff] at ht
  obtain ⟨s, hs, ht⟩ := ht
  have hparallel : Parallel s := Parallel.runLines (s := {}) ⟨rfl, fun _ => rfl⟩ hs
  rw [List.map_cons, List.map_append, List.map_cons,
    show loggingLine.1 = keyLine 0 (str "logging") [] from rfl, runLines_mapping isKey_logging,
    Nat.mul_zero, hparallel.dedent_zero, Option.bind_eq_some_iff] at ht
  obtain ⟨u, hu, ht⟩ := ht
  obtain ⟨result, -, rfl⟩ := openObject_eq_some hu
  rw [runLines_append, Option.bind_eq_some_iff] at ht
  obtain ⟨v, hv, ht⟩ := ht
  obtain ⟨hindents, hobjects⟩ := runLines_settings (fun l hl => by
    obtain ⟨l, hmem, rfl⟩ := List.mem_map.mp hl
    exact f.inner l hmem) rfl hv
  rw [runLines_cons, Option.bind_eq_some_iff] at ht
  obtain ⟨w, hw, ht⟩ := ht
  obtain ⟨path, hwi, hwo⟩ := readLine_opens f.opens hw
  rw [dedent_settled (by intro i hi; rw [hindents] at hi; cases hi; exact f.indented)] at hwi hwo
  refine Opened.runLines ⟨[], [], path, ?_, ?_, rfl, nofun⟩ ?_ ht
  · rw [hwi, hindents]
    rfl
  · rw [hwo, hobjects]
    rfl
  · intro l hl
    obtain ⟨l, hmem, rfl⟩ := List.mem_map.mp hl
    exact f.deep l hmem

theorem yamlToJson_lines (stod : Str → Except ParseError D) (ls : List Line) :
    ∃ s, runLines stod {} (ls.map (·.1)) = some s ∧ yamlToJson stod (textOf ls) = some s.result := by
  obtain ⟨s, hs, -⟩ := standing_start.run stod (ls.map (·.1))
  have h : yamlToJson stod (textOf ls ++ []) = _ := yamlToJson_textOf ls []
  rw [List.append_nil, hs] at h
  exact ⟨s, hs, h⟩

/-- the settings are below `logging` -/
theorem loadFromJson_congr (truncate : D → Nat) (times : D → Nat → Nat) {j j' : Json D}
    (h : j.field (str "logging") = j'.field (str "logging")) :
    loadFromJson stod truncate times j = loadFromJson stod truncate times j' := by
  unfold loadFromJson field
  rw [h]

end

/-- **Only the first section is read.**  A file has `logging:` at its left margin, then lines that open
no mapping, and then a section with its entries; the next line is not indented more than the section.
Whatever this line and all the following ones are, as long as none has the key `logging`: the settings
are those of the file that ends with the first section. -/
theorem later_sections_ignored {D : Type} (stod : Str → Except ParseError D) (truncate : D → Nat)
    (times : D → Nat → Nat) (f : FirstSection) (next : Line) (rest : List Line)
    (hskip : isSkipped next.1 = false) (hindent : indentOf next.1 ≤ indentOf f.header.1)
    (hkeys : ∀ l ∈ next :: rest, keyOf l.1 ≠ some (str "logging")) :
    loadFromYaml stod truncate times (textOf (f.lines ++ next :: rest))
      = loadFromYaml stod truncate times (textOf f.lines) := by
  obtain ⟨s, hs, hfirst⟩ := yamlToJson_lines stod f.lines
  obtain ⟨t, ht, hwhole⟩ := yamlToJson_lines stod (f.lines ++ next :: rest)
  rw [List.map_append, runLines_append, hs, Option.bind_some, List.map_cons, runLines_cons,
    Option.bind_eq_some_iff] at ht
  obtain ⟨u, hu, ht⟩ := ht
  unfold loadFromYaml
  rw [hfirst, hwhole, Option.bind_some, Option.bind_some]
  -- the line after the section leaves `logging`, and no later one comes back
  obtain ⟨hapart, hfield⟩ := readLine_apart hskip ((opened_first f hs).close hindent _)
    (hkeys next List.mem_cons_self) hu
  refine loadFromJson_congr truncate times ((hapart.runLines (fun l hl => ?_) ht).trans hfield)
  obtain ⟨l, hmem, rfl⟩ := List.mem_map.mp hl
  exact hkeys l (List.mem_cons_of_mem next hmem)

/-- the console section of `config/config.yaml` -/
def consoleSection : FirstSection where
  before := []
  settings := []
  inner := nofun
  header := ⟨str "  console:", by decide⟩
  opens := by decide +kernel
  indented := by decide
  entries := [⟨str "    enabled: true", by decide⟩, ⟨str "    level: \"info\"", by decide⟩]
  deep := by decide

/-- the first line of its file section, and the lines that follow -/
def fileLine : Line := ⟨str "  file:", by decide⟩

def fileLines : List Line :=
  [⟨str "    level: \"debug\"", by decide⟩, ⟨str "    max_size: \"100MB\"", by decide⟩,
   ⟨str "  format: \"json\"", by decide⟩]

/-- the size of the log files is the default of 10 MB -/
theorem file_section_ignored :
    (loadFromYaml (fun _ => .ok (100 : Nat)) id (· * ·)
      (textOf (consoleSection.lines ++ fileLine :: fileLines))).map (·.maxFileSize)
      = some 10485760 := by
  rw [later_sections_ignored _ _ _ consoleSection fileLine fileLines (by decide) (by decide)
    (by decide +kernel)]
  decide +kernel

end Logging
end ChainForge
