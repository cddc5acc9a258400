import ChainForge.Rpc.Connection
import ChainForge.Rpc.RequestBody
import Mathlib.Data.List.DropRight

/-!
# Requests that are cut

With the blank line of a request, up to 8190 bytes of its body may be received, or none.  To the
parser they are more header lines, unless the header block has an empty line already; behind an empty
line they are the body.

* `head_append`        what the parser makes of bytes behind a header block;
* `seen`               the headers as the caller finds them; `parseHeaders_seen`: what lines add;
* `Indifferent`        on the bytes: the lines of the body are no headers, or headers that the block has
                       with an empty value as well, and nothing of it gets to where the body is read;
* `segmentation_iff`   **when the request does not depend on how its bytes were cut**;
* `split_after_head`   a request that does.
-/

set_option linter.unusedSectionVars false

namespace ChainForge
namespace Rpc
open Text Chunks

namespace HttpServer

/-- the lines of a text up to its first empty one -/
def leadingLines (text : Str) : List Str :=
  (IStream.lines 10 (fun line => !line.isEmpty) ⟨text, false, false⟩).1

/-- what follows the first empty line of a text -/
def behindEmptyLine (text : Str) : Str :=
  (IStream.lines 10 (fun line => !line.isEmpty) ⟨text, false, false⟩).2.unread

/-- a line behind the request line, with its `\r` -/
def addLine (headers : UMap Str Str) (line : Str) : UMap Str Str := parseHeader headers (chomp line)

/-- a header as the caller finds it: reading the length of a POST request adds it where it is missing -/
def seen (method : Str) (headers : UMap Str Str) (name : Str) : Option Str :=
  if method = str "POST" ∧ name = str "Content-Length" then some ((headers.lookup name).getD [])
  else headers.lookup name

/-- the bytes `more` behind a header block make no difference -/
def Indifferent (block more : Str) : Prop :=
  if (head block).2.good then
    -- the block has an empty line, and the body begins behind it
    more = [] ∨ contentLength (head block).1 ≤ (head block).2.rest.length
  else
    (∀ line ∈ leadingLines more, ∀ name value, line = name ++ 58 :: value → 58 ∉ name →
      (∀ c ∈ value, isSpace c = true) ∧
        seen (head block).1.method (head block).1.headers (trim name) = some []) ∧
    (0 < contentLength (head block).1 → behindEmptyLine more = [])

/-! ## lines as headers -/

theorem trim_append_space {c : UInt8} (hc : isSpace c = true) (s : Str) : trim (s ++ [c]) = trim s := by
  unfold trim
  rw [List.dropWhile_append]
  split
  · rename_i he
    rw [List.isEmpty_iff.mp he, List.dropWhile_cons, if_pos hc]
    rfl
  · rw [List.reverse_append, List.reverse_singleton, List.singleton_append, List.dropWhile_cons,
      if_pos hc]

theorem trim_eq_nil_iff (s : Str) : trim s = [] ↔ ∀ c ∈ s, isSpace c = true := by
  unfold trim
  rw [List.reverse_eq_nil_iff, List.dropWhile_eq_nil_iff]
  simp only [List.mem_reverse]
  rw [← List.dropWhile_eq_nil_iff, ← List.dropWhile_eq_nil_iff, List.dropWhile_idempotent]

/-- a line with a colon is a header -/
theorem addLine_keyed {name : Str} (hname : 58 ∉ name) (value : Str) (m : UMap Str Str) :
    addLine m (name ++ 58 :: value) = m.insert (trim name) (trim value) := by
  have hplain : ∀ value, parseHeader m (name ++ 58 :: value) = m.insert (trim name) (trim value) := by
    intro value
    obtain ⟨hpos, htake, hdrop⟩ := split_first hname value
    show parseHeader m (keyed 58 name value) = _
    unfold parseHeader
    rw [hpos]
    dsimp only
    rw [htake, hdrop]
  unfold addLine chomp
  split
  · rename_i hlast
    -- the value ends with the `\r`, which is white space
    rcases List.eq_nil_or_concat value with rfl | ⟨v, c, rfl⟩
    · rw [List.getLast?_concat] at hlast
      cases hlast
    · rw [List.concat_eq_append] at hlast ⊢
      rw [← List.cons_append, ← List.append_assoc] at hlast ⊢
      rw [List.getLast?_concat] at hlast
      rw [List.dropLast_concat, hplain, Option.some.inj hlast, trim_append_space rfl]
  · exact hplain value

theorem addLine_plain {line : Str} (h : 58 ∉ line) (m : UMap Str Str) : addLine m line = m := by
  refine parseHeader_no_colon (fun hm => h ?_) m
  unfold chomp at hm
  split at hm
  · exact List.mem_of_mem_dropLast hm
  · exact hm

/-- an empty line adds nothing, so the parser need not drop it -/
theorem parseHeaders_lines (lines : List Str) (m : UMap Str Str) :
    parseHeaders ((lines.map chomp).filter fun line => !line.isEmpty) m
      = lines.foldl addLine m := by
  induction lines generalizing m with
  | nil => rfl
  | cons line lines ih =>
    rw [List.map_cons, List.filter_cons, List.foldl_cons, ← ih]
    unfold addLine
    cases chomp line with
    | nil => rfl
    | cons c l => rfl

theorem seen_insert (method : Str) (m : UMap Str Str) (n v name : Str) :
    seen method (m.insert n v) name = if name = n then some v else seen method m name := by
  unfold seen
  rw [UMap.lookup_insert]
  by_cases hn : name = n
  · simp only [if_pos hn, Option.getD_some, ite_self]
  · simp only [if_neg hn]

section
variable {method : Str} {m m₀ : UMap Str Str} {lines : List Str}

/-- lines with empty headers that are there already -/
theorem seen_unchanged (hlines : ∀ line ∈ lines, ∀ name value, line = name ++ 58 :: value → 58 ∉ name →
      (∀ c ∈ value, isSpace c = true) ∧ seen method m₀ (trim name) = some [])
    (hm : ∀ name, seen method m name = seen method m₀ name) (name : Str) :
    seen method (lines.foldl addLine m) name
      = seen method m₀ name := by
  induction lines generalizing m with
  | nil => exact hm name
  | cons line lines ih =>
    refine ih (fun l hl => hlines l (List.mem_cons_of_mem line hl)) fun n => ?_
    by_cases hcolon : 58 ∈ line
    · obtain ⟨key, value, hline, hkey⟩ := List.eq_append_cons_of_mem hcolon
      obtain ⟨hvalue, hseen⟩ := hlines line List.mem_cons_self key value hline hkey
      rw [hline, addLine_keyed hkey, seen_insert, (trim_eq_nil_iff value).mpr hvalue]
      split
      · rename_i hn
        rw [hn, hseen]
      · exact hm n
    · rw [addLine_plain hcolon]
      exact hm n

/-- the last line is read last -/
theorem seen_last {key : Str} (hkey : 58 ∉ key) (value : Str) :
    seen method ((lines ++ [key ++ 58 :: value]).foldl addLine m)
      (trim key) = some (trim value) := by
  rw [List.foldl_append, List.foldl_cons, List.foldl_nil, addLine_keyed hkey, seen_insert,
    if_pos rfl]

end

/-! ## the request -/

/-- the first `n` bytes, with zeros for those that are missing -/
def padded (n : Nat) (s : Str) : Str := s.take n ++ List.replicate (n - s.length) 0

theorem parseBody_fields (r : HttpRequest) (st : IStream) :
    (parseBody r st).method = r.method ∧ (parseBody r st).path = r.path ∧
      (parseBody r st).queryParams = r.queryParams ∧
      ∀ name, (parseBody r st).headers.lookup name = seen r.method r.headers name := by
  unfold parseBody seen
  by_cases hpost : r.method = str "POST"
  · rw [if_pos hpost]
    cases hl : r.headers.lookup (str "Content-Length") with
    | none =>
      refine ⟨rfl, rfl, rfl, fun name => ?_⟩
      dsimp only
      rw [UMap.lookup_insert]
      by_cases hn : name = str "Content-Length"
      · rw [if_pos hn, if_pos ⟨hpost, hn⟩, hn, hl]
        rfl
      · rw [if_neg hn, if_neg fun h => hn h.2]
    | some v =>
      have hsame : ∀ name, r.headers.lookup name =
          if r.method = str "POST" ∧ name = str "Content-Length" then
            some ((r.headers.lookup name).getD []) else r.headers.lookup name := by
        intro name
        split
        · rename_i h
          rw [h.2, hl]
          rfl
        · rfl
      dsimp only
      split
      · exact ⟨rfl, rfl, rfl, hsame⟩
      · split
        · exact ⟨rfl, rfl, rfl, hsame⟩
        · exact ⟨rfl, rfl, rfl, hsame⟩
  · rw [if_neg hpost]
    exact ⟨rfl, rfl, rfl, fun name => (if_neg fun h => hpost h.1).symm⟩

/-- the announced length follows from what is seen -/
theorem contentLength_congr {r r' : HttpRequest} (hmethod : r.method = r'.method)
    (h : ∀ name, seen r.method r.headers name = seen r'.method r'.headers name) :
    contentLength r = contentLength r' := by
  have hseen : ∀ r : HttpRequest, r.method = str "POST" → contentLength r
      = ((seen r.method r.headers (str "Content-Length")).map stoull).elim 0 fun n =>
          n.toOption.elim 0 fun n => if n.toNat ≤ maxSize then n.toNat else 0 := by
    intro r hpost
    unfold contentLength seen
    rw [if_pos hpost, if_pos ⟨hpost, rfl⟩]
    cases r.headers.lookup (str "Content-Length") with
    | none => rfl
    | some v =>
      rw [Option.map_some, Option.getD_some, Option.map_some, Option.elim_some]
      cases stoull v <;> rfl
  by_cases hpost : r.method = str "POST"
  · rw [hseen r hpost, hseen r' (hmethod ▸ hpost), h]
  · unfold contentLength
    rw [if_neg hpost, if_neg fun h => hpost (hmethod.trans h)]

/-- requests that differ in their headers only -/
theorem same_parseBody_iff {r : HttpRequest} (headers : UMap Str Str) (st st' : IStream)
    (hbody : r.body = []) :
    Same (parseBody { r with headers } st) (parseBody r st') ↔
      (∀ name, seen r.method headers name = seen r.method r.headers name) ∧
      padded (contentLength r) st.unread = padded (contentLength r) st'.unread := by
  obtain ⟨hm, hp, hq, hh⟩ := parseBody_fields { r with headers } st
  obtain ⟨hm', hp', hq', hh'⟩ := parseBody_fields r st'
  have hnone : ({ r with headers } : HttpRequest).body = [] := hbody
  have hb := parseBody_eq hnone st
  have hb' := parseBody_eq hbody st'
  constructor
  · intro h
    have hseen : ∀ name, seen r.method headers name = seen r.method r.headers name := by
      intro name
      rw [← hh', ← h.headers]
      exact (hh name).symm
    refine ⟨hseen, ?_⟩
    have hlen : contentLength { r with headers } = contentLength r := contentLength_congr rfl hseen
    rw [hlen] at hb
    exact hb.symm.trans (h.body.trans hb')
  · rintro ⟨hseen, hbytes⟩
    have hlen : contentLength { r with headers } = contentLength r := contentLength_congr rfl hseen
    refine ⟨hm.trans hm'.symm, hp.trans hp'.symm, ?_, fun name => ?_, fun name => ?_⟩
    · rw [hlen] at hb
      exact hb.trans (hbytes.trans hb'.symm)
    · rw [hh, hh']
      exact hseen name
    · rw [hq, hq']

/-- **Bytes behind a header block.**  Where its last line is not the end of the headers, they go on. -/
theorem head_append {block : Str} (hend : block.getLast? = some 10) (more : Str) :
    head (block ++ more) =
      if (head block).2.good then ((head block).1, ⟨(head block).2.rest ++ more, false, false⟩)
      else ({ (head block).1 with
              headers := (leadingLines more).foldl addLine (head block).1.headers },
            (IStream.lines 10 (fun line => !line.isEmpty) ⟨more, false, false⟩).2) := by
  obtain ⟨l, t, rfl, hl⟩ := List.eq_append_cons_of_mem (List.mem_of_getLast? hend)
  have ht : ∀ c ∈ t.getLast?, c = 10 := by
    intro c hc
    rw [List.getLast?_append, List.getLast?_cons, Option.mem_def.mp hc] at hend
    exact Option.some.inj hend
  unfold head
  rw [List.append_assoc, List.cons_append, IStream.getline_line 10 l _ hl, IStream.getline_line 10 l _ hl]
  dsimp only
  unfold headerLines
  rw [IStream.lines_append_text 10 _ ht more]
  dsimp only
  split
  · rfl
  · dsimp only
    rw [parseHeaders_lines, parseHeaders_lines, List.foldl_append]
    rfl

end HttpServer

open HttpServer

/-! ## bytes that make no difference -/

section
variable {block more : Str}

/-- a byte that is no zero is missed -/
theorem padded_append_ne {n : Nat} {s : Str} (hn : s.length < n) {c : UInt8} (hc : c ≠ 0) (t : Str) :
    padded n (s ++ c :: t) ≠ padded n s := by
  intro h
  have hget := congrArg (fun l : Str => l[s.length]?) h
  unfold padded at hget
  rw [List.take_append, List.append_assoc, List.take_of_length_le (Nat.le_of_lt hn),
    List.getElem?_append_right (Nat.le_refl _), List.getElem?_append_right (Nat.le_refl _),
    Nat.sub_self] at hget
  obtain ⟨k, hk⟩ : ∃ k, n - s.length = k + 1 := ⟨n - s.length - 1, by omega⟩
  rw [hk, List.take_succ_cons, List.cons_append, List.replicate_succ] at hget
  exact hc (Option.some.inj hget)

/-- the block has an empty line: the bytes belong to the body -/
theorem same_body_iff (hend : block.getLast? = some 10) (hgood : (head block).2.good = true)
    (hz : 0 ∉ more) :
    (∀ m, Same (parseHttpRequest (block ++ more.take m)) (parseHttpRequest block)) ↔
      more = [] ∨ contentLength (head block).1 ≤ (head block).2.rest.length := by
  have hunread : (head block).2.unread = (head block).2.rest := if_pos hgood
  have hsame : ∀ m, Same (parseHttpRequest (block ++ more.take m)) (parseHttpRequest block) ↔
      padded (contentLength (head block).1) ((head block).2.rest ++ more.take m)
        = padded (contentLength (head block).1) (head block).2.rest := by
    intro m
    rw [parse_head, parse_head block, head_append hend, if_pos hgood]
    refine (same_parseBody_iff (head block).1.headers _ _ (head_body block)).trans ?_
    rw [hunread]
    exact and_iff_right fun _ => rfl
  constructor
  · intro h
    by_contra hno
    rw [not_or, Nat.not_le] at hno
    obtain ⟨c, t, rfl⟩ := List.exists_cons_of_ne_nil hno.1
    have hc : c ≠ 0 := fun e => hz (e ▸ List.mem_cons_self)
    exact padded_append_ne hno.2 hc [] ((hsame 1).mp (h 1))
  · intro h m
    rw [hsame]
    rcases h with rfl | hle
    · rw [List.take_nil, List.append_nil]
    · unfold padded
      rw [List.take_append_of_le_length hle, List.length_append, Nat.sub_eq_zero_of_le hle,
        Nat.sub_eq_zero_of_le (Nat.le_add_right_of_le hle)]

theorem isEmpty_of_prefix {u l : Str} (h : u <+: l) (hu : (!u.isEmpty) = true) :
    (!l.isEmpty) = true := by
  cases l with
  | nil => rwa [List.prefix_nil.mp h] at hu
  | cons c l => rfl

/-- with a part of the body behind it the block has more lines -/
theorem same_part_iff (hend : block.getLast? = some 10) (hgood : (head block).2.good = false)
    (part : Str) :
    Same (parseHttpRequest (block ++ part)) (parseHttpRequest block) ↔
      (∀ name, seen (head block).1.method ((leadingLines part).foldl addLine (head block).1.headers)
          name = seen (head block).1.method (head block).1.headers name) ∧
      padded (contentLength (head block).1) (behindEmptyLine part)
        = padded (contentLength (head block).1) [] := by
  rw [parse_head, parse_head block, head_append hend, if_neg (Bool.eq_false_iff.mp hgood)]
  refine (same_parseBody_iff _ _ _ (head_body block)).trans ?_
  rw [IStream.unread_of_not_good hgood]
  exact Iff.rfl

/-- a line that is cut behind its colon, or further on -/
theorem seen_of_line {line : Str} (hline : line ∈ leadingLines more)
    (h : ∀ m name, seen (head block).1.method
        ((leadingLines (more.take m)).foldl addLine (head block).1.headers) name
      = seen (head block).1.method (head block).1.headers name) {name v : Str} (hname : 58 ∉ name)
    (hv : name ++ 58 :: v <+: line) :
    seen (head block).1.method (head block).1.headers (trim name) = some (trim v) := by
  obtain ⟨m, ls, hm⟩ := IStream.lines_reach 10 hline hv
    (List.append_ne_nil_of_right_ne_nil _ (List.cons_ne_nil _ _)) (by simp)
  have hlines : leadingLines (more.take m) = ls ++ [name ++ 58 :: v] := hm
  rw [← h m, hlines, seen_last hname]

/-- the block has none: they are more lines -/
theorem same_lines_iff (hend : block.getLast? = some 10) (hgood : (head block).2.good = false)
    (hz : 0 ∉ more) :
    (∀ m, Same (parseHttpRequest (block ++ more.take m)) (parseHttpRequest block)) ↔
      (∀ line ∈ leadingLines more, ∀ name value, line = name ++ 58 :: value → 58 ∉ name →
        (∀ c ∈ value, isSpace c = true) ∧
          seen (head block).1.method (head block).1.headers (trim name) = some []) ∧
      (0 < contentLength (head block).1 → behindEmptyLine more = []) := by
  simp only [same_part_iff hend hgood]
  constructor
  · intro h
    refine ⟨fun line hline name value hkeyed hname => ?_, fun hlen => ?_⟩
    · have hcut : ∀ v, name ++ 58 :: v <+: line →
          seen (head block).1.method (head block).1.headers (trim name) = some (trim v) :=
        fun v => seen_of_line hline (fun m => (h m).1) hname
      have hempty := hcut [] ⟨value, by rw [hkeyed, List.append_assoc, List.cons_append]; rfl⟩
      have hvalue := hcut value (by rw [hkeyed])
      rw [hempty] at hvalue
      exact ⟨(trim_eq_nil_iff value).mp (Option.some.inj hvalue).symm, hempty⟩
    · by_contra hne
      obtain ⟨c, t, hbehind⟩ := List.exists_cons_of_ne_nil hne
      have hall := (h more.length).2
      rw [List.take_length, hbehind] at hall
      have hmem : c ∈ more := by
        have hsuffix : behindEmptyLine more <:+ more :=
          (IStream.unread_suffix _).trans (IStream.lines_suffix 10 _ ⟨more, false, false⟩)
        exact hsuffix.subset (hbehind ▸ List.mem_cons_self)
      have hc : c ≠ 0 := fun e => hz (e ▸ hmem)
      exact padded_append_ne (s := []) hlen hc t hall
  · rintro ⟨hlines, hbehind⟩ m
    obtain ⟨hparts, hleft⟩ := IStream.lines_take 10 (fun _ _ => isEmpty_of_prefix) more m
    refine ⟨seen_unchanged (fun part hpart name value hkeyed hname => ?_) fun _ => rfl, ?_⟩
    · obtain ⟨line, hline, w, hw⟩ := hparts part hpart
      obtain ⟨hspace, hseen⟩ := hlines line hline name (value ++ w)
        (by rw [← hw, hkeyed, List.append_assoc, List.cons_append]) hname
      exact ⟨fun c hc => hspace c (List.mem_append_left w hc), hseen⟩
    · rcases Nat.eq_zero_or_pos (contentLength (head block).1) with hzero | hpos
      · rw [hzero]
        unfold padded
        simp
      · have hnil : behindEmptyLine (more.take m) <+: [] := hbehind hpos ▸ hleft
        rw [List.prefix_nil.mp hnil]

theorem indifferent_iff (hend : block.getLast? = some 10) (hz : 0 ∉ more) :
    (∀ m, Same (parseHttpRequest (block ++ more.take m)) (parseHttpRequest block)) ↔
      Indifferent block more := by
  unfold Indifferent
  cases hgood : (head block).2.good with
  | true => exact same_body_iff hend hgood hz
  | false => exact same_lines_iff hend hgood hz

end

/-- **When a request does not depend on how it is cut.**  Of the body, the bytes in front of its first
zero that fit into the chunk with the end of the header block must make no difference.  A request with
a zero in its header block depends on how it is cut, if it fits into one chunk and the client waits. -/
theorem segmentation_iff {head : Str} (hhead : HeaderBlock head) (body : Str) (closed : Bool) :
    (0 ∉ head →
      (Independent (head ++ body) closed ↔ Indifferent head ((cstr body).take bufferLimit))) ∧
    (0 ∈ head → (head ++ body).length ≤ bufferLimit + 1 → ¬ Independent (head ++ body) false) := by
  refine ⟨fun hz => ?_, fun hz hlen => dependent_of_zero hhead hz hlen⟩
  have hend : head.getLast? = some 10 := by
    obtain ⟨a, rfl⟩ := hhead.eq_append
    show (a ++ [13, 10, 13, 10]).getLast? = some 10
    simp
  have hmore : 0 ∉ (cstr body).take bufferLimit :=
    fun hm => zero_not_mem_cstr body (List.mem_of_mem_take hm)
  rw [independent_head_iff hhead hz, ← indifferent_iff hend hmore]
  constructor
  · intro h m
    rw [List.take_take]
    exact h _ (Nat.min_le_right _ _)
  · intro h m hm
    have := h m
    rwa [List.take_take, Nat.min_eq_left hm] at this

/-- the header block of a request with three bytes of body -/
def plainHead : Str :=
  requestText (str "/") (str "HTTP/1.1") [(str "Content-Length", str "3")] []

theorem plainHead_block : HeaderBlock plainHead := by
  unfold HeaderBlock
  decide +kernel

theorem segmentation_plain :
    (0 ∉ plainHead → (Independent (plainHead ++ str "abc") false ↔
      Indifferent plainHead ((cstr (str "abc")).take bufferLimit))) ∧
    (0 ∈ plainHead → (plainHead ++ str "abc").length ≤ bufferLimit + 1 →
      ¬ Independent (plainHead ++ str "abc") false) :=
  segmentation_iff plainHead_block (str "abc") false

/-- in one chunk, the body is taken for a header -/
theorem split_after_head :
    let r := plainHead ++ str "K:v"
    Cut bufferLimit r [r] ∧ Cut bufferLimit r [plainHead, str "K:v"] ∧
      (handleConnection [r] false).map (fun q => q.headers.lookup (str "K")) = some (some (str "v")) ∧
      (handleConnection [plainHead, str "K:v"] false).map (fun q => q.headers.lookup (str "K"))
        = some none := by
  refine ⟨⟨by decide +kernel, by decide +kernel⟩, ⟨by decide +kernel, by decide +kernel⟩, ?_, ?_⟩
  · decide +kernel
  · decide +kernel

end Rpc
end ChainForge
