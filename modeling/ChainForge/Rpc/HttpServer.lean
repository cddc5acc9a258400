import ChainForge.Lib.Delimited
import ChainForge.Lib.Store

/-!
# HTTP requests

`modules/rpc/src/http_server.cpp`: `parse_http_request` with its two helpers.  All parts of the
request are read from one stream: the request line, then lines up to an EMPTY one, then the body.
A line that holds only `\r` is not empty: the loop drops it and goes on, into the body.

* `requestText`       the CRLF-framed text of a POST request, `WellFormed` ones the subject here;
* `headerLines_text`  the header loop on such a text: the header lines, then lines of the body;
* `readBody_text`     **the body as parsed**: zeros, or what is left behind a newline of the body,
                      filled up with zeros;
* `parse_faithful_iff`  the request is parsed faithfully exactly when its body is empty or all zeros;
* `body_lost`         a request with a one-byte body.
-/

set_option linter.unusedSectionVars false

namespace ChainForge
namespace Rpc
open Text

structure HttpRequest where
  method : Str := []
  path : Str := []
  body : Str := []
  headers : UMap Str Str := ∅
  queryParams : UMap Str Str := ∅

/-- `std::string::max_size` -/
def maxSize : Nat := 2^63 - 1

/-! ## the parser -/

namespace HttpServer

def parseQueryString (query : Str) (params : UMap Str Str) : UMap Str Str :=
  (IStream.lines 38 (fun _ => true) ⟨query, false, false⟩).1.foldl (fun params pair =>
    match pair.idxOf? 61 with
    | some equalsPos => params.insert (pair.take equalsPos) (pair.drop (equalsPos + 1))
    | none => params) params

/-- the body of the loop of `parse_headers` -/
def parseHeader (headers : UMap Str Str) (line : Str) : UMap Str Str :=
  match line.idxOf? 58 with
  | some colonPos => headers.insert (trim (line.take colonPos)) (trim (line.drop (colonPos + 1)))
  | none => headers

def parseHeaders (headerLines : List Str) (headers : UMap Str Str) : UMap Str Str :=
  headerLines.foldl parseHeader headers

/-- the request line: two words, the second one split at the first question mark -/
def parseRequestLine (line : Str) : HttpRequest :=
  let st : IStream := ⟨line, false, false⟩
  let (method, st) := st.readToken
  let (path, _) := st.readToken
  let path := path.getD []
  match path.idxOf? 63 with
  | some queryPos =>
    { method := method.getD [], path := path.take queryPos,
      queryParams := parseQueryString (path.drop (queryPos + 1)) ∅ }
  | none => { method := method.getD [], path }

/-- without a trailing `\r` -/
def chomp (line : Str) : Str := if line.getLast? = some 13 then line.dropLast else line

/-- the header loop; a line that is empty without its `\r` is skipped -/
def headerLines (st : IStream) : List Str × IStream :=
  let (ls, st) := st.lines 10 fun line => !line.isEmpty
  ((ls.map chomp).filter fun line => !line.isEmpty, st)

/-- `body.resize(n)` and `stream.read(&body[0], n)`; a size that `resize` refuses leaves it empty -/
def readBody (contentLength : Nat) (st : IStream) : Str :=
  if 0 < contentLength ∧ contentLength ≤ maxSize then
    let got := (st.read contentLength).1
    got ++ List.replicate (contentLength - got.length) 0
  else []

def parseBody (request : HttpRequest) (stream : IStream) : HttpRequest :=
  if request.method = str "POST" then
    match request.headers.lookup (str "Content-Length") with
    -- operator[] puts an empty value into the map
    | none => { request with headers := request.headers.insert (str "Content-Length") [] }
    | some contentLengthStr =>
      if contentLengthStr.isEmpty then request
      else
        match stoull contentLengthStr with
        | .ok contentLength => { request with body := readBody contentLength.toNat stream }
        | .error _ => request
  else request

/-- the request line and the headers, and the stream behind them -/
def head (requestData : Str) : HttpRequest × IStream :=
  let (line, stream) := IStream.getline 10 ⟨requestData, false, false⟩
  let request := match line with
    | some line => parseRequestLine line
    | none => {}
  let (lines, stream) := headerLines stream
  ({ request with headers := parseHeaders lines request.headers }, stream)

def parseHttpRequest (requestData : Str) : HttpRequest :=
  let (request, stream) := head requestData
  parseBody request stream

theorem parse_head (data : Str) : parseHttpRequest data = parseBody (head data).1 (head data).2 := rfl

end HttpServer

/-! ## requests on the wire -/

def crlf : Str := [13, 10]

/-- a POST request -/
def requestText (path version : Str) (headers : List (Str × Str)) (body : Str) : Str :=
  str "POST " ++ path ++ str " " ++ version ++ crlf ++
    headers.flatMap (fun h => h.1 ++ str ": " ++ h.2 ++ crlf) ++ crlf ++ body

structure WellFormed (path version : Str) (headers : List (Str × Str)) (body : Str) : Prop where
  path_ne : path ≠ []
  path_space : ∀ c ∈ path, isSpace c = false
  path_query : 63 ∉ path
  version_line : 10 ∉ version
  name_ne : ∀ h ∈ headers, h.1 ≠ []
  name_space : ∀ h ∈ headers, ∀ c ∈ h.1, isSpace c = false
  name_colon : ∀ h ∈ headers, 58 ∉ h.1
  names_nodup : (headers.map (·.1)).Nodup
  value_line : ∀ h ∈ headers, 13 ∉ h.2 ∧ 10 ∉ h.2
  value_trimmed : ∀ h ∈ headers, Trimmed h.2
  content_length : (str "Content-Length", toDecimal body.length) ∈ headers
  /-- the text is a `std::string` -/
  fits : (requestText path version headers body).length ≤ maxSize

structure Faithful (path : Str) (headers : List (Str × Str)) (body : Str) (r : HttpRequest) :
    Prop where
  method : r.method = str "POST"
  path : r.path = path
  headers : ∀ name, r.headers.lookup name = headers.lookup name
  body : r.body = body

namespace HttpServer

section
variable {path version body : Str} {headers : List (Str × Str)}

def field (h : Str × Str) : Str := h.1 ++ 58 :: 32 :: h.2

theorem requestText_lines : requestText path version headers body =
    (str "POST" ++ 32 :: (path ++ 32 :: (version ++ [13]))) ++ 10 ::
      ((headers.map (fun h => field h ++ [13]) ++ [[13]]).flatMap (· ++ [10]) ++ body) := by
  have hfields : headers.flatMap (fun h => h.1 ++ str ": " ++ h.2 ++ crlf)
      = (headers.map fun h => field h ++ [13]).flatMap (· ++ [10]) := by
    rw [List.flatMap_map]
    congr 1
    funext h
    simp [field, crlf, str]
  unfold requestText
  rw [hfields]
  simp [crlf, str]

/-! ### the request line -/

theorem parseRequestLine_text (hw : WellFormed path version headers body) :
    parseRequestLine (str "POST" ++ 32 :: (path ++ 32 :: (version ++ [13])))
      = { method := str "POST", path } := by
  have h1 : IStream.readToken ⟨str "POST" ++ 32 :: (path ++ 32 :: (version ++ [13])), false, false⟩
      = (some (str "POST"), ⟨32 :: (path ++ 32 :: (version ++ [13])), false, false⟩) :=
    IStream.readToken_word _ _ 32 (by decide) (by decide +kernel) (by decide)
  have h2 : IStream.readToken ⟨32 :: (path ++ 32 :: (version ++ [13])), false, false⟩
      = (some path, ⟨32 :: (version ++ [13]), false, false⟩) := by
    rw [IStream.readToken_skip 32 _ (by decide)]
    exact IStream.readToken_word _ _ 32 hw.path_ne hw.path_space (by decide)
  have h3 : path.idxOf? 63 = none := by
    rw [List.idxOf?_eq_none_iff]
    exact hw.path_query
  unfold parseRequestLine
  simp only [h1, h2, Option.getD_some, h3]

/-! ### the headers -/

/-- the header lines and the blank one have an end, and none of them is empty -/
theorem headerText_lines (hw : WellFormed path version headers body) :
    ∀ l ∈ headers.map (fun h => field h ++ [13]) ++ [[13]], 10 ∉ l ∧ (!l.isEmpty) = true := by
  intro l hl
  rcases List.mem_append.mp hl with hl | hl
  · obtain ⟨h, hh, rfl⟩ := List.mem_map.mp hl
    refine ⟨?_, by simp [field]⟩
    have hname : (10 : UInt8) ∉ h.1 := fun hc => absurd (hw.name_space h hh 10 hc) (by decide)
    have hval := (hw.value_line h hh).2
    simp [field, hname, hval]
  · rw [List.mem_singleton.mp hl]
    decide

/-- the `\r` is taken off, and the blank line is dropped -/
theorem chomp_headerText (headers : List (Str × Str)) :
    ((headers.map (fun h => field h ++ [13]) ++ [[13]]).map chomp).filter
      (fun line => !line.isEmpty) = headers.map field := by
  have hfield : ∀ h : Str × Str, chomp (field h ++ [13]) = field h := fun h => by
    simp [chomp]
  have hcr : ([[13]].map chomp).filter (fun line : Str => !line.isEmpty) = [] := by decide
  have hmap : headers.map (chomp ∘ fun h => field h ++ [13]) = headers.map field :=
    List.map_congr_left fun h _ => hfield h
  rw [List.map_append, List.map_map, List.filter_append, hcr, List.append_nil, hmap,
    List.filter_eq_self]
  intro l hl
  obtain ⟨h, _, rfl⟩ := List.mem_map.mp hl
  simp [field]

theorem headerLines_text (hw : WellFormed path version headers body) :
    headerLines ⟨(headers.map (fun h => field h ++ [13]) ++ [[13]]).flatMap (· ++ [10]) ++ body,
        false, false⟩
      = (headers.map field ++ (headerLines ⟨body, false, false⟩).1,
         (headerLines ⟨body, false, false⟩).2) := by
  unfold headerLines
  rw [IStream.lines_append 10 _ _ body (headerText_lines hw)]
  dsimp only
  rw [List.map_append, List.filter_append, chomp_headerText]

theorem parseHeader_field {h : Str × Str} (hs : ∀ c ∈ h.1, isSpace c = false) (hc : 58 ∉ h.1)
    (hv : Trimmed h.2) (m : UMap Str Str) : parseHeader m (field h) = m.insert h.1 h.2 := by
  obtain ⟨hpos, hname, hvalue⟩ := split_first hc (32 :: h.2)
  show parseHeader m (keyed 58 h.1 (32 :: h.2)) = _
  unfold parseHeader
  rw [hpos]
  dsimp only
  rw [hname, hvalue, trim_eq_self (trimmed_of_no_space hs), trim_cons_space (by decide) hv]

theorem lookup_headers (hn : (headers.map (·.1)).Nodup) (m : UMap Str Str) (name : Str) :
    (headers.foldl (fun m h => m.insert h.1 h.2) m).lookup name
      = (headers.lookup name).or (m.lookup name) := by
  induction headers generalizing m with
  | nil => rfl
  | cons h headers ih =>
    rw [List.map_cons, List.nodup_cons] at hn
    rw [List.foldl_cons, ih hn.2, UMap.lookup_insert, List.lookup_cons]
    by_cases he : name = h.1
    · have hnone : headers.lookup name = none := by
        rw [List.lookup_eq_none_iff]
        intro p hp
        rw [bne_iff_ne]
        intro hpn
        exact hn.1 (List.mem_map.mpr ⟨p, hp, hpn.symm.trans he⟩)
      rw [if_pos he, hnone, he, beq_self_eq_true]
      rfl
    · rw [if_neg he, beq_eq_false_iff_ne.mpr he]

theorem lookup_of_mem (hn : (headers.map (·.1)).Nodup) {name value : Str}
    (h : (name, value) ∈ headers) : headers.lookup name = some value := by
  induction headers with
  | nil => cases h
  | cons h' headers ih =>
    rw [List.map_cons, List.nodup_cons] at hn
    rw [List.lookup_cons]
    rcases List.mem_cons.mp h with rfl | h
    · rw [beq_self_eq_true]
    · have hne : name ≠ h'.1 := by
        rintro rfl
        exact hn.1 (List.mem_map.mpr ⟨_, h, rfl⟩)
      rw [beq_eq_false_iff_ne.mpr hne]
      exact ih hn.2 h

theorem parseHeaders_fields (hw : WellFormed path version headers body) (m : UMap Str Str) :
    parseHeaders (headers.map field) m = headers.foldl (fun m h => m.insert h.1 h.2) m := by
  unfold parseHeaders
  rw [List.foldl_map]
  exact List.foldl_ext _ _ m fun m h hh =>
    parseHeader_field (hw.name_space h hh) (hw.name_colon h hh) (hw.value_trimmed h hh) m

/-- the headers as parsed: those of the request, and then what the lines of the body add -/
def parsedHeaders (headers : List (Str × Str)) (body : Str) : UMap Str Str :=
  parseHeaders (headerLines ⟨body, false, false⟩).1
    (headers.foldl (fun m h => m.insert h.1 h.2) ∅)

theorem parse_text (hw : WellFormed path version headers body) :
    parseHttpRequest (requestText path version headers body)
      = parseBody { method := str "POST", path, headers := parsedHeaders headers body }
          (headerLines ⟨body, false, false⟩).2 := by
  have hline : (10 : UInt8) ∉ str "POST" ++ 32 :: (path ++ 32 :: (version ++ [13])) := by
    have hpath : (10 : UInt8) ∉ path := fun hc => absurd (hw.path_space 10 hc) (by decide)
    have hpost : (10 : UInt8) ∉ str "POST" := by decide
    simp [hpath, hpost, hw.version_line]
  unfold parseHttpRequest head
  rw [requestText_lines, IStream.getline_line 10 _ _ hline]
  dsimp only
  rw [headerLines_text hw, parseRequestLine_text hw]
  dsimp only
  unfold parsedHeaders
  rw [← parseHeaders_fields hw, parseHeaders, List.foldl_append]
  rfl

/-! ### the body -/

section
variable {r : HttpRequest} {st : IStream} {n : Nat}

theorem parseBody_of_length (hm : r.method = str "POST")
    (hl : r.headers.lookup (str "Content-Length") = some (toDecimal n)) (hn : n ≤ maxSize) :
    parseBody r st = { r with body := readBody n st } := by
  have hlt : n < 2^64 := by
    unfold maxSize at hn
    omega
  have hne : (toDecimal n).isEmpty = false := by
    simpa using toDecimal_ne_nil n
  have hnat : (UInt64.ofNat n).toNat = n := UInt64.toNat_ofNat_of_lt' hlt
  have hread : stoull (toDecimal n) = .ok (UInt64.ofNat n) := by
    have h := stoull_toDecimal (UInt64.ofNat n)
    rwa [hnat] at h
  unfold parseBody
  rw [if_pos hm, hl]
  simp only [hne, hread, hnat, Bool.false_eq_true, if_false]

/-- a value that the map holds in the end was there before the body was read, unless it is empty -/
theorem lookup_of_parseBody {v : Str} (hm : r.method = str "POST")
    (h : (parseBody r st).headers.lookup (str "Content-Length") = some v) (hv : v ≠ []) :
    r.headers.lookup (str "Content-Length") = some v := by
  unfold parseBody at h
  rw [if_pos hm] at h
  cases hl : r.headers.lookup (str "Content-Length") with
  | none =>
    rw [hl] at h
    dsimp only at h
    rw [UMap.lookup_insert, if_pos rfl] at h
    exact absurd (Option.some.inj h).symm hv
  | some w =>
    rw [hl] at h
    dsimp only at h
    rw [← hl]
    split at h
    · exact h
    · split at h <;> exact h

end

/-- **The body as parsed** is all zeros, or the rest of the body behind one of its newlines, filled
up with zeros. -/
theorem readBody_text (hne : body ≠ []) (hfit : body.length ≤ maxSize) :
    readBody body.length (headerLines ⟨body, false, false⟩).2 = List.replicate body.length 0 ∨
      ∃ x r, body = x ++ r ∧ 10 ∈ x ∧
        readBody body.length (headerLines ⟨body, false, false⟩).2
          = r ++ List.replicate (body.length - r.length) 0 := by
  have hpos : 0 < body.length := List.length_pos_iff.mpr hne
  unfold readBody
  rw [if_pos ⟨hpos, hfit⟩]
  dsimp only
  rcases IStream.lines_end 10 (fun line => !line.isEmpty) body with hbad | ⟨x, r, hst, hbody, hx⟩
  · left
    have hread : (IStream.read body.length (headerLines ⟨body, false, false⟩).2).1 = [] :=
      IStream.read_not_good hbad
    rw [hread]
    rfl
  · right
    refine ⟨x, r, hbody, hx, ?_⟩
    have hlt : r.length < body.length := by
      have := List.length_pos_of_mem hx
      rw [hbody, List.length_append]
      omega
    have hst' : (headerLines ⟨body, false, false⟩).2 = ⟨r, false, false⟩ := hst
    rw [hst', IStream.read_short hlt]

/-- what is read is the body only where there is nothing to see -/
theorem zeros_of_readBody (hfit : body.length ≤ maxSize)
    (h : readBody body.length (headerLines ⟨body, false, false⟩).2 = body) :
    ∀ c ∈ body, c = 0 := by
  by_cases hne : body = []
  · rw [hne]
    intro c hc
    cases hc
  rcases readBody_text hne hfit with hz | ⟨x, r, hbody, hx, hr⟩
  · rw [h] at hz
    intro c hc
    rw [hz] at hc
    exact List.eq_of_mem_replicate hc
  · -- the newline in front of the rest has gone, and no zero replaces it
    exfalso
    rw [h] at hr
    have hcount := congrArg (List.count 10) hr
    have hcount' := congrArg (List.count 10) hbody
    rw [List.count_append, List.count_replicate, if_neg (by decide)] at hcount
    rw [List.count_append] at hcount'
    have := List.count_pos_iff.mpr hx
    omega

theorem parseHeader_no_colon {line : Str} (h : 58 ∉ line) (m : UMap Str Str) :
    parseHeader m line = m := by
  unfold parseHeader
  rw [List.idxOf?_eq_none_iff.mpr h]

/-- a body of zeros is one more line to the header loop, and no header -/
theorem parsedHeaders_zeros (hz : ∀ c ∈ body, c = 0) (name : Str)
    (hn : (headers.map (·.1)).Nodup) :
    (parsedHeaders headers body).lookup name = headers.lookup name := by
  have hbase := lookup_headers hn ∅ name
  rw [AList.lookup_empty, Option.or_none] at hbase
  rw [← hbase]
  have hfree : ∀ d : UInt8, d ≠ 0 → d ∉ body := fun d hd hmem => hd (hz d hmem)
  unfold parsedHeaders
  suffices hl : (headerLines ⟨body, false, false⟩).1 = [] ∨
      (headerLines ⟨body, false, false⟩).1 = [body] by
    rcases hl with hl | hl
    · rw [hl]
      rfl
    · rw [hl]
      show (parseHeader _ body).lookup name = _
      rw [parseHeader_no_colon (hfree 58 (by decide))]
  unfold headerLines
  rw [IStream.lines_eq, IStream.getline_last 10 body (hfree 10 (by decide))]
  by_cases he : body.isEmpty = true
  · rw [if_pos he]
    exact .inl rfl
  · have hcr : chomp body = body := by
      unfold chomp
      rw [if_neg]
      intro hlast
      exact hfree 13 (by decide) (List.mem_of_getLast? hlast)
    have hne : (!body.isEmpty) = true := by simpa using he
    right
    rw [if_neg he]
    dsimp only
    rw [if_pos hne, IStream.lines_eq, IStream.getline_not_good _ _ rfl]
    dsimp only
    rw [List.map_cons, List.map_nil, hcr, List.filter_eq_self]
    intro l hl
    rw [List.mem_singleton.mp hl]
    exact hne

end

/-- **A well-formed POST request is parsed faithfully exactly when its body is empty or all
zeros.** -/
theorem parse_faithful_iff {path version body : Str} {headers : List (Str × Str)}
    (hw : WellFormed path version headers body) :
    Faithful path headers body (parseHttpRequest (requestText path version headers body)) ↔
      ∀ c ∈ body, c = 0 := by
  have hfit : body.length ≤ maxSize := by
    have h := hw.fits
    unfold requestText at h
    rw [List.length_append] at h
    omega
  have hcl := lookup_of_mem hw.names_nodup hw.content_length
  let r : HttpRequest := { method := str "POST", path, headers := parsedHeaders headers body }
  have hpost : r.method = str "POST" := rfl
  rw [parse_text hw]
  constructor
  · intro hf
    have hlen : (parsedHeaders headers body).lookup (str "Content-Length")
        = some (toDecimal body.length) :=
      lookup_of_parseBody hpost ((hf.headers _).trans hcl) (toDecimal_ne_nil _)
    have hbody := hf.body
    rw [parseBody_of_length hpost hlen hfit] at hbody
    exact zeros_of_readBody hfit hbody
  · intro hz
    have hheaders := fun name => parsedHeaders_zeros hz name hw.names_nodup
    rw [parseBody_of_length hpost ((hheaders _).trans hcl) hfit]
    refine ⟨rfl, rfl, hheaders, ?_⟩
    show readBody body.length _ = body
    by_cases hne : body = []
    · rw [hne]
      rfl
    rcases readBody_text hne hfit with hr | ⟨x, r, hbody, hx, _⟩
    · rw [hr]
      exact (List.eq_replicate_of_mem hz).symm
    · have h0 := hz 10 (by rw [hbody]; exact List.mem_append_left _ hx)
      exact absurd h0 (by decide)

/-! ## a body that is lost -/

def sampleHeaders : List (Str × Str) :=
  [(str "Host", str "localhost"), (str "Content-Length", str "1")]

theorem sample_wellFormed : WellFormed (str "/") (str "HTTP/1.1") sampleHeaders (str "A") where
  path_ne := by decide
  path_space := by decide +kernel
  path_query := by decide
  version_line := by decide
  name_ne := by decide
  name_space := by decide +kernel
  name_colon := by decide
  names_nodup := by decide
  value_line := by decide
  value_trimmed := by
    unfold Trimmed
    decide +kernel
  content_length := by decide
  fits := by decide

theorem parse_faithful_iff_sample :
    Faithful (str "/") sampleHeaders (str "A")
      (parseHttpRequest (requestText (str "/") (str "HTTP/1.1") sampleHeaders (str "A"))) ↔
      ∀ c ∈ str "A", c = 0 :=
  parse_faithful_iff sample_wellFormed

/-- one byte is sent, and one zero is received -/
theorem body_lost :
    WellFormed (str "/") (str "HTTP/1.1") sampleHeaders (str "A") ∧
      ¬ Faithful (str "/") sampleHeaders (str "A")
        (parseHttpRequest (requestText (str "/") (str "HTTP/1.1") sampleHeaders (str "A"))) := by
  refine ⟨sample_wellFormed, fun h => ?_⟩
  have hbody : (parseHttpRequest (requestText (str "/") (str "HTTP/1.1") sampleHeaders
      (str "A"))).body = [0] := by
    decide +kernel
  rw [h.body] at hbody
  exact absurd hbody (by decide)

end HttpServer

end Rpc
end ChainForge
