import ChainForge.Lib.Framing
import ChainForge.Rpc.Connection

/-!
# HTTP responses

The factories of `HttpResponse` and `add_cors_headers` of `modules/rpc/src/rpc_server_impl.cpp`, and
`format_http_response` of `http_server.cpp`.  The headers are a hash map: the formatter writes them in
the order in which the map happens to be iterated, which is an argument here.  The text of a JSON
string (`nlohmann::json::dump`) is a parameter; it throws on bytes that are not UTF-8.

* `Complete`            what the formatter relies on: both content headers are there, and no header
                        breaks a line;
* `Complete.respond`, `Complete.addCorsHeaders`   the factories provide it, the CORS headers keep it;
* `filter_headers`      the lines with a given name are the entries of the map with this name;
* `response_framing`    **every response is framed**: one blank line at the end of the head, and one
                        line for the type and the length of the body.
-/

set_option linter.unusedSectionVars false

namespace ChainForge
namespace Rpc
open Text HttpServer

/-! ## responses -/

structure HttpResponse where
  statusCode : Nat := 200
  statusMessage : Str := str "OK"
  body : Str := []
  headers : UMap Str Str := ∅
  contentType : Str := str "application/json"

namespace HttpResponse

/-- what the factories have in common -/
def respond (statusCode : Nat) (statusMessage body contentType : Str) : HttpResponse where
  statusCode := statusCode
  statusMessage := statusMessage
  body := body
  contentType := contentType
  headers := ((∅ : UMap Str Str).insert (str "Content-Type") contentType).insert
    (str "Content-Length") (toDecimal body.length)

def ok (body contentType : Str) : HttpResponse := respond 200 (str "OK") body contentType

/-- the `dump` of an error object, around the text of its message -/
def errorBody (code : String) (message : Str) : Str :=
  str "\x7b\"error\":\x7b\"code\":" ++ str code ++ str ",\"message\":" ++ message ++ str "\x7d\x7d"

def badRequest (dump : Str → Option Str) (message : Str) : Option HttpResponse :=
  (dump message).map fun text =>
    respond 400 (str "Bad Request") (errorBody "-32600" text) (str "application/json")

def notFound (message : Str) : HttpResponse :=
  respond 404 (str "Not Found") message (str "text/plain")

def internalError (dump : Str → Option Str) (message : Str) : Option HttpResponse :=
  (dump message).map fun text =>
    respond 500 (str "Internal Server Error") (errorBody "-32603" text) (str "application/json")

end HttpResponse

/-- what `add_cors_headers` reads of the configuration -/
structure RpcServerConfig where
  enableCors : Bool := true
  allowedOrigins : List Str := [str "*"]

def addCorsHeaders (config : RpcServerConfig) (response : HttpResponse) : HttpResponse :=
  if !config.enableCors then response
  else
    { response with
      headers := (((response.headers.insert (str "Access-Control-Allow-Origin")
        (config.allowedOrigins.headD (str "*"))).insert
        (str "Access-Control-Allow-Methods") (str "POST, OPTIONS")).insert
        (str "Access-Control-Allow-Headers") (str "Content-Type")).insert
        (str "Access-Control-Max-Age") (str "86400") }

/-- `order` is the order in which the headers are iterated -/
def formatHttpResponse (order : List (Str × Str)) (response : HttpResponse) : Str :=
  str "HTTP/1.1 " ++ toDecimal response.statusCode ++ str " " ++ response.statusMessage ++ crlf ++
    order.flatMap (fun h => h.1 ++ str ": " ++ h.2 ++ crlf) ++
    (if response.headers.lookup (str "Content-Type") = none then
      str "Content-Type: " ++ response.contentType ++ crlf else []) ++
    (if response.headers.lookup (str "Content-Length") = none then
      str "Content-Length: " ++ toDecimal response.body.length ++ crlf else []) ++
    crlf ++ response.body

/-- the entries of the map, in some order -/
def Iterates (headers : UMap Str Str) (order : List (Str × Str)) : Prop :=
  order.Perm (headers.entries.map fun p => (p.1, p.2))

/-! ## framing -/

/-- no CR and no LF -/
abbrev Plain (line : Str) : Prop := Framing.Plain 13 10 line

/-- a header line with this name -/
def isHeader (name line : Str) : Bool := (name ++ [58]).isPrefixOf line

/-- the text is a head of lines, a blank line, which is the first one of the text, and the body; the
head tells the type of the body and its length, each of them once -/
def Framed (text body : Str) : Prop :=
  ∃ lines : List Str, (∀ line ∈ lines, Plain line) ∧
    text = crlf.intercalate lines ++ blankLine ++ body ∧
    (∀ i < (crlf.intercalate lines).length, ¬ blankLine <+: text.drop i) ∧
    lines.filter (isHeader (str "Content-Length")) = [str "Content-Length: " ++ toDecimal body.length] ∧
    (lines.filter (isHeader (str "Content-Type"))).length = 1

/-- made by one of the factories -/
inductive Made (dump : Str → Option Str) : HttpResponse → Prop
  | ok (body contentType : Str) (h : Plain contentType) : Made dump (.ok body contentType)
  | badRequest (message : Str) (response : HttpResponse)
      (h : HttpResponse.badRequest dump message = some response) : Made dump response
  | notFound (message : Str) : Made dump (.notFound message)
  | internalError (message : Str) (response : HttpResponse)
      (h : HttpResponse.internalError dump message = some response) : Made dump response

/-! ## headers -/

/-- neither name nor value breaks a line, and the name ends at the colon -/
structure CleanHeader (name value : Str) : Prop where
  name_colon : 58 ∉ name
  name_plain : Plain name
  value_plain : Plain value

instance decidableCleanHeader (name value : Str) : Decidable (CleanHeader name value) :=
  decidable_of_iff (name.contains 58 = false ∧ Plain name ∧ Plain value)
    ⟨fun h => ⟨by simpa using h.1, h.2.1, h.2.2⟩,
      fun h => ⟨by simpa using h.name_colon, h.name_plain, h.value_plain⟩⟩

/-- what the formatter relies on -/
structure Complete (response : HttpResponse) : Prop where
  status : Plain response.statusMessage
  clean : ∀ name value, response.headers.lookup name = some value → CleanHeader name value
  contentType : ∃ value, response.headers.lookup (str "Content-Type") = some value
  contentLength : response.headers.lookup (str "Content-Length")
    = some (toDecimal response.body.length)

theorem clean_insert {headers : UMap Str Str} {name value : Str} (h : CleanHeader name value)
    (hclean : ∀ n v, headers.lookup n = some v → CleanHeader n v) (n v : Str)
    (hl : (headers.insert name value).lookup n = some v) : CleanHeader n v := by
  rw [UMap.lookup_insert] at hl
  split at hl
  · rename_i e
    rw [e, ← Option.some.inj hl]
    exact h
  · exact hclean n v hl

theorem plain_toDecimal (n : Nat) : Plain (toDecimal n) := by
  constructor
  · intro h
    exact absurd (toDecimal_isDigit n 13 h) (by decide)
  · intro h
    exact absurd (toDecimal_isDigit n 10 h) (by decide)

theorem Complete.respond {statusCode : Nat} {statusMessage contentType : Str} (body : Str)
    (hm : Plain statusMessage) (hc : Plain contentType) :
    Complete (.respond statusCode statusMessage body contentType) where
  status := hm
  clean := by
    apply clean_insert ⟨by decide +kernel, by decide +kernel, plain_toDecimal body.length⟩
    apply clean_insert ⟨by decide +kernel, by decide +kernel, hc⟩
    intro n v h
    rw [AList.lookup_empty] at h
    cases h
  contentType := by
    refine ⟨contentType, ?_⟩
    show ((∅ : UMap Str Str).insert (str "Content-Type") contentType |>.insert
      (str "Content-Length") (toDecimal body.length)).lookup (str "Content-Type") = _
    rw [UMap.lookup_insert, if_neg (by decide +kernel), UMap.lookup_insert, if_pos rfl]
  contentLength := AList.lookup_insert _

theorem Complete.of_made {dump : Str → Option Str} {response : HttpResponse}
    (h : Made dump response) : Complete response := by
  cases h with
  | ok body contentType hc => exact Complete.respond body (by decide +kernel) hc
  | badRequest message _ h =>
    obtain ⟨text, _, rfl⟩ := Option.map_eq_some_iff.mp h
    exact Complete.respond _ (by decide +kernel) (by decide +kernel)
  | notFound message => exact Complete.respond message (by decide +kernel) (by decide +kernel)
  | internalError message _ h =>
    obtain ⟨text, _, rfl⟩ := Option.map_eq_some_iff.mp h
    exact Complete.respond _ (by decide +kernel) (by decide +kernel)

def corsNames : List Str :=
  [str "Access-Control-Allow-Origin", str "Access-Control-Allow-Methods",
    str "Access-Control-Allow-Headers", str "Access-Control-Max-Age"]

section
variable (config : RpcServerConfig) (response : HttpResponse)

/-- other headers are left alone -/
theorem lookup_addCorsHeaders {name : Str} (h : name ∉ corsNames) :
    (addCorsHeaders config response).headers.lookup name = response.headers.lookup name := by
  simp only [corsNames, List.mem_cons, List.not_mem_nil, or_false, not_or] at h
  obtain ⟨h1, h2, h3, h4⟩ := h
  unfold addCorsHeaders
  split
  · rfl
  · simp only [UMap.lookup_insert, if_neg h1, if_neg h2, if_neg h3, if_neg h4]

theorem addCorsHeaders_status : (addCorsHeaders config response).statusMessage
    = response.statusMessage := by
  unfold addCorsHeaders
  split <;> rfl

theorem addCorsHeaders_body : (addCorsHeaders config response).body = response.body := by
  unfold addCorsHeaders
  split <;> rfl

end

theorem Complete.addCorsHeaders {response : HttpResponse} (h : Complete response)
    {config : RpcServerConfig} (ho : ∀ origin ∈ config.allowedOrigins.head?, Plain origin) :
    Complete (addCorsHeaders config response) := by
  have horigin : Plain (config.allowedOrigins.headD (str "*")) := by
    cases hl : config.allowedOrigins with
    | nil => decide +kernel
    | cons origin origins => exact ho origin (by rw [hl]; rfl)
  constructor
  · rw [addCorsHeaders_status]
    exact h.status
  · unfold Rpc.addCorsHeaders
    split
    · exact h.clean
    · apply clean_insert (by decide +kernel)
      apply clean_insert (by decide +kernel)
      apply clean_insert (by decide +kernel)
      apply clean_insert ⟨by decide +kernel, by decide +kernel, horigin⟩
      exact h.clean
  · rw [lookup_addCorsHeaders config response (by decide +kernel)]
    exact h.contentType
  · rw [lookup_addCorsHeaders config response (by decide +kernel), addCorsHeaders_body]
    exact h.contentLength

/-! ## the head -/

section
variable {headers : UMap Str Str} {order : List (Str × Str)}

theorem Iterates.mem (h : Iterates headers order) (name value : Str) :
    (name, value) ∈ order ↔ headers.lookup name = some value := by
  rw [h.mem_iff, List.mem_map, ← UMap.mem_entries]
  constructor
  · rintro ⟨p, hp, e⟩
    cases e
    exact hp
  · intro hp
    exact ⟨_, hp, rfl⟩

theorem Iterates.nodup (h : Iterates headers order) : (order.map (·.1)).Nodup := by
  have hkeys := h.map (·.1)
  rw [List.map_map] at hkeys
  exact hkeys.nodup_iff.mpr headers.nodupKeys

theorem isHeader_field {name : Str} {h : Str × Str} (hn : 58 ∉ name) (hh : 58 ∉ h.1) :
    isHeader name (field h) = decide (h.1 = name) := by
  rw [Bool.eq_iff_iff, isHeader, List.isPrefixOf_iff_prefix, decide_eq_true_iff]
  have hd : ((58 : UInt8) != 58) = false := rfl
  constructor
  · rintro ⟨t, ht⟩
    -- both names end at the first colon of the line
    have hline : name ++ 58 :: t = h.1 ++ 58 :: (32 :: h.2) := by
      rw [← List.singleton_append, ← List.append_assoc, ht]
      rfl
    have htake := congrArg (List.takeWhile (· != 58)) hline
    rw [takeWhile_stop (bne_of_not_mem hn) hd, takeWhile_stop (bne_of_not_mem hh) hd] at htake
    exact htake.symm
  · intro e
    refine ⟨32 :: h.2, ?_⟩
    rw [← e]
    simp [field]

/-- the lines with a given name -/
theorem filter_headers (h : Iterates headers order)
    (hclean : ∀ name value, headers.lookup name = some value → CleanHeader name value)
    {name value : Str} (hn : 58 ∉ name) (hl : headers.lookup name = some value) :
    (order.map field).filter (isHeader name) = [field (name, value)] := by
  have hone : order.filter (fun h => decide (h.1 = name)) = [(name, value)] :=
    UMap.filter_of_nodup_map h.nodup ((h.mem name value).mpr hl)
  have hsame : order.filter (isHeader name ∘ field) = order.filter (fun h => decide (h.1 = name)) := by
    apply List.filter_congr
    intro p hp
    exact isHeader_field hn (hclean p.1 p.2 ((h.mem p.1 p.2).mp hp)).name_colon
  rw [List.filter_map, hsame, hone]
  rfl

theorem plain_field {name value : Str} (h : CleanHeader name value) : Plain (field (name, value)) := by
  have hcolon : Plain [58, 32] := by decide
  have hfield : field (name, value) = name ++ ([58, 32] ++ value) := by simp [field]
  rw [hfield]
  exact h.name_plain.append (hcolon.append h.value_plain)

end

def statusLine (response : HttpResponse) : Str :=
  str "HTTP/1.1 " ++ toDecimal response.statusCode ++ str " " ++ response.statusMessage

theorem format_lines {response : HttpResponse} (h : Complete response) (order : List (Str × Str)) :
    formatHttpResponse order response
      = Framing.block 13 10 (statusLine response :: order.map field) ++ crlf ++ response.body := by
  obtain ⟨value, ht⟩ := h.contentType
  have hfields : order.flatMap (fun h => h.1 ++ str ": " ++ h.2 ++ crlf)
      = Framing.block 13 10 (order.map field) := by
    unfold Framing.block
    rw [List.flatMap_map]
    congr 1
    funext h
    simp [field, crlf, str]
  unfold formatHttpResponse
  rw [ht, h.contentLength, if_neg (Option.some_ne_none _), if_neg (Option.some_ne_none _), hfields,
    Framing.block_cons]
  simp [statusLine, crlf]

theorem Complete.framed {response : HttpResponse} (h : Complete response)
    {order : List (Str × Str)} (ho : Iterates response.headers order) :
    Framed (formatHttpResponse order response) response.body := by
  have hstatus : Plain (statusLine response) := by
    have hhttp : Plain (str "HTTP/1.1 ") := by decide +kernel
    have hblank : Plain (str " ") := by decide +kernel
    exact ((hhttp.append (plain_toDecimal _)).append hblank).append h.status
  have hlines : ∀ line ∈ statusLine response :: order.map field, line ≠ [] ∧ Plain line := by
    intro line hline
    rcases List.mem_cons.mp hline with rfl | hline
    · exact ⟨by simp [statusLine, str], hstatus⟩
    · obtain ⟨p, hp, rfl⟩ := List.mem_map.mp hline
      exact ⟨by simp [field], plain_field (h.clean p.1 p.2 ((ho.mem p.1 p.2).mp hp))⟩
  have hblock := Framing.block_eq (13 : UInt8) 10 (List.cons_ne_nil (statusLine response) (order.map field))
  obtain ⟨value, ht⟩ := h.contentType
  refine ⟨statusLine response :: order.map field, fun line hline => (hlines line hline).2, ?_, ?_, ?_, ?_⟩
  · rw [format_lines h, hblock]
    simp [blankLine, crlf]
  · intro i hi hblank
    rw [format_lines h, List.append_assoc] at hblank
    have hpos := Framing.blank_position (by decide) hlines response.body hblank
    rw [hblock, List.length_append] at hpos
    change _ + 2 ≤ _ at hpos
    change i < ([13, 10].intercalate _).length at hi
    omega
  · have hname : isHeader (str "Content-Length") (statusLine response) = false := rfl
    rw [List.filter_cons_of_neg (by rw [hname]; exact Bool.false_ne_true),
      filter_headers ho h.clean (by decide +kernel) h.contentLength]
    simp [field, str]
  · have hname : isHeader (str "Content-Type") (statusLine response) = false := rfl
    rw [List.filter_cons_of_neg (by rw [hname]; exact Bool.false_ne_true),
      filter_headers ho h.clean (by decide +kernel) ht]
    rfl

/-- **Response framing**, for every response of the factories, with or without the CORS headers, and
every order of the header map. -/
theorem response_framing (dump : Str → Option Str) (response : HttpResponse)
    (hmade : Made dump response) (config : RpcServerConfig)
    (horigin : ∀ origin ∈ config.allowedOrigins.head?, Plain origin) (cors : Bool)
    (order : List (Str × Str))
    (horder : Iterates (if cors then addCorsHeaders config response else response).headers order) :
    let sent := if cors then addCorsHeaders config response else response
    sent.body = response.body ∧ Framed (formatHttpResponse order sent) response.body := by
  intro sent
  have hcomplete := Complete.of_made hmade
  have hbody : sent.body = response.body := by
    show (if cors then addCorsHeaders config response else response).body = response.body
    split
    · exact addCorsHeaders_body config response
    · rfl
  have hsent : Complete sent := by
    show Complete (if cors then addCorsHeaders config response else response)
    split
    · exact hcomplete.addCorsHeaders horigin
    · exact hcomplete
  refine ⟨hbody, ?_⟩
  rw [← hbody]
  exact hsent.framed horder

/-- a body that contains a blank line itself, with the CORS headers of the default configuration -/
theorem response_framing_blank :
    let response := addCorsHeaders {} (.ok blankLine (str "text/plain"))
    Framed (formatHttpResponse (response.headers.entries.map fun p => (p.1, p.2)) response)
      blankLine :=
  (response_framing (fun _ => none) (.ok blankLine (str "text/plain"))
    (.ok _ _ (by decide +kernel)) {} (by decide +kernel) true _ (List.Perm.refl _)).2

end Rpc
end ChainForge
