import ChainForge.Rpc.RequestIds

/-!
# Answers to requests

The answers of the server to any method: a result or an error, as JSON.  `dump` throws on a string that
is not UTF-8, outside of every `try`, so a client gets an answer if there is none in it.  The strings of
a request are UTF-8, as its body is JSON; those of a method are its own.

* `Single`            a response with a result or an error, and not both, that is printed;
* `Answers`           a method that returns such responses, and throws only texts in UTF-8;
* `AllAnswer.step`    a server with such methods keeps only such methods, whatever happens to it;
* `AllAnswer.post`    such a server **answers every POST**.
-/

set_option linter.unusedSectionVars false

namespace ChainForge
namespace Rpc
open Text

section
variable {D : Type}

abbrev Response (D : Type) := JsonRpcResponse (Json D)

/-! ## values that are printed -/

theorem setOption_printable {key : String} {value : Option (Json D)} {fields : Json.Fields D}
    (h : (Json.object fields).Printable) (hkey : utf8 (str key) = true)
    (hvalue : ∀ v ∈ value, v.Printable) : (Json.object (setOption key value fields)).Printable := by
  cases value with
  | none => exact h
  | some v => exact h.setField hkey (hvalue v rfl)

/-- an error of the server, which has no data -/
theorem error_printable {code : Int} (hcode : Json.Word code) {message : Str}
    (hmessage : utf8 message = true) :
    (JsonRpcError.toJson ⟨code, message, none⟩ : Json D).Printable :=
  setOption_printable ((Json.Printable.empty.setField (by decide) (.integer hcode)).setField (by decide)
    (.string hmessage)) (by decide) nofun

theorem toJson_printable {r : Response D} (hversion : utf8 r.jsonrpc = true)
    (hresult : ∀ v ∈ r.result, v.Printable) (herror : ∀ e ∈ r.error, e.toJson.Printable)
    (hid : ∀ id ∈ r.id, utf8 id = true) : r.toJson.Printable := by
  refine setOption_printable (setOption_printable (setOption_printable (Json.Printable.empty.setField
    (by decide) (.string hversion)) (by decide) hresult) (by decide) ?_) (by decide) ?_
  · intro v hv
    obtain ⟨e, he, rfl⟩ := Option.map_eq_some_iff.mp hv
    exact herror e he
  · intro v hv
    obtain ⟨id, hi, rfl⟩ := Option.map_eq_some_iff.mp hv
    exact .string (hid id hi)

/-! ## answers with one outcome -/

theorem utf8_version : utf8 (str "2.0") = true := by decide

/-- a result or an error, and not both, that is printed -/
structure Single (r : Response D) : Prop where
  version : r.jsonrpc = str "2.0"
  one : r.result.isSome = !r.error.isSome
  printable : r.toJson.Printable

/-- what is returned has the property, and what is thrown is UTF-8 -/
inductive Sound {α : Type} (P : α → Prop) : Except Str α → Prop
  | ok {a : α} (h : P a) : Sound P (.ok a)
  | error {what : Str} (h : utf8 what = true) : Sound P (.error what)

/-- a handler that has one outcome, for parameters that come from a request -/
def Answers (handler : RpcMethodHandler (Json D)) : Prop :=
  ∀ params : Json D, params.Printable → Sound Single (handler.call params)

theorem Sound.bind {α β : Type} {P : α → Prop} {Q : β → Prop} {x : Except Str α}
    {f : α → Except Str β} (hx : Sound P x) (hf : ∀ a, P a → Sound Q (f a)) : Sound Q (x >>= f) := by
  cases hx with
  | ok h => exact hf _ h
  | error h => exact .error h

theorem single_error {code : Int} (hcode : Json.Word code) {message : Str}
    (hmessage : utf8 message = true) :
    Single ({ error := some ⟨code, message, none⟩ } : Response D) where
  version := rfl
  one := rfl
  printable := toJson_printable utf8_version nofun
    (fun _ he => Option.some.inj he ▸ error_printable hcode hmessage) nofun

/-- an exception is an error -/
theorem Answers.answer {handler : RpcMethodHandler (Json D)} (h : Answers handler) {params : Json D}
    (hparams : params.Printable) : Single (handler.answer params) := by
  unfold RpcMethodHandler.answer
  cases hcall : handler.call params with
  | ok r =>
    have hsound := h params hparams
    rw [hcall] at hsound
    cases hsound with
    | ok hr => exact hr
  | error what =>
    have hsound := h params hparams
    rw [hcall] at hsound
    cases hsound with
    | error hwhat => exact single_error (by decide) hwhat

/-- the function that `operator[]` puts in the table -/
theorem answers_empty : Answers (none : RpcMethodHandler (Json D)) := fun _ _ => .error (by decide)

/-! ## the server -/

/-- a request as it comes from a text -/
structure Readable (request : JsonRpcRequest (Json D)) : Prop where
  params : request.params.Printable
  id : ∀ id ∈ request.id, utf8 id = true

/-- all functions in the table have one outcome, and all requests under way come from texts -/
structure AllAnswer (s : RpcServerImpl (Json D)) : Prop where
  handlers : ∀ name handler, s.methods.lookup name = some handler → Answers handler
  pending : ∀ n request, s.pending n = some request → Readable request

/-- functions that are registered have one outcome, and requests are read from bodies -/
def Orderly (json : Nlohmann D) : RpcEvent (Json D) → Prop
  | .registerMethod _ handler => Answers handler
  | .check _ request => ∃ body, JsonRpcRequest.fromJson json body = some request
  | _ => True

theorem readable_of_fromJson {json : Nlohmann D} {body : Str} {request : JsonRpcRequest (Json D)}
    (h : JsonRpcRequest.fromJson json body = some request) : Readable request :=
  ⟨(fromJson_printable h).1, (fromJson_printable h).2⟩

section
variable {json : Nlohmann D} {s : RpcServerImpl (Json D)}

theorem AllAnswer.registerMethod (h : AllAnswer s) (name : Str)
    {handler : RpcMethodHandler (Json D)} (hh : Answers handler) :
    AllAnswer (s.registerMethod name handler) := by
  refine ⟨fun name' handler' hl => ?_, h.pending⟩
  have hl : (s.methods.insert name handler).lookup name' = some handler' := hl
  rw [UMap.lookup_insert] at hl
  split at hl
  · cases hl
    exact hh
  · exact h.handlers name' handler' hl

theorem AllAnswer.setPending (h : AllAnswer s) (n : Nat) {request : Option (JsonRpcRequest (Json D))}
    (hr : ∀ r ∈ request, Readable r) : AllAnswer (s.setPending n request) := by
  refine ⟨h.handlers, fun n' request' hp => ?_⟩
  have hp : Function.update s.pending n request n' = some request' := hp
  rw [Function.update_apply] at hp
  split at hp
  · exact hr request' hp
  · exact h.pending n' request' hp

theorem AllAnswer.executeMethod (h : AllAnswer s) {request : JsonRpcRequest (Json D)}
    (hrequest : Readable request) :
    Single (s.executeMethod request).1 ∧ AllAnswer (s.executeMethod request).2 := by
  unfold RpcServerImpl.executeMethod
  cases hm : s.methods.lookup request.method with
  | some handler => exact ⟨(h.handlers _ _ hm).answer hrequest.params, h⟩
  | none => exact ⟨answers_empty.answer hrequest.params, h.registerMethod _ answers_empty⟩

theorem single_of_checkMethod {request : JsonRpcRequest (Json D)} {r : Response D}
    (h : s.checkMethod request = some r) : Single r := by
  unfold RpcServerImpl.checkMethod at h
  split at h
  · cases h
    exact single_error (by decide) (by decide)
  · split at h
    · cases h
      exact single_error (by decide) (by decide)
    · cases h

theorem AllAnswer.process (h : AllAnswer s) {request : JsonRpcRequest (Json D)}
    (hrequest : Readable request) : Single (s.processJsonrpcRequest request).1 := by
  unfold RpcServerImpl.processJsonrpcRequest
  cases hc : s.checkMethod request with
  | some r => exact single_of_checkMethod hc
  | none => exact (h.executeMethod hrequest).1

theorem AllAnswer.step (h : AllAnswer s) {e : RpcEvent (Json D)} (he : Orderly json e) :
    AllAnswer (s.step e) := by
  cases e with
  | registerMethod name handler => exact h.registerMethod name he
  | unregisterMethod name =>
    exact ⟨fun name' handler hl => h.handlers name' handler (UMap.lookup_of_erase hl), h.pending⟩
  | hasMethod name => exact h
  | check n request =>
    obtain ⟨body, hbody⟩ := he
    unfold RpcServerImpl.step
    dsimp only
    split
    · exact h
    · split
      · exact h
      · exact h.setPending n fun r hr => Option.some.inj hr ▸ readable_of_fromJson hbody
  | execute n =>
    unfold RpcServerImpl.step
    dsimp only
    cases hp : s.pending n with
    | none => exact h
    | some request => exact (h.executeMethod (h.pending n request hp)).2.setPending n nofun

/-- what is answered in a step has one outcome, and the request comes from a text -/
theorem AllAnswer.answered (h : AllAnswer s) {e : RpcEvent (Json D)} (he : Orderly json e)
    {request : JsonRpcRequest (Json D)} {r : Response D} (ha : s.answered e = some (request, r)) :
    Single r ∧ Readable request := by
  cases e with
  | check n request' =>
    obtain ⟨body, hbody⟩ := he
    dsimp only [RpcServerImpl.answered] at ha
    split at ha
    · cases ha
    · obtain ⟨r', hr', heq⟩ := Option.map_eq_some_iff.mp ha
      cases heq
      exact ⟨single_of_checkMethod hr', readable_of_fromJson hbody⟩
  | execute n =>
    dsimp only [RpcServerImpl.answered] at ha
    obtain ⟨request', hp, heq⟩ := Option.map_eq_some_iff.mp ha
    cases heq
    have hreadable := h.pending n request hp
    exact ⟨(h.executeMethod hreadable).1, hreadable⟩
  | registerMethod name handler => cases ha
  | unregisterMethod name => cases ha
  | hasMethod name => cases ha

end

/-! ## what the client reads -/

/-- the text is a JSON-RPC response: an object of the version 2.0 with a result or an error, and not
both -/
def IsAnswer (json : Nlohmann D) (body : Str) : Prop :=
  ∃ value, json.parse body = some value ∧
    value.field (str "jsonrpc") = some (.string (str "2.0")) ∧
    (value.field (str "result")).isSome = !(value.field (str "error")).isSome

theorem find_setOption_of_ne {key : String} {name : Str} (h : name ≠ str key)
    (value : Option (Json D)) (fields : Json.Fields D) :
    Json.findField name (setOption key value fields) = Json.findField name fields := by
  cases value with
  | none => rfl
  | some v => exact Json.findField_setField_of_ne h v fields

/-- a field that was not there -/
theorem find_setOption {key : String} (value : Option (Json D)) {fields : Json.Fields D}
    (h : Json.findField (str key) fields = none) :
    Json.findField (str key) (setOption key value fields) = value := by
  cases value with
  | none => exact h
  | some v => exact Json.findField_setField _ v fields

/-- the fields of a response -/
theorem toJson_field (response : Response D) :
    response.toJson.field (str "jsonrpc") = some (.string response.jsonrpc) ∧
      response.toJson.field (str "result") = response.result ∧
      response.toJson.field (str "error") = response.error.map JsonRpcError.toJson := by
  have hfind : ∀ name, response.toJson.field name
      = Json.findField name (setOption "id" (response.id.map .string)
          (setOption "error" (response.error.map JsonRpcError.toJson)
            (setOption "result" response.result
              (Json.setField (str "jsonrpc") (.string response.jsonrpc) [])))) :=
    fun _ => rfl
  refine ⟨?_, ?_, ?_⟩
  · rw [hfind, find_setOption_of_ne (by decide), find_setOption_of_ne (by decide),
      find_setOption_of_ne (by decide)]
    rfl
  · rw [hfind, find_setOption_of_ne (by decide), find_setOption_of_ne (by decide)]
    exact find_setOption _ rfl
  · rw [hfind, find_setOption_of_ne (by decide)]
    refine find_setOption _ ?_
    rw [find_setOption_of_ne (by decide)]
    rfl

/-- another identifier replaces the one of the response -/
theorem toJson_setId (r : Response D) (id : Str) :
    ∃ fields, r.toJson = .object fields ∧ ({ r with id := some id } : Response D).toJson
      = .object (Json.setField (str "id") (.string id) fields) := by
  refine ⟨_, rfl, ?_⟩
  unfold JsonRpcResponse.toJson
  cases r.id with
  | none => rfl
  | some _ => exact congrArg Json.object (Json.setField_setField _ _ _ _).symm

/-- the identifier of the request is no part of the outcome -/
theorem Single.answerTo {r : Response D} (h : Single r) {request : JsonRpcRequest (Json D)}
    (hrequest : Readable request) : Single (answerTo request r) := by
  unfold Rpc.answerTo
  cases hid : request.id with
  | none => exact h
  | some id =>
    obtain ⟨fields, hr, hnew⟩ := toJson_setId r id
    refine ⟨h.version, h.one, ?_⟩
    show ({ r with id := some id } : Response D).toJson.Printable
    rw [hnew]
    exact (hr ▸ h.printable).setField (by decide) (.string (hrequest.id id hid))

theorem Single.dump (json : Nlohmann D) {r : Response D} (h : Single r) :
    ∃ text, json.dump r.toJson = some text ∧ json.parse text = some (r.toJson.printed json.finite) ∧
      IsAnswer json text := by
  obtain ⟨hversion, hresult, herror⟩ := toJson_field r
  obtain ⟨text, htext, hparse⟩ := json.exists_dump h.printable
  refine ⟨text, htext, hparse, _, hparse, ?_, ?_⟩
  · rw [Json.field_printed, hversion, h.version]
    rfl
  · rw [Json.field_printed, Json.field_printed, Option.isSome_map, Option.isSome_map, hresult, herror,
      h.one, Option.isSome_map]

/-- a request that was read, and its answer -/
theorem handle_single {json : Nlohmann D} (config : RpcServerConfig) {s : RpcServerImpl (Json D)}
    {request : HttpRequest} (hpost : request.method = str "POST") {rpc : JsonRpcRequest (Json D)}
    (hrpc : JsonRpcRequest.fromJson json request.body = some rpc)
    (hsingle : Single (s.processJsonrpcRequest rpc).1) :
    ∃ r, (handleHttpRequest json config s request).1 = some r ∧ IsAnswer json r.body ∧
      json.parse r.body = some ((answerTo rpc (s.processJsonrpcRequest rpc).1).toJson.printed
        json.finite) := by
  obtain ⟨text, htext, hparse, hanswer⟩ :=
    (hsingle.answerTo (readable_of_fromJson hrpc)).dump json
  have hbody : (addCorsHeaders config (.okJson text)).body = text := addCorsHeaders_body _ _
  refine ⟨addCorsHeaders config (.okJson text), ?_, ?_, ?_⟩
  · rw [handle_eq hpost hrpc, htext]
    rfl
  · rwa [hbody]
  · rwa [hbody]

theorem AllAnswer.post {json : Nlohmann D} {config : RpcServerConfig}
    {s : RpcServerImpl (Json D)} (h : AllAnswer s) {request : HttpRequest}
    (hpost : request.method = str "POST") :
    ∃ r, (handleHttpRequest json config s request).1 = some r ∧ IsAnswer json r.body := by
  cases hrpc : JsonRpcRequest.fromJson json request.body with
  | none =>
    have hparseError : Single ({ error := some .parseError } : Response D) :=
      single_error (by decide) (by decide)
    obtain ⟨text, htext, -, hanswer⟩ := hparseError.dump json
    refine ⟨.okJson text, ?_, hanswer⟩
    unfold handleHttpRequest
    rw [hpost, if_neg (by decide), if_neg (not_not.mpr rfl), hrpc]
    dsimp only
    rw [htext, Option.map_some]
  | some rpc =>
    obtain ⟨r, hr, hanswer, -⟩ :=
      handle_single config hpost hrpc (h.process (readable_of_fromJson hrpc))
    exact ⟨r, hr, hanswer⟩

end

end Rpc
end ChainForge
