import ChainForge.Lib.Machine
import ChainForge.Lib.Store
import ChainForge.Lib.Text

/-!
# The method table of the RPC server

`RpcServerImpl` of `modules/rpc/src/rpc_server_impl.cpp`: `register_method`, `unregister_method`,
`has_method` and `process_jsonrpc_request`, over any type `J` of JSON values.  A request takes
`methods_mutex_` twice: once to look whether the method exists, and once to call it.  Each of these
sections is a step of the machine, so steps of other threads come between them.

The second section uses `operator[]`.  For a method that is gone by then it inserts an empty
`std::function`, whose call throws.

The table is compared with a registry, the names registered and not since unregistered.

* `process_methods`     a request that nobody interrupts leaves the table alone;
* `method_table_iff`    **when the table is exact and every answer proper**;
* `unregister_between`  one `unregister_method` at the wrong time.
-/

set_option linter.unusedSectionVars false

namespace ChainForge
namespace Rpc
open Text Machine

/-! ## requests and responses -/

section
variable (J : Type)

structure JsonRpcRequest where
  jsonrpc : Str := str "2.0"
  method : Str
  params : J
  id : Option Str := none

structure JsonRpcError where
  code : Int
  message : Str
  data : Option J := none

structure JsonRpcResponse where
  jsonrpc : Str := str "2.0"
  result : Option J := none
  error : Option (JsonRpcError J) := none
  id : Option Str := none

/-- an `std::function`, which may be empty; a call returns or throws -/
abbrev RpcMethodHandler := Option (J → Except Str (JsonRpcResponse J))

end

variable {J : Type}

def JsonRpcError.invalidRequest : JsonRpcError J := ⟨-32600, str "Invalid request", none⟩
def JsonRpcError.methodNotFound : JsonRpcError J := ⟨-32601, str "Method not found", none⟩
def JsonRpcError.internalError (message : Str) : JsonRpcError J := ⟨-32603, message, none⟩

/-- what the validation asks for -/
def JsonRpcRequest.isValid (request : JsonRpcRequest J) : Bool :=
  !(request.jsonrpc != str "2.0" || request.method.isEmpty)

/-- an empty function throws `std::bad_function_call` -/
def RpcMethodHandler.call (handler : RpcMethodHandler J) (params : J) :
    Except Str (JsonRpcResponse J) :=
  match handler with
  | some f => f params
  | none => .error (str "bad_function_call")

/-- the answer of a handler, an exception of which is an internal error -/
def RpcMethodHandler.answer (handler : RpcMethodHandler J) (params : J) : JsonRpcResponse J :=
  match handler.call params with
  | .ok response => response
  | .error what => { error := some (.internalError what) }

def JsonRpcResponse.notFound : JsonRpcResponse J := { error := some .methodNotFound }

/-! ## the server -/

structure RpcServerImpl (J : Type) where
  methods : UMap Str (RpcMethodHandler J) := ∅
  /-- the requests that are between their two sections, by number -/
  pending : Nat → Option (JsonRpcRequest J) := fun _ => none

namespace RpcServerImpl
variable (s : RpcServerImpl J)

def registerMethod (name : Str) (handler : RpcMethodHandler J) : RpcServerImpl J :=
  { s with methods := s.methods.insert name handler }

def unregisterMethod (name : Str) : RpcServerImpl J :=
  { s with methods := s.methods.erase name }

def hasMethod (name : Str) : Bool := (s.methods.lookup name).isSome

/-- validation and first section: an answer, or `none` if the request goes on -/
def checkMethod (request : JsonRpcRequest J) : Option (JsonRpcResponse J) :=
  if !request.isValid then some { error := some .invalidRequest }
  else if !s.hasMethod request.method then some .notFound
  else none

/-- second section -/
def executeMethod (request : JsonRpcRequest J) : JsonRpcResponse J × RpcServerImpl J :=
  match s.methods.lookup request.method with
  | some handler => (handler.answer request.params, s)
  | none =>
    let handler : RpcMethodHandler J := none
    (handler.answer request.params, s.registerMethod request.method handler)

/-- with nobody in between -/
def processJsonrpcRequest (request : JsonRpcRequest J) : JsonRpcResponse J × RpcServerImpl J :=
  match s.checkMethod request with
  | some response => (response, s)
  | none => s.executeMethod request

def setPending (n : Nat) (request : Option (JsonRpcRequest J)) : RpcServerImpl J :=
  { s with pending := Function.update s.pending n request }

end RpcServerImpl

/-! ## the machine -/

inductive RpcEvent (J : Type) where
  | registerMethod (name : Str) (handler : RpcMethodHandler J)
  | unregisterMethod (name : Str)
  | hasMethod (name : Str)
  /-- a request comes in under the number `n`, up to the end of its first section -/
  | check (n : Nat) (request : JsonRpcRequest J)
  /-- the second section of the request with the number `n` -/
  | execute (n : Nat)

namespace RpcServerImpl

def step (s : RpcServerImpl J) : RpcEvent J → RpcServerImpl J
  | .registerMethod name handler => s.registerMethod name handler
  | .unregisterMethod name => s.unregisterMethod name
  | .hasMethod _ => s
  | .check n request =>
    if (s.pending n).isSome then s
    else if (s.checkMethod request).isSome then s
    else s.setPending n (some request)
  | .execute n =>
    match s.pending n with
    | some request => (s.executeMethod request).2.setPending n none
    | none => s

/-- the request that the event answers, and the answer -/
def answered (s : RpcServerImpl J) : RpcEvent J → Option (JsonRpcRequest J × JsonRpcResponse J)
  | .check n request =>
    if (s.pending n).isSome then none
    else (s.checkMethod request).map fun response => (request, response)
  | .execute n => (s.pending n).map fun request => (request, (s.executeMethod request).1)
  | _ => none

/-- the second section comes to a method that is not in the table -/
def executesMissing (s : RpcServerImpl J) : RpcEvent J → Bool
  | .execute n =>
    match s.pending n with
    | some request => !s.hasMethod request.method
    | none => false
  | _ => false

end RpcServerImpl

/-- the names registered and not since unregistered, with their handlers -/
abbrev Registry (J : Type) := Str → Option (RpcMethodHandler J)

def Registry.step (R : Registry J) : RpcEvent J → Registry J
  | .registerMethod name handler => Function.update R name (some handler)
  | .unregisterMethod name => Function.update R name none
  | _ => R

/-- the server and the registry side by side -/
def Registry.observe (x : RpcServerImpl J × Registry J) (e : RpcEvent J) :
    RpcServerImpl J × Registry J :=
  (x.1.step e, x.2.step e)

/-- the keys of the table are the registered names -/
def KeysExact (x : RpcServerImpl J × Registry J) : Prop :=
  ∀ name, name ∈ x.1.methods ↔ (x.2 name).isSome = true

/-- what the event answers to a valid request is the answer of the registered handler, or that there
is none -/
def Proper (x : RpcServerImpl J × Registry J) (e : RpcEvent J) : Prop :=
  ∀ request response, x.1.answered e = some (request, response) → request.isValid = true →
    (∃ handler, x.2 request.method = some handler ∧
      response = RpcMethodHandler.answer handler request.params) ∨ response = .notFound

/-! ## steps -/

section
variable {s : RpcServerImpl J}

theorem executeMethod_present {request : JsonRpcRequest J} {handler : RpcMethodHandler J}
    (h : s.methods.lookup request.method = some handler) :
    s.executeMethod request = (handler.answer request.params, s) := by
  simp only [RpcServerImpl.executeMethod, h]

/-- a request that nobody interrupts leaves the table alone -/
theorem process_methods (request : JsonRpcRequest J) :
    (s.processJsonrpcRequest request).2.methods = s.methods := by
  unfold RpcServerImpl.processJsonrpcRequest RpcServerImpl.checkMethod RpcServerImpl.hasMethod
  cases hv : request.isValid with
  | false => rfl
  | true =>
    cases hm : s.methods.lookup request.method with
    | none => rfl
    | some handler =>
      show (s.executeMethod request).2.methods = _
      rw [executeMethod_present hm]

theorem executesMissing_iff {n : Nat} {request : JsonRpcRequest J}
    (hp : s.pending n = some request) :
    s.executesMissing (.execute n) = true ↔ s.methods.lookup request.method = none := by
  simp only [RpcServerImpl.executesMissing, hp, RpcServerImpl.hasMethod, Bool.not_eq_true',
    Option.isSome_eq_false_iff, Option.isNone_iff_eq_none]

theorem handler_of_present {n : Nat} {request : JsonRpcRequest J}
    (hp : s.pending n = some request) (he : s.executesMissing (.execute n) = false) :
    ∃ handler, s.methods.lookup request.method = some handler := by
  apply Option.ne_none_iff_exists'.mp
  intro hm
  rw [(executesMissing_iff hp).mpr hm] at he
  cases he

/-- the table and the registry hold the same -/
def Agree (x : RpcServerImpl J × Registry J) : Prop := ∀ name, x.1.methods.lookup name = x.2 name

theorem Agree.keysExact {x : RpcServerImpl J × Registry J} (h : Agree x) : KeysExact x := by
  intro name
  rw [← AList.lookup_isSome, h name]

theorem Agree.step {x : RpcServerImpl J × Registry J} (h : Agree x) {e : RpcEvent J}
    (he : x.1.executesMissing e = false) : Agree (Registry.observe x e) := by
  obtain ⟨s, R⟩ := x
  intro name
  cases e with
  | registerMethod m handler =>
    show (s.methods.insert m handler).lookup name = Function.update R m (some handler) name
    rw [UMap.lookup_insert, Function.update_apply, h name]
  | unregisterMethod m =>
    show (s.methods.erase m).lookup name = Function.update R m none name
    rw [UMap.lookup_erase, Function.update_apply, h name]
  | hasMethod m => exact h name
  | check n request =>
    have hm : (s.step (.check n request)).methods = s.methods := by
      simp only [RpcServerImpl.step]
      split
      · rfl
      · split <;> rfl
    exact (congrArg (AList.lookup name) hm).trans (h name)
  | execute n =>
    have hm : (s.step (.execute n)).methods = s.methods := by
      simp only [RpcServerImpl.step]
      cases hp : s.pending n with
      | none => rfl
      | some request =>
        obtain ⟨handler, hh⟩ := handler_of_present hp he
        show (s.executeMethod request).2.methods = s.methods
        rw [executeMethod_present hh]
    exact (congrArg (AList.lookup name) hm).trans (h name)

theorem Agree.proper {x : RpcServerImpl J × Registry J} (h : Agree x) {e : RpcEvent J}
    (he : x.1.executesMissing e = false) : Proper x e := by
  obtain ⟨s, R⟩ := x
  intro request response ha hv
  cases e with
  | check n r =>
    dsimp only [RpcServerImpl.answered] at ha
    split at ha
    · cases ha
    · obtain ⟨y, hy, hr⟩ := Option.map_eq_some_iff.mp ha
      cases hr
      simp only [RpcServerImpl.checkMethod, hv, Bool.not_true, Bool.false_eq_true, if_false] at hy
      split at hy
      · exact .inr (Option.some.inj hy).symm
      · cases hy
  | execute n =>
    dsimp only [RpcServerImpl.answered] at ha
    obtain ⟨r, hp, hr⟩ := Option.map_eq_some_iff.mp ha
    cases hr
    obtain ⟨handler, hh⟩ := handler_of_present hp he
    rw [executeMethod_present hh]
    exact .inl ⟨handler, (h request.method).symm.trans hh, rfl⟩
  | registerMethod m handler => cases ha
  | unregisterMethod m => cases ha
  | hasMethod m => cases ha

/-- `operator[]` puts a name in the table that is not registered -/
theorem Agree.not_keysExact {x : RpcServerImpl J × Registry J} (h : Agree x) {e : RpcEvent J}
    (he : x.1.executesMissing e = true) : ¬ KeysExact (Registry.observe x e) := by
  obtain ⟨s, R⟩ := x
  cases e with
  | execute n =>
    cases hp : s.pending n with
    | none =>
      simp only [RpcServerImpl.executesMissing, hp] at he
      cases he
    | some request =>
      have hm : s.methods.lookup request.method = none := (executesMissing_iff hp).mp he
      intro hk
      have hin : request.method ∈ (s.step (.execute n)).methods := by
        simp only [RpcServerImpl.step, hp, RpcServerImpl.executeMethod, hm]
        exact (AList.mem_insert _).mpr (.inl rfl)
      have hR : (R request.method).isSome = true := (hk request.method).mp hin
      have hnone : R request.method = none := (h request.method).symm.trans hm
      rw [hnone] at hR
      cases hR
  | _ => cases he

end

/-! ## runs -/

/-- **When the method table is exact**, and every valid request is answered by the registered
handler or by `method_not_found`: exactly if no second section comes to a method that is no longer
in the table. -/
theorem method_table_iff (events : List (RpcEvent J)) :
    (EveryState Registry.observe KeysExact (({} : RpcServerImpl J), fun _ => none) events ∧
        EveryStep Registry.observe Proper (({} : RpcServerImpl J), fun _ => none) events) ↔
      EveryStep Registry.observe (fun x e => x.1.executesMissing e = false)
        (({} : RpcServerImpl J), fun _ => none) events := by
  have hstart : Agree (({} : RpcServerImpl J), fun _ => none) := fun name => rfl
  generalize (({} : RpcServerImpl J), (fun _ => none : Registry J)) = x at hstart
  induction events generalizing x with
  | nil => exact ⟨fun _ => trivial, fun _ => ⟨hstart.keysExact, trivial⟩⟩
  | cons e events ih =>
    constructor
    · rintro ⟨hk, hp⟩
      have he : x.1.executesMissing e = false := by
        by_contra he
        exact hstart.not_keysExact ((Bool.not_eq_false _).mp he) hk.2.head
      exact ⟨he, (ih _ (hstart.step he)).mp ⟨hk.2, hp.2⟩⟩
    · intro h
      obtain ⟨hk, hp⟩ := (ih _ (hstart.step h.1)).mpr h.2
      exact ⟨⟨hstart.keysExact, hk⟩, hstart.proper h.1, hp⟩

/-- a method is unregistered between the two sections of a request: the name is back in the table,
and the answer is an internal error -/
theorem unregister_between :
    let x := run Registry.observe (({} : RpcServerImpl Unit), fun _ => none)
      [.registerMethod (str "m") (some fun _ => .ok {}), .check 0 { method := str "m", params := () },
        .unregisterMethod (str "m")]
    let y := Registry.observe x (.execute 0)
    y.1.hasMethod (str "m") = true ∧ (y.2 (str "m")).isSome = false ∧
      (x.1.answered (.execute 0)).map (fun a => a.2.error.map fun e => (e.code, e.message))
        = some (some (-32603, str "bad_function_call")) := by
  decide +kernel

end Rpc
end ChainForge
