import ChainForge.Lib.Chunks
import ChainForge.Rpc.HttpServer

/-!
# HTTP connections

`HttpServer::handle_connection` of `modules/rpc/src/http_server.cpp`: the read loop, and the request
that it passes on.  `recv` delivers at most 8191 bytes, which are taken for a C string; the loop
stops when `\r\n\r\n` has been received, whatever the announced length of the body is.

* `handleConnection`      the request that is passed on, if one is;
* `Independent`           it is the same however the bytes are cut;
* `independent_head_iff`  **what this comes to** for a header block without zeros: whatever comes with the
                          blank line makes no difference;
* `dependent_of_zero`     a header block with a zero is never received alike.
-/

set_option linter.unusedSectionVars false

namespace ChainForge
namespace Rpc
open Text Chunks

namespace HttpServer

/-- a chunk has at most one byte more -/
def bufferLimit : Nat := 8190

/-- what ends the header block -/
def blankLine : Str := crlf ++ crlf

/-- the request, if one is passed on: a failed `recv` passes none, but the end of the stream does -/
def passed (closed : Bool) (received : Str × Bool) : Option HttpRequest :=
  if received.2 || closed then some (parseHttpRequest received.1) else none

/-- the chunks that `recv` delivers; then the stream is at its end (`closed`), or `recv` times out -/
def handleConnection (chunks : List Str) (closed : Bool) : Option HttpRequest :=
  passed closed (readUntil blankLine [] chunks)

end HttpServer

open HttpServer

/-- the same request: maps are compared by what they hold -/
structure Same (x y : HttpRequest) : Prop where
  method : x.method = y.method
  path : x.path = y.path
  body : x.body = y.body
  headers : ∀ name, x.headers.lookup name = y.headers.lookup name
  queryParams : ∀ name, x.queryParams.lookup name = y.queryParams.lookup name

theorem Same.refl (x : HttpRequest) : Same x x := ⟨rfl, rfl, rfl, fun _ => rfl, fun _ => rfl⟩

theorem Same.symm {x y : HttpRequest} (h : Same x y) : Same y x :=
  ⟨h.method.symm, h.path.symm, h.body.symm, fun n => (h.headers n).symm,
    fun n => (h.queryParams n).symm⟩

theorem Same.trans {x y z : HttpRequest} (h : Same x y) (h' : Same y z) : Same x z :=
  ⟨h.method.trans h'.method, h.path.trans h'.path, h.body.trans h'.body,
    fun n => (h.headers n).trans (h'.headers n), fun n => (h.queryParams n).trans (h'.queryParams n)⟩

/-- however the bytes `r` are cut, the same request is passed on, or none -/
def Independent (r : Str) (closed : Bool) : Prop :=
  ∀ chunks chunks', Cut bufferLimit r chunks → Cut bufferLimit r chunks' →
    Option.Rel Same (handleConnection chunks closed) (handleConnection chunks' closed)

/-- the block ends with the first blank line in it -/
def HeaderBlock (head : Str) : Prop :=
  blankLine <:+: head ∧ ¬ blankLine <:+: head.dropLast

theorem independent_iff {r : Str} {closed : Bool} :
    Independent r closed ↔ ∀ o o', Arrives bufferLimit blankLine r o →
      Arrives bufferLimit blankLine r o' → Option.Rel Same (passed closed o) (passed closed o') := by
  have hne : blankLine ≠ [] := by decide
  constructor
  · intro h o o' ho ho'
    obtain ⟨chunks, hcut, rfl⟩ := (arrives_iff hne).mpr ho
    obtain ⟨chunks', hcut', rfl⟩ := (arrives_iff hne).mpr ho'
    exact h chunks chunks' hcut hcut'
  · intro h chunks chunks' hcut hcut'
    exact h _ _ ((arrives_iff hne).mp ⟨chunks, hcut, rfl⟩) ((arrives_iff hne).mp ⟨chunks', hcut', rfl⟩)

theorem HeaderBlock.eq_append {head : Str} (h : HeaderBlock head) : ∃ a, head = a ++ blankLine := by
  obtain ⟨⟨a, b, hab⟩, hfirst⟩ := h
  rcases List.eq_nil_or_concat b with rfl | ⟨b, c, rfl⟩
  · exact ⟨a, by rw [← hab, List.append_nil]⟩
  · refine absurd ⟨a, b, ?_⟩ hfirst
    rw [← hab, List.concat_eq_append, ← List.append_assoc, List.dropLast_concat]

/-- what can be received of a request whose header block has no zeros -/
theorem independent_head_iff {head body : Str} {closed : Bool} (h : HeaderBlock head) (hz : 0 ∉ head) :
    Independent (head ++ body) closed ↔ ∀ m ≤ bufferLimit,
      Same (parseHttpRequest (head ++ (cstr body).take m)) (parseHttpRequest head) := by
  have harrives : ∀ {o}, Arrives bufferLimit blankLine (head ++ body) o ↔
      ∃ m ≤ bufferLimit, o = (head ++ (cstr body).take m, true) :=
    arrives_head_iff hz h.1 h.2
  have hhead : head ++ (cstr body).take 0 = head := List.append_nil head
  rw [independent_iff]
  constructor
  · intro h m hm
    have := h _ _ (harrives.mpr ⟨m, hm, rfl⟩) (harrives.mpr ⟨0, Nat.zero_le _, rfl⟩)
    rw [hhead] at this
    cases this with
    | some hs => exact hs
  · intro h o o' ho ho'
    obtain ⟨m, hm, rfl⟩ := harrives.mp ho
    obtain ⟨m', hm', rfl⟩ := harrives.mp ho'
    exact .some ((h m hm).trans (h m' hm').symm)

/-- a zero in the header block: in one chunk the blank line is lost, byte by byte it is not -/
theorem dependent_of_zero {head body : Str} (h : HeaderBlock head) (hz : 0 ∈ head)
    (hlen : (head ++ body).length ≤ bufferLimit + 1) : ¬ Independent (head ++ body) false := by
  have hhead : head ≠ [] := List.ne_nil_of_mem hz
  have hone : Cut bufferLimit (head ++ body) [head ++ body] := by
    refine ⟨List.append_nil _, fun chunk hm => ?_⟩
    rw [List.mem_singleton.mp hm]
    exact ⟨List.append_ne_nil_of_left_ne_nil hhead body, hlen⟩
  have hlost : ¬ blankLine <:+: cstr (head ++ body) := by
    obtain ⟨x, y, hxy, hx⟩ := List.eq_append_cons_of_mem hz
    have hcstr : cstr (head ++ body) = x := by
      rw [hxy, List.append_assoc, List.cons_append, cstr_append hx, cstr_zero, List.append_nil]
    have hfront : x <+: head.dropLast := by
      rw [hxy, List.dropLast_append_of_ne_nil (List.cons_ne_nil _ _)]
      exact List.prefix_append _ _
    rw [hcstr]
    exact fun hx => h.2 (hx.trans hfront.isInfix)
  have hkept : blankLine <:+: (((head ++ body).map fun c => [c]).map cstr).flatten := by
    obtain ⟨a, rfl⟩ := h.eq_append
    rw [List.map_append, List.map_append, List.map_append, List.map_append, List.flatten_append,
      List.flatten_append]
    exact ⟨_, _, rfl⟩
  intro hind
  have hrel := hind _ _ hone (cut_singles (head ++ body))
  have hnone : handleConnection [head ++ body] false = none := by
    unfold handleConnection passed readUntil readUntil
    rw [List.nil_append, if_neg hlost]
    rfl
  have hsome : ∃ q, handleConnection ((head ++ body).map fun c => [c]) false = some q := by
    refine ⟨_, if_pos ?_⟩
    rw [Bool.or_false]
    by_contra hfalse
    refine not_found_of_readUntil (by decide) (Bool.eq_false_of_not_eq_true hfalse) ?_
    rwa [List.nil_append]
  obtain ⟨q, hq⟩ := hsome
  rw [hnone, hq] at hrel
  cases hrel

end Rpc
end ChainForge
