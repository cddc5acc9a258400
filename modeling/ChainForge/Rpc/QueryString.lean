import ChainForge.Lib.Delimited
import ChainForge.Rpc.HttpServer

/-!
# Query strings

`parse_query_string` on a text that was written from a list of pairs.  The loop reads the pieces
between the `&` and splits each of them at its first `=`; a later piece overwrites an earlier one.

* `parseQueryString_text`   the loop puts the pairs into the map, one after the other;
* `query_decoded`           **each key gets the value of its last occurrence**;
* `parseRequestLine_query`  the same of the target of a request.
-/

set_option linter.unusedSectionVars false

namespace ChainForge
namespace Rpc
open Text

/-- the pairs written `key=value` and joined by `&` -/
def queryText (pairs : List (Str × Str)) : Str := joined 38 (pairs.map fun p => keyed 61 p.1 p.2)

/-- the delimiters do not stand where they would be taken for delimiters -/
def Unambiguous (pairs : List (Str × Str)) : Prop := ∀ p ∈ pairs, 38 ∉ p.1 ∧ 61 ∉ p.1 ∧ 38 ∉ p.2

namespace HttpServer

section
variable {pairs : List (Str × Str)}

theorem parseQueryString_text (h : Unambiguous pairs) (params : UMap Str Str) :
    parseQueryString (queryText pairs) params
      = pairs.foldl (fun params p => params.insert p.1 p.2) params := by
  have hpieces : ∀ l ∈ pairs.map fun p => keyed 61 p.1 p.2, 38 ∉ l ∧ l ≠ [] :=
    keyed_pieces (by decide) fun p hp => ⟨(h p hp).1, (h p hp).2.2⟩
  unfold parseQueryString queryText
  rw [lines_joined hpieces, List.foldl_map]
  clear hpieces
  induction pairs generalizing params with
  | nil => rfl
  | cons p pairs ih =>
    obtain ⟨hpos, htake, hdrop⟩ := split_first (h p List.mem_cons_self).2.1 p.2
    rw [List.foldl_cons, List.foldl_cons, hpos]
    dsimp only
    rw [htake, hdrop]
    exact ih (fun q hq => h q (List.mem_cons_of_mem _ hq)) _

/-- **Query strings are decoded faithfully**: what is read is the map in which each key has the value
of its last occurrence. -/
theorem query_decoded (pairs : List (Str × Str))
    (h : ∀ p ∈ pairs, 38 ∉ p.1 ∧ 61 ∉ p.1 ∧ 38 ∉ p.2) (key : Str) :
    (parseQueryString (queryText pairs) ∅).lookup key = pairs.reverse.lookup key := by
  rw [parseQueryString_text h, UMap.lookup_foldl_insert, AList.lookup_empty, Option.or_none]

/-- `=&a=1=2&a=3&=`: the empty key, and a key that occurs twice -/
theorem query_decoded_four :
    (parseQueryString (queryText [([], []), (str "a", str "1=2"), (str "a", str "3"), ([], [])])
        ∅).lookup (str "a")
      = [([], []), (str "a", str "1=2"), (str "a", str "3"), ([], [])].reverse.lookup (str "a") :=
  query_decoded [([], []), (str "a", str "1=2"), (str "a", str "3"), ([], [])] (by decide +kernel)
    (str "a")

/-- the target of a request is split at its first question mark -/
theorem parseRequestLine_target {method path query : Str} (version : Str)
    (hmethod : method ≠ [] ∧ ∀ c ∈ method, isSpace c = false)
    (hpath : 63 ∉ path ∧ ∀ c ∈ path, isSpace c = false) (hquery : ∀ c ∈ query, isSpace c = false) :
    parseRequestLine (keyed 32 method (keyed 32 (keyed 63 path query) version))
      = { method, path, queryParams := parseQueryString query ∅ } := by
  have hword : ∀ c ∈ keyed 63 path query, isSpace c = false := by
    intro c hc
    rcases List.mem_append.mp hc with hc | hc
    · exact hpath.2 c hc
    · rcases List.mem_cons.mp hc with rfl | hc
      · rfl
      · exact hquery c hc
  obtain ⟨hpos, htake, hdrop⟩ := split_first hpath.1 query
  have hfirst : IStream.readToken ⟨keyed 32 method (keyed 32 (keyed 63 path query) version),
      false, false⟩ = _ := IStream.readToken_word method _ 32 hmethod.1 hmethod.2 rfl
  have hsecond : IStream.readToken ⟨32 :: keyed 32 (keyed 63 path query) version, false, false⟩ = _ :=
    (IStream.readToken_skip 32 _ rfl).trans
      (IStream.readToken_word _ version 32 (keyed_ne_nil _ _ _) hword rfl)
  unfold parseRequestLine
  dsimp only
  rw [hfirst]
  dsimp only
  rw [hsecond]
  dsimp only [Option.getD_some]
  rw [hpos]
  dsimp only
  rw [htake, hdrop]

/-- **A query string in a request line.** -/
theorem parseRequestLine_query (h : Unambiguous pairs) {method path version : Str}
    (hmethod : method ≠ [] ∧ ∀ c ∈ method, isSpace c = false)
    (hpath : 63 ∉ path ∧ ∀ c ∈ path, isSpace c = false)
    (hquery : ∀ c ∈ queryText pairs, isSpace c = false) :
    (parseRequestLine (keyed 32 method (keyed 32 (keyed 63 path (queryText pairs)) version))).path
        = path ∧
      ∀ key, (parseRequestLine (keyed 32 method
        (keyed 32 (keyed 63 path (queryText pairs)) version))).queryParams.lookup key
          = pairs.reverse.lookup key := by
  rw [parseRequestLine_target version hmethod hpath hquery]
  refine ⟨rfl, fun key => ?_⟩
  rw [parseQueryString_text h, UMap.lookup_foldl_insert, AList.lookup_empty, Option.or_none]

end

end HttpServer
end Rpc
end ChainForge
