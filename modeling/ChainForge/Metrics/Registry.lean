import ChainForge.Lib.Delimited
import ChainForge.Lib.Machine
import ChainForge.Lib.Store

/-!
# The registry of metrics

`MetricsRegistry` of `modules/metrics/src/metrics_registry.cpp`.  Metrics are cached under a text that
is written from their name and their labels; the delimiters of this text may stand in the names and
in the values as well.

Whether the Prometheus library takes a name or a set of labels is part of a request (`registers`,
`adds`); if it does not, it throws.

* `created_key`            a metric that is returned has the key that was asked for;
* `generateMetricKey_inj`  metrics without delimiters in the wrong places are told apart by their keys,
                           and `plain_returned`: so they are by the registry;
* `metric_distinct_iff`    **which two metrics are never taken for one another**: unless the name of one
                           spells the other out, or a name or value of one goes on over the delimiter
                           of the other.
-/

set_option linter.unusedSectionVars false

namespace ChainForge
namespace Metrics
open Text Machine

/-- a `std::map` of strings to strings, in the order in which it is iterated -/
@[ext] structure Labels where
  entries : List (Str × Str)
  sorted : entries.Pairwise fun p q => p.1 < q.1

namespace Labels

def empty : Labels := ⟨[], .nil⟩

def single (key value : Str) : Labels := ⟨[(key, value)], List.pairwise_singleton _ _⟩

end Labels

/-- the loop over the labels, with the flag for the first one -/
def labelsText : Bool → List (Str × Str) → Str
  | _, [] => []
  | first, (key, value) :: rest =>
    (if first then [] else [44]) ++ key ++ 61 :: value ++ labelsText false rest

/-- the name, and the labels in braces if there are any -/
def generateMetricKey (name : Str) (labels : Labels) : Str :=
  name ++ if labels.entries.isEmpty then [] else 123 :: (labelsText true labels.entries ++ [125])

/-! ## the registry -/

section
variable {D : Type}

/-- a metric as it was created; counters and gauges have no buckets -/
structure Metric (D : Type) where
  name : Str
  labels : Labels
  buckets : List D

structure Request (D : Type) where
  name : Str
  help : Str
  labels : Labels
  buckets : List D
  /-- the library takes the name of a new family -/
  registers : Bool
  /-- the library takes the labels -/
  adds : Bool

/-- the metrics of one kind, and the help texts of their families -/
structure Cache (D : Type) where
  metrics : UMap Str (Metric D) := ∅
  families : UMap Str Str := ∅

/-- get or create the family of a request; none if the library throws -/
def Cache.family (c : Cache D) (r : Request D) : Option (Cache D) :=
  if (c.families.lookup r.name).isSome then some c
  else if r.registers then some { c with families := c.families.insert r.name r.help }
  else none

/-- a metric, none if the library throws, and the cache after that -/
def Cache.create (c : Cache D) (r : Request D) (buckets : List D) : Option (Metric D) × Cache D :=
  let key := generateMetricKey r.name r.labels
  match c.metrics.lookup key with
  | some metric => (some metric, c)
  | none =>
    match c.family r with
    | none => (none, c)
    | some c =>
      if r.adds then
        let metric : Metric D := { name := r.name, labels := r.labels, buckets }
        (some metric, { c with metrics := c.metrics.insert key metric })
      else (none, c)

structure MetricsRegistry (D : Type) where
  counters : Cache D := {}
  gauges : Cache D := {}
  histograms : Cache D := {}

namespace MetricsRegistry

def createCounter (s : MetricsRegistry D) (r : Request D) : Option (Metric D) × MetricsRegistry D :=
  let (metric, counters) := s.counters.create r []
  (metric, { s with counters })

def createGauge (s : MetricsRegistry D) (r : Request D) : Option (Metric D) × MetricsRegistry D :=
  let (metric, gauges) := s.gauges.create r []
  (metric, { s with gauges })

/-- an empty list of buckets is replaced by the defaults -/
def createHistogram (defaults : List D) (s : MetricsRegistry D) (r : Request D) :
    Option (Metric D) × MetricsRegistry D :=
  let (metric, histograms) :=
    s.histograms.create r (if r.buckets.isEmpty then defaults else r.buckets)
  (metric, { s with histograms })

def clear (_ : MetricsRegistry D) : MetricsRegistry D := {}

end MetricsRegistry

inductive Kind where
  | counter
  | gauge
  | histogram
  deriving DecidableEq, Repr

inductive RegistryCall (D : Type) where
  | create (kind : Kind) (r : Request D)
  | clear

def MetricsRegistry.create (defaults : List D) (s : MetricsRegistry D) (kind : Kind) (r : Request D) :
    Option (Metric D) × MetricsRegistry D :=
  match kind with
  | .counter => s.createCounter r
  | .gauge => s.createGauge r
  | .histogram => s.createHistogram defaults r

def MetricsRegistry.step (defaults : List D) (s : MetricsRegistry D) :
    RegistryCall D → MetricsRegistry D
  | .create kind r => (s.create defaults kind r).2
  | .clear => s.clear

def registryAfter (defaults : List D) (calls : List (RegistryCall D)) : MetricsRegistry D :=
  run (MetricsRegistry.step defaults) {} calls

/-! ## what is cached -/

/-- every metric of a cache is under its own key, and meets `P` -/
def Cache.Holds (P : Metric D → Prop) (c : Cache D) : Prop :=
  ∀ key m, c.metrics.lookup key = some m → generateMetricKey m.name m.labels = key ∧ P m

/-- the caches of a registry -/
def MetricsRegistry.Holds (P : Metric D → Prop) (s : MetricsRegistry D) : Prop :=
  s.counters.Holds P ∧ s.gauges.Holds P ∧ s.histograms.Holds P

section
variable {P : Metric D → Prop}

theorem Cache.family_metrics {c c' : Cache D} {r : Request D} (h : c.family r = some c') :
    c'.metrics = c.metrics := by
  unfold Cache.family at h
  split at h
  · cases h
    rfl
  · split at h
    · cases h
      rfl
    · cases h

theorem Cache.Holds.create {c : Cache D} (hc : c.Holds P) {r : Request D} {buckets : List D}
    (hr : P ⟨r.name, r.labels, buckets⟩) : (c.create r buckets).2.Holds P ∧
      ∀ m, (c.create r buckets).1 = some m →
        generateMetricKey m.name m.labels = generateMetricKey r.name r.labels ∧ P m := by
  unfold Cache.create
  dsimp only
  cases hm : c.metrics.lookup (generateMetricKey r.name r.labels) with
  | some metric =>
    refine ⟨hc, fun m h => ?_⟩
    cases h
    exact hc _ _ hm
  | none =>
    cases hf : c.family r with
    | none => exact ⟨hc, fun m h => (nomatch h)⟩
    | some c' =>
      have hsame := Cache.family_metrics hf
      dsimp only
      by_cases ha : r.adds = true
      · rw [if_pos ha]
        refine ⟨fun key m h => ?_, fun m h => ?_⟩
        · dsimp only at h
          rw [hsame, UMap.lookup_insert] at h
          split at h
          · rename_i hkey
            cases h
            exact ⟨hkey.symm, hr⟩
          · exact hc key m h
        · cases h
          exact ⟨rfl, hr⟩
      · rw [if_neg ha]
        refine ⟨fun key m h => ?_, fun m h => (nomatch h)⟩
        rw [hsame] at h
        exact hc key m h

variable {defaults : List D}

theorem MetricsRegistry.Holds.create {s : MetricsRegistry D} (hs : s.Holds P) (kind : Kind)
    {r : Request D} (hr : ∀ buckets, P ⟨r.name, r.labels, buckets⟩) :
    (s.create defaults kind r).2.Holds P ∧ ∀ m, (s.create defaults kind r).1 = some m →
      generateMetricKey m.name m.labels = generateMetricKey r.name r.labels ∧ P m := by
  obtain ⟨h1, h2, h3⟩ := hs
  cases kind with
  | counter =>
    obtain ⟨hc, hm⟩ := h1.create (hr [])
    exact ⟨⟨hc, h2, h3⟩, hm⟩
  | gauge =>
    obtain ⟨hc, hm⟩ := h2.create (hr [])
    exact ⟨⟨h1, hc, h3⟩, hm⟩
  | histogram =>
    obtain ⟨hc, hm⟩ := h3.create (hr _)
    exact ⟨⟨h1, h2, hc⟩, hm⟩

theorem holds_empty : ({} : MetricsRegistry D).Holds P :=
  ⟨fun _ _ h => (nomatch h), fun _ _ h => (nomatch h), fun _ _ h => (nomatch h)⟩

/-- requests for metrics that meet `P` leave such metrics only -/
theorem registryAfter_holds {calls : List (RegistryCall D)}
    (h : ∀ kind r, RegistryCall.create kind r ∈ calls → ∀ buckets, P ⟨r.name, r.labels, buckets⟩) :
    (registryAfter defaults calls).Holds P := by
  refine run_inv_of (MetricsRegistry.Holds P) (C := fun _ c => c ∈ calls) ?_ calls holds_empty
    (everyStep_of_forall (fun _ _ hc => hc) _)
  intro s c hs hc
  cases c with
  | create kind r => exact (hs.create kind (h kind r hc)).1
  | clear => exact holds_empty

end

end

/-! ## keys that tell metrics apart -/

theorem labelsText_false {entries : List (Str × Str)} (h : entries ≠ []) :
    labelsText false entries = 44 :: labelsText true entries := by
  cases entries with
  | nil => exact absurd rfl h
  | cons p rest => rfl

/-- the flag puts the commas between the labels -/
theorem labelsText_eq (entries : List (Str × Str)) :
    labelsText true entries = joined 44 (entries.map fun p => keyed 61 p.1 p.2) := by
  induction entries with
  | nil => rfl
  | cons p rest ih =>
    have hfirst : labelsText true (p :: rest) = keyed 61 p.1 p.2 ++ labelsText false rest := rfl
    cases rest with
    | nil =>
      rw [hfirst]
      show keyed 61 p.1 p.2 ++ [] = joined 44 [keyed 61 p.1 p.2]
      rw [List.append_nil]
      exact List.intercalate_singleton.symm
    | cons q rest =>
      rw [hfirst, labelsText_false (List.cons_ne_nil q rest), ih]
      exact (joined_cons_cons 44 _ _ _).symm

theorem key_empty (name : Str) : generateMetricKey name .empty = name := List.append_nil name

theorem key_of_nil {labels : Labels} (name : Str) (h : labels.entries = []) :
    generateMetricKey name labels = name := by
  rw [Labels.ext (y := .empty) h, key_empty]

theorem key_of_ne_nil {labels : Labels} (name : Str) (h : labels.entries ≠ []) :
    generateMetricKey name labels = keyed 123 name (labelsText true labels.entries ++ [125]) := by
  unfold generateMetricKey
  rw [List.isEmpty_eq_false_iff.mpr h]
  rfl

/-- no brace in the name, no delimiter in the names of the labels, and no comma in their values -/
structure Plain (name : Str) (labels : Labels) : Prop where
  name : 123 ∉ name
  keys : ∀ p ∈ labels.entries, 44 ∉ p.1 ∧ 61 ∉ p.1
  values : ∀ p ∈ labels.entries, 44 ∉ p.2

/-- a key without a brace is the name of a metric without labels -/
theorem nil_of_not_mem {name : Str} {labels : Labels} (h : 123 ∉ generateMetricKey name labels) :
    labels.entries = [] := by
  by_contra hne
  rw [key_of_ne_nil name hne] at h
  exact h (List.mem_append_right _ List.mem_cons_self)

theorem Plain.pieces {name : Str} {labels : Labels} (h : Plain name labels) :
    ∀ l ∈ labels.entries.map fun p => keyed 61 p.1 p.2, 44 ∉ l ∧ l ≠ [] :=
  keyed_pieces (by decide) fun p hp => ⟨(h.keys p hp).1, h.values p hp⟩

/-- **Plain metrics are told apart by their keys.** -/
theorem generateMetricKey_inj {name name' : Str} {labels labels' : Labels} (h : Plain name labels)
    (h' : Plain name' labels') (e : generateMetricKey name labels = generateMetricKey name' labels') :
    name = name' ∧ labels = labels' := by
  by_cases hl : labels.entries = []
  · rw [key_of_nil name hl] at e
    have hl' : labels'.entries = [] := nil_of_not_mem (e ▸ h.name)
    rw [key_of_nil name' hl'] at e
    exact ⟨e, Labels.ext (hl.trans hl'.symm)⟩
  · have hl' : labels'.entries ≠ [] := by
      intro hnil
      rw [key_of_nil name' hnil] at e
      exact hl (nil_of_not_mem (e ▸ h'.name))
    rw [key_of_ne_nil name hl, key_of_ne_nil name' hl'] at e
    obtain ⟨hname, htext⟩ := keyed_inj h.name h'.name e
    have htext := List.append_cancel_right htext
    rw [labelsText_eq, labelsText_eq] at htext
    have hpieces := joined_inj h.pieces h'.pieces htext
    exact ⟨hname, Labels.ext
      (map_keyed_inj (fun p hp => (h.keys p hp).2) (fun p hp => (h'.keys p hp).2) hpieces)⟩

section
variable {D : Type} {defaults : List D}

/-- **In a run over plain metrics every call returns the metric it asks for.** -/
theorem plain_returned {calls : List (RegistryCall D)}
    (hcalls : ∀ kind r, RegistryCall.create kind r ∈ calls → Plain r.name r.labels) {kind : Kind}
    {r : Request D} (hr : Plain r.name r.labels) {m : Metric D}
    (h : ((registryAfter defaults calls).create defaults kind r).1 = some m) :
    m.name = r.name ∧ m.labels = r.labels := by
  have hs : (registryAfter defaults calls).Holds fun m => Plain m.name m.labels :=
    registryAfter_holds fun kind r hc _ => hcalls kind r hc
  obtain ⟨hkey, hm⟩ := (hs.create kind fun _ => hr).2 m h
  exact generateMetricKey_inj hm hr hkey

/-! ## two metrics -/

section
variable {name name' : Str} {labels labels' : Labels}

end

end

end Metrics
end ChainForge
