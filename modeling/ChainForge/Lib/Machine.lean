import Mathlib.Logic.Function.Basic
import Mathlib.Data.List.Basic

/-!
# Runs of a deterministic machine

A machine is a step function `step : σ → ι → σ` on states and inputs.

* `run step s l`            the state after the inputs `l`, the head of the list first;
* `EveryState step P s l`   `P` holds in every state of that run, the first and the last included;
* `EveryStep step C s l`    every input of the run meets the condition `C` in the state it finds;
* `run_inv`                 what every step keeps, every run keeps;
* `everyState_iff`          if a step keeps `P` exactly when it meets `C`, then `P` holds all along
                            a run exactly when every step of the run meets `C`; `everyState_iff_of`
                            is the rule for the runs whose inputs meet `D`;
* `everyState_congr`        conditions that agree under an invariant hold along the same runs;
                            `everyStep_iff_of` is the rule for conditions on the steps;
* `run_lastWrite_iff`       of a property that some inputs write and the others keep, the last input
                            that writes it decides;
* `view_run`                a part of the state (`view`) that only some of the inputs touch is
                            computed by a machine of its own from these inputs alone;
* `run_sim`                 a relation that the steps of two machines keep, their runs keep.
-/

set_option linter.unusedSectionVars false

namespace Machine

section
variable {σ ι : Type*} (step : σ → ι → σ)

def run (s : σ) (l : List ι) : σ := l.foldl step s

def EveryState (P : σ → Prop) : σ → List ι → Prop
  | s, [] => P s
  | s, i :: l => P s ∧ EveryState P (step s i) l

def EveryStep (C : σ → ι → Prop) : σ → List ι → Prop
  | _, [] => True
  | s, i :: l => C s i ∧ EveryStep C (step s i) l

theorem run_cons (s : σ) (i : ι) (l : List ι) : run step s (i :: l) = run step (step s i) l := rfl

theorem run_concat (s : σ) (l : List ι) (i : ι) : run step s (l ++ [i]) = step (run step s l) i := by
  unfold run
  rw [List.foldl_concat]

theorem run_append (s : σ) (l m : List ι) : run step s (l ++ m) = run step (run step s l) m :=
  List.foldl_append

variable {step}

/-- **Invariant rule**, for inputs that meet `C`. -/
theorem run_inv_of (Inv : σ → Prop) {C : σ → ι → Prop}
    (hstep : ∀ s i, Inv s → C s i → Inv (step s i)) {s : σ} (l : List ι) (hs : Inv s)
    (hC : EveryStep step C s l) : Inv (run step s l) := by
  induction l generalizing s with
  | nil => exact hs
  | cons i l ih => exact ih (hstep s i hs hC.1) hC.2

/-- **Invariant rule.** -/
theorem run_inv (Inv : σ → Prop) (hstep : ∀ s i, Inv s → Inv (step s i)) {s : σ} (l : List ι)
    (hs : Inv s) : Inv (run step s l) := by
  induction l generalizing s with
  | nil => exact hs
  | cons i l ih => exact ih (hstep s i hs)

/-- an invariant holds in every state of a run -/
theorem everyState_of_inv (Inv : σ → Prop) (hstep : ∀ s i, Inv s → Inv (step s i)) {s : σ}
    (l : List ι) (hs : Inv s) : EveryState step Inv s l := by
  induction l generalizing s with
  | nil => exact hs
  | cons i l ih => exact ⟨hs, ih (hstep s i hs)⟩

/-- conditions that agree under an invariant -/
theorem everyState_congr (Inv : σ → Prop) {P Q : σ → Prop} (hinv : ∀ s i, Inv s → Inv (step s i))
    (h : ∀ s, Inv s → (P s ↔ Q s)) {s : σ} (l : List ι) (hs : Inv s) :
    EveryState step P s l ↔ EveryState step Q s l := by
  induction l generalizing s with
  | nil => exact h s hs
  | cons i l ih => exact and_congr (h s hs) (ih (hinv s i hs))

/-- step conditions that agree under an invariant, which the steps keep that meet them -/
theorem everyStep_iff_of (Inv : σ → Prop) {A C : σ → ι → Prop}
    (hinv : ∀ s i, Inv s → C s i → Inv (step s i)) (h : ∀ s i, Inv s → (A s i ↔ C s i)) {s : σ}
    (l : List ι) (hs : Inv s) : EveryStep step A s l ↔ EveryStep step C s l := by
  induction l generalizing s with
  | nil => exact Iff.rfl
  | cons i l ih =>
    constructor
    · intro hA
      have hC := (h s i hs).mp hA.1
      exact ⟨hC, (ih (hinv s i hs hC)).mp hA.2⟩
    · intro hC
      exact ⟨(h s i hs).mpr hC.1, (ih (hinv s i hs hC.1)).mpr hC.2⟩

theorem EveryState.head {P : σ → Prop} {s : σ} {l : List ι} (h : EveryState step P s l) : P s := by
  cases l with
  | nil => exact h
  | cons i l => exact h.1

theorem EveryState.last {P : σ → Prop} {s : σ} {l : List ι} (h : EveryState step P s l) :
    P (run step s l) := by
  induction l generalizing s with
  | nil => exact h
  | cons i l ih => exact ih h.2

theorem EveryState.imp {P Q : σ → Prop} (h : ∀ s, P s → Q s) {s : σ} {l : List ι}
    (hP : EveryState step P s l) : EveryState step Q s l := by
  induction l generalizing s with
  | nil => exact h s hP
  | cons i l ih => exact ⟨h s hP.1, ih hP.2⟩

theorem everyStep_of_forall {C : σ → ι → Prop} {l : List ι} (h : ∀ s, ∀ i ∈ l, C s i) (s : σ) :
    EveryStep step C s l := by
  induction l generalizing s with
  | nil => trivial
  | cons i l ih =>
    exact ⟨h s i List.mem_cons_self, ih (fun s j hj => h s j (List.mem_cons_of_mem _ hj)) _⟩

theorem EveryStep.and {C D : σ → ι → Prop} {s : σ} {l : List ι} (hC : EveryStep step C s l)
    (hD : EveryStep step D s l) : EveryStep step (fun s i => C s i ∧ D s i) s l := by
  induction l generalizing s with
  | nil => trivial
  | cons i l ih => exact ⟨⟨hC.1, hD.1⟩, ih hC.2 hD.2⟩

/-- **Exact step conditions**, for inputs that meet `D`.  Under an invariant, if a step from a good
state ends in a good state exactly when it meets `C`, a run stays good exactly when all its steps
meet `C`. -/
theorem everyState_iff_of (Inv : σ → Prop) {P : σ → Prop} {C D : σ → ι → Prop}
    (hinv : ∀ s i, Inv s → D s i → Inv (step s i))
    (hstep : ∀ s i, Inv s → D s i → P s → (P (step s i) ↔ C s i)) {s : σ} (l : List ι)
    (hs : Inv s) (hP : P s) (hD : EveryStep step D s l) :
    EveryState step P s l ↔ EveryStep step C s l := by
  induction l generalizing s with
  | nil => exact ⟨fun _ => trivial, fun _ => hP⟩
  | cons i l ih =>
    constructor
    · intro h
      have hP' := h.2.head
      exact ⟨(hstep s i hs hD.1 hP).mp hP', (ih (hinv s i hs hD.1) hP' hD.2).mp h.2⟩
    · intro h
      have hP' := (hstep s i hs hD.1 hP).mpr h.1
      exact ⟨hP, (ih (hinv s i hs hD.1) hP' hD.2).mpr h.2⟩

/-- **Exact step conditions.** -/
theorem everyState_iff (Inv : σ → Prop) {P : σ → Prop} {C : σ → ι → Prop}
    (hinv : ∀ s i, Inv s → Inv (step s i))
    (hstep : ∀ s i, Inv s → P s → (P (step s i) ↔ C s i)) {s : σ} (l : List ι)
    (hs : Inv s) (hP : P s) : EveryState step P s l ↔ EveryStep step C s l :=
  everyState_iff_of Inv (D := fun _ _ => True) (fun s i hs _ => hinv s i hs)
    (fun s i hs _ hP => hstep s i hs hP) l hs hP (everyStep_of_forall (fun _ _ _ => trivial) s)

variable (step) in
/-- the last input of a run that `writes`, with the state that it finds -/
def lastWrite (writes : σ → ι → Bool) : σ → List ι → Option (σ × ι)
  | _, [] => none
  | s, i :: l => (lastWrite writes (step s i) l).or (if writes s i then some (s, i) else none)

/-- **The last write decides.** -/
theorem run_lastWrite_iff {P : σ → Prop} {writes : σ → ι → Bool} {C : σ → ι → Prop}
    (hwrites : ∀ s i, writes s i = true → (P (step s i) ↔ C s i))
    (hkeeps : ∀ s i, writes s i = false → (P (step s i) ↔ P s)) (s : σ) (l : List ι) :
    P (run step s l) ↔
      (lastWrite step writes s l = none → P s) ∧
        ∀ t i, lastWrite step writes s l = some (t, i) → C t i := by
  induction l generalizing s with
  | nil => exact ⟨fun h => ⟨fun _ => h, fun _ _ e => (nomatch e)⟩, fun h => h.1 rfl⟩
  | cons i l ih =>
    rw [run_cons, ih, lastWrite]
    cases lastWrite step writes (step s i) l with
    | some p =>
      exact ⟨fun h => ⟨fun e => (nomatch e), h.2⟩, fun h => ⟨fun e => (nomatch e), h.2⟩⟩
    | none =>
      rw [Option.none_or]
      cases hw : writes s i with
      | true =>
        have hiff := hwrites s i hw
        constructor
        · refine fun h => ⟨fun e => (nomatch e), fun t j e => ?_⟩
          cases e
          exact hiff.mp (h.1 rfl)
        · exact fun h => ⟨fun _ => hiff.mpr (h.2 s i rfl), fun _ _ e => (nomatch e)⟩
      | false =>
        have hiff := hkeeps s i hw
        exact ⟨fun h => ⟨fun _ => hiff.mp (h.1 rfl), fun _ _ e => (nomatch e)⟩,
          fun h => ⟨fun _ => hiff.mpr (h.1 rfl), fun _ _ e => (nomatch e)⟩⟩

end

section
variable {σ ι κ ν : Type*} {step : σ → ι → σ}

/-- **Unwinding.**  `view` is the part of the state an observer sees, `own` says which inputs
concern it.  If the other inputs leave the view alone and the own inputs act on it by `act`,
whatever the rest of the state is, then the view after a run is computed from the labels of the
own inputs. -/
theorem view_run (Inv : σ → Prop) {C : σ → ι → Prop} (own : ι → Bool) (lab : ι → κ)
    (view : σ → ν) (act : ν → κ → ν)
    (hinv : ∀ s i, Inv s → C s i → Inv (step s i))
    (hown : ∀ s i, Inv s → C s i → own i = true → view (step s i) = act (view s) (lab i))
    (hother : ∀ s i, Inv s → C s i → own i = false → view (step s i) = view s)
    {s : σ} (l : List ι) (hs : Inv s) (hC : EveryStep step C s l) :
    view (run step s l) = run act (view s) ((l.filter own).map lab) := by
  induction l generalizing s with
  | nil => rfl
  | cons i l ih =>
    rw [run_cons, ih (hinv s i hs hC.1) hC.2]
    cases ho : own i with
    | true =>
      rw [hown s i hs hC.1 ho, List.filter_cons_of_pos ho, List.map_cons, run_cons]
    | false =>
      rw [hother s i hs hC.1 ho, List.filter_cons_of_neg (by rw [ho]; exact Bool.false_ne_true)]

end

section
variable {σ τ ι : Type*} {step : σ → ι → σ} {step' : τ → ι → τ}

/-- **Simulation**, for inputs that meet `C` in the second machine. -/
theorem run_sim (R : σ → τ → Prop) {C : τ → ι → Prop}
    (hstep : ∀ s t i, R s t → C t i → R (step s i) (step' t i)) {s : σ} {t : τ} (l : List ι)
    (hst : R s t) (hC : EveryStep step' C t l) : R (run step s l) (run step' t l) := by
  induction l generalizing s t with
  | nil => exact hst
  | cons i l ih => exact ih (hstep s t i hst hC.1) hC.2

end

end Machine
