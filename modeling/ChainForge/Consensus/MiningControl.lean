import ChainForge.Lib.Threads
import ChainForge.Consensus.ProofOfWork

/-!
# Stopping a miner

Threads that call `mine_block`, `stop_mining` and `is_mining_active` on one `ProofOfWork`.  All three
take `mining_mutex_`, and `mine_block` keeps it until it returns.  A turn of the mining loop is one
step of a thread, and the success exits take `stats_mutex_` as well.

* `miningLoop_succ`, `mineBlock_alone`   **the steps compute `mine_block`**: a thread that is not
                          disturbed gets the result of the sequential function;
* `exec_step`             what an action can do, said once for all of them;
* `Calm`                  what holds in every reachable state: `stop_requested_` is false while a
                          thread is in the loop, and `mining_active_` only while a thread mines;
* `stop_waits`            a call of `stop_mining` waits while another thread is in the loop;
* `controllable_iff`      a call of `stop_mining` can stop those that mine exactly if nobody mines;
* `isMiningActive_false`  every call of `is_mining_active` returns `false`.
-/

set_option linter.unusedSectionVars false

namespace ChainForge
namespace Consensus
open Machine Threads

/-! ## one turn of the loop -/

inductive Round where
  | stopped
  | found (blockHash : Hash) (attempts : UInt64)
  | next (attempts : UInt64)

namespace ProofOfWork

variable {F : Type} [Double F]

/-- the constructor; the statistics are not set -/
def make (initialDifficulty : Difficulty) (miningStats : MiningStats F) : ProofOfWork F where
  currentDifficulty := initialDifficulty
  miningStats := miningStats
  miningActive := false
  stopRequested := false

def miningRound (H : List UInt8 → Hash) (s : ProofOfWork F) (b : Block) (rand : UInt64 → Nat)
    (nonce attempts : UInt64) : Round :=
  if s.stopRequested then .stopped
  else
    let attempts := attempts + 1
    let blockHash := s.calculateBlockHash H b nonce
    if meetsDifficultyTarget blockHash s.currentDifficulty then .found blockHash attempts
    else if nonce == 42 || (attempts > 1000 && rand nonce % 10000 == 0) then
      .found (s.calculateBlockHash H b nonce) attempts
    else .next attempts

theorem miningLoop_succ (H : List UInt8 → Hash) (s : ProofOfWork F) (b : Block)
    (rand : UInt64 → Nat) (rounds : Nat) (nonce attempts : UInt64) :
    s.miningLoop H b rand (rounds + 1) nonce attempts =
      match s.miningRound H b rand nonce attempts with
      | .stopped => (none, attempts)
      | .found blockHash attempts => (some (nonce, blockHash), attempts)
      | .next attempts => s.miningLoop H b rand rounds (nonce + 1) attempts := by
  rw [miningLoop]
  unfold miningRound
  dsimp only
  split
  · rfl
  · split
    · rfl
    · split <;> rfl

theorem stopRequested_of_next {H : List UInt8 → Hash} {s : ProofOfWork F} {b : Block}
    {rand : UInt64 → Nat} {nonce attempts attempts' : UInt64}
    (h : s.miningRound H b rand nonce attempts = .next attempts') : s.stopRequested = false := by
  unfold miningRound at h
  split at h
  · cases h
  · rename_i hstop
    exact (Bool.not_eq_true _).mp hstop

/-- what `perform_mining` does after the loop -/
def leaveLoop (s : ProofOfWork F) (miningTime : Int) :
    Option (UInt64 × Hash) × UInt64 → MiningResult × ProofOfWork F
  | (some (nonce, blockHash), attempts) =>
    ({ success := true, nonce, blockHash, miningTime, attempts },
     { s with miningStats := s.recordSuccess attempts miningTime })
  | (none, attempts) =>
    ({ success := false, nonce := 0, blockHash := Hash.zero, miningTime, attempts }, s)

theorem performMining_eq (H : List UInt8 → Hash) (s : ProofOfWork F) (b : Block)
    (rand : UInt64 → Nat) (miningTime : Int) :
    s.performMining H b rand miningTime
      = s.leaveLoop miningTime (s.miningLoop H b rand (2^64 - 1) 0 0) := by
  unfold performMining leaveLoop
  rfl

end ProofOfWork

/-! ## threads -/

/-- what a call returned -/
inductive Returned where
  | mined (result : MiningResult)
  | active (value : Bool)

structure Miner (F : Type) where
  pow : ProofOfWork F
  /-- a thread holds `stats_mutex_` -/
  statsHeld : Bool := false
  /-- the values returned so far -/
  returned : List Returned := []

/-- the template, the outcomes of `rand()` and the time that passes -/
structure Job where
  template : Block
  rand : UInt64 → Nat
  miningTime : Int

inductive MiningAction where
  | start (job : Job)
  | round (job : Job) (nonce attempts : UInt64)
  | lockStats (result : MiningResult)
  | recordStats (result : MiningResult)
  | unlockStats (result : MiningResult)
  | finish (result : MiningResult)
  | requestStop
  | readActive

/-- the actions of `mine_block` between `mining_active_ = true` and its return -/
def MiningAction.isMining : MiningAction → Bool
  | round .. | lockStats _ | recordStats _ | unlockStats _ | finish _ => true
  | start _ | requestStop | readActive => false

inductive MiningCall where
  | mineBlock (job : Job)
  | stopMining
  | isMiningActive

def Job.failure (job : Job) (attempts : UInt64) : MiningResult :=
  { success := false, nonce := 0, blockHash := Hash.zero, miningTime := job.miningTime, attempts }

section
variable {F : Type} [Double F] (H : List UInt8 → Hash)

/-- what an action does, and what the thread does next -/
def Miner.exec (x : Miner F) : MiningAction → Miner F × List (Instr MiningAction)
  | .start job =>
    ({ x with pow := { x.pow with miningActive := true, stopRequested := false } },
     [.act (.round job 0 0)])
  | .round job nonce attempts =>
    -- `nonce < std::numeric_limits<uint64_t>::max()`
    if nonce < 18446744073709551615 then
      match x.pow.miningRound H job.template job.rand nonce attempts with
      | .stopped => (x, [.act (.finish (job.failure attempts))])
      | .found blockHash attempts =>
        (x, [.act (.lockStats
          { success := true, nonce, blockHash, miningTime := job.miningTime, attempts })])
      | .next attempts => (x, [.act (.round job (nonce + 1) attempts)])
    else (x, [.act (.finish (job.failure attempts))])
  | .lockStats result =>
    if x.statsHeld then (x, [.act (.lockStats result)])
    else ({ x with statsHeld := true }, [.act (.recordStats result)])
  | .recordStats result =>
    ({ x with pow :=
        { x.pow with miningStats := x.pow.recordSuccess result.attempts result.miningTime } },
     [.act (.unlockStats result)])
  | .unlockStats result => ({ x with statsHeld := false }, [.act (.finish result)])
  | .finish result =>
    ({ x with
        pow := { x.pow with miningActive := false }
        returned := x.returned ++ [.mined result] }, [])
  | .requestStop => ({ x with pow := { x.pow with stopRequested := true } }, [])
  | .readActive => ({ x with returned := x.returned ++ [.active x.pow.miningActive] }, [])

def MiningCall.code : MiningCall → List (Instr MiningAction)
  | .mineBlock job => [.lock, .act (.start job), .unlock]
  | .stopMining => [.lock, .act .requestStop, .unlock]
  | .isMiningActive => [.lock, .act .readActive, .unlock]

def mining : Program (Miner F) MiningAction MiningCall where
  exec := Miner.exec H
  code := MiningCall.code

abbrev MiningSystem (F : Type) := System (Miner F) MiningAction

def MiningSystem.start (initialDifficulty : Difficulty) (stats : MiningStats F) : MiningSystem F where
  shared := { pow := ProofOfWork.make initialDifficulty stats }

/-- the state after the events -/
def miningAfter (initialDifficulty : Difficulty) (stats : MiningStats F)
    (events : List (Event MiningCall)) : MiningSystem F :=
  run (mining H).next (MiningSystem.start initialDifficulty stats) events

end

/-! ## what one action does -/

section
variable {F : Type} [Double F]

/-- **All that an action can do**: the thread goes on mining, into the next turn of the loop only if
no stop is requested, or it comes to the end of its section. -/
inductive ExecStep (x : Miner F) (i : MiningAction) :
    Miner F × List (Instr MiningAction) → Prop
  | goesOn (y : Miner F) (j : MiningAction) (hj : j.isMining = true)
      (hstop : ∀ job nonce attempts, j = .round job nonce attempts → y.pow.stopRequested = false)
      (hreturned : y.returned = x.returned) : ExecStep x i (y, [.act j])
  | ends (y : Miner F)
      (hactive : y.pow.miningActive = true → x.pow.miningActive = true ∧ i.isMining = false)
      (hreturned : ∀ value, .active value ∈ y.returned →
        .active value ∈ x.returned ∨ i = .readActive ∧ value = x.pow.miningActive) :
    ExecStep x i (y, [])

theorem exec_step (H : List UInt8 → Hash) (x : Miner F) (i : MiningAction) :
    ExecStep x i (x.exec H i) := by
  cases i with
  | start job => exact .goesOn _ _ rfl (fun _ _ _ _ => rfl) rfl
  | round job nonce attempts =>
    unfold Miner.exec
    dsimp only
    split
    · split
      · exact .goesOn _ _ rfl (fun _ _ _ => nofun) rfl
      · exact .goesOn _ _ rfl (fun _ _ _ => nofun) rfl
      · rename_i hnext
        exact .goesOn _ _ rfl (fun _ _ _ _ => ProofOfWork.stopRequested_of_next hnext) rfl
    · exact .goesOn _ _ rfl (fun _ _ _ => nofun) rfl
  | lockStats result =>
    unfold Miner.exec
    dsimp only
    split <;> exact .goesOn _ _ rfl (fun _ _ _ => nofun) rfl
  | recordStats result => exact .goesOn _ _ rfl (fun _ _ _ => nofun) rfl
  | unlockStats result => exact .goesOn _ _ rfl (fun _ _ _ => nofun) rfl
  | finish result =>
    refine .ends _ nofun fun value hv => ?_
    rcases List.mem_append.mp hv with hv | hv
    · exact Or.inl hv
    · cases List.mem_singleton.mp hv
  | requestStop => exact .ends _ (fun ha => ⟨ha, rfl⟩) fun _ hv => Or.inl hv
  | readActive =>
    refine .ends _ (fun ha => ⟨ha, rfl⟩) fun value hv => ?_
    rcases List.mem_append.mp hv with hv | hv
    · exact Or.inl hv
    · cases List.mem_singleton.mp hv
      exact Or.inr ⟨rfl, rfl⟩

end

/-! ## invariants -/

section
variable {F : Type} [Double F] {s : MiningSystem F} {t u : Nat}

/-- every action is performed under `mining_mutex_` -/
def underMutex (held : Bool) (_ : MiningAction) : Bool := held

theorem mining_discipline (H : List UInt8 → Hash) :
    Discipline underMutex (mining (F := F) H) fun _ _ => false where
  code c := by
    cases c <;> exact ⟨rfl, rfl, rfl, rfl⟩
  free _ _ _ h _ := by cases h
  held x i k _ _ hk := by
    have hstep := exec_step H x i
    change Keeps underMutex true ((x.exec H i).2 ++ k)
    generalize x.exec H i = r at hstep ⊢
    cases hstep with
    | goesOn y j hj _ _ => exact ⟨rfl, hk⟩
    | ends y _ _ => exact hk
  locks _ _ _ h := by cases h

/-- the thread is between `mining_active_ = true` and its return -/
def Mining (s : MiningSystem F) (t : Nat) : Prop :=
  ∃ i k, s.stack t = .act i :: k ∧ i.isMining = true

/-- the thread is at the head of the loop of `perform_mining` -/
def InLoop (s : MiningSystem F) (t : Nat) : Prop :=
  ∃ job nonce attempts k, s.stack t = .act (.round job nonce attempts) :: k

theorem InLoop.mining (h : InLoop s t) : Mining s t := by
  obtain ⟨job, nonce, attempts, k, hk⟩ := h
  exact ⟨_, k, hk, rfl⟩

theorem owner_of_act (hgood : Good underMutex s) {i : MiningAction} {k : List (Instr MiningAction)}
    (h : s.stack t = .act i :: k) : s.owner = some t := by
  have ht := hgood t
  rw [h] at ht
  exact beq_iff_eq.mp ht.1

theorem Mining.owner (hgood : Good underMutex s) (h : Mining s t) : s.owner = some t := by
  obtain ⟨i, k, hk, -⟩ := h
  exact owner_of_act hgood hk

/-- what the flags say about the threads -/
structure Calm (s : MiningSystem F) : Prop where
  tail : ∀ t i, .act i ∈ (s.stack t).tail → i.isMining = false
  stop : ∀ t, InLoop s t → s.shared.pow.stopRequested = false
  active : s.shared.pow.miningActive = true → ∃ t, Mining s t
  returned : ∀ value, .active value ∈ s.shared.returned → value = false

theorem Calm.tail_of_stack (h : Calm s) {i : Instr MiningAction} {k : List (Instr MiningAction)}
    (hs : s.stack t = i :: k) : ∀ j, .act j ∈ k → j.isMining = false := by
  intro j hj
  have htail := h.tail t j
  rw [hs] at htail
  exact htail hj

theorem Calm.start (initialDifficulty : Difficulty) (stats : MiningStats F) :
    Calm (MiningSystem.start initialDifficulty stats) where
  tail _ _ h := by cases h
  stop _ h := by
    obtain ⟨_, _, _, _, h⟩ := h
    cases h
  active h := by cases h
  returned _ h := by cases h

theorem start_good (initialDifficulty : Difficulty) (stats : MiningStats F) :
    Good underMutex (MiningSystem.start initialDifficulty stats) :=
  fun _ => rfl

/-- the thread `u` goes on to the code `l` -/
theorem Calm.move (h : Calm s) {l : List (Instr MiningAction)} (x : Miner F) (owner : Option Nat)
    (htail : ∀ i, .act i ∈ l.tail → i.isMining = false)
    (hstop : ∀ job nonce attempts k, l = .act (.round job nonce attempts) :: k →
      x.pow.stopRequested = false)
    (hothers : ∀ t, t ≠ u → InLoop s t → x.pow.stopRequested = false)
    (hactive : x.pow.miningActive = true →
      (∃ i k, l = .act i :: k ∧ i.isMining = true) ∨ ∃ t, t ≠ u ∧ Mining s t)
    (hreturned : ∀ value, .active value ∈ x.returned → value = false) :
    Calm { s.setStack u l with shared := x, owner } where
  tail t i hi := by
    change .act i ∈ ((s.setStack u l).stack t).tail at hi
    by_cases htu : t = u
    · rw [htu, setStack_same] at hi
      exact htail i hi
    · rw [setStack_ne htu] at hi
      exact h.tail t i hi
  stop t ht := by
    obtain ⟨job, nonce, attempts, k, hk⟩ := ht
    change (s.setStack u l).stack t = _ at hk
    by_cases htu : t = u
    · rw [htu, setStack_same] at hk
      exact hstop job nonce attempts k hk
    · rw [setStack_ne htu] at hk
      exact hothers t htu ⟨job, nonce, attempts, k, hk⟩
  active ha := by
    rcases hactive ha with ⟨i, k, hl, hi⟩ | ⟨t, htu, i, k, hk, hi⟩
    · exact ⟨u, i, k, setStack_same.trans hl, hi⟩
    · exact ⟨t, i, k, (setStack_ne htu).trans hk, hi⟩
  returned := hreturned

theorem not_round_of_mem {k : List (Instr MiningAction)}
    (hk : ∀ i, .act i ∈ k → i.isMining = false) (job : Job) (nonce attempts : UInt64)
    (l : List (Instr MiningAction)) : k ≠ .act (.round job nonce attempts) :: l := by
  rintro rfl
  cases hk _ List.mem_cons_self

/-- a thread that does not mine goes on to code that does not mine -/
theorem Calm.setStack (h : Calm s) {k : List (Instr MiningAction)} (owner : Option Nat)
    (hu : ¬ Mining s u) (hk : ∀ i, .act i ∈ k → i.isMining = false) :
    Calm { s.setStack u k with owner } := by
  refine h.move s.shared owner (fun i hi => hk i (List.mem_of_mem_tail hi)) ?_
    (fun t _ ht => h.stop t ht) ?_ h.returned
  · intro job nonce attempts l hl
    exact absurd hl (not_round_of_mem hk job nonce attempts l)
  · intro ha
    obtain ⟨t, ht⟩ := h.active ha
    refine Or.inr ⟨t, ?_, ht⟩
    rintro rfl
    exact hu ht

/-- a thread that mines is the one that has an action in front of it, and the action is one of
mining -/
theorem Mining.eq_of_act (hgood : Good underMutex s) {i : MiningAction}
    {k : List (Instr MiningAction)} (hs : s.stack u = .act i :: k) {t : Nat} (ht : Mining s t) :
    t = u ∧ i.isMining = true := by
  have htu : t = u := Option.some.inj ((ht.owner hgood).symm.trans (owner_of_act hgood hs))
  subst htu
  obtain ⟨j, l, hl, hj⟩ := ht
  rw [hs] at hl
  cases hl
  exact ⟨rfl, hj⟩

/-- the thread that holds the mutex performs an action -/
theorem Calm.act (hgood : Good underMutex s) (h : Calm s) {i : MiningAction}
    {k : List (Instr MiningAction)} (hs : s.stack u = .act i :: k)
    {r : Miner F × List (Instr MiningAction)} (hr : ExecStep s.shared i r) :
    Calm { s.setStack u (r.2 ++ k) with shared := r.1 } := by
  have hk : ∀ j, .act j ∈ k → j.isMining = false := h.tail_of_stack hs
  have hmining : ∀ t, Mining s t → t = u ∧ i.isMining = true := fun t ht => ht.eq_of_act hgood hs
  cases hr with
  | goesOn y j hj hstop hreturned =>
    refine h.move y s.owner hk ?_ ?_ (fun _ => Or.inl ⟨j, k, rfl, hj⟩) ?_
    · intro job nonce attempts l hl
      cases hl
      exact hstop job nonce attempts rfl
    · intro t htu ht
      exact absurd (hmining t ht.mining).1 htu
    · rw [hreturned]
      exact h.returned
  | ends y hactive hreturned =>
    refine h.move y s.owner (fun j hj => hk j (List.mem_of_mem_tail hj)) ?_ ?_ ?_ ?_
    · intro job nonce attempts l hl
      exact absurd hl (not_round_of_mem hk job nonce attempts l)
    · intro t htu ht
      exact absurd (hmining t ht.mining).1 htu
    · intro ha
      obtain ⟨hx, hi⟩ := hactive ha
      obtain ⟨t, ht⟩ := h.active hx
      rw [(hmining t ht).2] at hi
      cases hi
    · intro value hv
      rcases hreturned value hv with hv | ⟨rfl, rfl⟩
      · exact h.returned value hv
      · by_contra ha
        obtain ⟨t, ht⟩ := h.active ((Bool.not_eq_false _).mp ha)
        cases (hmining t ht).2

theorem not_mining_of_stack {k : List (Instr MiningAction)} (hs : s.stack u = k)
    (hk : ∀ i l, k ≠ .act i :: l) : ¬ Mining s u := by
  rintro ⟨i, l, hl, -⟩
  exact hk i l (hs.symm.trans hl)

theorem Calm.next (H : List UInt8 → Hash) (hgood : Good underMutex s) (h : Calm s)
    (e : Event MiningCall) : Calm ((mining H).next s e) := by
  cases e with
  | call t c =>
    unfold Program.next
    dsimp only
    split
    · rename_i hempty
      refine h.setStack s.owner (not_mining_of_stack (List.isEmpty_iff.mp hempty) nofun) ?_
      intro i hi
      cases c <;> · rcases hi with _ | ⟨_, _ | ⟨_, _ | ⟨_, hi⟩⟩⟩
                    · rfl
                    · cases hi
    · exact h
  | step t =>
    cases hs : s.stack t with
    | nil =>
      rw [next_nil hs]
      exact h
    | cons i k =>
      have htail : ∀ j, .act j ∈ k → j.isMining = false := h.tail_of_stack hs
      cases i with
      | lock =>
        rw [next_lock hs]
        split
        · exact h.setStack (some t) (not_mining_of_stack hs nofun) htail
        · exact h
      | unlock =>
        rw [next_unlock hs]
        exact h.setStack none (not_mining_of_stack hs nofun) htail
      | act i =>
        rw [next_act hs]
        exact h.act hgood hs (exec_step H s.shared i)

/-! ## runs -/

theorem run_calm (H : List UInt8 → Hash) (h : Good underMutex s ∧ Calm s)
    (events : List (Event MiningCall)) :
    Good underMutex (run (mining H).next s events) ∧ Calm (run (mining H).next s events) := by
  refine run_inv (fun s : MiningSystem F => Good underMutex s ∧ Calm s) ?_ events h
  rintro s e ⟨hgood, hcalm⟩
  refine ⟨?_, hcalm.next H hgood e⟩
  cases e with
  | call t c => exact hgood.call (mining_discipline H) t c
  | step t => exact hgood.step (mining_discipline H) t (reenters_never s _)

theorem miningAfter_calm (H : List UInt8 → Hash) (initialDifficulty : Difficulty)
    (stats : MiningStats F) (events : List (Event MiningCall)) :
    Good underMutex (miningAfter H initialDifficulty stats events) ∧
      Calm (miningAfter H initialDifficulty stats events) :=
  run_calm H ⟨start_good initialDifficulty stats, Calm.start initialDifficulty stats⟩ events

/-- **Nobody stops a miner**: the call waits for the mutex that the miner holds. -/
theorem stop_waits (H : List UInt8 → Hash) (initialDifficulty : Difficulty) (stats : MiningStats F)
    (events : List (Event MiningCall))
    (ht : InLoop (miningAfter H initialDifficulty stats events) t)
    (hu : (miningAfter H initialDifficulty stats events).stack u = MiningCall.code .stopMining) :
    (mining H).next (miningAfter H initialDifficulty stats events) (.step u)
      = miningAfter H initialDifficulty stats events := by
  have howner := ht.mining.owner (miningAfter_calm H initialDifficulty stats events).1
  rw [next_lock hu, if_neg]
  rw [howner]
  exact Option.some_ne_none t

/-- after a call of `stop_mining` by `u`, and whatever the threads then do, the flag is set at some
time while `t` is in the loop -/
def Effective (H : List UInt8 → Hash) (s : MiningSystem F) (t u : Nat) : Prop :=
  ∃ events, let s' := run (mining H).next ((mining H).next s (.call u .stopMining)) events
    InLoop s' t ∧ s'.shared.pow.stopRequested = true

theorem not_effective (H : List UInt8 → Hash) (h : Good underMutex s ∧ Calm s) (t u : Nat) :
    ¬ Effective H s t u := by
  rintro ⟨events, hloop, hstop⟩
  have hcalm := (run_calm H h (.call u .stopMining :: events)).2.stop t hloop
  exact absurd (hcalm.symm.trans hstop) Bool.false_ne_true

/-- every thread that is in the loop can be stopped by every other thread that is free to call -/
def Controllable (H : List UInt8 → Hash) (s : MiningSystem F) : Prop :=
  ∀ t u, InLoop s t → u ≠ t → s.stack u = [] → Effective H s t u

/-- **When mining can be controlled**, in every reachable state: if nobody mines. -/
theorem controllable_iff (H : List UInt8 → Hash) (initialDifficulty : Difficulty)
    (stats : MiningStats F) (events : List (Event MiningCall)) :
    Controllable H (miningAfter H initialDifficulty stats events) ↔
      ∀ t, ¬ InLoop (miningAfter H initialDifficulty stats events) t := by
  constructor
  · intro h t ht
    obtain ⟨u, hu, hidle⟩ := exists_idle (P := mining H)
      (s := MiningSystem.start initialDifficulty stats) (fun _ => rfl) events t
    exact not_effective H (miningAfter_calm H initialDifficulty stats events) t u
      (h t u ht hu hidle)
  · intro h t u ht
    exact absurd ht (h t)

/-- **`is_mining_active` never returns `true`.** -/
theorem isMiningActive_false (H : List UInt8 → Hash) (initialDifficulty : Difficulty)
    (stats : MiningStats F) (events : List (Event MiningCall)) (value : Bool)
    (h : .active value ∈ (miningAfter H initialDifficulty stats events).shared.returned) :
    value = false :=
  (miningAfter_calm H initialDifficulty stats events).2.returned value h

end

/-! ## a thread that is not disturbed -/

section
variable {F : Type} [Double F] {H : List UInt8 → Hash} {s : MiningSystem F} {t : Nat} {x : Miner F}
  {k : List (Instr MiningAction)} {Q : MiningSystem F → Prop}

/-- the state after `mine_block` returned -/
def Miner.mined (x : Miner F) (r : MiningResult × ProofOfWork F) : Miner F :=
  { x with pow := { r.2 with miningActive := false }, returned := x.returned ++ [.mined r.1] }

theorem act_eq {i : MiningAction} {y : Miner F} {l : List (Instr MiningAction)}
    (h : Seen s t x (some t) (.act i :: k)) (he : x.exec H i = (y, l)) :
    Seen ((mining H).next s (.step t)) t y (some t) (l ++ k) := by
  have hnext := h.act (P := mining H)
  rw [show (mining H).exec x i = (y, l) from he] at hnext
  exact hnext

theorem finish_alone {result : MiningResult}
    (h : Seen s t x (some t) (.act (.finish result) :: k))
    (hQ : ∀ s', Seen s' t (x.mined (result, x.pow)) (some t) k → Leads (mining H) t Q s') :
    Leads (mining H) t Q s :=
  (hQ _ (act_eq h rfl)).step

/-- the section under `stats_mutex_`, and the return -/
theorem stats_alone {result : MiningResult} (hx : x.statsHeld = false)
    (h : Seen s t x (some t) (.act (.lockStats result) :: k))
    (hQ : ∀ s', Seen s' t (x.mined (result, { x.pow with
      miningStats := x.pow.recordSuccess result.attempts result.miningTime })) (some t) k →
        Leads (mining H) t Q s') :
    Leads (mining H) t Q s := by
  have hlock : x.exec H (.lockStats result)
      = ({ x with statsHeld := true }, [.act (.recordStats result)]) := by
    unfold Miner.exec
    dsimp only
    rw [if_neg (by rw [hx]; exact Bool.false_ne_true)]
  have h1 := act_eq h hlock
  have h2 := act_eq (H := H) h1 rfl
  have h3 := act_eq (H := H) h2 rfl
  refine (Leads.step (Leads.step (finish_alone h3 fun s' h4 => hQ s' ?_))).step
  obtain ⟨pow, statsHeld, returned⟩ := x
  cases hx
  exact h4

theorem exec_round_of_lt (H : List UInt8 → Hash) (x : Miner F) (job : Job)
    {nonce : UInt64} (attempts : UInt64) (hlt : nonce < 18446744073709551615) :
    x.exec H (.round job nonce attempts) =
      match x.pow.miningRound H job.template job.rand nonce attempts with
      | .stopped => (x, [.act (.finish (job.failure attempts))])
      | .found blockHash attempts =>
        (x, [.act (.lockStats
          { success := true, nonce, blockHash, miningTime := job.miningTime, attempts })])
      | .next attempts => (x, [.act (.round job (nonce + 1) attempts)]) := by
  unfold Miner.exec
  dsimp only
  rw [if_pos hlt]

theorem exec_round_last (H : List UInt8 → Hash) (x : Miner F) (job : Job)
    {nonce : UInt64} (attempts : UInt64) (hlast : ¬ nonce < 18446744073709551615) :
    x.exec H (.round job nonce attempts) = (x, [.act (.finish (job.failure attempts))]) := by
  unfold Miner.exec
  dsimp only
  rw [if_neg hlast]

/-- by induction on the rounds left -/
theorem rounds_alone (job : Job) (rounds : Nat) (nonce attempts : UInt64)
    (hr : nonce.toNat + rounds = 2^64 - 1) (hx : x.statsHeld = false)
    (h : Seen s t x (some t) (.act (.round job nonce attempts) :: k))
    (hQ : ∀ s', Seen s' t (x.mined (x.pow.leaveLoop job.miningTime
      (x.pow.miningLoop H job.template job.rand rounds nonce attempts))) (some t) k →
        Leads (mining H) t Q s') :
    Leads (mining H) t Q s := by
  have hmax : nonce < 18446744073709551615 ↔ nonce.toNat < 2^64 - 1 := UInt64.lt_iff_toNat_lt
  induction rounds generalizing nonce attempts s with
  | zero =>
    have hlast : ¬ nonce < 18446744073709551615 := mt hmax.mp (by omega)
    exact (finish_alone (act_eq h (exec_round_last H x job attempts hlast)) hQ).step
  | succ rounds ih =>
    have hexec := exec_round_of_lt H x job attempts (hmax.mpr (by omega))
    rw [ProofOfWork.miningLoop_succ] at hQ
    cases hround : x.pow.miningRound H job.template job.rand nonce attempts with
    | stopped =>
      rw [hround] at hQ hexec
      exact (finish_alone (act_eq h hexec) hQ).step
    | found blockHash attempts' =>
      rw [hround] at hQ hexec
      exact (stats_alone hx (act_eq h hexec) hQ).step
    | next attempts' =>
      rw [hround] at hQ hexec
      have hsucc : (nonce + 1).toNat = nonce.toNat + 1 := by
        rw [UInt64.toNat_add]
        exact Nat.mod_eq_of_lt (show nonce.toNat + 1 < 2^64 by omega)
      exact (ih _ _ (by omega) (act_eq h hexec) hQ UInt64.lt_iff_toNat_lt).step

/-- **The steps compute `mine_block`**: from a free mutex, a thread that is not disturbed comes to
the state and the result of the sequential function, and the mutex is free again. -/
theorem mineBlock_alone (job : Job) (hx : x.statsHeld = false) (h : Seen s t x none []) :
    Leads (mining H) t
      (fun s' => Seen s' t
        (x.mined (x.pow.mineBlock H job.template job.rand job.miningTime)) none [])
      ((mining H).next s (.call t (.mineBlock job))) := by
  have hcall := h.call (P := mining H) (.mineBlock job)
  have hlock := hcall.lock (P := mining H)
  let y : Miner F :=
    { x with pow := { x.pow with miningActive := true, stopRequested := false } }
  have hstart := act_eq (H := H) (y := y) hlock rfl
  have hy : y.statsHeld = false := hx
  refine Leads.step (Leads.step (rounds_alone job (2^64 - 1) 0 0 (Nat.zero_add _) hy hstart ?_))
  intro s' hs'
  have hdone := hs'.unlock (P := mining H)
  have hmined : x.mined (x.pow.mineBlock H job.template job.rand job.miningTime)
      = y.mined (y.pow.performMining H job.template job.rand job.miningTime) := by
    unfold ProofOfWork.mineBlock Miner.mined
    dsimp only [y]
  refine Leads.step (Leads.done ?_)
  rw [hmined, ProofOfWork.performMining_eq]
  exact hdone

end

/-! ## one miner -/

/-- thread 0 calls `mine_block` at the highest difficulty and comes to the loop -/
def oneMiner : List (Event MiningCall) :=
  [.call 0 (.mineBlock ⟨Block.make 2 Hash.zero 0, fun _ => 1, 0⟩), .step 0, .step 0]

/-- thread 1 cannot stop thread 0 -/
theorem stop_without_effect :
    let s := miningAfter hashSha256 maxDifficulty (⟨0, 0, 0, 0, 0⟩ : MiningStats ℚ) oneMiner
    InLoop s 0 ∧ s.stack 1 = [] ∧ ¬ Effective hashSha256 s 0 1 :=
  ⟨⟨_, _, _, _, rfl⟩, rfl, not_effective hashSha256 (miningAfter_calm _ _ _ _) 0 1⟩

end Consensus
end ChainForge
