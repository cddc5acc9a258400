import ChainForge.Lib.Machine
import Mathlib.Data.List.Chain

/-!
# Starting and stopping the HTTP server

`HttpServer::start`, `stop` (which is also the destructor) and `server_loop` of
`modules/rpc/src/http_server.cpp` as two threads: the owner, who goes through a program of calls, and
the server thread.  They share the flag `running_`, which the server sets when it listens, and the
thread object `server_thread_`, which `start` assigns and `stop` joins.  `accept` blocks.

`start` tests the flag and not the thread object: assigning to a thread that was not joined ends the
process.  `stop` clears the flag once and then waits, so a server that is still setting up sets it
again.

* `listening`            **the flag says that the server listens**, in every state of every schedule;
* `never_terminated_iff` **which programs of calls are safe**: no start right after a start;
* `stop_returns_iff`     **when a stop can still return**: unless the server has set the flag since;
                         then nothing that may happen ends the wait.
-/

set_option linter.unusedSectionVars false

namespace ChainForge
namespace Rpc
namespace Lifecycle
open Machine

inductive Call where
  | start
  | stop
  deriving DecidableEq, Repr

/-- where the owner is: between two calls, in the sleep of `start`, in the `join` of `stop` -/
inductive Owner where
  | idle
  | starting
  | joining
  deriving DecidableEq, Repr

/-- where `server_loop` is: before `listen` has returned, at the head of its loop, in `accept`, in
the sleep at the end of a round, past the loop, returned -/
inductive Server where
  | setup
  | head
  | accepting
  | sleeping
  | closing
  | returned
  deriving DecidableEq, Repr

/-- in the loop -/
def Server.listens : Server → Bool
  | .head => true
  | .accepting => true
  | .sleeping => true
  | _ => false

structure State where
  /-- the calls to come -/
  program : List Call
  owner : Owner := .idle
  /-- `running_` -/
  running : Bool := false
  /-- `server_thread_`: joinable, and where it is -/
  thread : Option Server := none
  /-- what the calls of `start` have returned -/
  answers : List Bool := []
  /-- connections handed to threads of their own -/
  connections : Nat := 0
  /-- `std::terminate` -/
  terminated : Bool := false

/-- the owner goes on; the server sets up, tests the flag, comes back from `accept`, ends its sleep,
closes its socket -/
inductive Action where
  | owner
  | setup (success : Bool)
  | test
  | accept (connection : Bool)
  | wake
  | close

namespace State
variable (s : State)

/-- `start` up to its sleep, and `stop` up to its join -/
def call (s : State) : Call → State
  | .start =>
    if s.running then { s with answers := s.answers ++ [true] }
    else if s.thread.isSome then { s with terminated := true }
    else { s with thread := some .setup, owner := .starting }
  | .stop =>
    if s.thread.isSome then { s with running := false, owner := .joining }
    else { s with running := false }

def ownerStep : State :=
  match s.owner with
  | .idle =>
    match s.program with
    | [] => s
    | c :: program => { s with program }.call c
  | .starting => { s with owner := .idle, answers := s.answers ++ [s.running] }
  | .joining => if s.thread = some .returned then { s with thread := none, owner := .idle } else s

def serverStep (a : Action) : State :=
  match s.thread, a with
  | some .setup, .setup true => { s with running := true, thread := some .head }
  | some .setup, .setup false => { s with thread := some .returned }
  | some .head, .test => { s with thread := some (if s.running then .accepting else .closing) }
  | some .accepting, .accept true =>
    { s with thread := some .sleeping, connections := s.connections + 1 }
  | some .accepting, .accept false =>
    { s with thread := some (if s.running then .sleeping else .closing) }
  | some .sleeping, .wake => { s with thread := some .head }
  | some .closing, .close => { s with running := false, thread := some .returned }
  | _, _ => s

/-- nothing happens in a process that has ended -/
def step (a : Action) : State :=
  if s.terminated then s
  else
    match a with
    | .owner => s.ownerStep
    | a => s.serverStep a

end State

/-! ## the flag -/

/-- the flag is set in the loop only, and a join waits for a thread -/
structure Good (s : State) : Prop where
  flag : s.running = true → ∃ pc, s.thread = some pc ∧ pc.listens = true
  joins : s.owner = .joining → s.thread.isSome = true

section
variable {s : State}

theorem Good.call (h : Good s) (c : Call) (ho : s.owner = .idle) : Good (s.call c) := by
  cases c with
  | start =>
    unfold State.call
    dsimp only
    split
    · exact ⟨h.flag, h.joins⟩
    next hrun =>
      split
      · exact ⟨h.flag, h.joins⟩
      · exact ⟨fun hr => absurd hr hrun, fun hj => nomatch hj⟩
  | stop =>
    unfold State.call
    dsimp only
    split
    next hs => exact ⟨(fun hr => nomatch hr), fun _ => hs⟩
    · refine ⟨(fun hr => nomatch hr), fun hj => ?_⟩
      rw [show s.owner = .joining from hj] at ho
      cases ho

theorem Good.ownerStep (h : Good s) : Good s.ownerStep := by
  unfold State.ownerStep
  cases ho : s.owner with
  | idle =>
    dsimp only
    cases s.program with
    | nil => exact h
    | cons c program =>
      have hrest : Good { s with program, owner := .idle } := ⟨h.flag, fun hj => nomatch hj⟩
      exact hrest.call c rfl
  | starting => exact ⟨h.flag, fun hj => nomatch hj⟩
  | joining =>
    dsimp only
    split
    next ht =>
      refine ⟨fun hr => ?_, fun hj => nomatch hj⟩
      obtain ⟨pc, hpc, hl⟩ := h.flag hr
      rw [ht] at hpc
      cases hpc
      cases hl
    · exact h

theorem Good.serverStep (h : Good s) (a : Action) : Good (s.serverStep a) := by
  have hno : ∀ pc, s.thread = some pc → pc.listens = false → s.running = false := by
    intro pc hpc hl
    by_contra hr
    obtain ⟨pc', hpc', hl'⟩ := h.flag (by simpa using hr)
    rw [hpc, Option.some_inj] at hpc'
    rw [hpc', hl'] at hl
    cases hl
  unfold State.serverStep
  split
  · exact ⟨fun _ => ⟨_, rfl, rfl⟩, fun _ => rfl⟩
  next ht =>
    refine ⟨fun hr => ?_, fun _ => rfl⟩
    rw [hno _ ht rfl] at hr
    cases hr
  · refine ⟨fun hr => ⟨_, rfl, ?_⟩, fun _ => rfl⟩
    rw [if_pos hr]
    rfl
  · exact ⟨fun _ => ⟨_, rfl, rfl⟩, fun _ => rfl⟩
  · refine ⟨fun hr => ⟨_, rfl, ?_⟩, fun _ => rfl⟩
    rw [if_pos hr]
    rfl
  · exact ⟨fun _ => ⟨_, rfl, rfl⟩, fun _ => rfl⟩
  · exact ⟨(fun hr => nomatch hr), fun _ => rfl⟩
  · exact h

theorem Good.step (h : Good s) (a : Action) : Good (s.step a) := by
  unfold State.step
  split
  · exact h
  · cases a with
    | owner => exact h.ownerStep
    | _ => exact h.serverStep _

theorem good_run (program : List Call) (actions : List Action) :
    Good (run State.step { program } actions) :=
  run_inv Good (fun _ a h => h.step a) actions ⟨(fun hr => nomatch hr), fun hj => nomatch hj⟩

/-- **The flag says that the server listens**, whatever the owner calls and however the two threads
are scheduled. -/
theorem listening (program : List Call) (actions : List Action) :
    EveryState State.step (fun s => s.running = true → ∃ pc, s.thread = some pc ∧ pc.listens = true)
      { program } actions := by
  have h := everyState_of_inv Good (fun _ a h => Good.step h a) actions
    (s := { program }) ⟨(fun hr => nomatch hr), fun hj => nomatch hj⟩
  exact h.imp fun _ hs => hs.flag

/-! ## a stop that waits -/

/-- the owner waits, the flag is set, and the server is in its loop -/
structure Stuck (s : State) : Prop where
  joining : s.owner = .joining
  running : s.running = true
  listens : ∃ pc, s.thread = some pc ∧ pc.listens = true

theorem Stuck.step (h : Stuck s) (a : Action) : Stuck (s.step a) := by
  obtain ⟨pc, hpc, hl⟩ := h.listens
  unfold State.step
  split
  · exact h
  · cases a with
    | owner =>
      show Stuck s.ownerStep
      unfold State.ownerStep
      rw [h.joining]
      dsimp only
      rw [if_neg ?_]
      · exact h
      · rw [hpc, Option.some_inj]
        rintro rfl
        cases hl
    | _ =>
      have hserver : ∀ a, Stuck (s.serverStep a) := by
        intro a
        unfold State.serverStep
        rw [hpc]
        cases pc with
        | head =>
          cases a with
          | test => exact ⟨h.joining, h.running, _, rfl, by rw [if_pos h.running]; rfl⟩
          | _ => exact h
        | accepting =>
          cases a with
          | accept connection =>
            cases connection with
            | true => exact ⟨h.joining, h.running, _, rfl, rfl⟩
            | false => exact ⟨h.joining, h.running, _, rfl, by rw [if_pos h.running]; rfl⟩
          | _ => exact h
        | sleeping =>
          cases a with
          | wake => exact ⟨h.joining, h.running, _, rfl, rfl⟩
          | _ => exact h
        | setup => cases hl
        | closing => cases hl
        | returned => cases hl
      exact hserver _

/-- what lets a join return, from each place of the server: an error while it sets up, one more
connection while it waits for one -/
def escape : Server → List Action
  | .setup => [.setup false, .owner]
  | .head => [.test, .close, .owner]
  | .accepting => [.accept true, .wake, .test, .close, .owner]
  | .sleeping => [.wake, .test, .close, .owner]
  | .closing => [.close, .owner]
  | .returned => [.owner]

theorem escape_returns (ht : s.terminated = false) (ho : s.owner = .joining)
    (hr : s.running = false) {pc : Server} (hpc : s.thread = some pc) :
    (run State.step s (escape pc)).owner = .idle := by
  cases pc <;>
    simp [escape, run, State.step, State.serverStep, State.ownerStep, ht, ho, hr, hpc]

/-- **When a stop can still return**: in any state that the owner and the server reach, a stop that
waits for the server will wait for ever exactly if the flag is set. -/
theorem stop_returns_iff (program : List Call) (actions : List Action)
    (ht : (run State.step { program } actions).terminated = false)
    (ho : (run State.step { program } actions).owner = .joining) :
    (∃ more, (run State.step { program } (actions ++ more)).owner ≠ .joining) ↔
      (run State.step { program } actions).running = false := by
  have hgood := good_run program actions
  simp only [run_append]
  generalize run State.step { program } actions = s at *
  constructor
  · rintro ⟨more, hmore⟩
    by_contra hr
    have hrun : s.running = true := by simpa using hr
    have hstuck := run_inv Stuck (fun _ a h => h.step a) more ⟨ho, hrun, hgood.flag hrun⟩
    exact hmore hstuck.joining
  · intro hr
    obtain ⟨pc, hpc⟩ := Option.isSome_iff_exists.mp (hgood.joins ho)
    refine ⟨escape pc, ?_⟩
    rw [escape_returns ht ho hr hpc]
    exact fun h => nomatch h

end

/-- the owner stops the server that has not set up yet; it sets up then -/
theorem stop_during_setup :
    let l : List Action := [.owner, .owner, .owner, .setup true]
    (∃ more, (run State.step { program := [.start, .stop] } (l ++ more)).owner ≠ .joining) ↔
      (run State.step { program := [.start, .stop] } l).running = false :=
  stop_returns_iff [.start, .stop] [.owner, .owner, .owner, .setup true] rfl rfl

/-! ## a start that ends the process -/

/-- no start right after a start -/
def Alternating (program : List Call) : Prop :=
  program.IsChain fun c d => ¬ (c = .start ∧ d = .start)

/-- the owner has not started a server that is still there, and will not start another one over it -/
structure Safe (s : State) : Prop where
  alive : s.terminated = false
  program : Alternating s.program
  unjoined : s.owner ≠ .joining → s.thread.isSome = true → s.program.head? ≠ some .start

section
variable {s : State}

theorem Alternating.tail {c : Call} {program : List Call} (h : Alternating (c :: program)) :
    Alternating program ∧ (c = .start → program.head? ≠ some .start) := by
  obtain ⟨hhead, htail⟩ := List.isChain_cons.mp h
  refine ⟨htail, fun hc hstart => ?_⟩
  exact hhead .start hstart ⟨hc, rfl⟩

theorem Safe.call {c : Call} {program : List Call} (h : Safe { s with program := c :: program })
    (hgood : Good s) (ho : s.owner = .idle) : Safe ({ s with program }.call c) := by
  obtain ⟨htail, hnext⟩ := h.program.tail
  cases c with
  | start =>
    -- there is no thread, so the flag is not set either
    have hidle : s.owner ≠ .joining := by
      rw [ho]
      exact fun h => nomatch h
    have hnone : s.thread.isSome = false :=
      Bool.eq_false_iff.mpr fun hsome => h.unjoined hidle hsome rfl
    have hflag : s.running = false := by
      refine Bool.eq_false_iff.mpr fun hr => ?_
      obtain ⟨pc, hpc, -⟩ := hgood.flag hr
      rw [hpc] at hnone
      cases hnone
    unfold State.call
    dsimp only
    rw [if_neg (by rw [hflag]; exact Bool.false_ne_true),
      if_neg (by rw [hnone]; exact Bool.false_ne_true)]
    exact ⟨h.alive, htail, fun _ _ => hnext rfl⟩
  | stop =>
    unfold State.call
    dsimp only
    split
    · exact ⟨h.alive, htail, fun hj => absurd rfl hj⟩
    next hnone => exact ⟨h.alive, htail, fun _ hsome => absurd hsome hnone⟩

theorem Safe.ownerStep (h : Safe s) (hgood : Good s) : Safe s.ownerStep := by
  unfold State.ownerStep
  cases ho : s.owner with
  | idle =>
    cases hp : s.program with
    | nil => exact h
    | cons c program =>
      have hs : Safe { s with program := c :: program } := by
        rw [← hp]
        exact h
      have hcall := hs.call hgood ho
      rwa [ho] at hcall
  | starting =>
    have hstarting : s.owner ≠ .joining := by
      rw [ho]
      exact fun h => nomatch h
    exact ⟨h.alive, h.program, fun _ hsome => h.unjoined hstarting hsome⟩
  | joining =>
    dsimp only
    split
    · exact ⟨h.alive, h.program, fun _ hsome => nomatch hsome⟩
    · exact h

/-- the server does not touch the program, and keeps its thread -/
theorem serverStep_frame (s : State) (a : Action) :
    (s.serverStep a).program = s.program ∧ (s.serverStep a).owner = s.owner ∧
      (s.serverStep a).terminated = s.terminated ∧
      (s.serverStep a).thread.isSome = s.thread.isSome := by
  unfold State.serverStep
  split
  next ht => exact ⟨rfl, rfl, rfl, by rw [ht]; rfl⟩
  next ht => exact ⟨rfl, rfl, rfl, by rw [ht]; rfl⟩
  next ht => exact ⟨rfl, rfl, rfl, by rw [ht]; rfl⟩
  next ht => exact ⟨rfl, rfl, rfl, by rw [ht]; rfl⟩
  next ht => exact ⟨rfl, rfl, rfl, by rw [ht]; rfl⟩
  next ht => exact ⟨rfl, rfl, rfl, by rw [ht]; rfl⟩
  next ht => exact ⟨rfl, rfl, rfl, by rw [ht]; rfl⟩
  · exact ⟨rfl, rfl, rfl, rfl⟩

theorem Safe.step (h : Safe s) (hgood : Good s) (a : Action) : Safe (s.step a) := by
  unfold State.step
  split
  · exact h
  · cases a with
    | owner => exact h.ownerStep hgood
    | _ =>
      have hserver : ∀ a, Safe (s.serverStep a) := by
        intro a
        obtain ⟨hprogram, howner, hterminated, hthread⟩ := serverStep_frame s a
        refine ⟨hterminated.trans h.alive, hprogram ▸ h.program, fun ho hsome => ?_⟩
        rw [hprogram]
        exact h.unjoined (howner ▸ ho) (hthread ▸ hsome)
      exact hserver _

/-- if every setup fails, the first start after a start ends the process -/
theorem terminates_of_failures (ht : s.terminated = false) (ho : s.owner = .idle)
    (hr : s.running = false) (hth : s.thread = none ∨ s.thread = some .returned)
    (hbad : (s.thread.isSome = true ∧ s.program.head? = some .start) ∨ ¬ Alternating s.program) :
    ∃ actions, (run State.step s actions).terminated = true := by
  generalize hp : s.program = p at hbad
  induction p generalizing s with
  | nil =>
    rcases hbad with ⟨-, h⟩ | h
    · cases h
    · exact absurd List.isChain_nil h
  | cons c p ih =>
    cases c with
    | start =>
      rcases hth with hth | hth
      · -- a start whose setup fails: its thread is left behind
        have hrun : run State.step s [.owner, .setup false, .owner]
            = { s with program := p, thread := some .returned, answers := s.answers ++ [false] } := by
          simp [run, State.step, State.ownerStep, State.call, State.serverStep, ht, ho, hr, hth, hp]
        have hnext : (true = true ∧ p.head? = some .start) ∨ ¬ Alternating p := by
          rcases hbad with ⟨h, -⟩ | h
          · rw [hth] at h
            cases h
          · by_cases hhead : p.head? = some .start
            · exact .inl ⟨rfl, hhead⟩
            · right
              intro halt
              refine h (List.isChain_cons.mpr ⟨fun d hd hstart => ?_, halt⟩)
              rw [hstart.2] at hd
              exact hhead hd
        obtain ⟨more, hmore⟩ := ih (s := run State.step s [.owner, .setup false, .owner])
          (by rw [hrun]; exact ht) (by rw [hrun]; exact ho) (by rw [hrun]; exact hr)
          (.inr (by rw [hrun])) (by rw [hrun]) (by rw [hrun]; exact hnext)
        exact ⟨[.owner, .setup false, .owner] ++ more, by rw [run_append]; exact hmore⟩
      · refine ⟨[.owner], ?_⟩
        simp [run, State.step, State.ownerStep, State.call, ht, ho, hr, hth, hp]
    | stop =>
      -- a stop joins the thread, if there is one
      obtain ⟨actions, hrun⟩ : ∃ actions, run State.step s actions
          = { s with program := p, thread := none } := by
        rcases hth with hth | hth
        · refine ⟨[.owner], ?_⟩
          simp [run, State.step, State.ownerStep, State.call, ht, ho, hr, hth, hp]
        · refine ⟨[.owner, .owner], ?_⟩
          simp [run, State.step, State.ownerStep, State.call, ht, ho, hr, hth, hp]
      have hnext : ¬ Alternating p := by
        rcases hbad with ⟨-, h⟩ | h
        · cases h
        · intro halt
          refine h (List.isChain_cons.mpr ⟨fun d _ hstart => ?_, halt⟩)
          cases hstart.1
      obtain ⟨more, hmore⟩ := ih (s := { s with program := p, thread := none }) ht ho hr (.inl rfl)
        rfl (.inr hnext)
      exact ⟨actions ++ more, by rw [run_append, hrun]; exact hmore⟩

end

/-- **Which programs of calls are safe**: those in which every start is followed by a stop before the
next start.  Any other one ends the process in some schedule. -/
theorem never_terminated_iff (program : List Call) :
    (∀ actions, (run State.step { program } actions).terminated = false) ↔ Alternating program := by
  constructor
  · intro h
    by_contra hbad
    obtain ⟨actions, hact⟩ := terminates_of_failures (s := { program }) rfl rfl rfl (.inl rfl)
      (.inr hbad)
    rw [h actions] at hact
    cases hact
  · intro h actions
    have hstart : Good { program } ∧ Safe { program } :=
      ⟨good_run program [], rfl, h, fun _ hsome => nomatch hsome⟩
    have hrun := run_inv (fun s : State => Good s ∧ Safe s)
      (fun _ a h => ⟨h.1.step a, h.2.step h.1 a⟩) actions hstart
    exact hrun.2.alive

end Lifecycle
end Rpc
end ChainForge
