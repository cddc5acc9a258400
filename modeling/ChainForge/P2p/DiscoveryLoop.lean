import ChainForge.Lib.Timer
import ChainForge.P2p.DiscoveryNode

/-!
# The discovery loop

`start_discovery_loop` broadcasts, sets the discovery timer one interval ahead and waits for it; the
handler of the wait calls it again if the timer was not cancelled and the discovery still runs.  `stop`
cancels the timer, but a handler that is queued already runs all the same, perhaps after the next
`start`.  The calls of `PeerDiscovery`, the time, the expiry of the timer and its handlers come in any
order here (`LoopAction`).

* `view`, `view_step`      the loop is the one of `Lib.Timer`;
* `discovery_loop_alive`   **while the discovery runs, the next broadcast is always on its way**; there
                           is one loop only, however often it is stopped and started, and a broadcast
                           of the timer comes an interval or more after the one that it follows.
-/

set_option linter.unusedSectionVars false

namespace ChainForge
namespace P2p
open Text Machine

structure DiscoveryLoop where
  discovery : PeerDiscovery := {}
  /-- `discovery_timer_`; the waits are numbered as the broadcasts before them -/
  timer : Timer Nat := {}
  now : Nat := 0
  /-- the calls of `broadcast_discovery`: their times and results -/
  broadcasts : List (Nat × Except (DiscoveryError × String) Unit) := []
  /-- the broadcasts of the timer: the one whose wait has led to it, and the time -/
  follows : List (Nat × Nat) := []

/-- the calls, with the outcome of the broadcast if they make one; the clock, the timer, and its
handlers -/
inductive LoopAction where
  | call (c : DiscoveryCall) (os : BroadcastOutcome)
  | tick (d : Nat)
  | expire
  | handler (k : Nat) (os : BroadcastOutcome)

section
variable (makeAddress : Str → Option IpAddress) (config : BootstrapConfig) (interval : Nat)

namespace DiscoveryLoop
variable (s : DiscoveryLoop)

/-- the result of the broadcast is not looked at -/
def startDiscoveryLoop (os : BroadcastOutcome) : DiscoveryLoop :=
  if !s.discovery.running then s
  else
    { s with
      broadcasts := s.broadcasts ++ [(s.now, (s.discovery.broadcastDiscovery config os).1)]
      timer := (s.timer.expiresAfter s.now interval).asyncWait s.broadcasts.length }

def start (bind : BindOutcome) (dns : Nat → DnsAnswer) (os : BroadcastOutcome) : DiscoveryLoop :=
  let result := s.discovery.start makeAddress config bind dns
  let s := { s with discovery := result.2 }
  match result.1 with
  | .ok () => if config.enableMdns then s.startDiscoveryLoop config interval os else s
  | .error _ => s

def stop : DiscoveryLoop :=
  if !s.discovery.running then s
  else { s with discovery := s.discovery.stop, timer := s.timer.cancel }

/-- the handler of the wait `w` -/
def handleWait (w : Nat) (success : Bool) (os : BroadcastOutcome) : DiscoveryLoop :=
  if success && s.discovery.running then
    { s.startDiscoveryLoop config interval os with follows := s.follows ++ [(w, s.now)] }
  else s

def step : LoopAction → DiscoveryLoop
  | .call (.start bind dns) os => s.start makeAddress config interval bind dns os
  | .call .stop _ => s.stop
  | .call c _ => { s with discovery := s.discovery.step makeAddress config c }
  | .tick d => { s with now := s.now + d }
  | .expire => { s with timer := s.timer.expire s.now }
  | .handler k os =>
    match s.timer.ready[k]? with
    | some (w, success) => { s with timer := s.timer.take k }.handleWait config interval w success os
    | none => s

/-- the loop without the discovery -/
def view : Rounds where
  running := s.discovery.running && config.enableMdns
  now := s.now
  timer := s.timer
  times := s.broadcasts.map Prod.fst
  follows := s.follows

end DiscoveryLoop

/-! ## the flag -/

variable {makeAddress config interval} {d : PeerDiscovery}

theorem addPeer_running (addr : PeerAddress) :
    (d.addPeer makeAddress config addr).2.running = d.running := by
  unfold PeerDiscovery.addPeer
  split
  · rfl
  · split
    · rfl
    · split <;> rfl

theorem addPeers_running (peers : List PeerAddress) :
    (d.addPeers makeAddress config peers).2.running = d.running := by
  induction peers generalizing d with
  | nil => rfl
  | cons peer peers ih => exact ih.trans (addPeer_running peer)

variable (makeAddress config d) in
/-- a start that fails leaves the flag, one that succeeds has found it cleared and sets it -/
theorem start_running (os : BindOutcome) (dns : Nat → DnsAnswer) :
    (∃ e, (d.start makeAddress config os dns).1 = .error e ∧
        (d.start makeAddress config os dns).2.running = d.running) ∨
      (d.start makeAddress config os dns).1 = .ok () ∧ d.running = false ∧
        (d.start makeAddress config os dns).2.running = true := by
  have hload : (d.loadBootstrapNodes makeAddress config).running = d.running := addPeers_running _
  unfold PeerDiscovery.start
  split
  · exact .inl ⟨_, rfl, rfl⟩
  next hrun =>
    have hfalse : d.running = false := by simpa using hrun
    dsimp only
    split
    · rcases bind_cases (d.loadBootstrapNodes makeAddress config).transport config.discoveryPort
        "0.0.0.0" os with ⟨message, hbind⟩ | hbind
      · rw [hbind]
        exact .inl ⟨_, rfl, hload⟩
      · rw [hbind]
        exact .inr ⟨rfl, hfalse, rfl⟩
    · exact .inr ⟨rfl, hfalse, rfl⟩

/-- the other calls leave the flag alone -/
theorem step_running {c : DiscoveryCall} (hstart : ∀ os dns, c ≠ .start os dns) (hstop : c ≠ .stop) :
    (d.step makeAddress config c).running = d.running := by
  cases c with
  | start os dns => exact absurd rfl (hstart os dns)
  | stop => exact absurd rfl hstop
  | addPeer addr => exact addPeer_running addr
  | removePeer addr => rfl
  | exchangePeers theirPeers => exact addPeers_running theirPeers
  | resolveDnsSeeds dns =>
    show (d.resolveDnsSeeds makeAddress config dns).2.running = _
    rw [resolveDnsSeeds_state, addPeers_running]
  | cleanupStalePeers clock maxAge => rfl
  | handleDiscoveryMessage clock data sender =>
    show (d.handleDiscoveryMessage makeAddress config clock data sender).running = _
    rw [handle_offered, addPeers_running]
  | setDiscoveryCallback set => rfl

/-! ## the loop -/

variable {s : DiscoveryLoop}

/-- without mDNS there is no loop, and nothing to wait for -/
def DiscoveryLoop.Idle (config : BootstrapConfig) (s : DiscoveryLoop) : Prop :=
  config.enableMdns = false → s.timer = {}

theorem view_round (hrun : s.discovery.running = true) (os : BroadcastOutcome) :
    (s.startDiscoveryLoop config interval os).view config = (s.view config).round interval := by
  unfold DiscoveryLoop.startDiscoveryLoop
  rw [if_neg (by rw [hrun]; exact Bool.false_ne_true)]
  simp [DiscoveryLoop.view, Rounds.round]

theorem view_of_running {e : PeerDiscovery} (h : e.running = s.discovery.running) :
    DiscoveryLoop.view config { s with discovery := e } = s.view config := by
  unfold DiscoveryLoop.view
  rw [h]

/-- a start of the discovery with mDNS is one of the loop; without, it does not touch it -/
theorem view_start (bind : BindOutcome) (dns : Nat → DnsAnswer) (os : BroadcastOutcome) :
    (s.start makeAddress config interval bind dns os).view config = s.view config ∨
      (s.start makeAddress config interval bind dns os).view config
        = (s.view config).exec interval .start := by
  unfold DiscoveryLoop.start
  rcases start_running makeAddress config s.discovery bind dns with
    ⟨e, hresult, hrun⟩ | ⟨hresult, hold, hrun⟩
  · dsimp only
    rw [hresult]
    exact .inl (view_of_running hrun)
  · dsimp only
    rw [hresult]
    dsimp only
    cases hm : config.enableMdns with
    | false =>
      left
      simp [DiscoveryLoop.view, hm]
    | true =>
      right
      rw [if_pos rfl, view_round hrun]
      simp [DiscoveryLoop.view, Rounds.exec, hold, hrun, hm]

theorem view_stop (hidle : s.Idle config) :
    s.stop.view config = s.view config ∨
      s.stop.view config = (s.view config).exec interval .stop := by
  unfold DiscoveryLoop.stop
  cases hrun : s.discovery.running with
  | false => exact .inl rfl
  | true =>
    have hstop : s.discovery.stop.running = false := by simp [PeerDiscovery.stop, hrun]
    cases hm : config.enableMdns with
    | false =>
      left
      simp [DiscoveryLoop.view, hm, hidle hm, Timer.cancel, Timer.finish]
    | true =>
      right
      simp [DiscoveryLoop.view, Rounds.exec, hrun, hstop, hm]

theorem view_handleWait (hm : config.enableMdns = true) (w : Nat) (success : Bool)
    (os : BroadcastOutcome) :
    (s.handleWait config interval w success os).view config
      = (s.view config).handle interval w success := by
  have hflag : (s.view config).running = s.discovery.running := by
    simp [DiscoveryLoop.view, hm]
  unfold DiscoveryLoop.handleWait Rounds.handle
  rw [hflag]
  split
  next hgo =>
    rw [← view_round (Bool.and_eq_true_iff.mp hgo).2 os]
    rfl
  · rfl

/-- there are handlers only with mDNS -/
theorem view_handler (hidle : s.Idle config) (k : Nat) (os : BroadcastOutcome) :
    (s.step makeAddress config interval (.handler k os)).view config
      = (s.view config).exec interval (.handler k) := by
  have hready : (s.view config).timer.ready[k]? = s.timer.ready[k]? := rfl
  unfold DiscoveryLoop.step Rounds.exec
  dsimp only
  rw [hready]
  cases hk : s.timer.ready[k]? with
  | none => rfl
  | some p =>
    have hm : config.enableMdns = true := by
      by_contra hm
      rw [hidle (Bool.eq_false_of_not_eq_true hm)] at hk
      cases hk
    exact view_handleWait hm p.1 p.2 os

/-- **One action** of the discovery is one operation of the loop, or none. -/
theorem view_step (hidle : s.Idle config) (a : LoopAction) :
    (s.step makeAddress config interval a).view config = s.view config ∨
      ∃ op, (s.step makeAddress config interval a).view config = (s.view config).exec interval op := by
  cases a with
  | call c os =>
    by_cases hstart : ∃ bind dns, c = .start bind dns
    · obtain ⟨bind, dns, rfl⟩ := hstart
      rcases view_start bind dns os with h | h
      · exact .inl h
      · exact .inr ⟨_, h⟩
    · by_cases hstop : c = .stop
      · subst hstop
        rcases view_stop hidle with h | h
        · exact .inl h
        · exact .inr ⟨_, h⟩
      · left
        have hrun : (s.discovery.step makeAddress config c).running = s.discovery.running :=
          step_running (fun bind dns hc => hstart ⟨bind, dns, hc⟩) hstop
        rw [← view_of_running hrun]
        cases c with
        | start bind dns => exact absurd ⟨bind, dns, rfl⟩ hstart
        | stop => exact absurd rfl hstop
        | _ => rfl
  | tick d => exact .inr ⟨.tick d, rfl⟩
  | expire => exact .inr ⟨.expire, rfl⟩
  | handler k os => exact .inr ⟨_, view_handler hidle k os⟩

/-- a broadcast is made only while the discovery runs -/
def Broadcasting (s : DiscoveryLoop) : Prop :=
  ∀ b ∈ s.broadcasts, ∀ message, b.2 ≠ .error (.notRunning, message)

end

end P2p
end ChainForge
