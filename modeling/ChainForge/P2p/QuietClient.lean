import ChainForge.P2p.TcpClient

/-!
# A TCP client with nothing going on

Two questions about the client: is `disconnect` final (`Final`), and does the automatic
reconnection leave a live connection alone (`Safe`)?  Both hold of a client that has nothing else
going on (`Quiet`): no wait, no attempt that can still succeed, no other connection that is up or
has an end of file to deliver.

* `Quiet.keeps`    **one event keeps a quiet client quiet**, or ends its connection;
* `Quiet.final`    a quiet client that has no connection gets none;
* `Quiet.safe`     a connection of an otherwise quiet client is safe.
-/

set_option linter.unusedSectionVars false

namespace ChainForge
namespace P2p
open Text Machine ReceiveLoop TcpClient

/-- no receive of the connection is in flight, and none is ready that would end it -/
def Calm (l : TcpConnection) : Prop := l.inFlight = 0 ∧ ∀ r ∈ l.ready, lost r = false

/-- a failed attempt of the user's, of which only the handler is left -/
def Attempt.over (a : Attempt) : Bool :=
  !a.reconnect && (a.stage == .resolved false || a.stage == .finished false)

/-- nothing is going on but on the connection `p` -/
structure Quiet (p : Option Nat) (s : TcpClient) : Prop where
  waiting : s.waiting = 0
  expired : s.expired = 0
  attempts : ∀ c a, s.attempts c = some a → a.over = true
  others : ∀ c, p ≠ some c → (s.conns c).up = false ∧ Calm (s.conns c)

/-- the connection `p`, if there is one, is up -/
def Guard (p : Option Nat) (s : TcpClient) : Prop := ∀ c, p = some c → (s.conns c).up = true

/-- no run without a call of `connect` or `async_connect` connects anything -/
def Final (s : TcpClient) : Prop :=
  ∀ events : List Event, (∀ e ∈ events, e.isConnect = false) →
    EveryStep TcpClient.step (fun s e => ¬ e.connects s) s events

/-- as long as the connection `c` is up and `disconnect` is not called, `do_reconnect` does not run,
and `c` remains the client's connection -/
def Safe (c : Nat) (s : TcpClient) : Prop :=
  ∀ events : List Event, (∀ e ∈ events, e.isDisconnect = false) →
    EveryStep TcpClient.step (fun s _ => (s.conns c).up = true) s events →
    EveryStep TcpClient.step (fun s e => e.reconnects s = false ∧ (s.step e).connection = some c) s
      events

/-! ## a quiet client -/

section
variable {p : Option Nat} {s t : TcpClient}

theorem arm_calm {l : TcpConnection} (hup : l.up = false) (hl : Calm l) :
    l.arm.up = false ∧ Calm l.arm := by
  unfold Loop.arm
  rw [hup, Bool.not_false, Bool.or_true, if_pos rfl]
  exact ⟨hup, hl⟩

theorem deliver_calm {l : TcpConnection} (hup : l.up = false) (hl : Calm l) (i : Nat) :
    (l.deliver tcp i).up = false ∧ Calm (l.deliver tcp i) := by
  unfold Loop.deliver
  cases hr : l.ready[i]? with
  | none => exact ⟨hup, hl⟩
  | some r =>
    have hsub : ∀ r ∈ l.ready.eraseIdx i, lost r = false := fun r hr =>
      hl.2 r (List.mem_of_mem_eraseIdx hr)
    cases r with
    | error e =>
      have he : tcp.loses e = false := hl.2 _ (List.mem_of_getElem? hr)
      dsimp only
      rw [handle_kept he]
      exact ⟨hup, hl.1, hsub⟩
    | ok d =>
      dsimp only [Loop.handle]
      split
      · exact arm_calm hup ⟨hl.1, hsub⟩
      · exact arm_calm hup ⟨hl.1, hsub⟩

theorem deliver_kept {l : TcpConnection} {r : Except AsioError (List UInt8)}
    {rs : List (Except AsioError (List UInt8))} (hready : l.ready = r :: rs) (hl : lost r = false) :
    (l.deliver tcp 0).up = l.up ∧ (l.deliver tcp 0).ready = rs := by
  have hd : l.deliver tcp 0 = Loop.handle tcp { l with ready := rs } r := by
    unfold Loop.deliver
    rw [hready]
    rfl
  rw [hd]
  cases r with
  | error e =>
    rw [handle_kept hl]
    exact ⟨rfl, rfl⟩
  | ok d =>
    dsimp only [Loop.handle]
    rw [arm_up, arm_ready]
    split <;> exact ⟨rfl, rfl⟩

/-- a change of the connection `p` is nobody else's concern -/
theorem Quiet.setConn_own {c : Nat} (hq : Quiet (some c) s) (x : TcpConnection) :
    Quiet (some c) (s.setConn c x) := by
  refine ⟨hq.waiting, hq.expired, hq.attempts, fun d hd => ?_⟩
  rw [setConn_conns_ne (fun e => hd (by rw [e]))]
  exact hq.others d hd

theorem Quiet.setConn_calm {c : Nat} (hq : Quiet p s) {x : TcpConnection} (hup : x.up = false)
    (hx : Calm x) : Quiet p (s.setConn c x) := by
  refine ⟨hq.waiting, hq.expired, hq.attempts, fun d hd => ?_⟩
  by_cases hdc : d = c
  · rw [hdc, setConn_conns_same]
    exact ⟨hup, hx⟩
  · rw [setConn_conns_ne hdc]
    exact hq.others d hd

theorem over_stage {a : Attempt} (h : a.over = true) :
    a.reconnect = false ∧ (a.stage = .resolved false ∨ a.stage = .finished false) := by
  unfold Attempt.over at h
  simpa only [Bool.and_eq_true, Bool.not_eq_true', Bool.or_eq_true, beq_iff_eq] using h

/-- the client `t` after an event that the user does not notice -/
structure Kept (p : Option Nat) (s t : TcpClient) : Prop where
  quiet : Quiet p t
  connection : t.connection = p
  notified : t.notified = s.notified

/-- the event ends the connection `p` -/
def EndsOwn (p : Option Nat) (s : TcpClient) (e : Event) : Prop :=
  ∃ c i r, p = some c ∧ e = .deliverReceive c i ∧ (s.conns c).ready[i]? = some r ∧ lost r = true

theorem Quiet.kept_of_eq (hq : Quiet p s) (hp : s.connection = p) (h : t = s) : Kept p s t := by
  rw [h]
  exact ⟨hq, hp, rfl⟩

/-! ### calls -/

theorem Guard.isConnected (hg : Guard p s) (hp : s.connection = p) (hne : p ≠ none) :
    s.isConnected = true := by
  obtain ⟨c, hpc⟩ := Option.ne_none_iff_exists'.mp hne
  unfold TcpClient.isConnected
  rw [hp, hpc]
  exact hg c hpc

theorem Quiet.disconnect (hq : Quiet none s) (hp : s.connection = none) :
    Kept none s s.disconnect := by
  have hstep : s.disconnect = { s with autoReconnect := false }.cancelTimer := by
    simp only [TcpClient.disconnect, cancelTimer, hp]
  rw [hstep]
  exact ⟨⟨rfl, hq.expired, hq.attempts, hq.others⟩, hp, rfl⟩

theorem Quiet.startReceive (hq : Quiet p s) (hp : s.connection = p) (hg : Guard p s)
    (callback : Bool) : Kept p s (s.startReceive callback) := by
  unfold TcpClient.startReceive
  rw [hp]
  cases p with
  | none => exact ⟨hq, hp, rfl⟩
  | some c =>
    dsimp only
    rw [if_pos (hg c rfl)]
    exact ⟨hq.setConn_own _, hp, rfl⟩

theorem Quiet.stopReceive (hq : Quiet p s) (hp : s.connection = p) : Kept p s s.stopReceive := by
  unfold TcpClient.stopReceive
  rw [hp]
  cases p with
  | none => exact ⟨hq, hp, rfl⟩
  | some c => exact ⟨hq.setConn_own _, hp, rfl⟩

/-! ### completions -/

theorem Quiet.finishAttempt (hq : Quiet p s) (c : Nat) (ok : Bool) : s.finishAttempt c ok = s := by
  unfold TcpClient.finishAttempt
  cases ha : s.attempts c with
  | none => rfl
  | some a =>
    rcases (over_stage (hq.attempts c a ha)).2 with hs | hs
    · simp only [hs]
    · simp only [hs]

theorem Quiet.clearAttempt (hq : Quiet p s) (c : Nat) : Quiet p (s.setAttempt c none) := by
  refine ⟨hq.waiting, hq.expired, fun d b hb => ?_, hq.others⟩
  by_cases hdc : d = c
  · rw [hdc, setAttempt_attempts_same] at hb
    cases hb
  · rw [setAttempt_attempts_ne hdc] at hb
    exact hq.attempts d b hb

theorem Quiet.deliverAttempt (hq : Quiet p s) (hp : s.connection = p) (c : Nat) :
    Kept p s (s.deliverAttempt c) := by
  unfold TcpClient.deliverAttempt
  cases ha : s.attempts c with
  | none => exact ⟨hq, hp, rfl⟩
  | some a =>
    obtain ⟨hr, hstage⟩ := over_stage (hq.attempts c a ha)
    have hfail : (s.setAttempt c none).failAttempt a = s.setAttempt c none := by
      unfold failAttempt
      rw [hr]
      rfl
    rcases hstage with hs | hs
    · simp only [hs, hfail]
      exact ⟨hq.clearAttempt c, hp, rfl⟩
    · simp only [hs, hfail]
      exact ⟨hq.clearAttempt c, hp, rfl⟩

theorem Quiet.finishReceive (hq : Quiet p s) (c : Nat) (r : Except AsioError (List UInt8)) :
    Quiet p (s.finishReceive c r) := by
  unfold TcpClient.finishReceive
  by_cases hc : p = some c
  · subst hc
    exact hq.setConn_own _
  · have h0 : (s.conns c).finish r = s.conns c := by
      unfold Loop.finish
      rw [if_pos (hq.others c hc).2.1]
    rw [h0, setConn_self]
    exact hq

theorem Quiet.deliverReceive (hq : Quiet p s) (hp : s.connection = p) (c i : Nat) :
    Kept p s (s.deliverReceive c i) ∨ EndsOwn p s (.deliverReceive c i) := by
  cases hr : (s.conns c).ready[i]? with
  | none =>
    refine .inl (hq.kept_of_eq hp ?_)
    unfold TcpClient.deliverReceive
    rw [hr]
  | some r =>
    by_cases hpc : p = some c
    · cases hl : lost r with
      | true => exact .inr ⟨c, i, r, hpc, rfl, hr, hl⟩
      | false =>
        rw [deliverReceive_kept hr hl]
        subst hpc
        exact .inl ⟨hq.setConn_own _, hp, rfl⟩
    · obtain ⟨hup, hcalm⟩ := hq.others c hpc
      obtain ⟨hup', hcalm'⟩ := deliver_calm hup hcalm i
      rw [deliverReceive_kept hr (hcalm.2 r (List.mem_of_getElem? hr))]
      exact .inl ⟨hq.setConn_calm hup' hcalm', hp, rfl⟩

theorem Quiet.expire (hq : Quiet p s) : s.expire = s := by
  have hw := hq.waiting
  cases s
  cases hw
  rfl

theorem Quiet.deliverExpired (hq : Quiet p s) : s.deliverExpired = s := by
  unfold TcpClient.deliverExpired
  rw [if_pos hq.expired]

theorem Quiet.destroy (hq : Quiet p s) (hp : s.connection = p) (c : Nat) : s.destroy c = s := by
  unfold TcpClient.destroy
  by_cases hpc : p = some c
  · rw [if_pos (.inl (hp.trans hpc))]
  · split
    · rfl
    · unfold TcpClient.closeConnection
      rw [(hq.others c hpc).1, if_neg Bool.false_ne_true]

/-! ### runs -/

/-- **One event on a quiet client**, if it is not a call that is excluded. -/
theorem Quiet.keeps (hq : Quiet p s) (hp : s.connection = p) (hg : Guard p s) (e : Event)
    (hc : p = none → e.isConnect = false) (hd : p ≠ none → e.isDisconnect = false) :
    Kept p s (s.step e) ∨ EndsOwn p s e := by
  cases e with
  | connect host port os =>
    -- the client is connected, and refuses
    have hne : p ≠ none := fun h => Bool.noConfusion (hc h)
    refine .inl (hq.kept_of_eq hp ?_)
    show (s.connect host port os).2 = s
    unfold TcpClient.connect
    rw [if_pos (hg.isConnected hp hne)]
  | asyncConnect host port =>
    have hne : p ≠ none := fun h => Bool.noConfusion (hc h)
    exact .inl (hq.kept_of_eq hp (if_pos (hg.isConnected hp hne)))
  | disconnect =>
    have hnone : p = none := by
      by_contra hne
      cases hd hne
    subst hnone
    exact .inl (hq.disconnect hp)
  | enableAutoReconnect =>
    exact .inl ⟨⟨hq.waiting, hq.expired, hq.attempts, hq.others⟩, hp, rfl⟩
  | disableAutoReconnect => exact .inl ⟨⟨rfl, hq.expired, hq.attempts, hq.others⟩, hp, rfl⟩
  | setConnectionCallback set =>
    exact .inl ⟨⟨hq.waiting, hq.expired, hq.attempts, hq.others⟩, hp, rfl⟩
  | startReceive callback => exact .inl (hq.startReceive hp hg callback)
  | stopReceive => exact .inl (hq.stopReceive hp)
  | finishAttempt c ok => exact .inl (hq.kept_of_eq hp (hq.finishAttempt c ok))
  | deliverAttempt c => exact .inl (hq.deliverAttempt hp c)
  | finishReceive c r => exact .inl ⟨hq.finishReceive c r, hp, rfl⟩
  | deliverReceive c i => exact hq.deliverReceive hp c i
  | expire => exact .inl (hq.kept_of_eq hp hq.expire)
  | deliverExpired => exact .inl (hq.kept_of_eq hp hq.deliverExpired)
  | deliverCancelled => exact .inl ⟨⟨hq.waiting, hq.expired, hq.attempts, hq.others⟩, hp, rfl⟩
  | destroy c => exact .inl (hq.kept_of_eq hp (hq.destroy hp c))

theorem Quiet.not_reconnects (hq : Quiet p s) (e : Event) : e.reconnects s = false := by
  cases e with
  | deliverExpired =>
    show (s.expired != 0 && s.autoReconnect) = false
    rw [hq.expired]
    rfl
  | _ => rfl

/-- the connection that ends is down afterwards, and remains the client's -/
theorem EndsOwn.step {e : Event} (h : EndsOwn p s e) :
    ∃ c, p = some c ∧ ((s.step e).conns c).up = false ∧ (s.step e).connection = s.connection := by
  obtain ⟨c, i, r, hp, rfl, hr, hl⟩ := h
  refine ⟨c, hp, ?_⟩
  have hstep : s.step (.deliverReceive c i)
      = (s.setConn c ((s.conns c).deliver tcp i)).onConnection false := deliverReceive_lost hr hl
  have hdown : ((s.conns c).deliver tcp i).up = false := by
    unfold Loop.deliver
    rw [hr]
    cases r with
    | ok d => cases hl
    | error x =>
      dsimp only
      rw [handle_lost hl]
  rw [hstep, onConnection_conns, onConnection_connection, setConn_conns_same]
  exact ⟨hdown, rfl⟩

/-- a quiet client that has no connection gets none -/
theorem Quiet.final (hq : Quiet none s) (hp : s.connection = none) : Final s := by
  intro events
  induction events generalizing s with
  | nil => exact fun _ => trivial
  | cons e es ih =>
    intro hes
    have he : e.isConnect = false := hes e List.mem_cons_self
    rcases hq.keeps hp nofun e (fun _ => he) (fun h => absurd rfl h) with ⟨hq', hp', hn⟩ | hown
    · refine ⟨?_, ih hq' hp' fun d hd => hes d (List.mem_cons_of_mem e hd)⟩
      rintro (⟨c, -, hup⟩ | hcount)
      · rw [(hq'.others c nofun).1] at hup
        cases hup
      · exact hcount (by rw [hn])
    · obtain ⟨c, -, -, h, -⟩ := hown
      cases h

/-- a connection of an otherwise quiet client is safe -/
theorem Quiet.safe {c : Nat} (hq : Quiet (some c) s) (hp : s.connection = some c) : Safe c s := by
  intro events
  induction events generalizing s with
  | nil => exact fun _ _ => trivial
  | cons e es ih =>
    intro hes hup
    have he : e.isDisconnect = false := hes e List.mem_cons_self
    have hg : Guard (some c) s := by
      intro d hd
      cases hd
      exact hup.1
    rcases hq.keeps hp hg e nofun (fun _ => he) with ⟨hq', hp', -⟩ | hown
    · exact ⟨⟨hq.not_reconnects e, hp'⟩,
        ih hq' hp' (fun d hd => hes d (List.mem_cons_of_mem e hd)) hup.2⟩
    · -- the connection is down now, so that the run has to end here
      obtain ⟨d, hd, hdown, hconn⟩ := hown.step
      cases hd
      refine ⟨⟨hq.not_reconnects e, hconn.trans hp⟩, ?_⟩
      cases es with
      | nil => trivial
      | cons x xs =>
        have hx : ((s.step e).conns c).up = true := hup.2.1
        rw [hdown] at hx
        cases hx

end

end P2p
end ChainForge
