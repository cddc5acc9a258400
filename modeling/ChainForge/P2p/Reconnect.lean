import ChainForge.P2p.QuietClient

/-!
# When the TCP client reconnects

A client that is not quiet can be carried on by completions alone to another run of `do_reconnect`,
since `enable_auto_reconnect` may be called at any time: a wait expires, an attempt succeeds or
fails, an end of file arrives, an abandoned connection is destroyed while it is up.  Hence a
disconnect is final, and a live connection is safe, exactly if the client is otherwise quiet.

* `Carries.danger`         **from a client that is not quiet, completions lead to `do_reconnect`**;
* `disconnect_final_iff`   when a disconnect is final;
* `reconnect_safe_iff`     when a live connection is safe.
-/

set_option linter.unusedSectionVars false

namespace ChainForge
namespace P2p
open Text Machine ReceiveLoop TcpClient

/-! ## an attempt that succeeds -/

section
variable {s : TcpClient} {d : Nat} {a : Attempt} (hat : s.attempts d = some a)
include hat

theorem step_resolving (hs : a.stage = .resolving) :
    s.step (.finishAttempt d true) = s.setAttempt d (some { a with stage := .resolved true }) := by
  show s.finishAttempt d true = _
  unfold TcpClient.finishAttempt
  simp only [hat, hs]

theorem step_resolved (hs : a.stage = .resolved true) :
    s.step (.deliverAttempt d) = s.setAttempt d (some { a with stage := .connecting }) := by
  show s.deliverAttempt d = _
  unfold TcpClient.deliverAttempt
  simp only [hat, hs]

theorem step_connecting (hs : a.stage = .connecting) :
    s.step (.finishAttempt d true) = s.setAttempt d (some { a with stage := .finished true }) := by
  show s.finishAttempt d true = _
  unfold TcpClient.finishAttempt
  simp only [hat, hs]

theorem step_finished (hs : a.stage = .finished true) :
    s.step (.deliverAttempt d)
      = ((s.setAttempt d none).setConn d (s.conns d).bringUp).onConnection true := by
  show s.deliverAttempt d = _
  unfold TcpClient.deliverAttempt
  simp only [hat, hs]

end

/-! ## a client that is not quiet -/

/-- the property `U` can be reached by completions: it holds before an event if it holds after it,
and it holds where `do_reconnect` can run and where the connection `p` has been dropped -/
structure Carries (p : Option Nat) (U : TcpClient → Prop) : Prop where
  back : ∀ s e, Guard p s → e.isConnect = false → e.isDisconnect = false → U (s.step e) → U s
  fire : ∀ s, Guard p s → s.autoReconnect = true → s.expired ≠ 0 → U s
  left : ∀ s, Guard p s → p ≠ none → s.connection ≠ p → U s

section
variable {p : Option Nat} {U : TcpClient → Prop} {s : TcpClient} {d : Nat}

theorem Guard.setConn (hg : Guard p s) (hd : p ≠ some d) (x : TcpConnection) :
    Guard p (s.setConn d x) := by
  intro c hc
  rw [setConn_conns_ne (fun e => hd (by rw [hc, e]))]
  exact hg c hc

theorem Guard.onConnection (hg : Guard p s) (connected : Bool) :
    Guard p (s.onConnection connected) := by
  intro c hc
  rw [onConnection_conns]
  exact hg c hc

variable (hU : Carries p U)
include hU

theorem Carries.of_waiting (hg : Guard p s) (ha : s.autoReconnect = true) (hw : s.waiting ≠ 0) :
    U s := by
  refine hU.back s .expire hg rfl rfl (hU.fire _ hg ha ?_)
  show s.expired + s.waiting ≠ 0
  omega

/-- a connection of the client ends -/
theorem Carries.of_loss (hg : Guard p s) (ha : s.autoReconnect = true) : U (s.onConnection false) := by
  refine hU.of_waiting (hg.onConnection false) ((onConnection_autoReconnect false).trans ha) ?_
  rw [onConnection_false_waiting ha]
  exact Nat.one_ne_zero

theorem Carries.of_ready (hg : Guard p s) (ha : s.autoReconnect = true) (hd : p ≠ some d)
    {r : Except AsioError (List UInt8)} (hr : r ∈ (s.conns d).ready) (hl : lost r = true) : U s := by
  obtain ⟨i, hi⟩ := List.getElem?_of_mem hr
  refine hU.back s (.deliverReceive d i) hg rfl rfl ?_
  have hstep : s.step (.deliverReceive d i)
      = (s.setConn d ((s.conns d).deliver tcp i)).onConnection false := deliverReceive_lost hi hl
  rw [hstep]
  exact hU.of_loss (hg.setConn hd _) ha

theorem Carries.of_inFlight (hg : Guard p s) (ha : s.autoReconnect = true) (hd : p ≠ some d)
    (hf : (s.conns d).inFlight ≠ 0) : U s := by
  refine hU.back s (.finishReceive d (.error .eof)) hg rfl rfl ?_
  refine hU.of_ready (r := .error .eof) (hg.setConn hd _) ha hd ?_ rfl
  show _ ∈ ((s.setConn d _).conns d).ready
  rw [setConn_conns_same]
  unfold Loop.finish
  rw [if_neg hf]
  exact List.mem_append_right _ List.mem_cons_self

theorem Carries.of_not_calm (hg : Guard p s) (ha : s.autoReconnect = true) (hd : p ≠ some d)
    (hc : ¬ Calm (s.conns d)) : U s := by
  by_contra hn
  refine hc ⟨?_, fun r hr => ?_⟩
  · by_contra hf
    exact hn (hU.of_inFlight hg ha hd hf)
  · by_contra hl
    exact hn (hU.of_ready hg ha hd hr (Bool.eq_true_of_not_eq_false hl))

/-- an abandoned connection without receives is closed by its destructor -/
theorem Carries.of_idle (hg : Guard p s) (ha : s.autoReconnect = true) (hd : p ≠ some d)
    (hp : s.connection = p) (hup : (s.conns d).up = true) (hat : s.attempts d = none)
    (hout : (s.conns d).outstanding = 0) : U s := by
  refine hU.back s (.destroy d) hg rfl rfl ?_
  have hstep : s.step (.destroy d) = (s.setConn d (s.conns d).close).onConnection false := by
    show s.destroy d = _
    unfold TcpClient.destroy
    rw [if_neg, closeConnection, if_pos hup]
    rintro (h | h | h)
    · exact hd (hp.symm.trans h)
    · exact h hat
    · exact h hout
  rw [hstep]
  exact hU.of_loss (hg.setConn hd _) ha

/-- an abandoned connection: the results of its receives are delivered one by one, and its
destructor closes it when there are no more -/
theorem Carries.of_up (hg : Guard p s) (ha : s.autoReconnect = true) (hd : p ≠ some d)
    (hp : s.connection = p) (hup : (s.conns d).up = true) (hat : s.attempts d = none) : U s := by
  obtain ⟨n, hn⟩ : ∃ n, (s.conns d).ready.length = n := ⟨_, rfl⟩
  induction n generalizing s with
  | zero =>
    by_cases hf : (s.conns d).inFlight = 0
    · exact hU.of_idle hg ha hd hp hup hat (by rw [Loop.outstanding, hf, hn])
    · exact hU.of_inFlight hg ha hd hf
  | succ n ih =>
    obtain ⟨r, rs, hready⟩ : ∃ r rs, (s.conns d).ready = r :: rs :=
      List.exists_cons_of_length_eq_add_one hn
    cases hl : lost r with
    | true => exact hU.of_ready hg ha hd (by rw [hready]; exact List.mem_cons_self) hl
    | false =>
      refine hU.back s (.deliverReceive d 0) hg rfl rfl ?_
      have hstep : s.step (.deliverReceive d 0) = s.setConn d ((s.conns d).deliver tcp 0) :=
        deliverReceive_kept (by rw [hready]; rfl) hl
      obtain ⟨hup', hready'⟩ := deliver_kept hready hl
      rw [hstep]
      refine ih (hg.setConn hd _) ha hp ?_ hat ?_
      · rw [setConn_conns_same, hup']
        exact hup
      · rw [setConn_conns_same, hready']
        rw [hready] at hn
        exact Nat.succ.inj hn

/-- an attempt succeeds -/
theorem Carries.of_finished (hg : Guard p s) (ha : s.autoReconnect = true) (hd : p ≠ some d)
    (hp : s.connection = p) {a : Attempt} (hat : s.attempts d = some a)
    (hs : a.stage = .finished true) : U s := by
  refine hU.back s (.deliverAttempt d) hg rfl rfl ?_
  have hg' : Guard p ((s.setAttempt d none).setConn d (s.conns d).bringUp) :=
    Guard.setConn (s := s.setAttempt d none) hg hd _
  rw [step_finished hat hs]
  refine hU.of_up (d := d) (hg'.onConnection true) ?_ hd ?_ ?_ ?_
  · rw [onConnection_autoReconnect]
    exact ha
  · rw [onConnection_connection]
    exact hp
  · rw [onConnection_conns, setConn_conns_same]
    rfl
  · rw [onConnection_attempts]
    exact setAttempt_attempts_same none

theorem Carries.of_connecting (hg : Guard p s) (ha : s.autoReconnect = true) (hd : p ≠ some d)
    (hp : s.connection = p) {a : Attempt} (hat : s.attempts d = some a)
    (hs : a.stage = .connecting) : U s := by
  refine hU.back s (.finishAttempt d true) hg rfl rfl ?_
  rw [step_connecting hat hs]
  exact hU.of_finished hg ha hd hp (setAttempt_attempts_same _) rfl

theorem Carries.of_resolved (hg : Guard p s) (ha : s.autoReconnect = true) (hd : p ≠ some d)
    (hp : s.connection = p) {a : Attempt} (hat : s.attempts d = some a)
    (hs : a.stage = .resolved true) : U s := by
  refine hU.back s (.deliverAttempt d) hg rfl rfl ?_
  rw [step_resolved hat hs]
  exact hU.of_connecting hg ha hd hp (setAttempt_attempts_same _) rfl

theorem Carries.of_resolving (hg : Guard p s) (ha : s.autoReconnect = true) (hd : p ≠ some d)
    (hp : s.connection = p) {a : Attempt} (hat : s.attempts d = some a)
    (hs : a.stage = .resolving) : U s := by
  refine hU.back s (.finishAttempt d true) hg rfl rfl ?_
  rw [step_resolving hat hs]
  exact hU.of_resolved hg ha hd hp (setAttempt_attempts_same _) rfl

/-- an attempt of `do_reconnect` fails -/
theorem Carries.of_failed (hg : Guard p s) (ha : s.autoReconnect = true) {a : Attempt}
    (hat : s.attempts d = some a) (hr : a.reconnect = true)
    (hs : a.stage = .resolved false ∨ a.stage = .finished false) : U s := by
  refine hU.back s (.deliverAttempt d) hg rfl rfl ?_
  have hstep : s.step (.deliverAttempt d) = (s.setAttempt d none).failAttempt a := by
    show s.deliverAttempt d = _
    unfold TcpClient.deliverAttempt
    rcases hs with hs | hs
    · simp only [hat, hs]
    · simp only [hat, hs]
  have hfail : (s.setAttempt d none).failAttempt a
      = { (s.setAttempt d none).cancelTimer with connection := none, waiting := 1 } := by
    simp [failAttempt, scheduleReconnect, setAttempt, cancelTimer, hr, ha]
  rw [hstep, hfail]
  exact hU.of_waiting hg ha Nat.one_ne_zero

theorem Carries.of_attempt (hg : Guard p s) (ha : s.autoReconnect = true) (hd : p ≠ some d)
    (hp : s.connection = p) {a : Attempt} (hat : s.attempts d = some a) (ho : a.over = false) :
    U s := by
  have of_error : (a.stage = .resolved false ∨ a.stage = .finished false) → U s := by
    intro hs
    refine hU.of_failed hg ha hat ?_ hs
    cases hr : a.reconnect with
    | true => rfl
    | false =>
      unfold Attempt.over at ho
      rcases hs with hs | hs
      · rw [hr, hs] at ho
        cases ho
      · rw [hr, hs] at ho
        cases ho
  cases hs : a.stage with
  | resolving => exact hU.of_resolving hg ha hd hp hat hs
  | resolved ok =>
    cases ok with
    | true => exact hU.of_resolved hg ha hd hp hat hs
    | false => exact of_error (.inl hs)
  | connecting => exact hU.of_connecting hg ha hd hp hat hs
  | finished ok =>
    cases ok with
    | true => exact hU.of_finished hg ha hd hp hat hs
    | false => exact of_error (.inr hs)

/-- **From a client that is not quiet**, completions alone lead to the property. -/
theorem Carries.danger (hw : Wf s) (hp : s.connection = p) (hg : Guard p s) (hq : ¬ Quiet p s) :
    U s := by
  refine hU.back s .enableAutoReconnect hg rfl rfl ?_
  show U s.enableAutoReconnect
  by_contra hn
  have hg' : Guard p s.enableAutoReconnect := hg
  refine hq ⟨?_, ?_, fun c a hat => ?_, fun c hc => ?_⟩
  · by_contra h
    exact hn (hU.of_waiting hg' rfl h)
  · by_contra h
    exact hn (hU.fire _ hg' rfl h)
  · by_contra ho
    have hc : p ≠ some c := by
      intro hc
      rw [hw c (hg c hc)] at hat
      cases hat
    exact hn (hU.of_attempt hg' rfl hc hp hat (Bool.eq_false_of_not_eq_true ho))
  · refine ⟨?_, ?_⟩
    · by_contra hup
      have hup := Bool.eq_true_of_not_eq_false hup
      exact hn (hU.of_up hg' rfl hc hp hup (hw c hup))
    · by_contra hcalm
      exact hn (hU.of_not_calm hg' rfl hc hcalm)

end

/-! ## is a disconnect final? -/

section
variable {s : TcpClient} {c : Nat}

theorem disconnect_connection : s.disconnect.connection = none := by
  unfold TcpClient.disconnect
  dsimp only
  split
  · assumption
  · rfl

theorem Final.step (h : Final s) {e : Event} (he : e.isConnect = false) : Final (s.step e) := by
  intro events hes
  refine (h (e :: events) ?_).2
  intro d hd
  rcases List.mem_cons.mp hd with rfl | hd
  · exact he
  · exact hes d hd

/-- a fresh attempt can succeed -/
theorem not_final_of_resolving {a : Attempt} (hat : s.attempts c = some a)
    (hs : a.stage = .resolving) (hdown : (s.conns c).up = false) : ¬ Final s := by
  intro h
  have h1 := h.step (e := .finishAttempt c true) rfl
  rw [step_resolving hat hs] at h1
  have h2 := h1.step (e := .deliverAttempt c) rfl
  rw [step_resolved (setAttempt_attempts_same _) rfl] at h2
  have h3 := h2.step (e := .finishAttempt c true) rfl
  rw [step_connecting (setAttempt_attempts_same _) rfl] at h3
  have h4 := (h3 [.deliverAttempt c] (by simp [Event.isConnect])).1
  refine h4 (.inl ⟨c, hdown, ?_⟩)
  rw [step_finished (setAttempt_attempts_same _) rfl, onConnection_conns, setConn_conns_same]
  rfl

theorem carries_not_final : Carries none (fun s => ¬ Final s) where
  back s e _ he _ hn h := hn (h.step he)
  fire s _ ha he h := by
    have h1 := h.step (e := .deliverExpired) rfl
    have hstep : s.step .deliverExpired = TcpClient.doReconnect { s with expired := s.expired - 1 } := by
      show s.deliverExpired = _
      unfold TcpClient.deliverExpired
      rw [if_neg he]
      exact if_pos ha
    rw [hstep] at h1
    refine not_final_of_resolving (c := s.next) (a := ⟨s.host, s.port, true, .resolving⟩) ?_ rfl ?_ h1
    · exact setAttempt_attempts_same _
    · exact create_down (s := { s with expired := s.expired - 1 })
  left s _ hne := absurd rfl hne

/-- **When a disconnect is final**: exactly if it leaves a quiet client behind. -/
theorem disconnect_final_iff (events : List Event) :
    Final (TcpClient.after events).disconnect ↔ Quiet none (TcpClient.after events).disconnect := by
  have hw : Wf (TcpClient.after events).disconnect := (wf_after events).step .disconnect
  constructor
  · intro h
    by_contra hq
    exact carries_not_final.danger hw disconnect_connection nofun hq h
  · exact fun hq => hq.final disconnect_connection

/-- `disconnect` while a connection attempt is pending: the attempt succeeds afterwards, and the
user is told so -/
theorem pending_attempt :
    let s := TcpClient.after [.setConnectionCallback true, .asyncConnect (str "h") 1, .disconnect]
    let t := run TcpClient.step s [.finishAttempt 1 true, .deliverAttempt 1, .finishAttempt 1 true,
      .deliverAttempt 1]
    s.notified = [] ∧ (s.conns 1).up = false ∧ t.notified = [true] ∧ (t.conns 1).up = true := by
  decide +kernel

/-! ## is a live connection safe? -/

theorem Safe.step (h : Safe c s) (hup : (s.conns c).up = true) {e : Event}
    (he : e.isDisconnect = false) : Safe c (s.step e) := by
  intro events hes hups
  refine (h (e :: events) ?_ ⟨hup, hups⟩).2
  intro d hd
  rcases List.mem_cons.mp hd with rfl | hd
  · exact he
  · exact hes d hd

theorem carries_not_safe (c : Nat) : Carries (some c) (fun s => ¬ Safe c s) where
  back s e hg _ he hn h := hn (h.step (hg c rfl) he)
  fire s hg ha he h := by
    have h1 := (h [.deliverExpired] (by simp [Event.isDisconnect]) ⟨hg c rfl, trivial⟩).1.1
    have hr : (Event.deliverExpired).reconnects s = true := by
      show (s.expired != 0 && s.autoReconnect) = true
      rw [ha, Bool.and_true]
      exact bne_iff_ne.mpr he
    rw [hr] at h1
    cases h1
  left s hg _ hne h :=
    -- any event shows it
    hne (h [.deliverCancelled] (by simp [Event.isDisconnect]) ⟨hg c rfl, trivial⟩).1.2

/-- **When a live connection is safe** from the automatic reconnection: exactly if the client has
nothing else going on. -/
theorem reconnect_safe_iff (events : List Event) (c : Nat)
    (hc : (TcpClient.after events).connection = some c)
    (hup : ((TcpClient.after events).conns c).up = true) :
    Safe c (TcpClient.after events) ↔ Quiet (some c) (TcpClient.after events) := by
  have hg : Guard (some c) (TcpClient.after events) := by
    intro d hd
    cases hd
    exact hup
  constructor
  · intro h
    by_contra hq
    exact (carries_not_safe c).danger (wf_after events) hc hg hq h
  · exact fun hq => hq.safe hc

theorem reconnect_safe_connected :
    Quiet (some 1) (TcpClient.after [.connect (str "h") 1 .ok]) ∧
      Safe 1 (TcpClient.after [.connect (str "h") 1 .ok]) := by
  have hq : Quiet (some 1) (TcpClient.after [.connect (str "h") 1 .ok]) := by
    refine ⟨rfl, rfl, fun c a ha => ?_, fun c hc => ?_⟩
    · simp [TcpClient.after, run, TcpClient.step, TcpClient.connect, TcpClient.isConnected,
        onConnection_attempts, TcpClient.create, TcpClient.setConn] at ha
    · have h : c ≠ 1 := fun h => hc (by rw [h])
      simp [TcpClient.after, run, TcpClient.step, TcpClient.connect, TcpClient.isConnected,
        onConnection_conns, TcpClient.create, TcpClient.setConn, h, Calm]
  exact ⟨hq, (reconnect_safe_iff _ 1 rfl rfl).mpr hq⟩

/-- the timer of an earlier loss expires after the user has connected by hand: `do_reconnect` runs
on a connected client, and replaces its connection -/
theorem late_timer :
    let s := TcpClient.after [.connect (str "h") 1 .ok, .enableAutoReconnect, .startReceive true,
      .finishReceive 1 (.error .eof), .deliverReceive 1 0, .connect (str "h") 1 .ok, .expire]
    s.isConnected = true ∧ s.connection = some 2 ∧ Event.deliverExpired.reconnects s = true ∧
      (s.step .deliverExpired).connection = some 3 ∧
      ((s.step .deliverExpired).conns 2).up = true ∧
      (s.step .deliverExpired).isConnected = false := by
  decide +kernel

end

end P2p
end ChainForge
