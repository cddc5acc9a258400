import ChainForge.P2p.Connection

/-!
# TCP connections: what the connection callback is told

Three places of `tcp_connection.cpp` clear `connected_`, and two set it.  The callback is called in
all but one of them, the synchronous `receive`, and it is called whether or not the flag changes.

* `Effect`, `effect_step`   what one event does to `connected_` and to the callback;
* `losses_reported_iff`     **when the callback tells every connection and every loss**.
-/

set_option linter.unusedSectionVars false

namespace ChainForge
namespace P2p
namespace Connection
open Machine ReceiveLoop

/-- `true`, `false`, `true` and so on -/
def Alternates (l : List Bool) : Prop := l = (List.range l.length).map (· % 2 == 0)

theorem alternates_concat (l : List Bool) (b : Bool) :
    Alternates (l ++ [b]) ↔ Alternates l ∧ b = (l.length % 2 == 0) := by
  unfold Alternates
  rw [List.length_append, List.length_singleton, List.range_succ, List.map_append,
    List.map_singleton]
  constructor
  · intro h
    obtain ⟨hl, hb⟩ := List.append_inj' h rfl
    exact ⟨hl, List.singleton_inj.mp hb⟩
  · intro h
    rw [← h.1, ← h.2]

/-- the event is not told to the callback, or told at the wrong time: a synchronous receive at the
end of the connection, a second connect, and a second end -/
def misreports (c : Connection) : Event → Bool
  | .connectCompleted (.ok _) => c.connecting != 0 && c.socketOpen && c.loop.up
  | .receive (.failed e _) => c.loop.up && e == .eof
  | .deliver i => c.loop.ends tcp i && !c.loop.up
  | _ => false

/-- what an event does to `connected_` and to the callback, and whether it is one of those that the
callback does not follow -/
inductive Change (c d : Connection) : Bool → Prop
  | kept : d.loop.up = c.loop.up → d.notified = c.notified → Change c d false
  | gained : d.loop.up = true → d.notified = c.notified ++ [true] → Change c d c.loop.up
  | ended : d.loop.up = false → d.notified = c.notified ++ [false] → Change c d (!c.loop.up)
  | silent : c.loop.up = true → d.loop.up = false → d.notified = c.notified → Change c d true

structure Effect (c d : Connection) (bad : Bool) : Prop where
  callback : d.callback = c.callback
  change : Change c d bad

theorem Effect.kept {c d : Connection} (hc : d.callback = c.callback) (hu : d.loop.up = c.loop.up)
    (hn : d.notified = c.notified) : Effect c d false := ⟨hc, .kept hu hn⟩

/-- a connection is told, and a loss is told when it happens -/
def Reports (c : Connection) (e : Event) : Prop :=
  Alternates (c.step e).notified ∧
    (c.isConnected = true → (c.step e).isConnected = false →
      (c.step e).notified = c.notified ++ [false])

/-- the callback is set, and knows whether the connection is connected -/
structure Reported (c : Connection) : Prop where
  callback : c.callback = true
  alternates : Alternates c.notified
  current : c.loop.up = (c.notified.length % 2 == 1)

/-- `connected_` is set and the callback is told -/
theorem effect_setConnected {c d : Connection} (hc : d.callback = c.callback)
    (hd : d.callback = true) (hn : d.notified = c.notified) :
    Effect c d.setConnected c.loop.up := by
  refine ⟨(notify_callback _ true).trans hc, .gained ?_ ?_⟩
  · unfold setConnected
    rw [notify_loop]
    rfl
  · rw [← hn]
    exact notify_notified (c := { d with loop := d.loop.bringUp }) hd true

/-- `connected_` is clear and the callback is told -/
theorem effect_lost {c d : Connection} (hc : d.callback = c.callback) (hd : d.callback = true)
    (hu : d.loop.up = false) (hn : d.notified = c.notified) :
    Effect c (d.notify false) (!c.loop.up) := by
  refine ⟨(notify_callback d false).trans hc, .ended ?_ ?_⟩
  · rw [notify_loop, hu]
  · rw [← hn]
    exact notify_notified hd false

section
variable {c : Connection}

theorem effect_connect (h : c.callback = true) (os : ConnectAnswer) :
    Effect c (c.connect os).2 false := by
  unfold connect
  cases hu : c.loop.up with
  | true => exact .kept rfl rfl rfl
  | false =>
    cases os with
    | ok =>
      have heffect : Effect c (c.reopen true).setConnected c.loop.up := effect_setConnected rfl h rfl
      rwa [hu] at heffect
    | failed message opened => exact .kept rfl rfl rfl
    | exception message => exact .kept rfl rfl rfl

theorem effect_connectCompleted (h : c.callback = true) (r : Except AsioError Unit) :
    Effect c (c.connectCompleted r) (c.misreports (.connectCompleted r)) := by
  unfold connectCompleted
  by_cases h0 : c.connecting = 0
  · rw [if_pos h0]
    cases r <;> simpa [misreports, h0] using Effect.kept rfl rfl rfl
  · have hne : (c.connecting != 0) = true := bne_iff_ne.mpr h0
    rw [if_neg h0]
    cases r with
    | error e => exact .kept rfl rfl rfl
    | ok _ =>
      dsimp only [misreports]
      rw [hne]
      cases ho : c.socketOpen with
      | true => exact effect_setConnected rfl h rfl
      | false => exact .kept rfl rfl rfl

/-- the one place where the callback is forgotten -/
theorem effect_receive (c : Connection) (os : ReadAnswer) :
    Effect c (c.receive os).2 (c.misreports (.receive os)) := by
  unfold receive
  cases hu : c.loop.up with
  | false =>
    have hm : c.misreports (.receive os) = false := by
      cases os <;> simp [misreports, hu]
    rw [hm]
    exact .kept rfl rfl rfl
  | true =>
    cases os with
    | ok data => exact .kept rfl rfl rfl
    | exception message => exact .kept rfl rfl rfl
    | failed e message =>
      by_cases he : e = .eof
      · subst he
        have hm : c.misreports (.receive (.failed .eof message)) = true := by
          simp [misreports, hu]
        rw [hm]
        exact ⟨rfl, .silent hu rfl rfl⟩
      · have hm : c.misreports (.receive (.failed e message)) = false := by
          simp [misreports, he]
        rw [hm]
        simp only [he, if_false]
        exact .kept rfl rfl rfl

theorem effect_deliver (h : c.callback = true) (i : Nat) :
    Effect c (c.deliver i) (c.loop.ends tcp i && !c.loop.up) := by
  cases hl : c.loop.ends tcp i with
  | false =>
    unfold deliver
    rw [if_neg (by rw [hl]; exact Bool.false_ne_true)]
    exact .kept rfl (by rw [deliver_up_eq, hl, Bool.not_false, Bool.and_true]) rfl
  | true =>
    unfold deliver
    rw [if_pos hl]
    exact effect_lost rfl h (by rw [deliver_up_eq, hl, Bool.not_true, Bool.and_false]) rfl

theorem effect_close (h : c.callback = true) : Effect c c.close false := by
  cases hu : c.loop.up with
  | false =>
    rw [close_of_down hu]
    exact .kept rfl rfl rfl
  | true =>
    have heffect : Effect c c.close (!c.loop.up) := by
      rw [close_of_up hu]
      exact effect_lost rfl h (loop_close_up hu) rfl
    rwa [hu] at heffect

/-- **One event.** -/
theorem effect_step (h : c.callback = true) (e : Event) :
    Effect c (c.step e) (c.misreports e) := by
  cases e with
  | connect os => exact effect_connect h os
  | resolved r =>
    show Effect c (c.resolved r) false
    unfold resolved
    split
    · exact .kept rfl rfl rfl
    · cases r <;> exact .kept rfl rfl rfl
  | nextEndpoint opened =>
    show Effect c (c.nextEndpoint opened) false
    unfold nextEndpoint
    split <;> exact .kept rfl rfl rfl
  | connectCompleted r => exact effect_connectCompleted h r
  | receive os => exact effect_receive c os
  | deliver i => exact effect_deliver h i
  | close => exact effect_close h
  | startReceive callback => exact .kept rfl (start_up callback) rfl
  | finish r => exact .kept rfl (finish_up r) rfl
  | asyncConnect => exact .kept rfl rfl rfl
  | stopReceive => exact .kept rfl rfl rfl

end

section
variable {c d : Connection}

theorem Reported.even (h : Reported c) : (c.notified.length % 2 == 0) = !c.loop.up := by
  rw [h.current]
  rcases Nat.mod_two_eq_zero_or_one c.notified.length with h0 | h0 <;> rw [h0] <;> rfl

theorem odd_succ (n : Nat) : ((n + 1) % 2 == 1) = (n % 2 == 0) := by
  rcases Nat.mod_two_eq_zero_or_one n with h0 | h0 <;> simp [Nat.add_mod, h0]

/-- the callback follows an event exactly when it is none of those -/
theorem Change.reports_iff {bad : Bool} (h : Reported c) (he : Change c d bad) :
    (Alternates d.notified ∧
        (c.loop.up = true → d.loop.up = false → d.notified = c.notified ++ [false])) ↔
      bad = false := by
  cases he with
  | kept hu hn =>
    refine ⟨fun _ => rfl, fun _ => ⟨by rw [hn]; exact h.alternates, fun h1 h2 => ?_⟩⟩
    rw [hu, h1] at h2
    cases h2
  | gained hu hn =>
    rw [hn, alternates_concat, h.even]
    simp [h.alternates, hu]
  | ended hu hn =>
    rw [hn, alternates_concat, h.even]
    simp [h.alternates]
  | silent hc hu hn =>
    refine ⟨fun hr => ?_, fun hb => nomatch hb⟩
    have hlen := congrArg List.length (hr.2 hc hu)
    rw [hn, List.length_append, List.length_singleton] at hlen
    omega

theorem Effect.reported {bad : Bool} (h : Reported c) (he : Effect c d bad)
    (hb : bad = false) : Reported d := by
  have halt := ((he.change.reports_iff h).mpr hb).1
  refine ⟨he.callback.trans h.callback, halt, ?_⟩
  cases he.change with
  | kept hu hn => rw [hu, hn, h.current]
  | gained hu hn =>
    rw [hu, hn, List.length_append, List.length_singleton, odd_succ, h.even, hb]
    rfl
  | ended hu hn =>
    rw [hu, hn, List.length_append, List.length_singleton, odd_succ, h.even, hb]
  | silent hc hu hn => cases hb

end

/-- **The callback alternates and is told every loss exactly when** no synchronous receive meets the
end of the connection, no end comes to a connection that is not connected, and no `async_connect`
succeeds on one that is. -/
theorem losses_reported_iff (events : List Event) :
    EveryStep step Reports (create .ioContext).setConnectionCallback events ↔
      EveryStep step (fun c e => c.misreports e = false) (create .ioContext).setConnectionCallback
        events := by
  refine everyStep_iff_of Reported ?_ ?_ events ⟨rfl, rfl, rfl⟩
  · intro c e h he
    exact (effect_step h.callback e).reported h he
  · intro c e h
    exact (effect_step h.callback e).change.reports_iff h

/-- the peer closes, and `receive` finds the end of file -/
theorem silent_loss :
    ¬ EveryStep step Reports (create .ioContext).setConnectionCallback
      [.connect .ok, .receive (.failed .eof "End of file")] := by
  intro h
  have hlost := h.2.1.2 rfl rfl
  exact absurd hlost (by decide)

end Connection
end P2p
end ChainForge
