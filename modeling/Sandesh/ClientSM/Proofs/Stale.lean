/-
Events that come too late.

Two promises of the client are broken by events that were queued before
what they are about was given up: a session event by the session it
belongs to (`stale_ignored_iff`), an idle-hold expiry by the stop that
cancelled its timer (`stays_down_iff`). Both results say exactly when:
the promise holds along a run if and only if no such event meets a state
that reacts to it.
-/
import Sandesh.ClientSM.Proofs.Invariant

namespace Sandesh.ClientSM

open Lib Header SandeshClientSMImpl

variable {T : Timers}

-- ====================================================== session events

/-- A report of a session other than the current one. -/
def Stale (sm : SandeshClientSMImpl T) (event : Event) : Prop :=
  ∃ s, (event = .EvTcpConnected s ∨ event = .EvTcpConnectFail s
    ∨ event = .EvTcpClose s) ∧ sm.session_ ≠ some s

/-- The states that react to the reports of a session. -/
def Reacts : State → Event → Prop
  | .CONNECT, .EvTcpConnected _ => True
  | .CONNECT, .EvTcpConnectFail _ => True
  | .CONNECT, .EvTcpClose _ => True
  | .CLIENT_INIT, .EvTcpClose _ => True
  | .ESTABLISHED, .EvTcpClose _ => True
  | _, _ => False

/-- A stale report is dequeued, without an end of the process, and changes
nothing of the connection. -/
def StaleIgnored (sm : SandeshClientSMImpl T) (a : Action) : Prop :=
  ∀ ans event rest, a = .dequeue ans → sm.work_queue_ = event :: rest →
    Stale sm event → ∃ sm', step sm a = some sm' ∧ sm'.state_ = sm.state_
      ∧ sm'.session_ = sm.session_ ∧ sm'.server_ = sm.server_
      ∧ sm'.collector_index_ = sm.collector_index_

/-- No stale report meets a state that reacts to it. -/
def StaleMissed (sm : SandeshClientSMImpl T) (a : Action) : Prop :=
  ∀ ans event rest, a = .dequeue ans → sm.work_queue_ = event :: rest →
    Stale sm event → ¬ Reacts sm.state_ event

section Step

variable {sm sm' : SandeshClientSMImpl T} {ans : Answers} {event : Event}

theorem step_dequeue {rest : List Event} (hq : sm.work_queue_ = event :: rest) :
    step sm (.dequeue ans) = DequeueEvent ans event { sm with work_queue_ := rest } := by
  simp only [step, hq]

/-- A report that no one reacts to is discarded. -/
theorem dequeue_discards {s : Nat}
    (hev : event = .EvTcpConnected s ∨ event = .EvTcpConnectFail s
      ∨ event = .EvTcpClose s) (hno : ¬ Reacts sm.state_ event) :
    DequeueEvent ans event sm = some sm := by
  have hvalid : validate event sm = true := by
    rcases hev with rfl | rfl | rfl <;> rfl
  rw [DequeueEvent, if_pos hvalid, process_event]
  rcases hev with rfl | rfl | rfl
  · cases hs : sm.state_ <;> rw [hs] at hno
    case CONNECT => exact absurd trivial hno
    all_goals rfl
  · cases hs : sm.state_ <;> rw [hs] at hno
    case CONNECT => exact absurd trivial hno
    all_goals rfl
  · cases hs : sm.state_ <;> rw [hs] at hno
    case IDLE => rfl
    case DISCONNECT => rfl
    all_goals exact absurd trivial hno

/-- A report that is reacted to ends the state. -/
theorem dequeue_leaves (h : DequeueEvent ans event sm = some sm')
    (hreacts : Reacts sm.state_ event) : sm'.state_ ≠ sm.state_ := by
  have hback : ∀ {sm₁ : SandeshClientSMImpl T}, sm₁.ToIdle ans = some sm' →
      sm'.state_ = .IDLE := by
    intro sm₁ hr
    exact congrArg View.state_ (toIdle_view hr)
  have hinto : ∀ {sm₁ : SandeshClientSMImpl T}, sm₁.toConnect ans = some sm' →
      sm'.state_ = .CONNECT := by
    intro sm₁ hr
    have hview := congrArg View.state_ (toConnect_view hr)
    cases hc : ans.CreateSMSession <;> rw [hc] at hview <;> exact hview
  cases hs : sm.state_ with
  | IDLE => rw [hs] at hreacts; exact hreacts.elim
  | DISCONNECT => rw [hs] at hreacts; exact hreacts.elim
  | CONNECT =>
      rw [hs] at hreacts
      cases event with
      | EvTcpConnected s =>
          simp only [DequeueEvent, validate, if_true, process_event, hs] at h
          obtain ⟨time, hview⟩ := transit_clientInit h
          have hstate : sm'.state_ = .CLIENT_INIT :=
            congrArg View.state_ hview
          simp [hstate]
      | EvTcpConnectFail s =>
          simp only [DequeueEvent, validate, if_true, process_event, hs] at h
          simp [hback h]
      | EvTcpClose s =>
          simp only [DequeueEvent, validate, if_true, process_event, hs] at h
          simp [hback h]
      | _ => exact hreacts.elim
  | CLIENT_INIT =>
      rw [hs] at hreacts
      cases event with
      | EvTcpClose s =>
          simp only [DequeueEvent, validate, if_true, process_event, hs] at h
          simp [hback h]
      | _ => exact hreacts.elim
  | ESTABLISHED =>
      rw [hs] at hreacts
      cases event with
      | EvTcpClose s =>
          simp only [DequeueEvent, validate, if_true, process_event, hs,
            Established.react] at h
          split at h
          · simp [hinto h]
          · simp [hback h]
      | _ => exact hreacts.elim

end Step

/-- One dequeue. A report that is reacted to ends the state, or the process:
a machine in `Connect` whose session could not be created has none to give
up. -/
theorem ignored_iff_missed {sm : SandeshClientSMImpl T} {a : Action} :
    StaleIgnored sm a ↔ StaleMissed sm a := by
  constructor
  · intro hignored ans event rest ha hq hstale hreacts
    obtain ⟨sm', hstep, hstate, -⟩ := hignored ans event rest ha hq hstale
    subst ha
    rw [step_dequeue hq] at hstep
    exact dequeue_leaves hstep hreacts hstate
  · intro hmissed ans event rest ha hq hstale
    have hno := hmissed ans event rest ha hq hstale
    obtain ⟨s, hev, -⟩ := hstale
    subst ha
    refine ⟨{ sm with work_queue_ := rest }, ?_, rfl, rfl, rfl, rfl⟩
    rw [step_dequeue hq]
    exact dequeue_discards hev hno

/-- A run ignores every stale report exactly when none meets a state that
reacts to it. -/
theorem stale_ignored_iff (T : Timers) (index : Nat) (as : List Action) :
    (machine T).Meets StaleIgnored (SandeshClientSMImpl.new T index) as
      ↔ (machine T).Meets StaleMissed (SandeshClientSMImpl.new T index) as :=
  Machine.meets_iff ignored_iff_missed as

/-- An established session is replaced on a collector update while its
close is already queued: the close takes down its successor. -/
def replacedRun : List Action :=
  [.SetAdminState false, .dequeue ⟨true, true⟩, .SetCollectors [⟨1, 8086⟩],
    .dequeue ⟨true, true⟩, .OnSessionEvent 0 .CONNECT_COMPLETE,
    .dequeue ⟨true, true⟩,
    .OnMessage ⟨[], { SandeshHeader.init with Hints := 2 }, [], 0⟩,
    .dequeue ⟨true, true⟩, .SetCollectors [⟨2, 8086⟩],
    .OnSessionEvent 0 .CLOSE, .dequeue ⟨true, true⟩]

theorem stale_close_felt :
    ((machine .phases).run (SandeshClientSMImpl.new .phases 0)
        replacedRun).map (fun sm => (sm.state_, sm.session_))
        = some (.CONNECT, some 1)
      ∧ ¬ (machine .phases).Meets StaleIgnored
        (SandeshClientSMImpl.new .phases 0)
        (replacedRun ++ [.dequeue ⟨true, true⟩]) := by
  refine ⟨rfl, ?_⟩
  intro h
  have hlast := Machine.meets_last (M := machine .phases) replacedRun h rfl
  obtain ⟨sm', hstep, hstate, -⟩ := hlast ⟨true, true⟩ (.EvTcpClose 0)
    [.EvTcpDeleteSession 0] rfl rfl ⟨0, .inr (.inr rfl), by decide⟩
  obtain rfl := Option.some.inj hstep
  revert hstate
  decide

-- ================================================================ stops

/-- Has a stop been dequeued and no start since? -/
def stopped (m : Bool) (sm : SandeshClientSMImpl T) : Action → Bool
  | .dequeue _ =>
      match sm.work_queue_ with
      | .EvStop _ :: _ => true
      | .EvStart :: _ => false
      | _ => m
  | _ => m

/-- A stopped machine is in `Idle` and has no session. -/
def Down (x : SandeshClientSMImpl T × Bool) : Prop :=
  x.2 = true → x.1.state_ = .IDLE ∧ x.1.session_ = none

/-- A stopped machine meets no idle-hold expiry. -/
def NoExpiry (x : SandeshClientSMImpl T × Bool) (a : Action) : Prop :=
  x.2 = true → ∀ ans rest, a = .dequeue ans →
    x.1.work_queue_ ≠ .EvIdleHoldTimerExpired :: rest

section Moves

variable {v v' : View T} {created : Bool} {event : Event}

theorem moves_idle_session (hmove : Moves created v event v')
    (h : v.state_ = .IDLE → v.session_ = none) :
    v'.state_ = .IDLE → v'.session_ = none := by
  cases hmove with
  | ignored _ _ => exact h
  | held _ => exact h
  | parted _ => exact nofun
  | calmed _ => exact h
  | retried _ => cases created <;> exact nofun
  | found _ _ => cases created <;> exact nofun
  | connected _ _ => exact nofun
  | established _ _ => exact nofun
  | stopped _ => exact fun _ => rfl
  | backedOff _ _ _ => exact fun _ => rfl
  | dropped _ _ => exact fun _ => rfl
  | failedOver _ _ => cases created <;> exact nofun

/-- Out of `Idle` without a start: an expiry, and nothing else. -/
theorem moves_idle_iff (hidle : v.state_ = .IDLE) (hnone : v.session_ = none)
    (hstart : event ≠ .EvStart) (hmove : Moves created v event v') :
    (v'.state_ = .IDLE ∧ v'.session_ = none)
      ↔ event ≠ .EvIdleHoldTimerExpired := by
  cases hmove with
  | ignored hexp _ => exact ⟨fun _ => hexp hidle, fun _ => ⟨hidle, hnone⟩⟩
  | held _ => exact absurd rfl hstart
  | parted _ => exact absurd rfl hstart
  | calmed _ => exact ⟨fun _ => nofun, fun _ => ⟨hidle, hnone⟩⟩
  | retried _ =>
      refine ⟨?_, fun h => absurd rfl h⟩
      intro hdown
      cases created <;> cases hdown.1
  | found h _ => cases hidle.symm.trans h
  | connected h _ => cases hidle.symm.trans h
  | established h _ => cases hidle.symm.trans h
  | stopped h => exact absurd hidle h
  | backedOff h _ _ => cases hidle.symm.trans h
  | dropped h _ =>
      rcases h with h | h
      · cases hidle.symm.trans h
      · cases hidle.symm.trans h
  | failedOver h _ => cases hidle.symm.trans h

/-- A stop brings every state to `Idle`. -/
theorem moves_stop {enq : Bool} (hmove : Moves created v (.EvStop enq) v')
    (h : v.state_ = .IDLE → v.session_ = none) :
    v'.state_ = .IDLE ∧ v'.session_ = none := by
  cases hmove with
  | calmed hidle => exact ⟨hidle, h hidle⟩
  | stopped _ => exact ⟨rfl, rfl⟩
  | ignored _ hstop => cases hstop
  | found _ hstop => cases hstop
  | connected _ hstop => cases hstop
  | established _ hstop => cases hstop
  | backedOff _ hstop _ => cases hstop
  | dropped _ hstop => cases hstop
  | failedOver _ hstop => cases hstop

end Moves

theorem outside_session {v v' : View T} (h : Outside v v') :
    v'.state_ = v.state_ ∧ v'.session_ = v.session_ := by
  cases h <;> exact ⟨rfl, rfl⟩

/-- The monitor looks at the head of the queue only. -/
theorem stopped_dequeue {m : Bool} {sm : SandeshClientSMImpl T}
    {ans : Answers} {event : Event} {rest : List Event}
    (hq : sm.work_queue_ = event :: rest) (hstop : event.stop = none)
    (hstart : event ≠ .EvStart) : stopped m sm (.dequeue ans) = m := by
  simp only [stopped, hq]
  cases event with
  | EvStop enq => cases hstop
  | EvStart => exact absurd rfl hstart
  | _ => rfl

theorem stopped_outside {m : Bool} {sm : SandeshClientSMImpl T} {a : Action}
    (h : ∀ ans, a ≠ .dequeue ans) : stopped m sm a = m := by
  cases a with
  | dequeue ans => exact absurd rfl (h ans)
  | _ => rfl

/-- In `Idle` there is never a session. -/
def IdleBare (sm : SandeshClientSMImpl T) : Prop :=
  sm.state_ = .IDLE → sm.session_ = none

theorem step_idleBare {sm sm' : SandeshClientSMImpl T} {a : Action}
    (h : IdleBare sm) (hstep : step sm a = some sm') : IdleBare sm' := by
  rcases step_cases hstep with ⟨-, hout⟩ | ⟨ans, event, rest, -, -, hm⟩
  · obtain ⟨hstate, hsession⟩ := outside_session hout
    intro hidle
    exact hsession.trans (h (hstate.symm.trans hidle))
  · exact moves_idle_session hm h

/-- One step of the watched machine: it is still down exactly when it met
no expiry. -/
theorem step_down_iff {x y : SandeshClientSMImpl T × Bool} {a : Action}
    (hbare : IdleBare x.1) (hdown : Down x) (hstep : step x.1 a = some y.1)
    (hmon : y.2 = stopped x.2 x.1 a) : Down y ↔ NoExpiry x a := by
  rcases step_cases hstep with ⟨hno, hout⟩ | ⟨ans, event, rest, ha, hq, hm⟩
  · obtain ⟨hstate, hsession⟩ := outside_session hout
    rw [stopped_outside hno] at hmon
    refine ⟨fun _ _ ans _ ha => absurd ha (hno ans), ?_⟩
    intro _ hy
    obtain ⟨hidle, hnone⟩ := hdown (hmon.symm.trans hy)
    exact ⟨hstate.trans hidle, hsession.trans hnone⟩
  · have hexp : NoExpiry x a
        ↔ (x.2 = true → event ≠ .EvIdleHoldTimerExpired) := by
      constructor
      · intro h hx hev
        exact h hx ans rest ha (hev ▸ hq)
      · intro h hx _ rest' _ hq'
        have hev : event = .EvIdleHoldTimerExpired := by
          rw [hq] at hq'
          injection hq'
        exact h hx hev
    rw [hexp]
    subst ha
    by_cases hstop : ∃ enq, event = .EvStop enq
    · obtain ⟨enq, rfl⟩ := hstop
      exact ⟨fun _ _ => nofun, fun _ _ => moves_stop hm hbare⟩
    · have hnostop : event.stop = none := by
        rw [Option.eq_none_iff_forall_ne_some]
        exact fun enq henq => hstop ⟨enq, selects_stop.mp henq⟩
      by_cases hstart : event = .EvStart
      · subst hstart
        have hy : y.2 = false := by simp [hmon, stopped, hq]
        exact ⟨fun _ _ => nofun, fun _ h => by simp [hy] at h⟩
      · rw [stopped_dequeue hq hnostop hstart] at hmon
        unfold Down
        rw [hmon]
        refine forall_congr' fun hx => ?_
        obtain ⟨hidle, hnone⟩ := hdown hx
        exact moves_idle_iff hidle hnone hstart hm

/-- A stopped machine stays down exactly as long as no idle-hold expiry
is dequeued before the next start. -/
theorem stays_down_iff (T : Timers) (index : Nat) (as : List Action) :
    ((machine T).watch stopped).Each (fun _ _ y => Down y)
        (SandeshClientSMImpl.new T index, false) as
      ↔ ((machine T).watch stopped).Each (fun x a _ => NoExpiry x a)
        (SandeshClientSMImpl.new T index, false) as := by
  refine Machine.each_iff (I := fun x => IdleBare x.1 ∧ Down x) ?_ ?_ as
    ⟨fun _ => rfl, nofun⟩
  · intro x a y h hstep
    obtain ⟨hstep, hmon⟩ := Machine.watch_step.mp hstep
    exact step_down_iff h.1 h.2 hstep hmon
  · intro x a y h hstep hdown
    obtain ⟨hstep, -⟩ := Machine.watch_step.mp hstep
    exact ⟨step_idleBare h.1 hstep, hdown⟩

/-- A refused client is told to stop while its hold timer runs, and the
timer expires before the stop is dequeued. -/
def lateExpiryRun : List Action :=
  refusedRun ++ [.SetAdminState true, .IdleHoldTimerExpired,
    .dequeue ⟨true, true⟩, .dequeue ⟨true, true⟩]

theorem stopped_reconnects :
    ¬ ((machine .phases).watch stopped).Each (fun _ _ y => Down y)
      (SandeshClientSMImpl.new .phases 0, false)
      (lateExpiryRun ++ [.dequeue ⟨true, true⟩]) := by
  intro h
  have hlast := Machine.each_last (M := (machine .phases).watch stopped)
    lateExpiryRun h rfl rfl
  obtain ⟨hstate, -⟩ := hlast rfl
  revert hstate
  decide

end Sandesh.ClientSM
