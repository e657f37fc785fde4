/-
The session and the timers of the client, over whole runs.

`Good` is the invariant on the view: the sessions created so far are
exactly those given up and the current one, in some order
(`Good.sessions`), and each timer runs only in the states that started
it. That a hold time is never negative, and that an attempt has been
counted in `Connect`, is what makes every hold after a failure a positive
one.
-/
import Sandesh.ClientSM.Proofs.Moves

namespace Sandesh.ClientSM

open Lib SandeshClientSMImpl

variable {T : Timers}

-- ======================================================= one action

/-- What an action other than a dequeue can do. -/
inductive Outside (v : View T) : View T → Prop
  | same : Outside v v
  | stop : Outside v { v with stops := v.stops ++ [true] }
  | start : Outside v { v with idle_hold_time_ := 0 }
  | connectExpired :
      Outside v { v with connect_timer_ := T.expired v.connect_timer_ }
  | holdExpired (h : T.running v.idle_hold_timer_ = true) :
      Outside v { v with idle_hold_timer_ := T.expired v.idle_hold_timer_ }

/-- What an action does, seen through the view. -/
theorem step_cases {sm sm' : SandeshClientSMImpl T} {a : Action}
    (h : step sm a = some sm') :
    ((∀ ans, a ≠ .dequeue ans) ∧ Outside sm.view sm'.view)
      ∨ ∃ ans event rest, a = .dequeue ans ∧ sm.work_queue_ = event :: rest
          ∧ Moves ans.CreateSMSession
              { sm.view with stops := rest.filterMap Event.stop } event
              sm'.view := by
  have henq : ∀ {sm : SandeshClientSMImpl T} {event : Event},
      event.deleted = none → event.stop = none →
      (sm.Enqueue event).view = sm.view := by
    intro sm event hd hs
    rw [view_enqueue, hd, hs]
    simp
  cases a with
  | dequeue ans =>
      simp only [step] at h
      cases hq : sm.work_queue_ with
      | nil => simp [hq] at h
      | cons event rest =>
          simp only [hq] at h
          have hmoves := dequeue_moves h
          exact .inr ⟨ans, event, rest, rfl, rfl, hmoves⟩
  | SetAdminState down =>
      injection h with h
      refine .inl ⟨by simp, ?_⟩
      cases down with
      | true =>
          have hview : sm'.view = { sm.view with
              stops := sm.view.stops ++ [true] } := by
            rw [← h, SetAdminState, if_pos rfl, view_enqueue]
            simp [Event.deleted, Event.stop]
          rw [hview]
          exact .stop
      | false =>
          have hview : sm'.view = { sm.view with idle_hold_time_ := 0 } := by
            rw [← h, SetAdminState, if_neg Bool.false_ne_true, henq rfl rfl]
            rfl
          rw [hview]
          exact .start
  | SetCollectors collectors =>
      injection h with h
      rw [← h, henq rfl rfl]
      exact .inl ⟨by simp, .same⟩
  | SendSandesh snh =>
      injection h with h
      rw [← h, henq rfl rfl]
      exact .inl ⟨by simp, .same⟩
  | OnMessage m =>
      injection h with h
      rw [← h, henq rfl rfl]
      exact .inl ⟨by simp, .same⟩
  | OnSessionEvent session event =>
      simp only [step] at h
      split at h
      · injection h with h
        have hview : sm'.view = sm.view := by
          rw [← h]
          cases event with
          | ACCEPT => rfl
          | CONNECT_COMPLETE => exact henq rfl rfl
          | CONNECT_FAILED => exact henq rfl rfl
          | CLOSE => exact henq rfl rfl
        rw [hview]
        exact .inl ⟨by simp, .same⟩
      · cases h
  | ConnectTimerExpired =>
      simp only [step] at h
      split at h
      · injection h with h
        rw [← h, henq rfl rfl]
        exact .inl ⟨by simp, .connectExpired⟩
      · cases h
  | IdleHoldTimerExpired =>
      simp only [step] at h
      split at h
      · injection h with h
        rw [← h, henq rfl rfl]
        exact .inl ⟨by simp, .holdExpired ‹_›⟩
      · cases h

-- ======================================================= the invariant

/-- What holds behind every step. -/
structure Good (v : View T) : Prop where
  session_iff : v.session_.isSome = true ↔ v.state_ = .CONNECT
    ∨ v.state_ = .CLIENT_INIT ∨ v.state_ = .ESTABLISHED
  connect_timer : v.state_ ≠ .CONNECT → v.state_ ≠ .CLIENT_INIT →
    T.running v.connect_timer_ = false
  hold_timer : v.state_ ≠ .IDLE → T.running v.idle_hold_timer_ = false
  hold_time : 0 ≤ v.idle_hold_time_
  attempts : v.state_ = .CONNECT → v.attempts_ ≠ 0
  sessions : (v.deletes ++ v.session_.toList).Perm (List.range v.created)
  stops : ∀ enq ∈ v.stops, enq = true

theorem good_new (index : Nat) :
    Good (SandeshClientSMImpl.new T index).view where
  session_iff := by simp [SandeshClientSMImpl.new, view]
  connect_timer := fun _ _ => T.running_new
  hold_timer := fun _ => T.running_new
  hold_time := Int.le_refl 0
  attempts := nofun
  sessions := List.Perm.refl []
  stops := nofun

theorem outside_good {v v' : View T} (h : Good v) (hout : Outside v v') :
    Good v' := by
  cases hout with
  | same => exact h
  | stop =>
      refine { h with stops := ?_ }
      intro enq hmem
      rcases List.mem_append.mp hmem with hold | hnew
      · exact h.stops enq hold
      · exact List.mem_singleton.mp hnew
  | start => exact { h with hold_time := Int.le_refl 0 }
  | connectExpired =>
      exact { h with connect_timer := fun _ _ => T.running_expired _ }
  | holdExpired _ =>
      exact { h with hold_timer := fun _ => T.running_expired _ }

section Moves

variable {v v' : View T} {event : Event}

/-- A view without a session begins an attempt. -/
theorem good_connect (hnone : v.session_ = none)
    (hhold : T.running v.idle_hold_timer_ = false)
    (htime : 0 ≤ v.idle_hold_time_)
    (hsessions : v.deletes.Perm (List.range v.created))
    (hstops : ∀ enq ∈ v.stops, enq = true) : Good (v.connect true) where
  session_iff := by simp [View.connect, View.set_session, View.into]
  connect_timer := fun hne _ => absurd rfl hne
  hold_timer := fun _ => hhold
  hold_time := htime
  attempts := fun _ => Nat.succ_ne_zero _
  sessions := by
    show ((v.deletes ++ v.session_.toList) ++ [v.created]).Perm
      (List.range (v.created + 1))
    rw [hnone, List.range_succ]
    simpa using hsessions.append_right [v.created]
  stops := hstops

/-- `OnIdle` leaves a positive hold time, whatever it was. -/
theorem onIdle_hold_time (enq : Bool) (h : 0 ≤ v.idle_hold_time_) :
    0 < (v.onIdle enq).idle_hold_time_ := by
  show (0 : Int) < if v.idle_hold_time_ ≠ 0 then v.idle_hold_time_
    else kIdleHoldTime
  split
  · omega
  · decide

/-- A view that has given up its session is back in `Idle`. -/
theorem good_idle (hstate : v.state_ = .IDLE) (hnone : v.session_ = none)
    (hconnect : T.running v.connect_timer_ = false)
    (htime : 0 ≤ v.idle_hold_time_)
    (hsessions : v.deletes.Perm (List.range v.created))
    (hstops : ∀ enq ∈ v.stops, enq = true) : Good v where
  session_iff := by simp [hstate, hnone]
  connect_timer := fun _ _ => hconnect
  hold_timer := fun hne => absurd hstate hne
  hold_time := htime
  attempts := by simp [hstate]
  sessions := by simpa [hnone] using hsessions
  stops := hstops

/-- Leaving a state other than `Idle` stops the connect timer, if it was
running. -/
theorem leave_connect_timer (h : Good v) (w : View T)
    (hstate : w.state_ = v.state_) (htimer : w.connect_timer_ = v.connect_timer_) :
    T.running w.leave.connect_timer_ = false := by
  show T.running (if w.state_ = .CONNECT ∨ w.state_ = .CLIENT_INIT then _
    else _) = false
  split
  · exact T.running_cancel _
  · rw [htimer]
    refine h.connect_timer ?_ ?_ <;> rw [← hstate] <;> tauto

theorem good_toIdle (h : Good v) {time : Int} (htime : 0 ≤ time) :
    Good { v with idle_hold_time_ := time }.toIdle := by
  refine good_idle rfl rfl ?_ ?_ h.sessions h.stops
  · exact leave_connect_timer h
      (({ v with idle_hold_time_ := time }.onIdle true).startHold) rfl rfl
  · exact Int.le_of_lt
      (onIdle_hold_time (v := { v with idle_hold_time_ := time }) true htime)

/-- Every move keeps the invariant, given that the stop it takes off the
queue is one that deletes the session. -/
theorem moves_good (h : Good v) (hstop : ∀ enq, event = .EvStop enq →
    enq = true) (hmove : Moves true v event v') : Good v' := by
  have hnone : ∀ {state : State}, v.state_ = state → state = .IDLE
      ∨ state = .DISCONNECT → v.session_ = none := by
    intro state hs hstate
    have hiff := h.session_iff
    rw [hs] at hiff
    rw [← Option.not_isSome_iff_eq_none, hiff]
    rcases hstate with rfl | rfl <;> simp
  have hdeletes : v.session_ = none → v.deletes.Perm (List.range v.created) := by
    intro hn
    simpa [hn] using h.sessions
  cases hmove with
  | ignored _ _ => exact h
  | held hidle =>
      refine { h with hold_timer := ?_ }
      intro hne
      exact absurd hidle hne
  | parted hidle =>
      have hn := hnone hidle (.inl rfl)
      refine ⟨?_, ?_, ?_, h.hold_time, by simp [View.into], h.sessions, h.stops⟩
      · simp [View.into, View.leave, hn]
      · intro _ _
        exact leave_connect_timer h v rfl rfl
      · intro _
        simp [View.into, View.leave, hidle]
  | calmed hidle =>
      refine { h with hold_timer := ?_ }
      intro hne
      exact absurd hidle hne
  | retried hidle =>
      have hn := hnone hidle (.inl rfl)
      refine good_connect hn ?_ h.hold_time (hdeletes hn) h.stops
      simp [View.leave, hidle]
  | found hdisc _ =>
      have hn := hnone hdisc (.inr rfl)
      refine good_connect hn ?_ h.hold_time (hdeletes hn) h.stops
      have hrun := h.hold_timer (by simp [hdisc])
      simpa [View.leave, hdisc] using hrun
  | connected hconn _ =>
      have hsome := h.session_iff.mpr (.inl hconn)
      refine ⟨?_, ?_, ?_, h.hold_time, by simp [View.into], h.sessions, h.stops⟩
      · simp [View.into, hsome]
      · intro _ hne
        exact absurd rfl hne
      · intro _
        exact h.hold_timer (by simp [hconn])
  | established hinit _ =>
      have hsome := h.session_iff.mpr (.inr (.inl hinit))
      refine ⟨?_, ?_, ?_, h.hold_time, by simp [View.into], h.sessions, h.stops⟩
      · simp [View.into, View.leave, hsome]
      · intro _ _
        exact leave_connect_timer h v rfl rfl
      · intro _
        have hrun := h.hold_timer (by simp [hinit])
        simpa [View.into, View.leave, hinit] using hrun
  | @stopped enq hne =>
      obtain rfl := hstop enq rfl
      refine good_idle rfl rfl ?_ ?_ h.sessions h.stops
      · exact leave_connect_timer h v rfl rfl
      · exact Int.le_of_lt (onIdle_hold_time (v := v.leave) true h.hold_time)
  | backedOff hconn _ htime =>
      refine good_toIdle h ?_
      rw [htime]
      exact Int.natCast_nonneg _
  | dropped _ _ => exact good_toIdle h h.hold_time
  | failedOver hest _ =>
      refine good_connect rfl ?_ ?_ h.sessions h.stops
      · have hne : v.state_ ≠ .IDLE := by simp [hest]
        show T.running (if v.state_ = .IDLE then _ else T.Cancel _) = false
        rw [if_neg hne]
        exact T.running_cancel _
      · exact Int.le_of_lt (onIdle_hold_time true h.hold_time)

/-- The head of the queue, through the view. -/
theorem stops_cons {sm : SandeshClientSMImpl T} {rest : List Event}
    (hq : sm.work_queue_ = event :: rest) :
    sm.view.stops = event.stop.toList ++ rest.filterMap Event.stop := by
  show sm.work_queue_.filterMap Event.stop = _
  rw [hq]
  cases event <;> rfl

theorem good_pop {sm : SandeshClientSMImpl T} {rest : List Event}
    (h : Good sm.view) (hq : sm.work_queue_ = event :: rest) :
    Good { sm.view with stops := rest.filterMap Event.stop } := by
  refine { h with stops := ?_ }
  intro enq hmem
  refine h.stops enq ?_
  rw [stops_cons hq]
  exact List.mem_append_right _ hmem

/-- One step of a run keeps the invariant. -/
theorem step_good {sm sm' : SandeshClientSMImpl T} {a : Action}
    (h : Good sm.view) (hcreate : ∀ ans, a = .dequeue ans →
      ans.CreateSMSession = true) (hstep : step sm a = some sm') :
    Good sm'.view := by
  rcases step_cases hstep with ⟨-, hout⟩ | ⟨ans, event, rest, ha, hq, hm⟩
  · exact outside_good h hout
  · rw [hcreate ans ha] at hm
    refine moves_good (good_pop h hq) ?_ hm
    intro enq hev
    subst hev
    refine h.stops enq ?_
    rw [stops_cons hq]
    exact List.mem_cons_self

/-- `ToIdle` starts the hold timer, with a positive time. -/
theorem toIdle_started (hne : v.state_ ≠ .IDLE) {time : Int}
    (htime : 0 ≤ time) :
    ∃ t, 0 < t ∧ { v with idle_hold_time_ := time }.toIdle.idle_hold_timer_
      = T.Start t (T.Cancel v.idle_hold_timer_) := by
  have hpos := onIdle_hold_time (v := { v with idle_hold_time_ := time }) true
    htime
  refine ⟨_, hpos, ?_⟩
  show (if v.state_ = .IDLE then _ else if _ ≤ 0 then _ else _) = _
  rw [if_neg hne, if_neg (Int.not_le.mpr hpos)]
  rfl

/-- No way back to `Idle` but a stop leaves the hold timer alone. -/
theorem moves_started {created : Bool} (h : Good v) (hstop : event.stop = none)
    (hmove : Moves created v event v') (hne : v.state_ ≠ .IDLE)
    (hidle : v'.state_ = .IDLE) :
    ∃ t, 0 < t ∧ v'.idle_hold_timer_
      = T.Start t (T.Cancel v.idle_hold_timer_) := by
  cases hmove with
  | ignored _ _ => exact absurd hidle hne
  | held h' => exact absurd h' hne
  | parted h' => exact absurd h' hne
  | calmed h' => exact absurd h' hne
  | retried h' => exact absurd h' hne
  | found _ _ =>
      cases created <;> cases hidle
  | connected _ _ => cases hidle
  | established _ _ => cases hidle
  | stopped _ => cases hstop
  | backedOff _ _ htime =>
      refine toIdle_started hne ?_
      rw [htime]
      exact Int.natCast_nonneg _
  | dropped _ _ => exact toIdle_started hne h.hold_time
  | failedOver _ _ =>
      cases created <;> cases hidle

end Moves

-- ============================================================== the runs

/-- The session and the timers are where the state says. -/
structure Invariant (sm : SandeshClientSMImpl T) : Prop where
  session_iff : sm.session_ ≠ none ↔ sm.state_ = .CONNECT
    ∨ sm.state_ = .CLIENT_INIT ∨ sm.state_ = .ESTABLISHED
  connect_timer : sm.state_ = .IDLE ∨ sm.state_ = .DISCONNECT
    ∨ sm.state_ = .ESTABLISHED → T.running sm.connect_timer_ = false
  idle_hold_timer : sm.state_ ≠ .IDLE → T.running sm.idle_hold_timer_ = false
  /-- a session is current or has been given up, and that once -/
  sessions : ∀ s < sm.created,
    (sm.session_ = some s ∧ sm.enqueued.count (.EvTcpDeleteSession s) = 0)
      ∨ (sm.session_ ≠ some s ∧ sm.enqueued.count (.EvTcpDeleteSession s) = 1)

theorem invariant_of_good {sm : SandeshClientSMImpl T} (h : Good sm.view) :
    Invariant sm where
  session_iff := by
    rw [← Option.isSome_iff_ne_none]
    exact h.session_iff
  connect_timer := by
    intro hstate
    refine h.connect_timer ?_ ?_
    · rcases hstate with hs | hs | hs <;> simp [view, hs]
    · rcases hstate with hs | hs | hs <;> simp [view, hs]
  idle_hold_timer := h.hold_timer
  sessions := by
    intro s hs
    have hcount : (sm.view.deletes ++ sm.view.session_.toList).count s = 1 := by
      rw [h.sessions.count_eq]
      exact List.count_eq_one_of_mem List.nodup_range (List.mem_range.mpr hs)
    rw [List.count_append] at hcount
    rw [selects_deleted.count]
    show (sm.session_ = some s ∧ sm.view.deletes.count s = 0)
      ∨ (sm.session_ ≠ some s ∧ sm.view.deletes.count s = 1)
    have htoList : sm.view.session_.toList.count s
        = if sm.session_ = some s then 1 else 0 := by
      show sm.session_.toList.count s = _
      cases sm.session_ with
      | none => rfl
      | some x => simp [List.count_cons]
    rw [htoList] at hcount
    by_cases hcur : sm.session_ = some s
    · rw [if_pos hcur] at hcount
      exact .inl ⟨hcur, by omega⟩
    · rw [if_neg hcur] at hcount
      exact .inr ⟨hcur, by omega⟩

/-- Dequeuing anything but a stop that ends in `Idle`, which is to say
through a `ToIdle`, has started the idle-hold timer. -/
def HeldInIdle (sm : SandeshClientSMImpl T) (a : Action)
    (sm' : SandeshClientSMImpl T) : Prop :=
  ∀ ans event rest, a = .dequeue ans → sm.work_queue_ = event :: rest →
    (∀ enq, event ≠ .EvStop enq) → sm.state_ ≠ .IDLE → sm'.state_ = .IDLE →
    T.running sm'.idle_hold_timer_ = true
      ∧ ∃ time timer, 0 < time
        ∧ sm'.idle_hold_timer_ = T.Start time (T.Cancel timer)

theorem step_held {sm sm' : SandeshClientSMImpl T} {a : Action}
    (h : Good sm.view) (hstep : step sm a = some sm') :
    HeldInIdle sm a sm' := by
  intro ans event rest ha hq hstop hne hidle
  rcases step_cases hstep with ⟨hno, -⟩ | ⟨ans', event', rest', -, hq', hm⟩
  · exact absurd ha (hno ans)
  · obtain ⟨rfl, rfl⟩ : event' = event ∧ rest' = rest := by
      simpa [hq] using hq'.symm
    have hnone : event'.stop = none := by
      rw [Option.eq_none_iff_forall_ne_some]
      intro enq henq
      exact hstop enq (selects_stop.mp henq)
    obtain ⟨t, hpos, htimer⟩ :=
      moves_started (good_pop h hq') hnone hm hne hidle
    have htimer' : sm'.idle_hold_timer_
        = T.Start t (T.Cancel sm.idle_hold_timer_) := htimer
    refine ⟨?_, t, sm.idle_hold_timer_, hpos, htimer'⟩
    rw [htimer']
    exact T.running_start hpos (T.running_cancel _)

/-- `CreateSMSession` returns a session, if it is called. -/
def Creates : Action → Prop
  | .dequeue ans => ans.CreateSMSession = true
  | _ => True

/-- In every run in which sessions can be created. -/
theorem session_timer_invariant (T : Timers) (index : Nat) (as : List Action)
    (h : (machine T).Each (fun _ a _ => Creates a)
      (SandeshClientSMImpl.new T index) as) :
    Invariant (SandeshClientSMImpl.new T index) ∧ (machine T).Each
      (fun sm a sm' => Invariant sm' ∧ HeldInIdle sm a sm')
      (SandeshClientSMImpl.new T index) as := by
  refine ⟨invariant_of_good (good_new index), ?_⟩
  refine Machine.each_of (I := fun sm => Good sm.view) ?_ as (good_new index) h
  intro sm a sm' hgood hstep hcreate
  have hgood' : Good sm'.view := by
    refine step_good hgood ?_ hstep
    intro ans ha
    subst ha
    exact hcreate
  exact ⟨hgood', invariant_of_good hgood', step_held hgood hstep⟩

/-- A machine that is started, told of a collector and refused by it. -/
def refusedRun : List Action :=
  [.SetAdminState false, .dequeue ⟨true, true⟩, .SetCollectors [⟨1, 8086⟩],
    .dequeue ⟨true, true⟩, .OnSessionEvent 0 .CONNECT_FAILED,
    .dequeue ⟨true, true⟩]

theorem session_timer_invariant_refused :
    (machine .phases).Each (fun _ a _ => Creates a)
        (SandeshClientSMImpl.new .phases 0) refusedRun
      ∧ (machine .phases).Each
        (fun sm a sm' => Invariant sm' ∧ HeldInIdle sm a sm')
        (SandeshClientSMImpl.new .phases 0) refusedRun
      ∧ ((machine .phases).run (SandeshClientSMImpl.new .phases 0)
          refusedRun).map (fun sm => (sm.state_, sm.created))
        = some (.IDLE, 1) := by
  have hcreates : (machine .phases).Each (fun _ a _ => Creates a)
      (SandeshClientSMImpl.new .phases 0) refusedRun := by
    refine Machine.each_action ?_
    simp [refusedRun, Creates]
  exact ⟨hcreates, (session_timer_invariant .phases 0 refusedRun hcreates).2,
    rfl⟩

end Sandesh.ClientSM
