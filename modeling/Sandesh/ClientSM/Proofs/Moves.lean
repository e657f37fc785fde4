/-
What one event can do to the client's machine.

`View` is the part of the machine the session and the timers live in. The
operations the states share are computed on it once, and `Moves` lists
everything a dequeued event can do to it; each state contributes one
lemma. Collectors and messages do not enter the view: which collector is
next decides whether a reaction leaves its state, not what leaving does.
-/
import Sandesh.ClientSM.Basic

namespace Sandesh.ClientSM

open Lib SandeshClientSMImpl

variable {T : Timers}

/-- The session an event asks to delete. -/
def Event.deleted : Event → Option Nat
  | .EvTcpDeleteSession session => some session
  | _ => none

/-- The flag of a stop. -/
def Event.stop : Event → Option Bool
  | .EvStop enq_ => some enq_
  | _ => none

/-- The two kinds of events that the view counts. -/
theorem selects_deleted : Selects Event.deleted .EvTcpDeleteSession := by
  intro event s
  cases event <;> simp [Event.deleted]

/-- The handler of `EvStop`. -/
theorem selects_stop : Selects Event.stop .EvStop := by
  intro event s
  cases event <;> simp [Event.stop]

variable (T) in
/-- What the session and the timers of a machine depend on. -/
structure View where
  state_ : State
  session_ : Option Nat
  connect_timer_ : T.Timer
  idle_hold_timer_ : T.Timer
  idle_hold_time_ : Int
  attempts_ : Nat
  created : Nat
  /-- sessions for which an `EvTcpDeleteSession` has been enqueued -/
  deletes : List Nat
  /-- the flags of the stops on the queue -/
  stops : List Bool

/-- The view of a machine. -/
def SandeshClientSMImpl.view (sm : SandeshClientSMImpl T) : View T where
  state_ := sm.state_
  session_ := sm.session_
  connect_timer_ := sm.connect_timer_
  idle_hold_timer_ := sm.idle_hold_timer_
  idle_hold_time_ := sm.idle_hold_time_
  attempts_ := sm.attempts_
  created := sm.created
  deletes := sm.enqueued.filterMap Event.deleted
  stops := sm.work_queue_.filterMap Event.stop

-- ==================================================== the operations

namespace View

variable (v : View T)

/-- The functions of the machine, as they act on the view. -/
def set_session (session : Option Nat) (enq : Bool) : View T :=
  { v with
    session_ := session
    deletes := v.deletes ++ if enq then v.session_.toList else [] }

/-- The connect timer is cancelled. -/
def cancelConnect : View T :=
  { v with connect_timer_ := T.Cancel v.connect_timer_ }

/-- The idle hold timer is cancelled. -/
def cancelHold : View T :=
  { v with idle_hold_timer_ := T.Cancel v.idle_hold_timer_ }

/-- `OnIdle`. -/
def onIdle (enq : Bool) : View T :=
  { v.cancelHold.set_session none enq with
    idle_hold_time_ := if v.idle_hold_time_ ≠ 0 then v.idle_hold_time_
      else kIdleHoldTime }

/-- `StartIdleHoldTimer`. -/
def startHold : View T :=
  { v with
    idle_hold_timer_ := if v.idle_hold_time_ ≤ 0 then v.idle_hold_timer_
      else T.Start v.idle_hold_time_ v.idle_hold_timer_ }

/-- The destructor of a state, as it acts on the view. -/
def leave : View T :=
  { v with
    connect_timer_ := if v.state_ = .CONNECT ∨ v.state_ = .CLIENT_INIT then
      T.Cancel v.connect_timer_ else v.connect_timer_
    idle_hold_timer_ := if v.state_ = .IDLE then T.Cancel v.idle_hold_timer_
      else v.idle_hold_timer_ }

/-- A new state and nothing else. -/
def into (state : State) : View T := { v with state_ := state }

/-- `Connect::Connect`. -/
def connect (created : Bool) : View T :=
  let v := v.into .CONNECT
  let v := if created then
      { v with created := v.created + 1 }.set_session (some v.created) true
    else v.set_session none true
  { v with
    attempts_ := v.attempts_ + 1
    connect_timer_ := T.Start
      (min (1 <<< (min (v.attempts_ + 1) 6 - 1)) kConnectInterval * 1000 : Nat)
      v.connect_timer_ }

/-- `ToIdle`. -/
def toIdle : View T := (((v.onIdle true).startHold).leave).into .IDLE

end View

section Operations

variable (sm : SandeshClientSMImpl T)

/-- The view of what each function returns. They are simp lemmas, so that a
reaction computes its view. -/
@[simp] theorem view_enqueue (event : Event) :
    (sm.Enqueue event).view = { sm.view with
      deletes := sm.view.deletes ++ event.deleted.toList
      stops := sm.view.stops ++ event.stop.toList } := by
  cases event <;> simp [view, Enqueue, Event.deleted, Event.stop]

/-- `set_session` on the view. -/
@[simp] theorem view_set_session (session : Option Nat) (enq : Bool) :
    (sm.set_session session enq).view = sm.view.set_session session enq := by
  cases h : sm.session_ with
  | none =>
      cases enq <;> simp [set_session, View.set_session, view, h]
  | some old =>
      cases enq with
      | false => simp [set_session, View.set_session, view, h]
      | true =>
          simp [set_session, EnqueDelSession, Enqueue, View.set_session, view,
            h, Event.deleted, Event.stop]

/-- `CancelConnectTimer` on the view. -/
@[simp] theorem view_cancelConnectTimer :
    sm.CancelConnectTimer.view = sm.view.cancelConnect := rfl

/-- `CancelIdleHoldTimer` on the view. -/
@[simp] theorem view_cancelIdleHoldTimer :
    sm.CancelIdleHoldTimer.view = sm.view.cancelHold := rfl

/-- `StartIdleHoldTimer` on the view. -/
@[simp] theorem view_startIdleHoldTimer :
    sm.StartIdleHoldTimer.view = sm.view.startHold := by
  by_cases h : sm.idle_hold_time_ ≤ 0
  · simp [StartIdleHoldTimer, View.startHold, view, h]
  · simp [StartIdleHoldTimer, View.startHold, view, h]

/-- `OnIdle` on the view. -/
@[simp] theorem view_onIdle (enq : Bool) :
    (sm.OnIdle enq).view = sm.view.onIdle enq := by
  unfold OnIdle View.onIdle
  rw [view_set_session]
  rfl

/-- Every state's exit on the view. -/
@[simp] theorem view_leave : sm.leave.view = sm.view.leave := by
  unfold SandeshClientSMImpl.leave
  cases h : sm.state_ <;> simp [view, h, CancelIdleHoldTimer,
    CancelConnectTimer, View.leave]

/-- A new list of collectors does not enter the view. -/
@[simp] theorem view_collectorUpdate (collectors : List Endpoint) :
    (sm.CollectorUpdate collectors).2.view = sm.view := by
  unfold CollectorUpdate
  dsimp only
  split <;> rfl

/-- Nor does the next collector. -/
@[simp] theorem view_collectorChange : sm.CollectorChange.2.view = sm.view := by
  unfold CollectorChange GetNextCollector
  by_cases h : sm.collectors_.length ≠ 0
  · simp only [if_pos h]
    split <;> rfl
  · simp only [if_neg h]
    split <;> rfl

end Operations

-- ========================================================= transitions

section Transitions

variable {sm sm' : SandeshClientSMImpl T} {ans : Answers}

/-- What needs a session has one if it returns. -/
theorem deref_some {α : Type} {next : Option α} {a : α}
    (h : sm.deref next = some a) : next = some a := by
  unfold deref at h
  split at h
  · exact h
  · cases h

/-- The transitions, one by one, as the destructor and the constructor act
on the view. -/
theorem transit_idle (h : sm.transit ans .IDLE = some sm') :
    sm'.view = sm.view.leave.into .IDLE := by
  injection h with h
  subst h
  rw [← view_leave]
  rfl

/-- Into `Disconnect`. -/
theorem transit_disconnect (h : sm.transit ans .DISCONNECT = some sm') :
    sm'.view = sm.view.leave.into .DISCONNECT := by
  injection h with h
  subst h
  rw [← view_leave]
  rfl

/-- The attempt is counted before the time is asked for. -/
theorem getConnectTime_succ (sm : SandeshClientSMImpl T) :
    { sm with attempts_ := sm.attempts_ + 1 }.GetConnectTime
      = min (1 <<< (min (sm.attempts_ + 1) 6 - 1)) kConnectInterval := by
  have hne : min (sm.attempts_ + 1) 6 ≠ 0 := by omega
  simp only [GetConnectTime, if_pos hne]

/-- The attempt that begins with a session. -/
theorem view_attempt (sm : SandeshClientSMImpl T) :
    ({ sm with attempts_ := sm.attempts_ + 1 }.StartConnectTimer
        { sm with attempts_ := sm.attempts_ + 1 }.GetConnectTime).view
      = { sm.view with
          attempts_ := sm.view.attempts_ + 1
          connect_timer_ := T.Start
            (min (1 <<< (min (sm.view.attempts_ + 1) 6 - 1)) kConnectInterval
              * 1000 : Nat) sm.view.connect_timer_ } := by
  rw [getConnectTime_succ]
  simp [StartConnectTimer, view]

/-- A session that could not be created is null. -/
theorem view_startSession (sm : SandeshClientSMImpl T) (created : Bool) :
    (sm.StartSession created).view
      = if created then { sm.view with
            created := sm.view.created + 1 }.set_session
          (some sm.view.created) true
        else sm.view.set_session none true := by
  cases created with
  | true => exact view_set_session { sm with created := sm.created + 1 } _ true
  | false => exact view_set_session sm none true

/-- Into `Connect`, where a session is asked for. -/
theorem transit_connect (h : sm.transit ans .CONNECT = some sm') :
    sm'.view = sm.view.leave.connect ans.CreateSMSession := by
  have hinto : { sm.leave with state_ := .CONNECT }.view
      = sm.view.leave.into .CONNECT := by
    rw [← view_leave]
    rfl
  injection h with h
  subst h
  rw [view_attempt, view_startSession, hinto]
  rfl

/-- Into `ClientInit`, where the connect timer is started again. -/
theorem transit_clientInit (h : sm.transit ans .CLIENT_INIT = some sm') :
    ∃ time, sm'.view = { sm.view.leave.cancelConnect.into .CLIENT_INIT with
      connect_timer_ := T.Start time sm.view.leave.cancelConnect.connect_timer_
      } := by
  injection h with h
  subst h
  rw [← view_leave]
  exact ⟨_, rfl⟩

/-- Into `Established`. -/
theorem transit_established (h : sm.transit ans .ESTABLISHED = some sm') :
    sm'.view = { sm.view.leave.into .ESTABLISHED with attempts_ := 0 } := by
  have h' := deref_some h
  injection h' with h'
  subst h'
  rw [← view_leave]
  rfl

/-- The three ways into `Idle` and `Connect` that do more than change the
state. -/
theorem transitToIdle_view {enq : Bool}
    (h : sm.transitToIdle ans enq = some sm') :
    sm'.view = (sm.view.leave.onIdle enq).into .IDLE := by
  injection h with h
  subst h
  rw [← view_leave, ← view_onIdle]
  rfl

/-- Into `Idle`, by `ToIdle`. -/
theorem toIdle_view (h : sm.ToIdle ans = some sm') :
    sm'.view = sm.view.toIdle := by
  rw [transit_idle (deref_some h), view_startIdleHoldTimer, view_onIdle]
  rfl

/-- Into `Connect`, after `OnIdle`. -/
theorem toConnect_view (h : sm.toConnect ans = some sm') :
    sm'.view = (sm.view.onIdle true).leave.connect ans.CreateSMSession := by
  rw [transit_connect (deref_some h), view_onIdle]

end Transitions

-- ========================================================== the moves

/-- Everything a dequeued event can do, while `CreateSMSession` gives a
session or not. -/
inductive Moves (created : Bool) (v : View T) : Event → View T → Prop
  | ignored {event : Event}
      (hidle : v.state_ = .IDLE → event ≠ .EvIdleHoldTimerExpired)
      (hstop : event.stop = none) : Moves created v event v
  /-- `EvStart` in `Idle`, which may be held there -/
  | held (h : v.state_ = .IDLE) : Moves created v .EvStart v.startHold
  | parted (h : v.state_ = .IDLE) :
      Moves created v .EvStart (v.leave.into .DISCONNECT)
  /-- `EvStop` in `Idle` -/
  | calmed {enq : Bool} (h : v.state_ = .IDLE) :
      Moves created v (.EvStop enq) v.cancelHold
  | retried (h : v.state_ = .IDLE) :
      Moves created v .EvIdleHoldTimerExpired (v.leave.connect created)
  | found {event : Event} (h : v.state_ = .DISCONNECT)
      (hstop : event.stop = none) :
      Moves created v event (v.leave.connect created)
  | connected {event : Event} {time : Int} {timer : T.Timer}
      (h : v.state_ = .CONNECT) (hstop : event.stop = none) :
      Moves created v event { v.into .CLIENT_INIT with
        connect_timer_ := T.Start time timer }
  | established {event : Event} (h : v.state_ = .CLIENT_INIT)
      (hstop : event.stop = none) :
      Moves created v event { v.leave.into .ESTABLISHED with attempts_ := 0 }
  /-- `EvStop` anywhere else -/
  | stopped {enq : Bool} (h : v.state_ ≠ .IDLE) :
      Moves created v (.EvStop enq) ((v.leave.onIdle enq).into .IDLE)
  /-- `Connect::ToIdle` -/
  | backedOff {event : Event} {time : Int} (h : v.state_ = .CONNECT)
      (hstop : event.stop = none)
      (htime : time = (min (if v.attempts_ ≠ 0 then
        1 <<< (min v.attempts_ 6 - 1) else 0) kConnectInterval * 1000 : Nat)) :
      Moves created v event { v with idle_hold_time_ := time }.toIdle
  /-- `ClientInit::ToIdle` and `Established::ToIdle` -/
  | dropped {event : Event}
      (h : v.state_ = .CLIENT_INIT ∨ v.state_ = .ESTABLISHED)
      (hstop : event.stop = none) : Moves created v event v.toIdle
  | failedOver {event : Event} (h : v.state_ = .ESTABLISHED)
      (hstop : event.stop = none) :
      Moves created v event ((v.onIdle true).leave.connect created)

section Reactions

variable {ans : Answers} {event : Event} {sm sm' : SandeshClientSMImpl T}

/-- An event that is not listed, or that only touches other fields. -/
theorem moves_same (hsame : sm'.view = sm.view)
    (hidle : sm.state_ = .IDLE → event ≠ .EvIdleHoldTimerExpired)
    (hstop : event.stop = none) :
    Moves ans.CreateSMSession sm.view event sm'.view := by
  rw [hsame]
  exact .ignored hidle hstop

/-- Each reaction makes a move: `Moves` lists what may happen in which
state. -/
theorem idle_moves (h : sm.state_ = .IDLE)
    (hr : Idle.react ans event sm = some sm') :
    Moves ans.CreateSMSession sm.view event sm'.view := by
  cases event with
  | EvStart =>
      simp only [Idle.react] at hr
      split at hr
      · injection hr with hr
        rw [← hr, view_startIdleHoldTimer]
        exact .held h
      · rw [transit_disconnect hr]
        exact .parted h
  | EvStop enq =>
      injection hr with hr
      rw [← hr, view_cancelIdleHoldTimer]
      exact .calmed h
  | EvIdleHoldTimerExpired =>
      rw [transit_connect hr]
      exact .retried h
  | EvCollectorUpdate collectors =>
      injection hr with hr
      exact moves_same (hr ▸ view_collectorUpdate sm collectors) nofun rfl
  | _ =>
      injection hr with hr
      exact moves_same (hr ▸ rfl) nofun rfl

/-- The same outside `Idle`, where every event but a stop may be ignored. -/
theorem moves_kept (hne : sm.state_ ≠ .IDLE) (hsame : sm'.view = sm.view)
    (hstop : event.stop = none) :
    Moves ans.CreateSMSession sm.view event sm'.view :=
  moves_same hsame (fun h => absurd h hne) hstop

/-- The stop is alike in all states but `Idle`. -/
theorem stop_moves {enq : Bool} (hne : sm.state_ ≠ .IDLE)
    (hr : sm.transitToIdle ans enq = some sm') :
    Moves ans.CreateSMSession sm.view (.EvStop enq) sm'.view := by
  rw [transitToIdle_view hr]
  exact .stopped hne

/-- Every reaction of `Disconnect`. -/
theorem disconnect_moves (h : sm.state_ = .DISCONNECT)
    (hr : Disconnect.react ans event sm = some sm') :
    Moves ans.CreateSMSession sm.view event sm'.view := by
  have hne : sm.state_ ≠ .IDLE := by simp [h]
  cases event with
  | EvStop enq => exact stop_moves hne hr
  | EvCollectorUpdate collectors =>
      rw [transit_connect hr, view_collectorUpdate]
      exact .found h rfl
  | _ =>
      injection hr with hr
      exact moves_kept hne (hr ▸ rfl) rfl

/-- `Connect::ToIdle`, after the collector was changed. -/
theorem backOff_moves {sm₁ : SandeshClientSMImpl T} (h : sm.state_ = .CONNECT)
    (hstop : event.stop = none) (hsame : sm₁.view = sm.view)
    (hr : Connect.ToIdle ans sm₁ = some sm') :
    Moves ans.CreateSMSession sm.view event sm'.view := by
  have htime : ({ sm₁ with idle_hold_time_ := sm₁.GetConnectTime * 1000
      } : SandeshClientSMImpl T).view
      = { sm₁.view with
          idle_hold_time_ := (min (if sm₁.view.attempts_ ≠ 0 then
            1 <<< (min sm₁.view.attempts_ 6 - 1) else 0) kConnectInterval
              * 1000 : Nat) } := by
    have hiff : min sm₁.attempts_ 6 ≠ 0 ↔ sm₁.attempts_ ≠ 0 := by omega
    simp only [view, GetConnectTime, hiff, Nat.cast_mul]
    rfl
  rw [toIdle_view hr, htime, hsame]
  exact .backedOff h hstop rfl

/-- Every reaction of `Connect`. -/
theorem connect_moves (h : sm.state_ = .CONNECT)
    (hr : Connect.react ans event sm = some sm') :
    Moves ans.CreateSMSession sm.view event sm'.view := by
  have hne : sm.state_ ≠ .IDLE := by simp [h]
  cases event with
  | EvStop enq => exact stop_moves hne hr
  | EvConnectTimerExpired =>
      exact backOff_moves h rfl (view_collectorChange sm) hr
  | EvTcpConnectFail s =>
      exact backOff_moves h rfl (view_collectorChange sm) hr
  | EvTcpClose s =>
      exact backOff_moves h rfl (view_collectorChange sm) hr
  | EvTcpConnected s =>
      obtain ⟨time, hview⟩ := transit_clientInit hr
      have hleft : sm.view.cancelConnect.leave
          = sm.view.cancelConnect.cancelConnect := by
        have hv : sm.view.state_ = .CONNECT := h
        simp [View.leave, View.cancelConnect, hv]
      rw [hview, view_cancelConnectTimer, hleft]
      exact .connected h rfl
  | EvCollectorUpdate collectors =>
      have hsame := view_collectorUpdate sm collectors
      simp only [Connect.react] at hr
      split at hr
      · exact backOff_moves h rfl hsame hr
      · injection hr with hr
        exact moves_kept hne (hr ▸ hsame) rfl
  | _ =>
      injection hr with hr
      exact moves_kept hne (hr ▸ rfl) rfl

/-- Sending is not in the view. -/
theorem send_session_view {snh : Snh} (hr : sm.send_session snh = some sm') :
    sm'.view = sm.view := by
  unfold send_session at hr
  split at hr
  · injection hr with hr
    exact hr ▸ rfl
  · cases hr

/-- Every reaction of `ClientInit`. -/
theorem clientInit_moves (h : sm.state_ = .CLIENT_INIT)
    (hr : ClientInit.react ans event sm = some sm') :
    Moves ans.CreateSMSession sm.view event sm'.view := by
  have hne : sm.state_ ≠ .IDLE := by simp [h]
  cases event with
  | EvStop enq => exact stop_moves hne hr
  | EvConnectTimerExpired =>
      rw [toIdle_view hr, view_collectorChange]
      exact .dropped (.inl h) rfl
  | EvTcpClose s =>
      rw [toIdle_view hr, view_collectorChange]
      exact .dropped (.inl h) rfl
  | EvSandeshMessageRecv m =>
      simp only [ClientInit.react] at hr
      split at hr
      · rw [toIdle_view hr]
        exact .dropped (.inl h) rfl
      · split at hr
        · rw [transit_established (deref_some hr)]
          exact .established h rfl
        · injection hr with hr
          exact moves_kept hne (hr ▸ rfl) rfl
  | EvSandeshSend snh =>
      simp only [ClientInit.react] at hr
      split at hr
      · injection hr with hr
        exact moves_kept hne (hr ▸ rfl) rfl
      · exact moves_kept hne (send_session_view hr) rfl
  | EvCollectorUpdate collectors =>
      have hsame := view_collectorUpdate sm collectors
      simp only [ClientInit.react] at hr
      split at hr
      · rw [toIdle_view hr, hsame]
        exact .dropped (.inl h) rfl
      · injection hr with hr
        exact moves_kept hne (hr ▸ hsame) rfl
  | _ =>
      injection hr with hr
      exact moves_kept hne (hr ▸ rfl) rfl

/-- Every reaction of `Established`. -/
theorem established_moves (h : sm.state_ = .ESTABLISHED)
    (hr : Established.react ans event sm = some sm') :
    Moves ans.CreateSMSession sm.view event sm'.view := by
  have hne : sm.state_ ≠ .IDLE := by simp [h]
  cases event with
  | EvStop enq => exact stop_moves hne hr
  | EvTcpClose s =>
      have hsame := view_collectorChange sm
      simp only [Established.react] at hr
      split at hr
      · rw [toConnect_view hr, hsame]
        exact .failedOver h rfl
      · rw [toIdle_view hr, hsame]
        exact .dropped (.inr h) rfl
  | EvSandeshMessageRecv m =>
      simp only [Established.react] at hr
      split at hr
      · rw [toIdle_view hr]
        exact .dropped (.inr h) rfl
      · injection hr with hr
        exact moves_kept hne (hr ▸ rfl) rfl
  | EvSandeshSend snh => exact moves_kept hne (send_session_view hr) rfl
  | EvCollectorUpdate collectors =>
      have hsame := view_collectorUpdate sm collectors
      simp only [Established.react] at hr
      split at hr
      · rw [toConnect_view hr, hsame]
        exact .failedOver h rfl
      · injection hr with hr
        exact moves_kept hne (hr ▸ hsame) rfl
  | _ =>
      injection hr with hr
      exact moves_kept hne (hr ▸ rfl) rfl

/-- What a dequeued event does. -/
theorem dequeue_moves (hr : DequeueEvent ans event sm = some sm') :
    Moves ans.CreateSMSession sm.view event sm'.view := by
  by_cases hvalid : validate event sm = true
  · rw [DequeueEvent, if_pos hvalid, process_event] at hr
    cases h : sm.state_ with
    | IDLE => exact idle_moves h (by simpa only [h] using hr)
    | DISCONNECT => exact disconnect_moves h (by simpa only [h] using hr)
    | CONNECT => exact connect_moves h (by simpa only [h] using hr)
    | CLIENT_INIT => exact clientInit_moves h (by simpa only [h] using hr)
    | ESTABLISHED => exact established_moves h (by simpa only [h] using hr)
  · rw [DequeueEvent, if_neg hvalid] at hr
    injection hr with hr
    cases event with
    | EvConnectTimerExpired => exact moves_same (hr ▸ rfl) nofun rfl
    | _ => exact absurd rfl hvalid

end Reactions

end Sandesh.ClientSM
