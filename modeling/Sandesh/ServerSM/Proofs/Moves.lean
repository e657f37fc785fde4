/-
What one event can do to the server's machine.

`View` is the part of the machine its sessions depend on. The session
operations are computed on it once (`view_set_session` and its like), and
`moves` then says everything a dequeued event can do to it, one
constructor a kind of move. The invariants of the runs are proved from
`Moves` alone, so a changed reaction is a changed case of one lemma.
-/
import Sandesh.ServerSM.Basic

namespace Sandesh.ServerSM

open Lib SandeshStateMachine

variable {T : Timers}

/-- The session an event asks to delete. -/
def Event.deleted : Event → Option Nat
  | .EvTcpDeleteSession session => some session
  | _ => none

/-- The session an event brings. -/
def Event.opened : Event → Option Nat
  | .EvTcpPassiveOpen session => some session
  | _ => none

theorem selects_deleted : Selects Event.deleted .EvTcpDeleteSession := by
  intro event s
  cases event <;> simp [Event.deleted]

theorem selects_opened : Selects Event.opened .EvTcpPassiveOpen := by
  intro event s
  cases event <;> simp [Event.opened]

/-- What the sessions of a machine depend on. -/
structure View where
  state_ : SsmState
  session_ : Option Nat
  connection_session : Option Nat
  resource_ : Bool
  /-- sessions for which an `EvTcpDeleteSession` has been enqueued -/
  deletes : List Nat
  /-- sessions whose `EvTcpPassiveOpen` is still queued -/
  waiting : List Nat
  accepted : Nat

/-- The view of a machine. -/
def SandeshStateMachine.view (sm : SandeshStateMachine T) : View where
  state_ := sm.state_
  session_ := sm.session_
  connection_session := sm.connection_session
  resource_ := sm.resource_
  deletes := sm.enqueued.filterMap Event.deleted
  waiting := sm.work_queue_.filterMap Event.opened
  accepted := sm.accepted

-- ==================================================== the operations

namespace View

/-- `set_session`: the old session is deleted, both copies move on. -/
def set_session (v : View) (session : Option Nat) : View :=
  { v with
    session_ := session
    connection_session := session
    deletes := v.deletes ++ v.session_.toList }

/-- The destructor of a state, as it acts on the view. -/
def leave (v : View) : View :=
  { v with
    resource_ := if v.state_ = .ESTABLISHED then false else v.resource_ }

/-- The constructor, as it acts on the view. -/
def enter (v : View) (state : SsmState) : View :=
  { v with
    state_ := state
    resource_ := if state = .ESTABLISHED then true else v.resource_ }

/-- The session is let go and the machine is back in `Idle`. -/
def toIdle (v : View) : View :=
  ((v.set_session none).leave).enter .IDLE

end View

section Operations

variable (sm : SandeshStateMachine T)

@[simp] theorem view_enqueue (event : Event) :
    (sm.Enqueue event).view = { sm.view with
      deletes := sm.view.deletes ++ event.deleted.toList
      waiting := sm.view.waiting ++ event.opened.toList } := by
  cases event <;> simp [view, Enqueue, Event.deleted, Event.opened]

@[simp] theorem view_call (c : Call) : (sm.call c).view = sm.view := rfl

@[simp] theorem view_set_resource (r : Bool) :
    (sm.set_resource r).view = { sm.view with resource_ := r } := rfl

@[simp] theorem view_startIdleHoldTimer :
    sm.StartIdleHoldTimer.view = sm.view := by
  unfold StartIdleHoldTimer
  split <;> rfl

@[simp] theorem view_set_session (session : Option Nat) :
    (sm.set_session session).view = sm.view.set_session session := by
  cases h : sm.session_ with
  | none => simp [set_session, View.set_session, view, h]
  | some old =>
      have hview := view_enqueue sm (.EvTcpDeleteSession old)
      simp only [set_session, h, DeleteSession, View.set_session]
      simp only [view, Enqueue, Event.deleted, Event.opened, View.mk.injEq,
        Option.toList] at hview ⊢
      simp [h, hview]

@[simp] theorem view_leave : sm.leave.view = sm.view.leave := by
  unfold SandeshStateMachine.leave View.leave
  cases h : sm.state_ <;> simp [view, h, CancelIdleHoldTimer, set_resource]

@[simp] theorem view_enter (state : SsmState) :
    (sm.enter state).view = sm.view.enter state := by
  cases state <;> rfl

@[simp] theorem view_transit (state : SsmState) :
    (sm.transit state).view = (sm.view.leave).enter state := by
  rw [transit, view_enter, view_leave]

/-- The two ways back to `Idle` differ in the order of their steps, not
in what they leave behind. -/
@[simp] theorem view_transitToIdle : sm.transitToIdle.view = sm.view.toIdle := by
  have hidle : ∀ sm : SandeshStateMachine T,
      sm.OnIdle.view = sm.view.set_session none := by
    intro sm
    exact view_set_session _ none
  rw [transitToIdle, view_enter, hidle, view_leave]
  rfl

end Operations

-- ========================================================== the moves

/-- Everything a dequeued event can do. -/
inductive Moves (v : View) : Event → View → Prop
  /-- nothing: in particular a session that arrives while another is
  served is not looked at -/
  | ignored {event : Event}
      (h : ∀ s, event = .EvTcpPassiveOpen s →
        v.state_ = .SERVER_INIT ∨ v.state_ = .ESTABLISHED) :
      Moves v event v
  | refused {s : Nat} (h : v.state_ = .IDLE) :
      Moves v (.EvTcpPassiveOpen s) { v with deletes := v.deletes ++ [s] }
  | activated {event : Event} (h : v.state_ = .IDLE)
      (hev : event.opened = none) :
      Moves v event { v with state_ := .ACTIVE }
  | opened {s : Nat} (h : v.state_ = .ACTIVE) :
      Moves v (.EvTcpPassiveOpen s)
        { v.set_session (some s) with state_ := .SERVER_INIT }
  | established {event : Event} (h : v.state_ = .SERVER_INIT)
      (hev : event.opened = none) :
      Moves v event { v with state_ := .ESTABLISHED, resource_ := true }
  | resource {rsc : Bool} (h : v.state_ = .ESTABLISHED) :
      Moves v (.EvResourceUpdate rsc) { v with resource_ := rsc }
  | closed {event : Event} (h : v.state_ ≠ .IDLE)
      (hev : event.opened = none) : Moves v event v.toIdle

section Reactions

variable {processed : Bool} {event : Event} {sm : SandeshStateMachine T}

theorem idle_moves (h : sm.state_ = .IDLE) :
    Moves sm.view event (Idle.react event sm).view := by
  have hv : sm.view.state_ = .IDLE := h
  have hactive : (sm.view.leave).enter .ACTIVE
      = { sm.view with state_ := .ACTIVE } := by
    simp [View.leave, View.enter, hv]
  cases event with
  | EvStart =>
      unfold Idle.react
      dsimp only
      split
      · rw [view_startIdleHoldTimer]
        exact .ignored nofun
      · rw [view_transit, hactive]
        exact .activated hv rfl
  | EvIdleHoldTimerExpired =>
      show Moves _ _ (sm.transit .ACTIVE).view
      rw [view_transit, hactive]
      exact .activated hv rfl
  | EvTcpPassiveOpen s =>
      have hview := view_enqueue sm (.EvTcpDeleteSession s)
      simp only [Event.deleted, Event.opened, Option.toList,
        List.append_nil] at hview
      show Moves _ _ (sm.Enqueue (.EvTcpDeleteSession s)).view
      rw [hview]
      exact .refused hv
  | EvStop => exact .ignored nofun
  | EvTcpClose s => exact .ignored nofun
  | EvTcpDeleteSession s => exact .ignored nofun
  | EvSandeshMessageRecv msg => exact .ignored nofun
  | EvSandeshCtrlMessageRecv msg => exact .ignored nofun
  | EvResourceUpdate rsc => exact .ignored nofun

theorem active_moves (h : sm.state_ = .ACTIVE) :
    Moves sm.view event (Active.react event sm).view := by
  have hv : sm.view.state_ = .ACTIVE := h
  have hne : sm.view.state_ ≠ .IDLE := by simp [hv]
  cases event with
  | EvStop =>
      show Moves _ _ sm.transitToIdle.view
      rw [view_transitToIdle]
      exact .closed hne rfl
  | EvTcpClose s =>
      show Moves _ _ ((sm.set_session none).transit .IDLE).view
      rw [view_transit, view_set_session]
      exact .closed hne rfl
  | EvTcpPassiveOpen s =>
      have hopen : ((sm.view.set_session (some s)).leave).enter .SERVER_INIT
          = { sm.view.set_session (some s) with state_ := .SERVER_INIT } := by
        simp [View.leave, View.enter, View.set_session, hv]
      show Moves _ _ ((sm.set_session (some s)).transit .SERVER_INIT).view
      rw [view_transit, view_set_session, hopen]
      exact .opened hv
  | EvStart => exact .ignored nofun
  | EvIdleHoldTimerExpired => exact .ignored nofun
  | EvTcpDeleteSession s => exact .ignored nofun
  | EvSandeshMessageRecv msg => exact .ignored nofun
  | EvSandeshCtrlMessageRecv msg => exact .ignored nofun
  | EvResourceUpdate rsc => exact .ignored nofun

/-- A reaction that asks the connection. -/
theorem orElseIdle_moves {v : View} {next : SandeshStateMachine T}
    (hno : Moves v event sm.view.toIdle) (hyes : Moves v event next.view) :
    Moves v event (sm.orElseIdle processed next).view := by
  cases processed with
  | true => exact hyes
  | false =>
      show Moves _ _ ((sm.set_session none).transit .IDLE).view
      rw [view_transit, view_set_session]
      exact hno

theorem serverInit_moves (h : sm.state_ = .SERVER_INIT) :
    Moves sm.view event (ServerInit.react processed event sm).view := by
  have hv : sm.view.state_ = .SERVER_INIT := h
  have hne : sm.view.state_ ≠ .IDLE := by simp [hv]
  cases event with
  | EvStop =>
      show Moves _ _ sm.transitToIdle.view
      rw [view_transitToIdle]
      exact .closed hne rfl
  | EvTcpClose s =>
      show Moves _ _ ((sm.set_session none).transit .IDLE).view
      rw [view_transit, view_set_session]
      exact .closed hne rfl
  | EvSandeshCtrlMessageRecv msg =>
      refine orElseIdle_moves (.closed hne rfl) ?_
      have hest : (sm.view.leave).enter .ESTABLISHED
          = { sm.view with state_ := .ESTABLISHED, resource_ := true } := by
        simp [View.leave, View.enter, hv]
      rw [view_transit, view_call, hest]
      exact .established hv rfl
  | EvSandeshMessageRecv msg =>
      exact orElseIdle_moves (.closed hne rfl) (.ignored nofun)
  | EvTcpPassiveOpen s => exact .ignored fun _ _ => .inl hv
  | EvStart => exact .ignored nofun
  | EvIdleHoldTimerExpired => exact .ignored nofun
  | EvTcpDeleteSession s => exact .ignored nofun
  | EvResourceUpdate rsc => exact .ignored nofun

theorem established_moves (h : sm.state_ = .ESTABLISHED) :
    Moves sm.view event (Established.react processed event sm).view := by
  have hv : sm.view.state_ = .ESTABLISHED := h
  have hne : sm.view.state_ ≠ .IDLE := by simp [hv]
  cases event with
  | EvStop =>
      show Moves _ _ sm.transitToIdle.view
      rw [view_transitToIdle]
      exact .closed hne rfl
  | EvTcpClose s =>
      show Moves _ _ (((sm.call (.ProcessDisconnect sm.session_)).set_session
        none).transit .IDLE).view
      rw [view_transit, view_set_session, view_call]
      exact .closed hne rfl
  | EvSandeshMessageRecv msg =>
      exact orElseIdle_moves (.closed hne rfl) (.ignored nofun)
  | EvResourceUpdate rsc =>
      refine orElseIdle_moves ?_ (.resource hv)
      -- the resource is forgotten with the state
      have hback : { sm.view with resource_ := rsc }.toIdle
          = sm.view.toIdle := by
        simp [View.toIdle, View.leave, View.set_session, hv]
      rw [view_call, view_set_resource, hback]
      exact .closed hne rfl
  | EvTcpPassiveOpen s => exact .ignored fun _ _ => .inr hv
  | EvStart => exact .ignored nofun
  | EvIdleHoldTimerExpired => exact .ignored nofun
  | EvTcpDeleteSession s => exact .ignored nofun
  | EvSandeshCtrlMessageRecv msg => exact .ignored nofun

/-- What a dequeued event does. -/
theorem dequeue_moves (processed : Bool) (event : Event)
    (sm : SandeshStateMachine T) :
    Moves sm.view event (DequeueEvent processed event sm).view := by
  by_cases hvalid : validate event sm = true
  · rw [DequeueEvent, if_pos hvalid]
    unfold process_event
    cases h : sm.state_ with
    | IDLE => exact idle_moves h
    | ACTIVE => exact active_moves h
    | SERVER_INIT => exact serverInit_moves h
    | ESTABLISHED => exact established_moves h
  · rw [DequeueEvent, if_neg hvalid]
    refine .ignored ?_
    intro s hev
    subst hev
    exact absurd rfl hvalid

end Reactions

end Sandesh.ServerSM
