/-
The server's state machine, `SandeshStateMachine`, one for each connection
(library/cpp/sandesh_state_machine.cc and .h, with the two functions of
sandesh_connection.cc and sandesh_server.cc that feed it).

Everything that happens to a connection becomes an event on
`work_queue_`; the queue's task takes the events off one at a time and
runs each to completion. A reaction may leave its state: the state's
destructor runs, then the transition's action if it has one, then the
constructor of the next state. An event that the reaction list of the
state does not name is discarded.

# Two copies of one pointer

The session is held by the machine (`session_`) and by the connection
(`connection_->session_`); only `set_session` writes them. A session that
is let go is closed and an `EvTcpDeleteSession` for it put on the queue,
behind whatever is waiting there.

# What stays outside

Sessions are numbered in the order in which the server accepts them, so
two are the same when the pointers would be. What the connection answers
when it is asked to process something is part of the action that takes
the event off the queue. Statistics and logging are left out, and a run
ends before the lifetime manager destroys the connection.
-/
import Sandesh.Lib.Machine
import Sandesh.Lib.Text

namespace Sandesh.ServerSM

open Lib

/-- The states of the machine. -/
inductive SsmState
  | IDLE
  | ACTIVE
  | ESTABLISHED
  | SERVER_INIT
deriving DecidableEq

/-- The events, with what they carry that a reaction looks at. -/
inductive Event
  | EvStart
  | EvStop
  | EvIdleHoldTimerExpired
  | EvTcpPassiveOpen (session : Nat)
  | EvTcpClose (session : Nat)
  | EvTcpDeleteSession (session : Nat)
  | EvSandeshMessageRecv (msg : Bytes)
  | EvSandeshCtrlMessageRecv (msg : Bytes)
  | EvResourceUpdate (rsc : Bool)
deriving DecidableEq

/-- What the machine asks of its connection and of the server. -/
inductive Call
  | ProcessSandeshCtrlMessage (msg : Bytes)
  | ProcessSandeshMessage (msg : Bytes) (resource : Bool)
  | ProcessResourceUpdate (rsc : Bool)
  | ProcessDisconnect (session : Option Nat)
  | DeleteSession (session : Nat)
  | ManagedDelete
deriving DecidableEq

/-- `SandeshStateMachine::kIdleHoldTime`, in milliseconds. -/
def kIdleHoldTime : Int := 5000

variable (T : Timers)

/-- The members of the machine. The last three fields are a record of what
it has done. -/
structure SandeshStateMachine where
  state_ : SsmState
  session_ : Option Nat
  /-- `connection_->session()` -/
  connection_session : Option Nat
  resource_ : Bool
  idle_hold_timer_ : T.Timer
  idle_hold_time_ : Int
  work_queue_ : List Event
  /-- sessions accepted so far -/
  accepted : Nat
  /-- everything ever put on `work_queue_`, oldest first -/
  enqueued : List Event
  /-- what has been asked of the connection, oldest first -/
  calls : List Call

namespace SandeshStateMachine

variable {T} (sm : SandeshStateMachine T)

/-- The machine as its constructor leaves it, in `Idle`. -/
def new (T : Timers) : SandeshStateMachine T where
  state_ := .IDLE
  session_ := none
  connection_session := none
  resource_ := false
  idle_hold_timer_ := T.new
  idle_hold_time_ := 0
  work_queue_ := []
  accepted := 0
  enqueued := []
  calls := []

/-- `Enqueue`: the task of the queue takes it later. -/
def Enqueue (event : Event) : SandeshStateMachine T :=
  { sm with
    work_queue_ := sm.work_queue_ ++ [event]
    enqueued := sm.enqueued ++ [event] }

/-- One more call of the connection. -/
def call (c : Call) : SandeshStateMachine T :=
  { sm with calls := sm.calls ++ [c] }

/-- The session is deleted when its event is taken off the queue. -/
def DeleteSession (session : Nat) : SandeshStateMachine T :=
  sm.Enqueue (.EvTcpDeleteSession session)

/-- The connection gets the session as well; the old one is put up for
deletion. -/
def set_session (session : Option Nat) : SandeshStateMachine T :=
  let sm := match sm.session_ with
    | some old => sm.DeleteSession old
    | none => sm
  { sm with connection_session := session, session_ := session }

/-- Set in `Established`, and by its event. -/
def set_resource (r : Bool) : SandeshStateMachine T :=
  { sm with resource_ := r }

-- ============================================================== timers

/-- Nothing is started for a time that is not positive. -/
def StartIdleHoldTimer : SandeshStateMachine T :=
  if sm.idle_hold_time_ ≤ 0 then sm
  else { sm with
    idle_hold_timer_ := T.Start sm.idle_hold_time_ sm.idle_hold_timer_ }

/-- The timer's event is not validated, so one that has fired is still
taken. -/
def CancelIdleHoldTimer : SandeshStateMachine T :=
  { sm with idle_hold_timer_ := T.Cancel sm.idle_hold_timer_ }

/-- The action of the transitions to `Idle` on `EvStop`. -/
def OnIdle : SandeshStateMachine T :=
  let sm := { sm with
    idle_hold_time_ := if sm.idle_hold_time_ ≠ 0 then sm.idle_hold_time_
      else kIdleHoldTime }
  sm.CancelIdleHoldTimer.set_session none

-- The session's server deletes it, then the connection goes.
def DeleteTcpSession (session : Nat) : SandeshStateMachine T :=
  (sm.call (.DeleteSession session)).call .ManagedDelete

-- ========================================================= transitions

/-- The destructor of the current state. -/
def leave : SandeshStateMachine T :=
  match sm.state_ with
  | .IDLE => sm.CancelIdleHoldTimer
  | .ACTIVE => sm
  | .SERVER_INIT => sm
  | .ESTABLISHED => sm.set_resource false

/-- The constructor of a state. -/
def enter (state : SsmState) : SandeshStateMachine T :=
  let sm := { sm with state_ := state }
  match state with
  | .IDLE => sm
  | .ACTIVE => sm
  | .SERVER_INIT => sm
  | .ESTABLISHED => sm.set_resource true

/-- `transit<State>`: the destructor of the one state, then the constructor
of the other. -/
def transit (state : SsmState) : SandeshStateMachine T :=
  sm.leave.enter state

/-- `TransitToIdle<EvStop>`. -/
def transitToIdle : SandeshStateMachine T := sm.leave.OnIdle.enter .IDLE

/-- A reaction that asks the connection and leaves for `Idle` when the
answer is no. -/
def orElseIdle (ok : Bool) (next : SandeshStateMachine T) :
    SandeshStateMachine T :=
  if ok then next else (sm.set_session none).transit .IDLE

end SandeshStateMachine

-- =========================================================== reactions

section Reactions

variable {T} (processed : Bool) (event : Event) (sm : SandeshStateMachine T)

/-- The reactions of each state. Events that are not listed are discarded.
-/
def Idle.react : SandeshStateMachine T :=
  match event with
  | .EvStart =>
      if sm.idle_hold_time_ ≠ 0 then sm.StartIdleHoldTimer
      else sm.transit .ACTIVE
  | .EvStop => sm.CancelIdleHoldTimer
  -- close the session and ignore the event
  | .EvTcpPassiveOpen session => sm.DeleteSession session
  | .EvIdleHoldTimerExpired => sm.transit .ACTIVE
  | .EvTcpDeleteSession session => sm.DeleteTcpSession session
  | _ => sm

/-- A session is waited for. -/
def Active.react : SandeshStateMachine T :=
  match event with
  | .EvStop => sm.transitToIdle
  | .EvTcpPassiveOpen session =>
      (sm.set_session (some session)).transit .SERVER_INIT
  | .EvTcpClose _ => (sm.set_session none).transit .IDLE
  | .EvTcpDeleteSession session => sm.DeleteTcpSession session
  | _ => sm

/-- The first message is waited for. -/
def ServerInit.react : SandeshStateMachine T :=
  match event with
  | .EvStop => sm.transitToIdle
  | .EvTcpClose _ => (sm.set_session none).transit .IDLE
  | .EvSandeshCtrlMessageRecv msg =>
      let sm := sm.call (.ProcessSandeshCtrlMessage msg)
      sm.orElseIdle processed (sm.transit .ESTABLISHED)
  | .EvSandeshMessageRecv msg =>
      let sm := sm.call (.ProcessSandeshMessage msg true)
      sm.orElseIdle processed sm
  | .EvTcpDeleteSession session => sm.DeleteTcpSession session
  | _ => sm

/-- Messages are handed on until the session closes. -/
def Established.react : SandeshStateMachine T :=
  match event with
  | .EvStop => sm.transitToIdle
  | .EvTcpClose _ =>
      ((sm.call (.ProcessDisconnect sm.session_)).set_session none).transit
        .IDLE
  | .EvSandeshMessageRecv msg =>
      let sm := sm.call (.ProcessSandeshMessage msg sm.resource_)
      sm.orElseIdle processed sm
  | .EvTcpDeleteSession session => sm.DeleteTcpSession session
  | .EvResourceUpdate rsc =>
      let sm := (sm.set_resource rsc).call (.ProcessResourceUpdate rsc)
      sm.orElseIdle processed sm
  | _ => sm

/-- `process_event`: the reaction of the current state. -/
def process_event : SandeshStateMachine T :=
  match sm.state_ with
  | .IDLE => Idle.react event sm
  | .ACTIVE => Active.react event sm
  | .SERVER_INIT => ServerInit.react processed event sm
  | .ESTABLISHED => Established.react processed event sm

/-- The `validate` that `HasValidate` finds: `EvIdleHoldTimerExpired` has
one too, but without the argument the template asks for. -/
def validate : Bool :=
  match event with
  | .EvTcpClose session =>
      decide (sm.connection_session = some session
        ∨ sm.session_ = some session)
  | _ => true

/-- `DequeueEvent`: an event that does not validate is dropped. -/
def DequeueEvent : SandeshStateMachine T :=
  if validate event sm then process_event processed event sm else sm

end Reactions

-- ================================================================ runs

/-- What happens to a machine from outside, and the queue's task taking
the next event. -/
inductive Action
  | Initialize
  | Shutdown
  | SetAdminState (down : Bool)
  /-- `PassiveOpen` with the next session -/
  | PassiveOpen
  /-- `OnSessionEvent`, `TcpSession::CLOSE` -/
  | sessionClosed (session : Nat)
  /-- `OnSandeshMessage`, on a message that is not dropped -/
  | OnSandeshMessage (control : Bool) (msg : Bytes)
  | ResourceUpdate (rsc : Bool)
  | IdleHoldTimerExpired
  /-- with what the connection answers if it is asked -/
  | dequeue (processed : Bool)
deriving DecidableEq

variable {T}

/-- Up starts without the idle hold time, down stops. -/
def SandeshStateMachine.SetAdminState (sm : SandeshStateMachine T)
    (down : Bool) : SandeshStateMachine T :=
  if down then sm.Enqueue .EvStop
  else { sm with idle_hold_time_ := 0 }.Enqueue .EvStart

/-- What each action does. -/
def step (sm : SandeshStateMachine T) : Action → Option (SandeshStateMachine T)
  | .Initialize => some (sm.Enqueue .EvStart)
  | .Shutdown => some (sm.Enqueue .EvStop)
  | .SetAdminState down => some (sm.SetAdminState down)
  | .PassiveOpen =>
      some ({ sm with accepted := sm.accepted + 1 }.Enqueue
        (.EvTcpPassiveOpen sm.accepted))
  | .sessionClosed session =>
      if session < sm.accepted then some (sm.Enqueue (.EvTcpClose session))
      else none
  | .OnSandeshMessage control msg =>
      some (sm.Enqueue (if control then .EvSandeshCtrlMessageRecv msg
        else .EvSandeshMessageRecv msg))
  | .ResourceUpdate rsc => some (sm.Enqueue (.EvResourceUpdate rsc))
  | .IdleHoldTimerExpired =>
      if T.running sm.idle_hold_timer_ then
        some ({ sm with
          idle_hold_timer_ := T.expired sm.idle_hold_timer_ }.Enqueue
            .EvIdleHoldTimerExpired)
      else none
  | .dequeue processed =>
      match sm.work_queue_ with
      | [] => none
      | event :: rest =>
          some (DequeueEvent processed event { sm with work_queue_ := rest })

variable (T) in
/-- The machine and what surrounds it. -/
def machine : Machine (SandeshStateMachine T) Action where
  step := step

end Sandesh.ServerSM
