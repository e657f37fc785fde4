/-
The client's state machine, `SandeshClientSMImpl`: it keeps one session to
one of the configured collectors
(library/cpp/sandesh_client_sm.cc, sandesh_client_sm.h and
sandesh_client_sm_priv.h).

As on the server, everything becomes an event on `work_queue_` and is run
to completion from there. A transition runs the destructor of the old
state, then the transition's action if it has one, then the constructor
of the new state; what a reaction does before it asks for the transition
comes before all three. An event the current state's list does not name
is discarded.

# Stale events

An event stays on the queue whatever happens to the session or the timer
it is about. `DequeueEvent` drops an event whose `validate` says no, but
only where `HasValidate` finds a `validate` of one argument: of the timer
events that is `EvConnectTimerExpired` alone, of the session events none.

# What stays outside

Sessions are numbered in the order in which `CreateSMSession` returns
them. What the manager answers while an event is processed is part of the
action that dequeues it, and a session may report an event at any time
after it was created: `set_observer(NULL)` does not reach a callback that
has begun. A null `session_` that is dereferenced ends the run (`none`).
Statistics, logging and `ConnectionState` are left out.
-/
import Sandesh.Header.Basic
import Sandesh.Lib.Machine

namespace Sandesh.ClientSM

open Lib Header

/-- The states of the machine. -/
inductive State
  | IDLE
  | DISCONNECT
  | CONNECT
  | CLIENT_INIT
  | ESTABLISHED
deriving DecidableEq

/-- `TcpServer::Endpoint`. -/
structure Endpoint where
  address : Nat
  port : Nat
deriving DecidableEq

/-- `TcpServer::Endpoint()`. -/
def Endpoint.unset : Endpoint := ⟨0, 0⟩

/-- A `Sandesh` to send. -/
structure Snh where
  Name : Bytes
  /-- `dynamic_cast<SandeshUVE *>(snh)` -/
  isUVE : Bool
deriving DecidableEq

/-- A received message whose header could be extracted. -/
structure Message where
  msg : Bytes
  header : SandeshHeader
  msg_type : Bytes
  header_offset : Nat
deriving DecidableEq

/-- The events, with what they carry that a reaction looks at. -/
inductive Event
  | EvStart
  | EvStop (enq_ : Bool)
  | EvCollectorUpdate (collectors_ : List Endpoint)
  | EvIdleHoldTimerExpired
  | EvConnectTimerExpired
  | EvTcpConnected (session : Nat)
  | EvTcpConnectFail (session : Nat)
  | EvTcpClose (session : Nat)
  | EvTcpDeleteSession (session : Nat)
  | EvSandeshSend (snh : Snh)
  | EvSandeshMessageRecv (m : Message)
deriving DecidableEq

-- `kConnectInterval` in seconds, `kIdleHoldTime` in milliseconds
def kConnectInterval : Nat := 30
def kIdleHoldTime : Int := 5000

variable (T : Timers)

/-- The members of the machine. The last five fields are a record of what it
has done. -/
structure SandeshClientSMImpl where
  state_ : State
  session_ : Option Nat
  server_ : Endpoint
  collectors_ : List Endpoint
  collector_index_ : Nat
  work_queue_ : List Event
  connect_timer_ : T.Timer
  idle_hold_timer_ : T.Timer
  idle_hold_time_ : Int
  attempts_ : Nat
  connects_ : Nat
  coll_name_ : Bytes
  /-- sessions `CreateSMSession` has returned so far -/
  created : Nat
  /-- everything ever put on `work_queue_`, oldest first -/
  enqueued : List Event
  /-- what was put on the send queue of a session -/
  sent : List (Nat × Snh)
  /-- messages released unsent -/
  released : List Snh
  /-- `DeleteSMSession` -/
  deleted : List Nat

/-- What the manager answers while one event is processed. -/
structure Answers where
  /-- `CreateSMSession` returns a session -/
  CreateSMSession : Bool
  ReceiveMsg : Bool
deriving DecidableEq

namespace SandeshClientSMImpl

variable {T} (sm : SandeshClientSMImpl T)

/-- The machine as its constructor leaves it. `collector_index_` is not
initialised there. -/
def new (T : Timers) (index : Nat) : SandeshClientSMImpl T where
  state_ := .IDLE
  session_ := none
  server_ := .unset
  collectors_ := []
  collector_index_ := index
  work_queue_ := []
  connect_timer_ := T.new
  idle_hold_timer_ := T.new
  idle_hold_time_ := 0
  attempts_ := 0
  connects_ := 0
  coll_name_ := []
  created := 0
  enqueued := []
  sent := []
  released := []
  deleted := []

/-- `Enqueue`: the task of the queue takes it later. -/
def Enqueue (event : Event) : SandeshClientSMImpl T :=
  { sm with
    work_queue_ := sm.work_queue_ ++ [event]
    enqueued := sm.enqueued ++ [event] }

/-- The session is deleted when its event is taken off the queue. -/
def EnqueDelSession (session : Nat) : SandeshClientSMImpl T :=
  sm.Enqueue (.EvTcpDeleteSession session)

/-- The old session is put up for deletion only if the caller wants that. -/
def set_session (session : Option Nat) (enq : Bool) : SandeshClientSMImpl T :=
  let sm := match sm.session_ with
    | some old => if enq then sm.EnqueDelSession old else sm
    | none => sm
  { sm with session_ := session }

/-- What needs `session_` not to be null. -/
def deref {α : Type} (next : Option α) : Option α :=
  if sm.session_.isSome then next else none

-- ========================================================== collectors

/-- The collector at the index, or none. -/
def GetCollector : Endpoint :=
  if sm.collectors_.length ≠ 0 then
    sm.collectors_.getD sm.collector_index_ .unset
  else .unset

/-- The index moved on, wrapping at the end. -/
def nextIndex : Nat :=
  if sm.collector_index_ + 1 = sm.collectors_.length then 0
  else sm.collector_index_ + 1

/-- The collector at the next index, which is kept. -/
def GetNextCollector : Endpoint × SandeshClientSMImpl T :=
  if sm.collectors_.length ≠ 0 then
    (sm.collectors_.getD sm.nextIndex .unset,
      { sm with collector_index_ := sm.nextIndex })
  else (.unset, sm)

/-- The collector that the machine is connected to or tries to be. -/
def set_server (e : Endpoint) : SandeshClientSMImpl T := { sm with server_ := e }

/-- A new list starts at its first collector. The flag says whether that is
another server than the one there was. -/
def CollectorUpdate (collectors : List Endpoint) :
    Bool × SandeshClientSMImpl T :=
  let sm := { sm with collectors_ := collectors, collector_index_ := 0 }
  if sm.server_ ≠ sm.GetCollector then (true, sm.set_server sm.GetCollector)
  else (false, sm)

/-- On to the next collector, with the same flag. -/
def CollectorChange : Bool × SandeshClientSMImpl T :=
  let (collector, sm) := sm.GetNextCollector
  if sm.server_ ≠ collector then (true, sm.set_server collector)
  else (false, sm)

-- ============================================================== timers

/-- The back-off, in seconds. -/
def GetConnectTime : Nat :=
  let backoff := min sm.attempts_ 6
  min (if backoff ≠ 0 then 1 <<< (backoff - 1) else 0) kConnectInterval

/-- Timers take milliseconds. -/
def StartConnectTimer (seconds : Nat) : SandeshClientSMImpl T :=
  { sm with connect_timer_ := T.Start (seconds * 1000) sm.connect_timer_ }

/-- The event of a timer that is cancelled does not validate. -/
def CancelConnectTimer : SandeshClientSMImpl T :=
  { sm with connect_timer_ := T.Cancel sm.connect_timer_ }

/-- Nothing is started for a time that is not positive. -/
def StartIdleHoldTimer : SandeshClientSMImpl T :=
  if sm.idle_hold_time_ ≤ 0 then sm
  else { sm with
    idle_hold_timer_ := T.Start sm.idle_hold_time_ sm.idle_hold_timer_ }

/-- The same for the other timer, whose event nobody validates. -/
def CancelIdleHoldTimer : SandeshClientSMImpl T :=
  { sm with idle_hold_timer_ := T.Cancel sm.idle_hold_timer_ }

/-- `OnIdle<EvStop>`. -/
def OnIdle (enq_ : Bool) : SandeshClientSMImpl T :=
  let sm := { sm with
    idle_hold_time_ := if sm.idle_hold_time_ ≠ 0 then sm.idle_hold_time_
      else kIdleHoldTime }
  sm.CancelIdleHoldTimer.set_session none enq_

-- ========================================================= transitions

/-- The destructor of the current state. -/
def leave : SandeshClientSMImpl T :=
  match sm.state_ with
  | .IDLE => sm.CancelIdleHoldTimer
  | .DISCONNECT => sm
  | .CONNECT => sm.CancelConnectTimer
  | .CLIENT_INIT => sm.CancelConnectTimer
  | .ESTABLISHED => { sm with coll_name_ := [] }

/-- `Connect::StartSession`. -/
def StartSession (created : Bool) : SandeshClientSMImpl T :=
  if created then
    { sm with created := sm.created + 1 }.set_session (some sm.created) true
  else sm.set_session none true

/-- The constructor of a state. -/
def enter (ans : Answers) (state : State) : Option (SandeshClientSMImpl T) :=
  let sm := { sm with state_ := state }
  match state with
  | .IDLE => some sm
  | .DISCONNECT => some sm
  | .CONNECT =>
      let sm := sm.StartSession ans.CreateSMSession
      let sm := { sm with attempts_ := sm.attempts_ + 1 }
      some (sm.StartConnectTimer sm.GetConnectTime)
  | .CLIENT_INIT =>
      let sm := sm.CancelConnectTimer
      let sm := sm.StartConnectTimer sm.GetConnectTime
      some { sm with connects_ := sm.connects_ + 1 }
  | .ESTABLISHED =>
      let sm := { sm with attempts_ := 0 }
      sm.deref (some sm)

/-- `transit<State>`: the destructor of the one state, then the constructor
of the other. -/
def transit (ans : Answers) (state : State) : Option (SandeshClientSMImpl T) :=
  sm.leave.enter ans state

/-- `TransitToIdle<EvStop>`. -/
def transitToIdle (ans : Answers) (enq_ : Bool) :
    Option (SandeshClientSMImpl T) :=
  (sm.leave.OnIdle enq_).enter ans .IDLE

/-- `ClientInit::ToIdle`, and `Established::ToIdle` word for word. -/
def ToIdle (ans : Answers) : Option (SandeshClientSMImpl T) :=
  sm.deref ((sm.OnIdle true).StartIdleHoldTimer.transit ans .IDLE)

/-- A failover: from `Established` to the next collector at once. -/
def toConnect (ans : Answers) : Option (SandeshClientSMImpl T) :=
  sm.deref ((sm.OnIdle true).transit ans .CONNECT)

-- ==================================================== in-state reactions

/-- The message is dropped. -/
def ReleaseSandesh (snh : Snh) : SandeshClientSMImpl T :=
  { sm with released := sm.released ++ [snh] }

/-- The manager deletes the session. -/
def DeleteTcpSession (session : Nat) : SandeshClientSMImpl T :=
  { sm with deleted := sm.deleted ++ [session] }

/-- `session_->send_queue()` without a test for null. -/
def send_session (snh : Snh) : Option (SandeshClientSMImpl T) :=
  match sm.session_ with
  | some session => some { sm with sent := sm.sent ++ [(session, snh)] }
  | none => none

end SandeshClientSMImpl

-- =========================================================== reactions

section Reactions

variable {T} (ans : Answers) (event : Event) (sm : SandeshClientSMImpl T)

/-- The reactions of each state. Events that are not listed are discarded.
-/
def Idle.react : Option (SandeshClientSMImpl T) :=
  match event with
  | .EvStart =>
      if sm.idle_hold_time_ ≠ 0 then some sm.StartIdleHoldTimer
      else sm.transit ans .DISCONNECT
  | .EvStop _ => some sm.CancelIdleHoldTimer
  | .EvIdleHoldTimerExpired => sm.transit ans .CONNECT
  | .EvCollectorUpdate collectors => some (sm.CollectorUpdate collectors).2
  | .EvSandeshSend snh => some (sm.ReleaseSandesh snh)
  | .EvTcpDeleteSession session => some (sm.DeleteTcpSession session)
  | _ => some sm

/-- Only a list of collectors leads on. -/
def Disconnect.react : Option (SandeshClientSMImpl T) :=
  match event with
  | .EvStop enq_ => sm.transitToIdle ans enq_
  | .EvCollectorUpdate collectors =>
      (sm.CollectorUpdate collectors).2.transit ans .CONNECT
  | .EvSandeshSend snh => some (sm.ReleaseSandesh snh)
  | .EvTcpDeleteSession session => some (sm.DeleteTcpSession session)
  | _ => some sm

/-- From here the machine waits for as long as the back-off says. -/
def Connect.ToIdle : Option (SandeshClientSMImpl T) :=
  { sm with idle_hold_time_ := sm.GetConnectTime * 1000 }.ToIdle ans

/-- A session is being opened. -/
def Connect.react : Option (SandeshClientSMImpl T) :=
  match event with
  | .EvStop enq_ => sm.transitToIdle ans enq_
  | .EvConnectTimerExpired => Connect.ToIdle ans sm.CollectorChange.2
  | .EvTcpConnected _ => sm.CancelConnectTimer.transit ans .CLIENT_INIT
  | .EvTcpConnectFail _ => Connect.ToIdle ans sm.CollectorChange.2
  | .EvTcpClose _ => Connect.ToIdle ans sm.CollectorChange.2
  | .EvCollectorUpdate collectors =>
      let (changed, sm) := sm.CollectorUpdate collectors
      if changed then Connect.ToIdle ans sm else some sm
  | .EvSandeshSend snh => some (sm.ReleaseSandesh snh)
  | .EvTcpDeleteSession session => some (sm.DeleteTcpSession session)
  | _ => some sm

/-- The session is open, and the collector has not answered. -/
def ClientInit.react : Option (SandeshClientSMImpl T) :=
  match event with
  | .EvStop enq_ => sm.transitToIdle ans enq_
  | .EvConnectTimerExpired => sm.CollectorChange.2.ToIdle ans
  | .EvTcpClose _ => sm.CollectorChange.2.ToIdle ans
  | .EvSandeshMessageRecv m =>
      if ¬ ans.ReceiveMsg then sm.ToIdle ans
      else
        let sm := { sm with coll_name_ := m.header.Source }
        if m.header.control then sm.deref (sm.transit ans .ESTABLISHED)
        else some sm
  | .EvSandeshSend snh =>
      if snh.isUVE then some (sm.ReleaseSandesh snh) else sm.send_session snh
  | .EvCollectorUpdate collectors =>
      let (changed, sm) := sm.CollectorUpdate collectors
      if changed then sm.ToIdle ans else some sm
  | .EvTcpDeleteSession session => some (sm.DeleteTcpSession session)
  | _ => some sm

/-- The collector has answered. A new one is tried without waiting. -/
def Established.react : Option (SandeshClientSMImpl T) :=
  match event with
  | .EvStop enq_ => sm.transitToIdle ans enq_
  | .EvTcpClose _ =>
      let (changed, sm) := sm.CollectorChange
      if changed then sm.toConnect ans else sm.ToIdle ans
  | .EvSandeshMessageRecv _ =>
      if ¬ ans.ReceiveMsg then sm.ToIdle ans else some sm
  | .EvSandeshSend snh => sm.send_session snh
  | .EvCollectorUpdate collectors =>
      let (changed, sm) := sm.CollectorUpdate collectors
      if changed then sm.toConnect ans else some sm
  | .EvTcpDeleteSession session => some (sm.DeleteTcpSession session)
  | _ => some sm

/-- `process_event`: the reaction of the current state. -/
def process_event : Option (SandeshClientSMImpl T) :=
  match sm.state_ with
  | .IDLE => Idle.react ans event sm
  | .DISCONNECT => Disconnect.react ans event sm
  | .CONNECT => Connect.react ans event sm
  | .CLIENT_INIT => ClientInit.react ans event sm
  | .ESTABLISHED => Established.react ans event sm

/-- The `validate` that `HasValidate` finds. The one of
`EvIdleHoldTimerExpired` takes no argument and is not found. -/
def validate : Bool :=
  match event with
  | .EvConnectTimerExpired => !T.cancelled sm.connect_timer_
  | _ => true

/-- `DequeueEvent`: an event that does not validate is dropped. -/
def DequeueEvent : Option (SandeshClientSMImpl T) :=
  if validate event sm then process_event ans event sm else some sm

end Reactions

-- ================================================================ runs

/-- `TcpSession::Event`. -/
inductive TcpEvent
  | ACCEPT
  | CONNECT_COMPLETE
  | CONNECT_FAILED
  | CLOSE
deriving DecidableEq

/-- What happens to a machine from outside, and the queue's task taking
the next event. -/
inductive Action
  | SetAdminState (down : Bool)
  | SetCollectors (collectors : List Endpoint)
  /-- also `SendSandeshUVE` -/
  | SendSandesh (snh : Snh)
  | OnSessionEvent (session : Nat) (event : TcpEvent)
  /-- on a message whose header can be extracted -/
  | OnMessage (m : Message)
  | ConnectTimerExpired
  | IdleHoldTimerExpired
  | dequeue (ans : Answers)
deriving DecidableEq

variable {T}

namespace SandeshClientSMImpl

/-- Up starts without the idle hold time, down stops. -/
def SetAdminState (sm : SandeshClientSMImpl T) (down : Bool) :
    SandeshClientSMImpl T :=
  if down then sm.Enqueue (.EvStop true)
  else { sm with idle_hold_time_ := 0 }.Enqueue .EvStart

/-- The session's observer. -/
def OnSessionEvent (sm : SandeshClientSMImpl T) (session : Nat) :
    TcpEvent → SandeshClientSMImpl T
  | .CONNECT_COMPLETE => sm.Enqueue (.EvTcpConnected session)
  | .CONNECT_FAILED => sm.Enqueue (.EvTcpConnectFail session)
  | .CLOSE => sm.Enqueue (.EvTcpClose session)
  | .ACCEPT => sm

end SandeshClientSMImpl

/-- What each action does; only a dequeue can fail. -/
def step (sm : SandeshClientSMImpl T) : Action → Option (SandeshClientSMImpl T)
  | .SetAdminState down => some (sm.SetAdminState down)
  | .SetCollectors collectors =>
      some (sm.Enqueue (.EvCollectorUpdate collectors))
  | .SendSandesh snh => some (sm.Enqueue (.EvSandeshSend snh))
  | .OnSessionEvent session event =>
      if session < sm.created then some (sm.OnSessionEvent session event)
      else none
  | .OnMessage m => some (sm.Enqueue (.EvSandeshMessageRecv m))
  | .ConnectTimerExpired =>
      if T.running sm.connect_timer_ then
        some ({ sm with
          connect_timer_ := T.expired sm.connect_timer_ }.Enqueue
            .EvConnectTimerExpired)
      else none
  | .IdleHoldTimerExpired =>
      if T.running sm.idle_hold_timer_ then
        some ({ sm with
          idle_hold_timer_ := T.expired sm.idle_hold_timer_ }.Enqueue
            .EvIdleHoldTimerExpired)
      else none
  | .dequeue ans =>
      match sm.work_queue_ with
      | [] => none
      | event :: rest => DequeueEvent ans event { sm with work_queue_ := rest }

variable (T) in
/-- The machine and what surrounds it. -/
def machine : Machine (SandeshClientSMImpl T) Action where
  step := step

end Sandesh.ClientSM
