/-
The Python client's state machine
(library/python/pysandesh/sandesh_state_machine.py).

`_fsm` is a `Fysom` over a table of transitions: an event is consumed
only in the source states listed for it, the current state is set, and
the callback of the new state is run. The table starts in fysom's state
`none`, which `EvStart` leaves for `Idle`. All else happens in the
callbacks and in `_dequeue_event`, which the work queue calls with one
event at a time; an exception out of it ends the queue's greenlet, and
nothing is dequeued after that.

# Timers and sessions

A pending timer is a greenlet that has not run yet; its expiry handler
forgets the timer and enqueues an event. Sessions are numbered in the
order of their creation, and an event may carry the session it is about.
`connect()` reports through `on_session_event`, possibly much later, so
its report is an action of its own; `close()` reports at once, if the
session is connected.

# What stays outside

The generator info, the connection info and the log. The connection info
does ask for the collector, which may raise. A list of collectors that is
`None` behaves as the empty one.
-/
import Sandesh.Lib.Machine
import Sandesh.Py.Protocol

namespace Sandesh.Py

open Lib

namespace StateMachine

/-- The states of `_fsm`. -/
inductive State
  /-- fysom's `none` -/
  | unstarted
  | Idle
  | Disconnect
  | Connect
  | ClientInit
  | Established
deriving DecidableEq

/-- The events, with the attributes that anything looks at. -/
inductive Event
  | EvStart
  | EvStop
  | EvIdleHoldTimerExpired
  | EvConnectTimerExpired (session : Option Nat)
  | EvCollectorUnknown
  | EvTcpConnected (session : Nat)
  | EvTcpConnectFail (session : Nat)
  | EvTcpClose (session : Nat)
  | EvCollectorChange (collectors : List Bytes)
  | EvSandeshCtrlMessageRecv (session : Nat) (msg source : Bytes)
  | EvSandeshUVESend (msg : Bytes)
deriving DecidableEq

/-- `event.session`. -/
def Event.session : Event → Option Nat
  | .EvConnectTimerExpired session => session
  | .EvTcpConnected session => some session
  | .EvTcpConnectFail session => some session
  | .EvTcpClose session => some session
  | .EvSandeshCtrlMessageRecv session _ _ => some session
  | _ => none

/-- The table of `_fsm`. -/
def dst : Event → State → Option State
  | .EvStart, .unstarted => some .Idle
  -- Idle
  | .EvIdleHoldTimerExpired, .Idle => some .Connect
  | .EvCollectorChange _, .Idle => some .Connect
  | .EvStart, .Idle => some .Connect
  -- Disconnect
  | .EvCollectorChange _, .Disconnect => some .Connect
  -- Connect
  | .EvCollectorUnknown, .Connect => some .Disconnect
  | .EvTcpConnectFail _, .Connect => some .Idle
  | .EvConnectTimerExpired _, .Connect => some .Idle
  | .EvCollectorChange _, .Connect => some .Idle
  | .EvTcpConnected _, .Connect => some .ClientInit
  -- ClientInit
  | .EvConnectTimerExpired _, .ClientInit => some .Idle
  | .EvTcpClose _, .ClientInit => some .Idle
  | .EvCollectorChange _, .ClientInit => some .Idle
  | .EvSandeshCtrlMessageRecv _ _ _, .ClientInit => some .Established
  -- Established
  | .EvTcpClose _, .Established => some .Connect
  | .EvStop, .Established => some .Idle
  | .EvCollectorChange _, .Established => some .Connect
  | _, _ => none

-- `_IDLE_HOLD_TIME`, in seconds
def idleHoldTime : Nat := 4

/-- The attributes of the machine, and a record of what became of the
messages. -/
structure SandeshStateMachine where
  /-- `_fsm.current` -/
  current : State
  session : Option Nat
  connects : Nat
  disable : Bool
  /-- `_idle_hold_timer` is pending -/
  idle_hold_timer : Bool
  /-- `_connect_timer`, with the session it was started for -/
  connect_timer : Option (Option Nat)
  collectors : List Bytes
  collector_name : Option Bytes
  collector_index : Int
  event_queue : List Event
  /-- sessions created so far -/
  created : Nat
  /-- what ended the greenlet of the queue -/
  raised : Option PyExc
  /-- messages handed to the connection -/
  handled : List Bytes
  /-- messages dropped in the wrong state -/
  dropped : List Bytes

/-- `l[i]`: a negative index counts from the end. -/
def getItem (l : List Bytes) (i : Int) : Option Bytes :=
  if 0 ≤ i then l[i.toNat]?
  else if (l.length : Int) + i < 0 then none
  else l[(l.length + i).toNat]?

/-- `s.split(':')`. -/
def splitColon (s : Bytes) : List Bytes := s.splitOn 58

namespace SandeshStateMachine

variable (sm : SandeshStateMachine)

/-- `__init__`. -/
def new (collectors : List Bytes) : SandeshStateMachine where
  current := .unstarted
  session := none
  connects := 0
  disable := false
  idle_hold_timer := false
  connect_timer := none
  collectors := collectors
  collector_name := none
  collector_index := -1
  event_queue := []
  created := 0
  raised := none
  handled := []
  dropped := []

/-- The queue's greenlet takes it later. -/
def enqueue_event (event : Event) : SandeshStateMachine :=
  { sm with event_queue := sm.event_queue ++ [event] }

/-- An exception leaves the machine as it is. -/
def raising (e : PyExc) : SandeshStateMachine := { sm with raised := some e }

/-- `collector()`: `none` stands for the exception. -/
def collector : Option (Option Bytes) :=
  if sm.collector_index = -1 then some none
  else (getItem sm.collectors sm.collector_index).map some

/-- What asks for the collector, and raises if there is none at the
index. -/
def withCollector (next : SandeshStateMachine) : SandeshStateMachine :=
  match sm.collector with
  | none => sm.raising .IndexError
  | some _ => next

/-- `self._session.close()`, on a session that is connected or not. -/
def close (connected : Bool) : SandeshStateMachine :=
  match sm.session with
  | some s => if connected then sm.enqueue_event (.EvTcpClose s) else sm
  | none => sm

/-- The session is closed, which may enqueue an event of its own, and
forgotten. -/
def delete_session (connected : Bool) : SandeshStateMachine :=
  match sm.session with
  | some _ =>
      { sm.close connected with session := none, collector_name := none }
  | none => sm

-- ============================================================== timers

/-- A timer that is pending is not started again. -/
def start_idle_hold_timer : SandeshStateMachine :=
  if sm.idle_hold_timer then sm
  else if idleHoldTime ≠ 0 then { sm with idle_hold_timer := true }
  else sm.enqueue_event .EvIdleHoldTimerExpired

/-- A cancelled timer never fires: it is a greenlet, and is killed. -/
def cancel_idle_hold_timer : SandeshStateMachine :=
  { sm with idle_hold_timer := false }

/-- Its event will carry the session there is now. -/
def start_connect_timer : SandeshStateMachine :=
  match sm.connect_timer with
  | none => { sm with connect_timer := some sm.session }
  | some _ => sm

/-- The same for the other timer. -/
def cancel_connect_timer : SandeshStateMachine :=
  { sm with connect_timer := none }

-- ========================================================= new sessions

/-- The new index, and the collector there: `none` stands for the
exception. -/
def get_next_collector : Option (Option Bytes × SandeshStateMachine) :=
  if sm.collector_index = -1 then
    if sm.collectors.isEmpty then some (none, sm)
    else (getItem sm.collectors 0).map fun c =>
      (some c, { sm with collector_index := 0 })
  else
    let index := if sm.collector_index + 1 = sm.collectors.length then 0
      else sm.collector_index + 1
    (getItem sm.collectors index).map fun c =>
      (some c, { sm with collector_index := index })

/-- `_create_session(collector)`. -/
def create_session (collector : Bytes) : SandeshStateMachine :=
  match sm.session with
  | some _ => sm.raising .AssertionError
  | none =>
      match (splitColon collector)[1]? with
      | none => sm.raising .IndexError
      | some port =>
          match int port with
          | none => sm.raising .ValueError
          | some _ =>
              { sm with session := some sm.created, created := sm.created + 1 }

-- =========================================================== callbacks

/-- `_on_idle`, the callback on entering `Idle`. -/
def on_idle (connected : Bool) : SandeshStateMachine :=
  let sm := if sm.connect_timer.isSome then sm.cancel_connect_timer else sm
  -- clean up existing connection
  let sm := sm.delete_session connected
  let sm := if sm.disable then sm else sm.start_idle_hold_timer
  sm.withCollector { sm with collector_name := none }

/-- The part of `_on_connect` after the collector is chosen. -/
def connect_to (collector : Bytes) : SandeshStateMachine :=
  sm.withCollector <|
    let sm := sm.create_session collector
    if sm.raised.isSome then sm else sm.start_connect_timer

/-- `_on_connect`. A list without collectors leads on to `Disconnect`. -/
def on_connect (connected : Bool) : SandeshStateMachine :=
  let sm := if sm.idle_hold_timer then sm.cancel_idle_hold_timer else sm
  let sm := { sm with collector_name := none }
  -- clean up existing connection
  let sm := sm.delete_session connected
  match sm.get_next_collector with
  | none => sm.raising .IndexError
  | some (some collector, sm) => sm.connect_to collector
  | some (none, sm) => sm.enqueue_event .EvCollectorUnknown

/-- `_on_client_init`; a session that is gone raises. -/
def on_client_init : SandeshStateMachine :=
  let sm := { sm with connects := sm.connects + 1 }
  match sm.session with
  | none => sm.raising .AttributeError
  | some _ => sm.withCollector sm

/-- `_on_established`, with what the event carries. -/
def on_established (msg source : Bytes) : SandeshStateMachine :=
  let sm := sm.cancel_connect_timer
  let sm := { sm with
    collector_name := some source, handled := sm.handled ++ [msg] }
  sm.withCollector sm

/-- Entering a state: there is no callback for `Disconnect`, `_on_disconnect`
is not registered. -/
def enter (connected : Bool) (event : Event) (state : State) :
    SandeshStateMachine :=
  let sm := { sm with current := state }
  match state with
  | .Idle => sm.on_idle connected
  | .Connect => sm.on_connect connected
  | .ClientInit => sm.on_client_init
  | .Established =>
      match event with
      | .EvSandeshCtrlMessageRecv _ msg source => sm.on_established msg source
      | _ => sm
  | .Disconnect => sm
  | .unstarted => sm

-- ======================================================= _dequeue_event

/-- A new list of collectors: does the machine have to move? -/
def collector_change (collectors : List Bytes) :
    Option (Bool × SandeshStateMachine) :=
  match sm.collector with
  | none => none
  | some collector =>
      let sm := { sm with collector_index := -1, collectors := collectors }
      if collectors.head?.isSome ∧ collectors.head? = collector then
        some (false, { sm with collector_index := 0 })
      else some (true, sm)

/-- The last part of `_dequeue_event`: what is done with an event in the
current state. -/
def process (connected : Bool) (event : Event) : SandeshStateMachine :=
  match event with
  | .EvSandeshUVESend msg =>
      if sm.current = .Established ∨ sm.current = .ClientInit then
        { sm with handled := sm.handled ++ [msg] }
      else { sm with dropped := sm.dropped ++ [msg] }
  | .EvSandeshCtrlMessageRecv _ msg _ =>
      if sm.current = .Established then
        { sm with handled := sm.handled ++ [msg] }
      else
        match dst event sm.current with
        | none => sm
        | some state => sm.enter connected event state
  | _ =>
      match dst event sm.current with
      | none => sm
      | some state => sm.enter connected event state

/-- `_dequeue_event`. Events of another session than the machine's are
ignored here. -/
def dequeue_event (connected : Bool) (event : Event) : SandeshStateMachine :=
  if event.session.isSome ∧ event.session ≠ sm.session then sm
  else
    match event with
    | .EvCollectorChange collectors =>
        match sm.collector_change collectors with
        | none => sm.raising .IndexError
        | some (false, sm) => sm
        | some (true, sm) => sm.process connected event
    | _ => sm.process connected event

end SandeshStateMachine

-- ================================================================ runs

/-- The events of a session. -/
inductive SessionEvent
  | SESSION_ESTABLISHED
  | SESSION_ERROR
  | SESSION_CLOSE
deriving DecidableEq

/-- What happens to a machine from outside, and the queue taking the next
event. -/
inductive Action
  | initialize_
  | shutdown
  | set_admin_state (down : Bool)
  | set_collectors (collectors : List Bytes)
  | on_session_event (session : Nat) (event : SessionEvent)
  /-- with `sandesh_ctrl.success`, and whether the session is connected -/
  | on_sandesh_ctrl_msg_receive (session : Nat) (success connected : Bool)
      (msg collector : Bytes)
  | on_sandesh_uve_msg_send (msg : Bytes)
  | idle_hold_timer_expiry
  | connect_timer_expiry
  /-- with whether the session is connected -/
  | dequeue (connected : Bool)
deriving DecidableEq

namespace SandeshStateMachine

variable (sm : SandeshStateMachine)

/-- `set_admin_state`: `disable` is set before the event is taken. -/
def set_admin_state (down : Bool) : SandeshStateMachine :=
  if down then { sm with disable := true }.enqueue_event .EvStop
  else { sm with disable := false }.enqueue_event .EvStart

/-- A session that is not the machine's is ignored here as well. -/
def on_session_event (session : Nat) (event : SessionEvent) :
    SandeshStateMachine :=
  if sm.session ≠ some session then sm
  else
    match event with
    | .SESSION_ESTABLISHED => sm.enqueue_event (.EvTcpConnected session)
    | .SESSION_ERROR => sm.enqueue_event (.EvTcpConnectFail session)
    | .SESSION_CLOSE => sm.enqueue_event (.EvTcpClose session)

/-- A message that could not be decoded closes the session. -/
def on_sandesh_ctrl_msg_receive (session : Nat) (success connected : Bool)
    (msg collector : Bytes) : SandeshStateMachine :=
  if success then
    sm.enqueue_event (.EvSandeshCtrlMessageRecv session msg collector)
  else sm.close connected

end SandeshStateMachine

/-- What each action does. -/
def step (sm : SandeshStateMachine) : Action → Option SandeshStateMachine
  | .initialize_ => some (sm.enqueue_event .EvStart)
  | .shutdown => some ({ sm with disable := true }.enqueue_event .EvStop)
  | .set_admin_state down => some (sm.set_admin_state down)
  | .set_collectors collectors =>
      some (sm.enqueue_event (.EvCollectorChange collectors))
  | .on_session_event session event => some (sm.on_session_event session event)
  | .on_sandesh_ctrl_msg_receive session success connected msg collector =>
      if session < sm.created then
        some (sm.on_sandesh_ctrl_msg_receive session success connected msg
          collector)
      else none
  | .on_sandesh_uve_msg_send msg =>
      some (sm.enqueue_event (.EvSandeshUVESend msg))
  | .idle_hold_timer_expiry =>
      if sm.idle_hold_timer then
        some ({ sm with idle_hold_timer := false }.enqueue_event
          .EvIdleHoldTimerExpired)
      else none
  | .connect_timer_expiry =>
      match sm.connect_timer with
      | none => none
      | some session =>
          some ({ sm with connect_timer := none }.enqueue_event
            (.EvConnectTimerExpired session))
  | .dequeue connected =>
      match sm.event_queue, sm.raised with
      | event :: rest, none =>
          some ({ sm with event_queue := rest }.dequeue_event connected event)
      | _, _ => none

/-- The machine and what surrounds it. -/
def machine : Machine SandeshStateMachine Action where
  step := step

end StateMachine

end Sandesh.Py
