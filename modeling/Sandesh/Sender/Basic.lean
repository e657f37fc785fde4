/-
Sending a message and what is counted of it: the `Send` that is generated
for system logs, object logs and flows
(compiler/generate/t_cpp_generator.cc), `Dispatch` of these and of UVEs
(library/cpp/sandesh.cc), and the calls of `UpdateTxMsgStats` and
`UpdateTxMsgFailStats` there, in the client's state machine and in its
sessions (sandesh_client_sm.cc, sandesh_session.cc).

From `SendSandesh` on a message is on its way through the `System` of
`Delivery.Basic`. What that system does with a message is not repeated
here: a message that a step releases, drops or writes is counted under its
name. For this the names of the messages on each send queue are kept
beside the queue.

# What stays outside

Logging, and whether a message is logged at all. A response or a UVE whose
context is that of an HTTP session is answered there (`Http.Basic`). The
level at which a session takes messages is set by the watermarks of its
queue, here by an action; the close of the session that a UVE asks for when
that level is `SYS_UVE` is an event of its own. `requests` is not in the
code: the names of the messages that were to be sent, those of unit tests
apart.
-/
import Sandesh.Delivery.Basic
import Sandesh.MessageStats.Basic
import Sandesh.Sender.RateLimit

namespace Sandesh.Sender

open Lib ClientSM MessageStats

/-- A message of a flow or of a session is sent in the same way. -/
inductive Kind
  | system
  | object
  | flow
deriving DecidableEq

/-- What is given to `Send`, and what it writes. -/
structure Outgoing where
  name : Bytes
  kind : Kind
  level : Int
  sandesh : Framing.Message

/-- The levels of unit tests, from here to the next constant. -/
def UT_START : Int := 200
/-- The last of them. -/
def UT_END : Int := 207
/-- Above every level that is used. -/
def INVALID : Int := 0x7fffffff

/-- The static members of `Sandesh` that `Send` looks at. -/
structure Flags where
  /-- `IsUnitTest()` -/
  unit_test : Bool
  disable_sending_all_ : Bool
  disable_sending_object_logs_ : Bool
  disable_sending_flows_ : Bool
  enable_flow_log_ : Bool
  /-- `LoggingUseSyslog()` -/
  use_syslog : Bool

/-- `client_`, with its sessions. -/
structure SandeshClient (T : Timers) where
  system : Delivery.System T
  /-- `SendingLevel()` of each session -/
  sending_level_ : Nat → Int
  /-- the names of what is on each send queue, oldest first -/
  names : List (List Bytes)

variable (T : Timers)

/-- The static members of `Sandesh`, the limiters of the classes, and the
client. -/
structure Process where
  flags : Flags
  limits : Limiters Bytes
  client_ : Option (SandeshClient T)
  msg_stats_ : SandeshMessageStatistics U64
  requests : List Bytes

/-- What a program does, and what happens to its client. -/
inductive Action
  | set_flags (flags : Flags)
  | set_send_rate_limit (rate_limit : Int)
  | ConnectToCollector (index : Nat)
  | SetSendingLevel (session : Nat) (level : Int)
  | Send (m : Outgoing) (current_time : Int)
  /-- `SandeshUVE::Dispatch` -/
  | DispatchUVE (name : Bytes) (sandesh : Framing.Message)
  /-- anything else that happens to the client and its sessions -/
  | client (a : Delivery.Action)

variable {T}

namespace Process

/-- Statistics and limiters as the program starts with them. -/
def new (flags : Flags) (send_rate_limit : Nat) (capacity : Bytes → Nat) : Process T where
  flags := flags
  limits := ⟨send_rate_limit, fun name => .new (capacity name)⟩
  client_ := none
  msg_stats_ := Cpp.new
  requests := []

variable (p : Process T)

-- ============================================================= counting

/-- A message that is not sent is counted with its reason. -/
def UpdateTxMsgFailStats (name : Bytes) (reason : SandeshTxDropReason) :
    Option (Process T) :=
  (Cpp.UpdateSendFailed p.msg_stats_ name 0 reason).map fun s => { p with msg_stats_ := s }

/-- A message that is sent is counted with its bytes. -/
def UpdateTxMsgStats (name : Bytes) (bytes : U64) : Option (Process T) :=
  (Cpp.UpdateSend p.msg_stats_ name bytes).map fun s => { p with msg_stats_ := s }

-- ============================================================== sending

/-- Messages of a unit test are not sent. -/
def HandleTest (level : Int) : Bool :=
  p.flags.unit_test || (decide (UT_START ≤ level) && decide (level ≤ UT_END))

/-- The level from which on messages are dropped: that of the session's
queue. -/
def SendingLevel : Int :=
  match p.client_ with
  | none => INVALID
  | some c =>
      match c.system.sm.session_ with
      | none => INVALID
      | some session => c.sending_level_ session

/-- `client_->SendSandesh`, which always takes the message. -/
def enqueue (c : SandeshClient T) (snh : Snh) (sandesh : Framing.Message) : Process T :=
  { p with
    client_ := some { c with
      system := { c.system with
        sm := c.system.sm.Enqueue (.EvSandeshSend snh)
        submitted := c.system.submitted ++ [sandesh] } } }

/-- To the client, if there is one that takes it. -/
def SendEnqueue (name : Bytes) (sandesh : Framing.Message) : Option (Process T) :=
  match p.client_ with
  | none => p.UpdateTxMsgFailStats name .NoClient
  | some c => some (p.enqueue c ⟨name, false⟩ sandesh)

/-- The end of every `Send`. -/
def sendBelow (m : Outgoing) : Option (Process T) :=
  if m.level ≥ p.SendingLevel then p.UpdateTxMsgFailStats m.name .QueueLevel
  else p.SendEnqueue m.name m.sandesh

/-- A system log passes the rate limit first, unless the limit is zero,
which disables all of them. -/
def sendLimited (m : Outgoing) (current_time : Int) : Option (Process T) :=
  let r := (p.limits.limiters m.name).attempt p.limits.sandesh_send_ratelimit_ current_time
  let p := { p with
    limits := { p.limits with limiters := Function.update p.limits.limiters m.name r.2 } }
  match r.1 with
  | .disabled => p.UpdateTxMsgFailStats m.name .SendingDisabled
  | .passed => p.sendBelow m
  | .dropped _ => p.UpdateTxMsgFailStats m.name .RatelimitDrop

/-- The part of `Send` that differs. -/
def sendKind (m : Outgoing) (current_time : Int) : Option (Process T) :=
  match m.kind with
  | .system =>
      if p.flags.disable_sending_all_ then p.UpdateTxMsgFailStats m.name .SendingDisabled
      else p.sendLimited m current_time
  | .object =>
      if p.flags.disable_sending_all_ ∨ p.flags.disable_sending_object_logs_ then
        p.UpdateTxMsgFailStats m.name .SendingDisabled
      else p.sendBelow m
  | .flow =>
      if p.flags.enable_flow_log_ ∧ p.flags.use_syslog then
        p.UpdateTxMsgFailStats m.name .SendingToSyslog
      else if p.flags.disable_sending_all_ ∨ p.flags.disable_sending_flows_ then
        p.UpdateTxMsgFailStats m.name .SendingDisabled
      else p.sendBelow m

/-- What has been asked for, for the record. -/
def request (name : Bytes) : Process T := { p with requests := p.requests ++ [name] }

/-- The generated `Send`. -/
def Send (m : Outgoing) (current_time : Int) : Option (Process T) :=
  if p.HandleTest m.level then some p else (p.request m.name).sendKind m current_time

/-- A UVE that is not the answer to a request. -/
def DispatchUVE (name : Bytes) (sandesh : Framing.Message) : Option (Process T) :=
  let p := p.request name
  match p.client_ with
  | none => p.UpdateTxMsgFailStats name .NoClient
  | some c =>
      if p.flags.disable_sending_all_ then p.UpdateTxMsgFailStats name .SendingDisabled
      else some (p.enqueue c ⟨name, true⟩ sandesh)

-- ============================================================ the client

/-- The reason that is given for a drop in a session. -/
def dropReason : Framing.TxDropReason → SandeshTxDropReason
  | .HeaderWriteFailed => .HeaderWriteFailed
  | .WriteFailed => .WriteFailed
  | .SessionNotConnected => .SessionNotConnected

/-- The state machine makes a step: what it releases is counted, and what
it puts on sessions is named. -/
def follow (c : SandeshClient T) (system : Delivery.System T) : Option (Process T) :=
  let opened := system.channels.length - c.system.channels.length
  let names := (system.sm.sent.drop c.system.sm.sent.length).foldl
    (fun names x => names.modify x.1 fun l => l ++ [x.2.Name])
    (c.names ++ List.replicate opened [])
  (system.sm.released.drop c.system.sm.released.length).foldlM
    (fun p snh => p.UpdateTxMsgFailStats snh.Name .WrongClientSMState)
    { p with client_ := some { c with system := system, names := names } }

/-- The length of a message, with its envelope. -/
def messageLength (m : Framing.Message) : Nat :=
  match m.header, m.body with
  | some header, some body => (Framing.sandesh_open_ ++ (header ++ body)
      ++ Framing.sandesh_close_).length
  | _, _ => 0

/-- The message that a runner takes is counted as sent, or as dropped for
the reason that its session gives. -/
def countTaken (before after : Framing.SendSession) (name : Bytes) : Option (Process T) := do
  let p ← (after.drops.drop before.drops.length).foldlM
    (fun p reason => p.UpdateTxMsgFailStats name (dropReason reason)) p
  match before.send_queue_ with
  | m :: _ =>
      if before.num_send_msg < after.num_send_msg then
        p.UpdateTxMsgStats name (BitVec.ofNat 64 (messageLength m))
      else some p
  | [] => some p

/-- A runner has taken a message: what has become of it is counted. -/
def taken (c : SandeshClient T) (session : Nat) (system : Delivery.System T) :
    Option (Process T) := do
  let before ← c.system.channels[session]?
  let after ← system.channels[session]?
  let queue ← c.names[session]?
  let name ← queue.head?
  let p := { p with
    client_ := some { c with
      system := system
      names := c.names.set session queue.tail } }
  p.countTaken before.session after.session name

end Process

variable (memory : Nat → Delivery.Memory) (send : Nat → List Bytes → Bool)

/-- Something that happens to the client, other than a message to send. -/
def Process.clientStep (p : Process T) (a : Delivery.Action) : Option (Process T) := do
  let c ← p.client_
  let system ← Delivery.step memory send c.system a
  match a with
  | .SendSandesh _ _ => none
  | .client _ => p.follow c system
  | .runner session => p.taken c session system
  | _ => some { p with client_ := some { c with system := system } }

/-- What each action does. -/
def step (p : Process T) : Action → Option (Process T)
  | .set_flags flags => some { p with flags := flags }
  | .set_send_rate_limit rate_limit =>
      some { p with
        limits := { p.limits with
          sandesh_send_ratelimit_ := newLimit p.limits.sandesh_send_ratelimit_ rate_limit } }
  | .ConnectToCollector index =>
      match p.client_ with
      | some _ => none
      | none => some { p with client_ := some ⟨.new T index, fun _ => INVALID, []⟩ }
  | .SetSendingLevel session level =>
      p.client_.map fun c =>
        { p with
          client_ := some { c with
            sending_level_ := Function.update c.sending_level_ session level } }
  | .Send m current_time => p.Send m current_time
  | .DispatchUVE name sandesh => p.DispatchUVE name sandesh
  | .client a => p.clientStep memory send a

variable (T) in
/-- A process step by step. -/
def machine : Machine (Process T) Action where
  step := step memory send

end Sandesh.Sender
