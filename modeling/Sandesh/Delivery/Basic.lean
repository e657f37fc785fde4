/-
A client and the collectors it talks to: the state machine of the client
(sandesh_client_sm.cc), the send side of each session it has created and
the bytes each session's collector has read (sandesh_session.cc).

`SendSandesh` puts a message on the work queue of the state machine. When
it comes off, `send_session` puts it on the send queue of the current
session, whose runner passes it to the writer, and TCP carries the bytes
of the writer to the reader at the other end. A session that fails is
replaced by a new one; nothing is sent twice.

# What stays outside

Sessions are numbered in the order in which they are created, and
`channels` has one entry for each. What a message writes comes with it
when it is submitted; it is at hand when the message is put on a session
because messages leave the work queue in the order in which they came.
When a TCP session is up, when a runner runs and how TCP cuts the bytes
is left open. Bytes that are never read are lost with their session.
-/
import Sandesh.ClientSM.Basic
import Sandesh.Framing.Send

namespace Sandesh.Delivery

open Lib Framing ClientSM

/-- What the reader at the other end hands over, if the message can be
written. -/
def payload (sandesh : Framing.Message) : Option Bytes :=
  match sandesh.header, sandesh.body with
  | some header, some body => some (header ++ body)
  | _, _ => none

/-- A session with its connection. -/
structure Channel where
  session : SendSession
  /-- what was put on the send queue, oldest first -/
  posted : List Framing.Message
  /-- what the collector has read, read by read -/
  chunks : List Bytes

/-- The memory of a writer. -/
abbrev Memory := { m : Bytes // m.length = kDefaultSendSize }

namespace Channel

/-- A session that has sent nothing. -/
def new (memory : Memory) : Channel where
  session := SendSession.new memory
  posted := []
  chunks := []

variable (Send : List Bytes → Bool) (c : Channel)

/-- What the writer has passed to TCP. -/
def wire : Bytes := c.session.writer_.sent.flatten

/-- What TCP has yet to carry. -/
def inFlight : Bytes := c.wire.drop c.chunks.flatten.length

/-- What happens to the session. -/
def act (a : SendAction) : Option Channel :=
  (sendStep Send c.session a).map fun session => { c with session := session }

/-- `send_queue_->Enqueue`. -/
def post (sandesh : Framing.Message) : Channel :=
  { c with
    session := { c.session with
      send_queue_ := c.session.send_queue_ ++ [sandesh] }
    posted := c.posted ++ [sandesh] }

/-- So many bytes arrive. -/
def arrive (n : Nat) : Channel :=
  { c with chunks := c.chunks ++ [c.inFlight.take n] }

end Channel

variable (T : Timers)

/-- The state machine of a client, what it was given, and the channels of
its sessions. -/
structure System where
  sm : SandeshClientSMImpl T
  /-- what was given to `SendSandesh`, oldest first -/
  submitted : List Framing.Message
  channels : List Channel

/-- What happens to the system. -/
inductive Action
  | SendSandesh (snh : Snh) (sandesh : Framing.Message)
  /-- anything else that happens to the state machine -/
  | client (a : ClientSM.Action)
  | established (session : Nat)
  | closed (session : Nat)
  /-- the runner of a send queue takes the next element -/
  | runner (session : Nat)
  /-- the collector reads the next bytes, at most `n` -/
  | arrive (session n : Nat)

namespace System

variable {T}

/-- No session yet. -/
def new (T : Timers) (index : Nat) : System T where
  sm := .new T index
  submitted := []
  channels := []

variable (memory : Nat → Memory) (Send : Nat → List Bytes → Bool) (sys : System T)

/-- The sessions a step of the state machine has created. -/
def opened (sm : SandeshClientSMImpl T) : List Channel :=
  (List.range' sys.sm.created (sm.created - sys.sm.created)).map fun session =>
    Channel.new (memory session)

/-- The messages a step has put on sessions, with what they write. -/
def postings (sm : SandeshClientSMImpl T) : List ((Nat × Snh) × Framing.Message) :=
  (sm.sent.drop sys.sm.sent.length).zip
    (sys.submitted.drop (sys.sm.sent.length + sys.sm.released.length))

/-- The state machine makes a step; the sessions follow. -/
def follow (sm : SandeshClientSMImpl T) : System T :=
  { sys with
    sm := sm
    channels := (sys.postings sm).foldl
      (fun channels x => channels.modify x.1.1 fun c => c.post x.2)
      (sys.channels ++ sys.opened memory sm) }

/-- Something happens to one session. -/
def at_ (session : Nat) (f : Channel → Option Channel) : Option (System T) :=
  match sys.channels[session]? with
  | none => none
  | some c => (f c).map fun c' => { sys with channels := sys.channels.set session c' }

end System

variable {T} (memory : Nat → Memory) (Send : Nat → List Bytes → Bool)

/-- What each does. -/
def step (sys : System T) : Action → Option (System T)
  | .SendSandesh snh sandesh =>
      (ClientSM.step sys.sm (.SendSandesh snh)).map fun sm =>
        { sys with sm := sm, submitted := sys.submitted ++ [sandesh] }
  | .client (.SendSandesh _) => none
  | .client a => (ClientSM.step sys.sm a).map fun sm => sys.follow memory sm
  | .established session => sys.at_ session fun c => c.act (Send session) .establish
  | .closed session => sys.at_ session fun c => c.act (Send session) .close
  | .runner session => sys.at_ session fun c => c.act (Send session) .dequeue
  | .arrive session n => sys.at_ session fun c => some (c.arrive n)

variable (T) in
/-- The system step by step. -/
def machine : Machine (System T) Action where
  step := step memory Send

-- ============================================================== reading

/-- The reader of a session, run on what its collector has read, has
handed over these messages and found nothing wrong. -/
def Channel.Reads (c : Channel) (msgs : List Bytes) : Prop :=
  ∃ s, (run strtoul (fun _ => true) (c.chunks.map .read)).Runs Session.fresh
      (.ok ()) s
    ∧ s.received = msgs ∧ s.num_recv_fail = 0

/-- Nothing is waiting in the writer or on the wire. -/
def Channel.Drained (c : Channel) : Prop :=
  c.session.writer_.send_buf_offset_ = 0 ∧ c.inFlight = []

end Sandesh.Delivery
