/-
The C++ send side: `SandeshWriter` collects encoded messages in a buffer
of `kDefaultSendSize` bytes and hands them to the TCP session in blocks
(library/cpp/sandesh_session.cc and .h).

`SendMsg` takes one of two paths. With `more` messages waiting in the
send queue a message may stay in `send_buf_`; without, everything pending
goes out with it. The two paths test the same sum against the same limit
with different comparisons, and the two functions that write to the
buffer assert that there is room; a failing assert stops the run.

The memory behind `send_buf_` is allocated once and never initialised,
and a reset only moves `send_buf_offset_` back, so bytes past it are
whatever was there before.
-/
import Sandesh.Framing.Basic
import Sandesh.Lib.Machine

namespace Sandesh.Framing

open Lib

/-- `SandeshWriter::kDefaultSendSize`. -/
def kDefaultSendSize : Nat := 16384

/-- `SandeshWriter`, with the blocks it has passed to `session_->Send`,
oldest first. -/
structure SandeshWriter where
  send_buf_ : Bytes
  /-- `new uint8_t[kDefaultSendSize]` -/
  size : send_buf_.length = kDefaultSendSize
  send_buf_offset_ : Nat
  ready_to_send_ : Bool
  sent : List Bytes

/-- The asserts of the writer. -/
inductive SendAssert
  | set_send_buf
  | append_send_buf
deriving DecidableEq

theorem memcpy_length {buffer src : Bytes} {pos : Nat}
    (h : pos + src.length ≤ buffer.length) :
    (memcpy buffer pos src).length = buffer.length := by
  simp only [memcpy, List.length_append, List.length_take, List.length_drop]
  omega

namespace SandeshWriter

/-- A new writer, over memory that holds anything. -/
def new (memory : Bytes) (h : memory.length = kDefaultSendSize) :
    SandeshWriter where
  send_buf_ := memory
  size := h
  send_buf_offset_ := 0
  ready_to_send_ := true
  sent := []

-- `assert(len && (len < kDefaultSendSize))`
/-- A message that fits starts the buffer. -/
def set_send_buf (w : SandeshWriter) (buf : Bytes) :
    Except SendAssert SandeshWriter :=
  if h : buf.length ≠ 0 ∧ buf.length < kDefaultSendSize then
    .ok { w with
      send_buf_ := memcpy w.send_buf_ 0 buf
      size := by rw [memcpy_length (by rw [w.size]; omega), w.size]
      send_buf_offset_ := buf.length }
  else .error .set_send_buf

-- `assert(len && ((len + send_buf_offset_) < kDefaultSendSize))`
/-- A message that fits goes behind what there is. -/
def append_send_buf (w : SandeshWriter) (buf : Bytes) :
    Except SendAssert SandeshWriter :=
  if h : buf.length ≠ 0
      ∧ buf.length + w.send_buf_offset_ < kDefaultSendSize then
    .ok { w with
      send_buf_ := memcpy w.send_buf_ w.send_buf_offset_ buf
      size := by rw [memcpy_length (by rw [w.size]; omega), w.size]
      send_buf_offset_ := w.send_buf_offset_ + buf.length }
  else .error .append_send_buf

/-- The buffer is empty again. -/
def reset_send_buf (w : SandeshWriter) : SandeshWriter :=
  { w with send_buf_offset_ := 0 }

/-- The unsent data. -/
def unsent (w : SandeshWriter) : Bytes :=
  w.send_buf_.take w.send_buf_offset_

variable (Send : List Bytes → Bool)

/-- `SendInternal`. What `session_->Send` answers may depend on all it
has been given. -/
def SendInternal (w : SandeshWriter) (buf : Bytes) : SandeshWriter :=
  { w with
    sent := w.sent ++ [buf]
    ready_to_send_ := Send (w.sent ++ [buf]) }

/-- More messages are to come: what fits is kept, what does not goes out. -/
def SendMsgMore (w : SandeshWriter) (buf : Bytes) :
    Except SendAssert SandeshWriter :=
  if w.send_buf_offset_ ≠ 0 then
    -- we have some unsent data
    let bulk_msg_len := w.send_buf_offset_ + buf.length
    if bulk_msg_len < kDefaultSendSize then w.append_send_buf buf
    else .ok ((w.SendInternal Send w.unsent).reset_send_buf.SendInternal Send
      buf)
  else if kDefaultSendSize ≤ buf.length then .ok (w.SendInternal Send buf)
  else w.set_send_buf buf

/-- No more are to come: everything goes out. -/
def SendMsgAll (w : SandeshWriter) (buf : Bytes) : SandeshWriter :=
  if w.send_buf_offset_ ≠ 0 then
    let bulk_msg_len := w.send_buf_offset_ + buf.length
    if bulk_msg_len ≤ kDefaultSendSize then
      (w.SendInternal Send (w.unsent ++ buf)).reset_send_buf
    else
      -- unsent data first, then the last message
      (w.SendInternal Send w.unsent).reset_send_buf.SendInternal Send buf
  else w.SendInternal Send buf

/-- The tail of `SendMsg`, on an encoded message. `send_buf_` is never
null, so the branch that sends at once is not taken. -/
def SendMsg (w : SandeshWriter) (buf : Bytes) (more : Bool) :
    Except SendAssert SandeshWriter :=
  if more then w.SendMsgMore Send buf else .ok (w.SendMsgAll Send buf)

/-- The messages a writer handles, each with its `more` flag. -/
def SendMsgs : List (Bytes × Bool) → SandeshWriter →
    Except SendAssert SandeshWriter
  | [], w => .ok w
  | (buf, more) :: steps, w =>
      match w.SendMsg Send buf more with
      | .error a => .error a
      | .ok w' => SendMsgs steps w'

end SandeshWriter

end Sandesh.Framing

/-
The C++ send queue: `SandeshSession::SendMsg` is called with one message
after another and passes each to `SandeshWriter::SendMsg`, which encodes
it and hands it on (library/cpp/sandesh_session.cc).

`more` is read from the queue after the message has been taken off it. A
message whose header or body cannot be written is counted and dropped,
before anything is done with the buffer. A write that succeeds returns
the number of bytes it wrote; the assert on their sum, and those of the
buffer, stop the run.
-/

namespace Sandesh.Framing

open Lib

/-- What the header and the message itself write: nothing if the write
fails. -/
structure Message where
  header : Option Bytes
  body : Option Bytes
deriving DecidableEq

/-- Why a message was not written. -/
inductive TxDropReason
  | HeaderWriteFailed
  | WriteFailed
  | SessionNotConnected
deriving DecidableEq

/-- The send side of a `SandeshSession`. -/
structure SendSession where
  /-- `IsEstablished()` -/
  established : Bool
  send_queue_ : List Message
  writer_ : SandeshWriter
  num_send_msg : Nat
  num_send_msg_fail : Nat
  /-- the reasons given to `UpdateTxMsgFailStats` -/
  drops : List TxDropReason

namespace SendSession

/-- A new session, over memory that holds anything. -/
def new (memory : { m : Bytes // m.length = kDefaultSendSize }) :
    SendSession where
  established := false
  send_queue_ := []
  writer_ := SandeshWriter.new memory.1 memory.2
  num_send_msg := 0
  num_send_msg_fail := 0
  drops := []

variable (Send : List Bytes → Bool) (s : SendSession)

/-- The failure is counted and reported. -/
def fail (reason : TxDropReason) : SendSession :=
  { s with
    num_send_msg_fail := s.num_send_msg_fail + 1
    drops := s.drops ++ [reason] }

/-- `SandeshWriter::SendMsg`, with the encoding of the message. -/
def writerSendMsg (sandesh : Message) (more : Bool) : Option SendSession :=
  match sandesh.header with
  | none => some (s.fail .HeaderWriteFailed)
  | some header =>
      match sandesh.body with
      | none => some (s.fail .WriteFailed)
      | some body =>
          let xfer := header.length + body.length
          let offset := (sandesh_open_ ++ (header ++ body)
            ++ sandesh_close_).length % 2 ^ 32
          -- sanity
          if sandesh_open_.length + xfer + sandesh_close_.length ≠ offset then
            none
          else
            match s.writer_.SendMsg Send (envelope (header ++ body)) more with
            | .error _ => none
            | .ok writer => some { s with
                writer_ := writer
                num_send_msg := s.num_send_msg + 1 }

/-- `SandeshSession::SendMsg`, on an element just taken from the queue. -/
def SendMsg (sandesh : Message) : Option SendSession :=
  if s.established then s.writerSendMsg Send sandesh (!s.send_queue_.isEmpty)
  else some (s.fail .SessionNotConnected)

end SendSession

/-- What happens to a session. -/
inductive SendAction
  | establish
  | close
  | Enqueue (sandesh : Message)
  /-- the queue's runner takes the next element -/
  | dequeue
deriving DecidableEq

/-- What each does. -/
def sendStep (Send : List Bytes → Bool) (s : SendSession) :
    SendAction → Option SendSession
  | .establish => some { s with established := true }
  | .close => some { s with established := false }
  | .Enqueue sandesh => some { s with send_queue_ := s.send_queue_ ++ [sandesh] }
  | .dequeue =>
      match s.send_queue_ with
      | [] => none
      | sandesh :: rest => { s with send_queue_ := rest }.SendMsg Send sandesh

/-- A session step by step. -/
def sending (Send : List Bytes → Bool) : Machine SendSession SendAction where
  step := sendStep Send

end Sandesh.Framing
