/-
The Python session: `SandeshReader`, `SandeshWriter` and the send queue
(library/python/pysandesh/sandesh_session.py, with `TcpSession.write` of
tcp_session.py).

# Reading

`read_msg` appends what was received to `_read_buf` and cuts frames off
its front until one is not complete. The declared length is whatever
`int` makes of ten characters, so it may be zero or negative, and the
slices it goes into count negative positions from the end. A length that
has been read is remembered in `_sandesh_len`, where 0 stands for "not
known". The handler is a list of the messages it was called with.

# Writing

A message is known by what its two writes leave on the transport, if they
do not fail. With `more` messages waiting a frame stays in
`_send_buf_cache` until that is 4096 bytes long; without, everything
pending goes out with it. A write that the socket refuses closes the
session.
-/
import Sandesh.Lib.Machine
import Sandesh.Py.Protocol

namespace Sandesh.Py.Session

open Lib

-- `_XML_SANDESH_OPEN` and its parts, and `_XML_SANDESH_CLOSE`
/-- The envelope, with the length as ten digits. -/
def XML_SANDESH_OPEN : Bytes := lit "<sandesh length=\"0000000000\">"
/-- The part in front of the digits. -/
def XML_SANDESH_OPEN_ATTR_LEN : Bytes := lit "<sandesh length=\""
/-- The part behind them. -/
def XML_SANDESH_OPEN_END : Bytes := lit "\">"
/-- The closing tag. -/
def XML_SANDESH_CLOSE : Bytes := lit "</sandesh>"

-- ============================================================== slices

/-- The position an index of a slice stands for: a negative one counts
from the end. -/
def sliceIndex (s : Bytes) (i : Int) : Nat :=
  if i < 0 then (s.length + i).toNat else i.toNat

/-- `s[i:j]`. -/
def slice (s : Bytes) (i j : Int) : Bytes :=
  (s.take (sliceIndex s j)).drop (sliceIndex s i)

/-- `s[i:]`. -/
def sliceFrom (s : Bytes) (i : Int) : Bytes := s.drop (sliceIndex s i)

/-- What lies before the end of a slice that is not empty. -/
theorem sliceFrom_shrinks {s : Bytes} {i j : Int} (h : slice s i j ≠ []) :
    (sliceFrom s j).length < s.length := by
  have hpos := List.length_pos_of_ne_nil h
  rw [slice, List.length_drop, List.length_take] at hpos
  rw [sliceFrom, List.length_drop]
  omega

-- ========================================================== the reader

/-- What the reader makes of its buffer. -/
inductive Ret
  | READ_OK
  | READ_ERR
deriving DecidableEq

/-- The attributes of the reader. -/
structure SandeshReader where
  read_buf : Bytes
  sandesh_len : Int
  /-- what `_sandesh_msg_handler` has been called with, oldest first -/
  handled : List Bytes
deriving DecidableEq

namespace SandeshReader

/-- `__init__`. -/
def new : SandeshReader := ⟨[], 0, []⟩

variable (r : SandeshReader)

/-- The length in an open tag, 0 if there is no whole tag yet. -/
def extract_sandesh_len : Ret × Int :=
  -- do we have enough data to extract the sandesh length?
  if r.read_buf.length < XML_SANDESH_OPEN.length then (.READ_OK, 0)
  else if slice r.read_buf 0 XML_SANDESH_OPEN_ATTR_LEN.length
      ≠ XML_SANDESH_OPEN_ATTR_LEN then (.READ_ERR, 0)
  else if slice r.read_buf
      (XML_SANDESH_OPEN.length - XML_SANDESH_OPEN_END.length)
      XML_SANDESH_OPEN.length ≠ XML_SANDESH_OPEN_END then (.READ_ERR, 0)
  else
    match int (slice r.read_buf XML_SANDESH_OPEN_ATTR_LEN.length
      (XML_SANDESH_OPEN.length - XML_SANDESH_OPEN_END.length)) with
    | none => (.READ_ERR, 0)
    | some length => (.READ_OK, length)

/-- The part of `_extract_sandesh` that knows the length. -/
def extract_frame : Ret × Option Bytes :=
  if r.read_buf.length < r.sandesh_len then (.READ_OK, none)
  else
    let sandesh_end := r.sandesh_len - XML_SANDESH_CLOSE.length
    if slice r.read_buf sandesh_end r.sandesh_len ≠ XML_SANDESH_CLOSE then
      (.READ_ERR, none)
    else (.READ_OK, some (slice r.read_buf XML_SANDESH_OPEN.length sandesh_end))

/-- The next message, once all of it is there. The length is kept until
then. -/
def extract_sandesh : (Ret × Option Bytes) × SandeshReader :=
  if r.sandesh_len = 0 then
    match r.extract_sandesh_len with
    | (.READ_ERR, _) => ((.READ_ERR, none), r)
    | (.READ_OK, length) =>
        if length = 0 then ((.READ_OK, none), r)
        else
          let r := { r with sandesh_len := length }
          (r.extract_frame, r)
  else (r.extract_frame, r)

/-- One turn of the loop of `read_msg`: it leaves the loop, or goes on
with the reader. -/
def turn : (Ret × SandeshReader) ⊕ SandeshReader :=
  match r.extract_sandesh with
  | ((.READ_ERR, _), r) => .inl (.READ_ERR, r)
  | ((.READ_OK, none), r) => .inl (.READ_OK, r)
  -- an empty message is false
  | ((.READ_OK, some []), r) => .inl (.READ_OK, r)
  | ((.READ_OK, some (c :: cs)), r) =>
      let r :=
        { read_buf := sliceFrom r.read_buf r.sandesh_len
          sandesh_len := 0
          handled := r.handled ++ [c :: cs] : SandeshReader }
      if r.read_buf.length = 0 then .inl (.READ_OK, r) else .inr r

variable {r}

/-- A message that is returned ends with the closing tag. -/
theorem extract_frame_some {sandesh : Bytes}
    (h : r.extract_frame = (.READ_OK, some sandesh)) :
    slice r.read_buf (r.sandesh_len - XML_SANDESH_CLOSE.length) r.sandesh_len
      = XML_SANDESH_CLOSE := by
  unfold extract_frame at h
  split at h
  · cases h
  · by_contra hne
    simp only [if_pos hne] at h
    cases h

/-- The buffer is not cut before the message is handled. -/
theorem extract_sandesh_some {r' : SandeshReader} {sandesh : Bytes}
    (h : r.extract_sandesh = ((.READ_OK, some sandesh), r')) :
    r'.read_buf = r.read_buf
      ∧ r'.extract_frame = (.READ_OK, some sandesh) := by
  unfold extract_sandesh at h
  split at h
  · split at h
    · cases h
    · split at h
      · cases h
      · injection h with hframe hr
        subst hr
        exact ⟨rfl, hframe⟩
  · injection h with hframe hr
    subst hr
    exact ⟨rfl, hframe⟩

/-- The close tag of a frame is gone with it. -/
theorem turn_shrinks {r' : SandeshReader} (h : r.turn = .inr r') :
    r'.read_buf.length < r.read_buf.length := by
  unfold turn at h
  split at h
  · cases h
  · cases h
  · cases h
  · next c cs r₁ hex =>
    obtain ⟨hbuf, hframe⟩ := extract_sandesh_some hex
    have hclose := extract_frame_some hframe
    have hshrinks := sliceFrom_shrinks (s := r₁.read_buf) (j := r₁.sandesh_len)
      (by rw [hclose]; decide)
    rw [← hbuf]
    dsimp only at h
    split at h
    · cases h
    · injection h with h
      subst h
      exact hshrinks

/-- `while True`, from the length of the buffer down. -/
def loop (r : SandeshReader) : Ret × SandeshReader :=
  match _h : r.turn with
  | .inl done => done
  | .inr r' => loop r'
termination_by r.read_buf.length
decreasing_by exact turn_shrinks _h

/-- More bytes, and as many messages as there are. -/
def read_msg (r : SandeshReader) (rcv_buf : Bytes) : Ret × SandeshReader :=
  loop { r with read_buf := r.read_buf ++ rcv_buf }

end SandeshReader

/-- The reader and the chunks it is fed. -/
def reading : Machine SandeshReader Bytes where
  step r rcv_buf := some (r.read_msg rcv_buf).2

-- ========================================================== the writer

/-- What the header and the message itself write: nothing if the write
fails. -/
structure Message where
  header : Option Bytes
  body : Option Bytes
deriving DecidableEq

/-- The envelope. -/
def envelope (msg : Bytes) : Bytes :=
  let msg_len := XML_SANDESH_OPEN.length + msg.length
    + XML_SANDESH_CLOSE.length
  let len_width := XML_SANDESH_OPEN.length
    - (XML_SANDESH_OPEN_ATTR_LEN.length + XML_SANDESH_OPEN_END.length)
  -- pad the length with leading 0s
  let len_str := zfill len_width (decimal msg_len)
  XML_SANDESH_OPEN_ATTR_LEN ++ len_str ++ XML_SANDESH_OPEN_END ++ msg
    ++ XML_SANDESH_CLOSE

/-- Header and message, in an envelope of their length; a write that fails
gives nothing. -/
def encode_sandesh (sandesh : Message) : Option Bytes :=
  match sandesh.header with
  | none => none
  | some header =>
      match sandesh.body with
      | none => none
      | some body => some (envelope (header ++ body))

/-- `_MAX_SEND_BUF_SIZE`. -/
def MAX_SEND_BUF_SIZE : Nat := 4096

/-- The attributes of the session, and a record of what it has written. -/
structure SandeshSession where
  connected : Bool
  send_queue : List Message
  /-- `_writer._send_buf_cache` -/
  send_buf_cache : Bytes
  /-- what the socket has accepted -/
  sent : List Bytes
  /-- messages dropped as `SessionNotConnected` -/
  dropped : List Message

namespace SandeshSession

/-- A session that is not connected. -/
def new : SandeshSession := ⟨false, [], [], [], []⟩

variable (s : SandeshSession)

/-- `write`: the socket accepts the data, or fails and is closed. -/
def write (accepts : Bool) (data : Bytes) : SandeshSession :=
  if s.connected then
    if accepts then { s with sent := s.sent ++ [data] }
    else { s with connected := false }
  else s

/-- The cache goes out once it has reached its size. -/
def send_msg_more (accepts : Bool) (send_buf : Bytes) : SandeshSession :=
  let s := { s with send_buf_cache := s.send_buf_cache ++ send_buf }
  if MAX_SEND_BUF_SIZE ≤ s.send_buf_cache.length then
    { s.write accepts s.send_buf_cache with send_buf_cache := [] }
  else s

/-- The cache goes out with what comes behind it. -/
def send_msg_all (accepts : Bool) (send_buf : Bytes) : SandeshSession :=
  { s.write accepts (s.send_buf_cache ++ send_buf) with send_buf_cache := [] }

/-- What cannot be encoded is not sent. -/
def send_msg (accepts : Bool) (sandesh : Message) (more : Bool) :
    Int × SandeshSession :=
  match encode_sandesh sandesh with
  | none => (-1, s)
  | some send_buf =>
      if more then (0, s.send_msg_more accepts send_buf)
      else (0, s.send_msg_all accepts send_buf)

/-- `_send_sandesh`, on an element just taken from the queue. -/
def send_sandesh (accepts : Bool) (sandesh : Message) : SandeshSession :=
  let more := !s.send_queue.isEmpty
  if s.connected then (s.send_msg accepts sandesh more).2
  else { s with dropped := s.dropped ++ [sandesh] }

end SandeshSession

/-- What happens to a session. -/
inductive Action
  | connect
  | close
  | enqueue_sandesh (sandesh : Message)
  /-- the queue's runner takes the next element, over a socket that
  accepts data or not -/
  | dequeue (accepts : Bool)
deriving DecidableEq

/-- What each action does. -/
def step (s : SandeshSession) : Action → Option SandeshSession
  | .connect => some { s with connected := true }
  | .close => some { s with connected := false }
  | .enqueue_sandesh sandesh =>
      some { s with send_queue := s.send_queue ++ [sandesh] }
  | .dequeue accepts =>
      match s.send_queue with
      | [] => none
      | sandesh :: rest =>
          some ({ s with send_queue := rest }.send_sandesh accepts sandesh)

/-- The send side of a session. -/
def sending : Machine SandeshSession Action where
  step := step

end Sandesh.Py.Session
