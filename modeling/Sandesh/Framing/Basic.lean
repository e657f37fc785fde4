/-
The C++ frame layer: the envelope `SandeshWriter::SendMsg` puts around an
encoded message, and `SandeshReader`, which cuts the messages back out of
the byte stream of a TCP session (library/cpp/sandesh_session.cc and .h).

# The reader's three fields

`buf_` holds what has arrived and not been thrown away, `offset_` the
position of the next frame in it, and `msg_length_` the declared length
of that frame once its open tag is complete, with `(size_t)-1` for "not
known". The three are read together and moved together, but by different
functions: `SetBuf` appends, `ReplaceBuf` drops what is before `offset_`,
`ExtractMsg` learns the length, and `OnRead` advances `offset_` past a
delivered frame. Only `OnRead` leaving after a rejected message keeps a
non-zero `offset_` from one call to the next.

# What stops a run

`std::string xml(st, end)` is defined for `st <= end <= buf_.end()` only,
`string(buf_, offset_, n)` throws for `offset_ > buf_.size()`, and a
pointer past the end may not be formed; each is a `Fault`, which stops
the run where the real process would crash or read foreign memory. Every
extraction is also logged (`cuts`), with the values the three fields had.

The callback is an oracle: its answer may depend on everything it has
been handed so far. `SetReceiveMsgCb(NULL)`, which a session's close
arranges, is the event `removeCb`.
-/
import Sandesh.Lib.Prog
import Sandesh.Lib.Text

namespace Sandesh.Framing

open Lib

-- ======================================================== the envelope

/-- `sXML_SANDESH_OPEN_ATTR_LENGTH`. -/
def sandesh_open_attr_length_ : Bytes := lit "<sandesh length=\""

-- `sXML_SANDESH_OPEN` and `sXML_SANDESH_CLOSE`
/-- `sandesh_open_`: the envelope with ten digits for the length. -/
def sandesh_open_ : Bytes := lit "<sandesh length=\"0000000000\">"
/-- `sandesh_close_`. -/
def sandesh_close_ : Bytes := lit "</sandesh>"

/-- `memcpy(buffer + at, src, src.size())`. -/
def memcpy (buffer : Bytes) (pos : Nat) (src : Bytes) : Bytes :=
  buffer.take pos ++ src ++ buffer.drop (pos + src.length)

/-- The frame `SendMsg` builds around a message: open tag, message and
close tag are written first, and the length of it all (a `uint32_t`) is
then copied over the zeros of the open tag. -/
def envelope (msg : Bytes) : Bytes :=
  let buffer := sandesh_open_ ++ msg ++ sandesh_close_
  let offset := buffer.length % 2 ^ 32
  -- adjust for the closing quote and bracket
  let width := sandesh_open_.length - sandesh_open_attr_length_.length - 2
  memcpy buffer sandesh_open_attr_length_.length
    (zfill width (decimal offset))

/-- A message whose frame a `TMemoryBuffer` can hold: `getBuffer` counts
it in a `uint32_t`. -/
structure Payload where
  bytes : Bytes
  fits : sandesh_open_.length + bytes.length + sandesh_close_.length
    < 2 ^ 32

/-- The bytes a writer puts on the wire for a list of messages. -/
def stream (ps : List Payload) : Bytes :=
  (ps.map fun p => envelope p.bytes).flatten

-- ========================================================== the reader

/-- `(size_t)-1`, "message length not known". -/
def npos : Nat := 2 ^ 64 - 1

/-- Subtraction of `size_t`s. -/
def sizeSub (a b : Nat) : Nat := if b ≤ a then a - b else 2 ^ 64 + a - b

/-- `SandeshReader`'s fields. -/
structure SandeshReader where
  buf_ : Bytes
  offset_ : Nat
  msg_length_ : Nat
deriving DecidableEq

/-- One extraction: the fields of the reader when `OnRead` takes the
bounds of the message out of them. -/
structure Cut where
  offset_ : Nat
  msg_length : Nat
  size : Nat
deriving DecidableEq

/-- Where a run stops because the code leaves the defined range. -/
inductive Fault
  /-- `std::string xml(st, end)` with `end < st` or past the buffer -/
  | cut (c : Cut)
  /-- `string(buf_, offset_, n)` throws `std::out_of_range` -/
  | substr (offset_ size : Nat)
  /-- `buf_.c_str() + offset_` past the end of the buffer -/
  | pointer (offset_ size : Nat)
deriving DecidableEq

/-- The reader, with what it does to its session. -/
structure Session where
  reader_ : SandeshReader
  /-- `cb_` is set -/
  cb_ : Bool
  /-- what `cb_` has been invoked with, oldest first -/
  received : List Bytes
  num_recv_fail : Nat
  /-- closes enqueued on the state machine -/
  closes : Nat
  cuts : List Cut
deriving DecidableEq

/-- A fresh reader whose callback is installed. -/
def Session.fresh : Session where
  reader_ := { buf_ := [], offset_ := 0, msg_length_ := npos }
  cb_ := true
  received := []
  num_recv_fail := 0
  closes := 0
  cuts := []

namespace SandeshReader

/-- Whether the length of the message in front is known. -/
def MsgLengthKnown (r : SandeshReader) : Bool := r.msg_length_ != npos

/-- It is, from now on. -/
def set_msg_length (r : SandeshReader) (length : Nat) : SandeshReader :=
  { r with msg_length_ := length }

/-- It is not any more. -/
def reset_msg_length (r : SandeshReader) : SandeshReader :=
  r.set_msg_length npos

/-- The text is the whole buffer, from its start. -/
def ReplaceBuf (r : SandeshReader) (str : Bytes) : SandeshReader :=
  { r with buf_ := str, offset_ := 0 }

/-- More text behind what there is. -/
def SetBuf (r : SandeshReader) (str : Bytes) : SandeshReader :=
  if r.buf_.isEmpty then r.ReplaceBuf str
  else { r with buf_ := r.buf_ ++ str }

/-- Whether anything is behind the offset. -/
def LeftOver (r : SandeshReader) : Bool :=
  if r.buf_.isEmpty then false else r.buf_.length != r.offset_

/-- What `ExtractMsgLength` found: not enough data, a bad open tag with
its `*result`, or a length. -/
inductive MsgLength
  | more
  | bad (result : Int)
  | known (msg_length : Nat)
deriving DecidableEq

variable (stringToInteger : Bytes → Nat)

/-- The part of `ExtractMsgLength` that looks at the bytes from `offset_`
on, once there are enough of them for an open tag. -/
def openTagLength (tag : Bytes) : MsgLength :=
  if ¬ sandesh_open_attr_length_ <+: tag then .bad (-1)
  else if tag[sandesh_open_.length - 1]? ≠ some 62 then .bad (-2)
  else
    -- adjust for double quote
    let length := (tag.take (sandesh_open_.length - 2)).drop
      sandesh_open_attr_length_.length
    let msg_length := stringToInteger length
    if msg_length = 0 then .bad (-3) else .known msg_length

/-- The length in the tag in front. -/
def ExtractMsgLength (r : SandeshReader) : Except Fault MsgLength :=
  -- have we read enough to extract the message length?
  if sizeSub r.buf_.length r.offset_ < sandesh_open_.length then .ok .more
  else if r.buf_.length < r.offset_ then
    .error (.pointer r.offset_ r.buf_.length)
  else .ok (openTagLength stringToInteger (r.buf_.drop r.offset_))

/-- The second half of `ExtractMsg`: is the entire message read? The size
of the whole buffer is compared, `offset_` is not looked at. -/
def entireMsg (r : SandeshReader) : Bool :=
  decide (r.msg_length_ ≤ r.buf_.length)

/-- `ExtractMsg` on the data already in `buf_`: the returned flag and
`*result`, and the reader with the length it learned. -/
def ExtractMsg (r : SandeshReader) :
    Except Fault ((Bool × Int) × SandeshReader) :=
  if r.MsgLengthKnown then .ok ((r.entireMsg, 0), r)
  else
    match ExtractMsgLength stringToInteger r with
    | .error f => .error f
    | .ok .more => .ok ((false, 0), r)
    | .ok (.bad result) => .ok ((false, result), r)
    | .ok (.known n) =>
        let r' := r.set_msg_length n
        .ok ((r'.entireMsg, 0), r')

end SandeshReader

-- ============================================================== OnRead

/-- The cut `OnRead` is about to make. -/
def Session.nextCut (s : Session) : Cut where
  offset_ := s.reader_.offset_
  msg_length := s.reader_.msg_length_
  size := s.reader_.buf_.length

/-- `st <= end` and `end <= buf_.end()`, as positions in `buf_`. -/
def Cut.InRange (c : Cut) : Prop :=
  (c.offset_ + sandesh_open_.length : Int)
      ≤ c.offset_ + c.msg_length - sandesh_close_.length
    ∧ (c.offset_ + c.msg_length - sandesh_close_.length : Int) ≤ c.size

instance (c : Cut) : Decidable c.InRange := inferInstanceAs (Decidable (_ ∧ _))

-- `std::string xml(st, end)`
/-- The message between its tags. -/
def Session.xml (s : Session) : Bytes :=
  (s.reader_.buf_.take (s.reader_.offset_ + s.reader_.msg_length_
      - sandesh_close_.length)).drop (s.reader_.offset_ + sandesh_open_.length)

-- `buf_.clear(); offset_ = 0`
/-- Nothing is left. -/
def SandeshReader.clear (r : SandeshReader) : SandeshReader :=
  { r with buf_ := [], offset_ := 0 }

-- `increment_recv_fail` and `EnqueueClose`
/-- The failure is counted and the session closed. -/
def Session.fail (s : Session) : Session :=
  { s with num_recv_fail := s.num_recv_fail + 1, closes := s.closes + 1 }

variable (stringToInteger : Bytes → Nat) (cb : List Bytes → Bool)

/-- What follows a delivered message: the next one in the buffer, or an
empty buffer. -/
def Session.afterMsg (s : Session) :
    Except Fault ((Bool × Int) ⊕ Unit) × Session :=
  if s.reader_.LeftOver then
    if s.reader_.buf_.length < s.reader_.offset_ then
      (.error (.substr s.reader_.offset_ s.reader_.buf_.length), s)
    else
      let r := s.reader_.ReplaceBuf (s.reader_.buf_.drop s.reader_.offset_)
      match r.ExtractMsg stringToInteger with
      | .error f => (.error f, { s with reader_ := r })
      | .ok (t, r') => (.ok (.inl t), { s with reader_ := r' })
  else (.ok (.inr ()), { s with reader_ := s.reader_.clear })

/-- The reader once a message has been cut out, the callback told and the
extraction logged. -/
def Session.delivered (s : Session) : Session :=
  { s with
    reader_ := { s.reader_ with
      offset_ := s.reader_.offset_ + s.reader_.msg_length_ }.reset_msg_length
    received := s.received ++ [s.xml]
    cuts := s.cuts ++ [s.nextCut] }

/-- One turn of `OnRead`'s `do` loop on the flag and `result` of the last
`ExtractMsg`. -/
def turn (t : Bool × Int) (s : Session) :
    Except Fault ((Bool × Int) ⊕ Unit) × Session :=
  if t.2 < 0 then
    -- generate error and close connection
    (.ok (.inr ()), { s with reader_ := s.reader_.clear }.fail)
  else if t.1 then
    if s.nextCut.InRange then
      if cb s.delivered.received then s.delivered.afterMsg stringToInteger
      else (.ok (.inr ()), s.delivered.fail)
    else (.error (.cut s.nextCut), { s with cuts := s.cuts ++ [s.nextCut] })
  else
    -- read more data
    (.ok (.inr ()), s)

/-- The first `ExtractMsg` of a call, on the newly arrived data. -/
def newBuf (buffer : Bytes) (s : Session) : Except Fault (Bool × Int) × Session :=
  let r := s.reader_.SetBuf buffer
  match r.ExtractMsg stringToInteger with
  | .error f => (.error f, { s with reader_ := r })
  | .ok (t, r') => (.ok t, { s with reader_ := r' })

/-- `SandeshReader::OnRead`, callback installed. -/
def onReadMsg (buffer : Bytes) : Prog Session Fault Unit :=
  Prog.act (newBuf stringToInteger buffer) >>=
    Prog.loop fun t => Prog.act (turn stringToInteger cb t)

/-- `SandeshReader::OnRead`. -/
def OnRead (buffer : Bytes) : Prog Session Fault Unit := fun s =>
  -- check if session is being deleted, then drop the packet
  if s.cb_ then onReadMsg stringToInteger cb buffer s
  else Comp.pure (.ok (), { s with num_recv_fail := s.num_recv_fail + 1 })

-- ================================================================ runs

/-- What happens to a session. -/
inductive Event
  /-- data arrives -/
  | read (buffer : Bytes)
  /-- `SetReceiveMsgCb(NULL)` -/
  | removeCb
deriving DecidableEq

/-- One event. -/
def handle : Event → Prog Session Fault Unit
  | .read buffer => OnRead stringToInteger cb buffer
  | .removeCb => Prog.act fun s => (.ok (), { s with cb_ := false })

/-- A run of a session. -/
def run : List Event → Prog Session Fault Unit
  | [] => pure ()
  | ev :: evs => handle stringToInteger cb ev >>= fun _ => run evs

/-- The bytes that arrive in a run. -/
def arriving : List Event → Bytes
  | [] => []
  | .read buffer :: evs => buffer ++ arriving evs
  | .removeCb :: evs => arriving evs

/-- Every step of a run meets `P`, a condition on the session before the
step and on the event. -/
def EachStep (P : Session → Event → Prop) : List Event → Session → Prop
  | [], _ => True
  | ev :: evs, s => P s ev ∧ ∀ s',
      (handle stringToInteger cb ev).Runs s (.ok ()) s' → EachStep P evs s'

end Sandesh.Framing
