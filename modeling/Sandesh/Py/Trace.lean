/-
The trace buffer of the Python library, `TraceBuffer`
(library/python/pysandesh/trace.py).

`_buf` is a deque that keeps the last `_size` entries. Each reader has a
context, `_read_context_map[context]`: the position, modulo `_size`, of
the entry it reads next. `_read_index` is the position of the oldest entry
and moves once the buffer has wrapped. A context at `_read_index` could
mean that everything or that nothing was read; `TraceRead` takes it for
the first, and `TraceWrite` drops a context when the write makes the
second true of it.

The callback gets each entry with a flag that says whether more are to
come. The names of a buffer and the switch of `TraceOn` and `TraceOff` are
left out: nothing here reads them.
-/
import Sandesh.Lib.Machine
import Sandesh.Lib.Pass

namespace Sandesh.Py.Trace

open Lib

/-- The attributes of a buffer. -/
structure TraceBuffer (κ α : Type) where
  _size : Nat
  _seqno : Nat
  _buf : List α
  _read_context_map : Map κ Nat
  _wrap : Bool
  _read_index : Nat
  _write_index : Nat

variable {κ α : Type} [DecidableEq κ] [BEq α]

/-- `TraceBuffer(name, size)`. -/
def TraceBuffer.new (size : Nat) : TraceBuffer κ α :=
  ⟨size, 0, [], ∅, false, 0, 0⟩

namespace TraceBuffer

/-- Sequence numbers start over behind this one. -/
def _kMaxSeqno : Nat := 2 ^ 32 - 1 - 1
/-- The first sequence number. -/
def _kMinSeqno : Nat := 1

/-- `i + 1`, or 0 at the end of the buffer. -/
def increment (b : TraceBuffer κ α) (i : Nat) : Nat :=
  if i + 1 = b._size then 0 else i + 1

/-- `append` to a deque with a `maxlen`. -/
def append (b : TraceBuffer κ α) (entry : α) : List α :=
  let buf := b._buf ++ [entry]
  buf.drop (buf.length - b._size)

/-- Drops the contexts that stand at the oldest entry. -/
def dropContexts (order : Order κ) (read_index : Nat) (contexts : Map κ Nat) :
    Map κ Nat :=
  (Map.walk (M := PEmpty) order
    (fun _ value => ⟨if value = read_index then none else some value, [], false⟩)
    contexts).map

/-- The sequence number returned, and the buffer. -/
def TraceWrite (order : Order κ) (b : TraceBuffer κ α) (entry : α) :
    Nat × TraceBuffer κ α :=
  let read_index := if b._wrap then b.increment b._read_index else b._read_index
  let write_index := b.increment b._write_index
  let wrap := b._wrap || b._write_index + 1 == b._size
  let seqno := if b._seqno + 1 > _kMaxSeqno then _kMinSeqno else b._seqno + 1
  (seqno,
    { b with
      _buf := b.append entry
      _read_index := read_index
      _write_index := write_index
      _wrap := wrap
      _read_context_map := dropContexts order read_index b._read_context_map
      _seqno := seqno })

/-- The calls of `read_cb`: each entry, and whether more are to come. -/
def deliver (b : TraceBuffer κ α) (count : Nat) (entries : List α) :
    List (α × Bool) :=
  (entries.take count).map fun entry =>
    (entry, b._buf.getLast?.any fun last => entry != last)

/-- Where the next entry of a context is in `_buf`. -/
def offset (b : TraceBuffer κ α) (value : Nat) : Int :=
  let offset : Int := value - b._read_index
  if offset > 0 then offset else b._size + offset

/-- The context, created if it is not there, and the entries it has not
read. -/
def readFrom (b : TraceBuffer κ α) (context : κ) : Nat × List α :=
  match b._read_context_map.lookup context with
  | some value => (value, b._buf.drop (b.offset value).toNat)
  | none => (b._read_index, b._buf)

/-- The calls of `read_cb`, and the buffer. -/
def TraceRead (b : TraceBuffer κ α) (context : κ) (count : Nat) :
    List (α × Bool) × TraceBuffer κ α :=
  if b._buf.length = 0 then ([], b)
  else
    let count := if count = 0 then b._buf.length else count
    let read := b.deliver count (b.readFrom context).2
    let offset := (b.readFrom context).1 + read.length
    let offset := if offset ≥ b._size then offset - b._size else offset
    (read,
      { b with _read_context_map := b._read_context_map.insert context offset })

/-- The context forgets where it was. -/
def TraceReadDone (b : TraceBuffer κ α) (context : κ) : TraceBuffer κ α :=
  { b with _read_context_map := b._read_context_map.erase context }

end TraceBuffer

/-- A write, or a read in some context. -/
inductive Act (κ α : Type)
  | write (order : Order κ) (entry : α)
  | read (context : κ) (count : Nat)
  | done (context : κ)

/-- Calls on one buffer, one after the other. -/
def buffer (κ α : Type) [DecidableEq κ] [BEq α] :
    Machine (TraceBuffer κ α) (Act κ α) where
  step b
    | .write order entry => some (b.TraceWrite order entry).2
    | .read context count => some (b.TraceRead context count).2
    | .done context => some (b.TraceReadDone context)

end Sandesh.Py.Trace

/-
Requests for the contents of a trace buffer
(library/python/pysandesh/trace.py, `Trace`, and sandesh_trace.py,
`SandeshTraceRequestRunner`).

A runner reads a named buffer once. In the context `"Collector"` each
trace is sent as it is read, with a mark that says whether more are to
come; in any other context the traces are collected and sent in one
response. An entry stands for the sandesh it is, and for its text in the
log.
-/

namespace Sandesh.Py.TraceRequest

open Lib Py.Trace

/-- The buffers, by name. -/
structure Trace (α : Type) where
  _buffer_map : Map String (TraceBuffer String α)

variable {γ α : Type} [BEq α]

namespace Trace

/-- The size of a buffer, by its name. -/
def TraceBufSizeGet (t : Trace α) (name : String) : Nat :=
  match t._buffer_map.lookup name with
  | some buffer => buffer._size
  | none => 0

/-- The calls of `read_cb`, and the buffers. -/
def TraceRead (t : Trace α) (name context : String) (count : Nat) :
    List (α × Bool) × Trace α :=
  match t._buffer_map.lookup name with
  | some buffer =>
      let (read, buffer) := buffer.TraceRead context count
      (read, ⟨t._buffer_map.insert name buffer⟩)
  | none => ([], t)

/-- The same by the name of the buffer. -/
def TraceReadDone (t : Trace α) (name context : String) : Trace α :=
  match t._buffer_map.lookup name with
  | some buffer => ⟨t._buffer_map.insert name (buffer.TraceReadDone context)⟩
  | none => t

end Trace

/-- What a runner sends: a trace, or all of them in one response. -/
inductive Sent (γ α : Type)
  | trace (context : γ) (entry : α) (more : Bool)
  | response (context : γ) (traces : List α) (more : Bool)

/-- The flag of what was sent. -/
def Sent.more : Sent γ α → Bool
  | .trace _ _ more => more
  | .response _ _ more => more

/-- The attributes of a runner. -/
structure SandeshTraceRequestRunner (γ α : Type) where
  _req_buf_name : String
  _req_context : γ
  _read_context : String
  _req_count : Nat
  _read_count : Nat
  /-- `_sttr.traces`. -/
  traces : List α
  /-- What `send_trace` was called with. -/
  sent : List (Sent γ α)

namespace SandeshTraceRequestRunner

/-- A request without a count asks for the whole buffer. -/
def new (t : Trace α) (request_buffer_name : String) (request_context : γ)
    (read_context : String) (request_count : Option Nat) :
    SandeshTraceRequestRunner γ α where
  _req_buf_name := request_buffer_name
  _req_context := request_context
  _read_context := read_context
  _req_count :=
    if request_count.getD 0 = 0 then t.TraceBufSizeGet request_buffer_name
    else request_count.getD 0
  _read_count := 0
  traces := []
  sent := []

/-- The callback of a read: each entry goes out with the flag that says
whether there are more. -/
def _TraceRead (r : SandeshTraceRequestRunner γ α) (trace_sandesh : α)
    (more : Bool) : SandeshTraceRequestRunner γ α :=
  let r := { r with _read_count := r._read_count + 1 }
  if r._read_context ≠ "Collector" then
    { r with traces := r.traces ++ [trace_sandesh] }
  else if more = false ∨ r._read_count = r._req_count then
    { r with sent := r.sent ++ [.trace r._req_context trace_sandesh false] }
  else { r with sent := r.sent ++ [.trace r._req_context trace_sandesh true] }

/-- What is sent, and the buffers. -/
def Run (r : SandeshTraceRequestRunner γ α) (t : Trace α) :
    List (Sent γ α) × Trace α :=
  let (read, t) := t.TraceRead r._req_buf_name r._read_context r._req_count
  let r := read.foldl (fun r call => r._TraceRead call.1 call.2) r
  if r._read_context ≠ "Collector" then
    (r.sent ++ [.response r._req_context r.traces false],
      t.TraceReadDone r._req_buf_name r._read_context)
  else (r.sent, t)

end SandeshTraceRequestRunner

end Sandesh.Py.TraceRequest
