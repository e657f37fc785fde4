/-
Memory buffers that own their memory: `ThriftMemoryBuffer` of the C library
(library/c/transport/thrift_memory_buffer.c) and `TMemoryBuffer` of the C++
library (library/cpp/transport/TBufferTransports.h and .cpp).

Sizes and offsets are `uint32_t`. A buffer that is too small is doubled
until it is large enough, or what the 32-bit difference says is; the loop
need not end, so it is a loop of `Prog`. A `memcpy` outside of the memory
ends the run (`Fault`). What `realloc` returns is an argument of each
write, with the contents it promises to keep.

The pointers of the C++ buffer are offsets from `buffer_` here, and what
is logged is left out in both.
-/
import Sandesh.Lib.Fifo
import Sandesh.Lib.Text
import Sandesh.Lib.Wire

namespace Sandesh.Transport

open Lib

/-- What an access outside of the memory is. -/
inductive Fault
  /-- `memcpy` outside of the buffer -/
  | access
deriving DecidableEq

/-- `realloc`, in one state of the heap; `none` is `NULL`. -/
structure Allocator where
  realloc : Bytes → Nat → Option Bytes
  length : ∀ {buf n new_buf}, realloc buf n = some new_buf → new_buf.length = n
  keeps : ∀ {buf n new_buf}, realloc buf n = some new_buf →
    new_buf.take buf.length = buf.take n

/-- The error of an allocation that fails. -/
def ENOMEM : Nat := 12

/-- `memcpy` into the memory. -/
def copyIn (mem : Bytes) (pos : Nat) (bytes : Bytes) : Option Bytes :=
  if pos + bytes.length ≤ mem.length then
    some (mem.take pos ++ bytes ++ mem.drop (pos + bytes.length))
  else none

/-- `memcpy` out of the memory. -/
def copyOut (mem : Bytes) (pos len : Nat) : Option Bytes :=
  if pos + len ≤ mem.length then some ((mem.drop pos).take len) else none

section State

variable {σ : Type}

/-- The fields. -/
def fields : Prog σ Fault σ := Prog.act fun s => (.ok s, s)

/-- The fields are set. -/
def assign (s : σ) : Prog σ Fault Unit := Prog.act fun _ => (.ok (), s)

/-- A copy that may be out of bounds. -/
def checked {α : Type} : Option α → Prog σ Fault α
  | some a => pure a
  | none => Prog.throw .access

/-- `new_size > 0 ? new_size * 2 : 1`. -/
def doubled (new_size : Nat) : Nat :=
  if new_size > 0 then u32 (new_size * 2) else 1

/-- `while (len > avail)`, with the variables `new_size` and `avail`. -/
def growLoop (size available_write len : Nat) : Nat × Nat → Prog σ Fault Nat :=
  Prog.loop fun t =>
    if len > t.2 then
      let new_size := doubled t.1
      pure (.inl (new_size, u32 (available_write + u32 ((new_size : Int) - size))))
    else pure (.inr t.1)

end State

-- ==================================================== ThriftMemoryBuffer

/-- The members of the C buffer; offsets are `uint32_t`. -/
structure ThriftMemoryBuffer where
  /-- the memory that `buf` points to -/
  buf : Bytes
  buf_size : Nat
  buf_roffset : Nat
  buf_woffset : Nat
  owner : Bool

namespace ThriftMemoryBuffer

/-- `thrift_memory_buffer_available_read`: the difference in 32 bits. -/
def available_read (t : ThriftMemoryBuffer) : Nat :=
  u32 ((t.buf_woffset : Int) - t.buf_roffset)

/-- The same for the room. -/
def available_write (t : ThriftMemoryBuffer) : Nat :=
  u32 ((t.buf_size : Int) - t.buf_woffset)

/-- 0, or an error. -/
def ensure_can_write (os : Allocator) (len : Nat) :
    Prog ThriftMemoryBuffer Fault Nat := do
  let t ← fields
  if t.owner = false then pure ENOMEM
  else
    let new_size ← growLoop t.buf_size t.available_write len
      (t.buf_size, t.available_write)
    match os.realloc t.buf new_size with
    | none => pure ENOMEM
    | some new_buf =>
        assign { t with buf_size := new_size, buf := new_buf }
        pure 0

/-- `memcpy` and the new write offset. -/
def put (buf : Bytes) : Prog ThriftMemoryBuffer Fault Bool := do
  let t ← fields
  let mem ← checked (copyIn t.buf t.buf_woffset buf)
  assign { t with buf := mem, buf_woffset := u32 (t.buf_woffset + buf.length) }
  pure true

/-- `thrift_memory_buffer_write`. -/
def write (os : Allocator) (buf : Bytes) : Prog ThriftMemoryBuffer Fault Bool := do
  let t ← fields
  if buf.length > t.available_write then
    let error ← ensure_can_write os buf.length
    if error ≠ 0 then pure false else put buf
  else put buf

/-- An empty buffer starts over. -/
def startOver (t : ThriftMemoryBuffer) : ThriftMemoryBuffer :=
  if t.buf_roffset = t.buf_woffset then { t with buf_roffset := 0, buf_woffset := 0 }
  else t

/-- `thrift_memory_buffer_read`; `none` is -1. -/
def read (len : Nat) : Prog ThriftMemoryBuffer Fault (Option Bytes) := do
  let t ← fields
  if t.available_read < len then pure none
  else
    let data ← checked (copyOut t.buf t.buf_roffset len)
    assign { t with buf_roffset := u32 (t.buf_roffset + len) }.startOver
    pure (some data)

end ThriftMemoryBuffer

-- ========================================================= TMemoryBuffer

/-- The members of the C++ buffer; the pointers are offsets here. -/
structure TMemoryBuffer where
  /-- the memory that `buffer_` points to -/
  buffer_ : Bytes
  bufferSize_ : Nat
  rBase_ : Nat
  rBound_ : Nat
  wBase_ : Nat
  wBound_ : Nat
  owner_ : Bool

namespace TMemoryBuffer

/-- `available_read`: the difference in 32 bits. -/
def available_read (b : TMemoryBuffer) : Nat := u32 ((b.wBase_ : Int) - b.rBase_)

/-- The same for the room. -/
def available_write (b : TMemoryBuffer) : Nat := u32 ((b.wBound_ : Int) - b.wBase_)

/-- 0, or an error. -/
def ensureCanWrite (std : Allocator) (len : Nat) : Prog TMemoryBuffer Fault Nat := do
  let b ← fields
  if len ≤ b.available_write then pure 0
  else if b.owner_ = false then pure ENOMEM
  else
    let new_size ← growLoop b.bufferSize_ b.available_write len
      (b.bufferSize_, b.available_write)
    match std.realloc b.buffer_ new_size with
    | none => pure ENOMEM
    | some new_buffer =>
        assign { b with bufferSize_ := new_size, buffer_ := new_buffer, wBound_ := new_size }
        pure 0

/-- `memcpy` and the new `wBase_`; 0 is returned. -/
def put (buf : Bytes) : Prog TMemoryBuffer Fault Nat := do
  let b ← fields
  let mem ← checked (copyIn b.buffer_ b.wBase_ buf)
  assign { b with buffer_ := mem, wBase_ := b.wBase_ + buf.length }
  pure 0

/-- A write that does not fit first makes room. -/
def writeSlow (std : Allocator) (buf : Bytes) : Prog TMemoryBuffer Fault Nat := do
  let error ← ensureCanWrite std buf.length
  if error ≠ 0 then pure error else put buf

/-- `TBufferBase::write`. -/
def write (std : Allocator) (buf : Bytes) : Prog TMemoryBuffer Fault Nat := do
  let b ← fields
  if b.wBase_ + buf.length ≤ b.wBound_ then put buf else writeSlow std buf

/-- `memcpy` and the new `rBase_`. -/
def take (b : TMemoryBuffer) (len : Nat) : Prog TMemoryBuffer Fault Bytes := do
  let data ← checked (copyOut b.buffer_ b.rBase_ len)
  assign { b with rBase_ := b.rBase_ + len }
  pure data

/-- `readSlow`, with `computeRead`. -/
def readSlow (len : Nat) : Prog TMemoryBuffer Fault Bytes := do
  let b ← fields
  take { b with rBound_ := b.wBase_ } (min len b.available_read)

/-- `TBufferBase::read`: the bytes that were given. -/
def read (len : Nat) : Prog TMemoryBuffer Fault Bytes := do
  let b ← fields
  if b.rBase_ + len ≤ b.rBound_ then take b len else readSlow len

/-- `resetBuffer()`. -/
def resetBuffer (b : TMemoryBuffer) : TMemoryBuffer :=
  let b := { b with rBase_ := 0, rBound_ := 0, wBase_ := 0 }
  if b.owner_ then b else { b with wBound_ := 0, bufferSize_ := 0 }

/-- The number of bytes read so far. -/
def readEnd : Prog TMemoryBuffer Fault Nat := do
  let b ← fields
  assign (if b.rBase_ = b.wBase_ then b.resetBuffer else b)
  pure (u32 b.rBase_)

end TMemoryBuffer

-- ================================================================= calls

/-- The calls of the C buffer. -/
inductive COp
  | write (os : Allocator) (buf : Bytes)
  | read (len : Nat)

/-- What they return. -/
inductive CResult
  | wrote (accepted : Bool)
  /-- `none` is -1 -/
  | got (data : Option Bytes)

/-- The code of each. -/
def COp.code : COp → Prog ThriftMemoryBuffer Fault CResult
  | .write os buf => do
      let accepted ← ThriftMemoryBuffer.write os buf
      pure (.wrote accepted)
  | .read len => do
      let data ← ThriftMemoryBuffer.read len
      pure (.got data)

/-- The calls of the C++ buffer. -/
inductive CppOp
  | write (std : Allocator) (buf : Bytes)
  | read (len : Nat)
  | readEnd

/-- What they return. -/
inductive CppResult
  | wrote (error : Nat)
  | got (data : Bytes)
  | bytes (count : Nat)

/-- The code of each. -/
def CppOp.code : CppOp → Prog TMemoryBuffer Fault CppResult
  | .write std buf => do
      let error ← TMemoryBuffer.write std buf
      pure (.wrote error)
  | .read len => do
      let data ← TMemoryBuffer.read len
      pure (.got data)
  | .readEnd => do
      let count ← TMemoryBuffer.readEnd
      pure (.bytes count)

end Sandesh.Transport
