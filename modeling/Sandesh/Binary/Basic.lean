/-
What the two implementations of the binary protocol share: the type codes
(library/c/protocol/thrift_protocol.h, library/cpp/protocol/TProtocol.h),
and a buffer in memory with a place to read from and a place to write to
(library/c/transport/thrift_memory_buffer.h,
library/cpp/transport/TBufferTransports.h).

Buffers belong to the caller (`owner` is 0): one that is full stays full.
-/
import Sandesh.Lib.Wire

namespace Sandesh.Binary

open Lib

-- ================================================================ types

/-- The types that `TType` and the C `ThriftType` both have. -/
inductive TType
  | T_STOP
  | T_VOID
  | T_BOOL
  | T_BYTE
  | T_DOUBLE
  | T_I16
  | T_I32
  | T_U64
  | T_I64
  | T_STRING
  | T_STRUCT
  | T_MAP
  | T_SET
  | T_LIST
  | T_UTF8
  | T_UTF16
  | T_U16
  | T_U32
  | T_XML
  | T_IPV4
  | T_UUID
  | T_IPADDR
  deriving DecidableEq

/-- The byte of a type. -/
def TType.code : TType → Nat
  | T_STOP => 0
  | T_VOID => 1
  | T_BOOL => 2
  | T_BYTE => 3
  | T_DOUBLE => 4
  | T_I16 => 6
  | T_I32 => 8
  | T_U64 => 9
  | T_I64 => 10
  | T_STRING => 11
  | T_STRUCT => 12
  | T_MAP => 13
  | T_SET => 14
  | T_LIST => 15
  | T_UTF8 => 16
  | T_UTF16 => 17
  | T_U16 => 19
  | T_U32 => 20
  | T_XML => 21
  | T_IPV4 => 22
  | T_UUID => 23
  | T_IPADDR => 24

theorem TType.code_lt (t : TType) : t.code < 128 := by
  cases t <;> decide

/-- The type of a `switch` on a number. -/
def TType.ofCode (n : Nat) : Option TType :=
  [T_STOP, T_VOID, T_BOOL, T_BYTE, T_DOUBLE, T_I16, T_I32, T_U64, T_I64,
    T_STRING, T_STRUCT, T_MAP, T_SET, T_LIST, T_UTF8, T_UTF16, T_U16, T_U32,
    T_XML, T_IPV4, T_UUID, T_IPADDR].find? fun t => t.code = n

@[simp] theorem TType.ofCode_code (t : TType) : ofCode t.code = some t := by
  cases t <;> rfl

theorem TType.code_of_ofCode {n : Nat} {t : TType} (h : ofCode n = some t) :
    t.code = n := by
  unfold ofCode at h
  have hcode := List.find?_some h
  exact of_decide_eq_true hcode

theorem TType.code_inj {t t' : TType} (h : t.code = t'.code) : t = t' := by
  have h' := congrArg ofCode h
  rw [ofCode_code, ofCode_code] at h'
  exact Option.some.inj h'

-- address families
/-- The families of addresses, as Linux numbers them. -/
def AF_INET : Nat := 2
def AF_INET6 : Nat := 10

/-- What a read function returns. -/
inductive Value
  | bool (value : Bool)
  | number (value : Nat)
  | bytes (value : Bytes)
  | address (family : Nat) (bytes : Bytes)
  | field (type : Nat) (id : BitVec 16)
  | list (type size : Nat)
  | map (keyType valType size : Nat)

/-- A number of any width. -/
def number {w : Nat} (v : BitVec w) : Value := .number v.toNat

-- ============================================================== buffers

/-- A buffer with its two offsets, in order and within it. -/
structure Buffer where
  buf : Bytes
  roffset : Nat
  woffset : Nat
  le : roffset ≤ woffset
  bound : woffset ≤ buf.length

namespace Buffer

/-- What is written and not yet read. -/
def unread (b : Buffer) : Bytes := (b.buf.take b.woffset).drop b.roffset

/-- `available_write` -/
def room (b : Buffer) : Nat := b.buf.length - b.woffset

/-- `memcpy` to the place to write to. -/
def append (b : Buffer) (bs : Bytes) : Buffer where
  buf := b.buf.take b.woffset ++ bs ++ b.buf.drop (b.woffset + bs.length)
  roffset := b.roffset
  woffset := b.woffset + bs.length
  le := Nat.le_trans b.le (Nat.le_add_right _ _)
  bound := by
    have hb := b.bound
    simp only [List.length_append, List.length_take, List.length_drop]
    omega

/-- Move the place to read from. -/
def consume (b : Buffer) (n : Nat) (h : n ≤ b.unread.length) : Buffer where
  buf := b.buf
  roffset := b.roffset + n
  woffset := b.woffset
  le := by
    have hb := b.bound
    have hle := b.le
    unfold unread at h
    rw [List.length_drop, List.length_take] at h
    omega
  bound := b.bound

theorem start_le : 0 ≤ 0 := Nat.le_refl 0

theorem start_bound (buf : Bytes) : 0 ≤ buf.length := Nat.zero_le _

/-- `buf_roffset = buf_woffset = 0` -/
def reset (b : Buffer) : Buffer where
  buf := b.buf
  roffset := 0
  woffset := 0
  le := start_le
  bound := start_bound b.buf

theorem length_unread (b : Buffer) : b.unread.length = b.woffset - b.roffset := by
  have hb := b.bound
  unfold unread
  rw [List.length_drop, List.length_take]
  omega

@[simp] theorem unread_append (b : Buffer) (bs : Bytes) :
    (b.append bs).unread = b.unread ++ bs := by
  have hb := b.bound
  have hlen : (b.buf.take b.woffset ++ bs).length = b.woffset + bs.length := by
    rw [List.length_append, List.length_take]
    omega
  have hle : b.roffset ≤ (b.buf.take b.woffset).length := by
    have hle := b.le
    rw [List.length_take]
    omega
  show ((b.buf.take b.woffset ++ bs ++ _).take (b.woffset + bs.length)).drop
    b.roffset = _
  rw [← hlen, List.take_left, unread, List.drop_append_of_le_length hle]

@[simp] theorem room_append (b : Buffer) (bs : Bytes) :
    (b.append bs).room = b.room - bs.length := by
  have hb := b.bound
  show (b.buf.take b.woffset ++ bs ++ _).length - (b.woffset + bs.length) = _
  unfold room
  simp only [List.length_append, List.length_take, List.length_drop]
  omega

@[simp] theorem unread_consume (b : Buffer) (n : Nat) (h : n ≤ b.unread.length) :
    (b.consume n h).unread = b.unread.drop n := by
  show (b.buf.take b.woffset).drop (b.roffset + n) = _
  rw [unread, List.drop_drop]

/-- Nothing is lost when an empty buffer starts over. -/
theorem unread_reset (b : Buffer) : b.reset.unread = [] := by
  show (b.buf.take 0).drop 0 = []
  rw [List.take_zero, List.drop_nil]

/-- A buffer over bytes to read. -/
def ofBytes (bs : Bytes) : Buffer where
  buf := bs
  roffset := 0
  woffset := bs.length
  le := Nat.zero_le _
  bound := Nat.le_refl _

@[simp] theorem unread_ofBytes (bs : Bytes) : (ofBytes bs).unread = bs := by
  show (bs.take bs.length).drop 0 = bs
  rw [List.take_length, List.drop_zero]

end Buffer

-- ================================================= what was there before

/-- `n` of the bytes that variables hold before they are set. -/
def draw (n : Nat) (stale : Bytes) : Bytes × Bytes :=
  (stale.take n ++ List.replicate (n - stale.length) 0, stale.drop n)

/-- A buffer to read from, and what the variables hold. -/
structure Input where
  buffer : Buffer
  stale : Bytes

end Sandesh.Binary
