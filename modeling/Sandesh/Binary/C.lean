/-
The C library's binary protocol (library/c/protocol/thrift_binary_protocol.c)
over its transports (library/c/transport/thrift_memory_buffer.c,
thrift_fake_transport.c).

A write function returns its result, the number of bytes or -1, and the
transport after it. A read function returns what it stores through its
pointer arguments and the number of bytes, or nothing where the source
returns -1. Numbers are bit patterns; the host is little-endian. The
functions that end a field, a list or a message, and those that begin or
end a structure, do nothing and are left out.
-/
import Sandesh.Binary.Basic

namespace Sandesh.Binary.C

open Lib

/-- A transport is what its two functions do: a write may be refused, and a
read that cannot be served gives nothing. -/
structure Transport (σ : Type) where
  write : σ → Bytes → Bool × σ
  read : σ → Nat → Option Bytes × σ

/-- `thrift_memory_buffer_write` and `thrift_memory_buffer_read`, as far as
they look at the room and at what is unread. -/
def memoryBuffer : Transport Buffer where
  write b bs := if b.room < bs.length then (false, b) else (true, b.append bs)
  read b len :=
    if h : len ≤ b.unread.length then
      let b' := b.consume len h
      (some (b.unread.take len),
        if b'.roffset = b'.woffset then b'.reset else b')
    else (none, b)

/-- Takes everything and keeps nothing. -/
def fakeTransport : Transport Unit where
  write _ _ := (true, ())
  read _ _ := (none, ())

/-- The bytes of a C string: up to the first NUL. -/
def cstr (s : Bytes) : Bytes := s.takeWhile (· ≠ nul)

/-- `os_put_value64` -/
def os_put_value64 (value : Nat) : Bytes :=
  (List.range 8).map fun i => UInt8.ofNat (value >>> ((8 - (i + 1)) * 8))

/-- `os_get_value64` -/
def os_get_value64 (data : Bytes) : Nat :=
  data.foldl (fun value b => value * 256 + b.toNat) 0

/-- An `ipaddr_t`: its `iptype` and the member of the union that goes with
it. -/
inductive IpAddr
  | ipv4 (bytes : Bytes) (h : bytes.length = 4)
  | ipv6 (bytes : Bytes) (h : bytes.length = 16)
  | other (iptype : BitVec 8)
  deriving DecidableEq

-- ================================================================ write

section Write

variable {σ : Type} (T : Transport σ)

/-- `if ((ret = f) < 0) return -1; xfer += ret;` -/
def seq (xfer : Int) (f : σ → Int × σ) (k : Int → σ → Int × σ) (s : σ) :
    Int × σ :=
  match f s with
  | (ret, s) => if ret < 0 then (-1, s) else k (i32 (xfer + ret)) s

/-- Write these bytes and return their number. -/
def put (bs : Bytes) (s : σ) : Int × σ :=
  match T.write s bs with
  | (true, s) => (bs.length, s)
  | (false, s) => (-1, s)

/-- The numbers differ in their width, and in how they come into network
order: `htons`, `htonl`, or `os_put_value64` for eight bytes. -/
def write_byte (value : BitVec 8) : σ → Int × σ := put T (image 1 value.toNat)

/-- `htons` -/
def write_i16 (value : BitVec 16) : σ → Int × σ :=
  put T (image 2 (swap 2 value.toNat))

/-- As an `i16`. -/
def write_u16 (value : BitVec 16) : σ → Int × σ :=
  put T (image 2 (swap 2 value.toNat))

/-- `htonl` -/
def write_i32 (value : BitVec 32) : σ → Int × σ :=
  put T (image 4 (swap 4 value.toNat))

/-- As an `i32`. -/
def write_u32 (value : BitVec 32) : σ → Int × σ :=
  put T (image 4 (swap 4 value.toNat))

/-- Eight bytes in network order. -/
def write_i64 (value : BitVec 64) : σ → Int × σ :=
  put T (os_put_value64 value.toNat)

/-- As an `i64`. -/
def write_u64 (value : BitVec 64) : σ → Int × σ :=
  put T (os_put_value64 value.toNat)

/-- 1 for what is not 0, whatever the byte is. -/
def write_bool (value : BitVec 8) : σ → Int × σ :=
  write_byte T (if value ≠ 0 then 1 else 0)

/-- The length, and the bytes if there are any. -/
def write_binary (buf : Bytes) (len : BitVec 32) : σ → Int × σ :=
  seq 0 (write_i32 T len) fun xfer s =>
    if len.toNat > 0 then
      match T.write s (buf.take len.toNat) with
      | (false, s) => (-1, s)
      | (true, s) => (i32 (xfer + len.toNat), s)
    else (xfer, s)

/-- A null `str` is `none`. -/
def write_string (str : Option Bytes) : σ → Int × σ :=
  match str with
  | none => write_binary T [] 0
  | some s => write_binary T s (BitVec.ofNat 32 (cstr s).length)

/-- As a string. -/
def write_xml (str : Option Bytes) : σ → Int × σ := write_string T str

/-- The name, and nothing else. -/
def write_sandesh_begin (name : Bytes) : σ → Int × σ :=
  seq 0 (write_string T (some name)) Prod.mk

/-- Type and id. The field's name is not on the wire. -/
def write_field_begin (field_type : TType) (field_id : BitVec 16) :
    σ → Int × σ :=
  seq 0 (write_byte T (BitVec.ofNat 8 field_type.code)) fun xfer =>
    seq xfer (write_i16 T field_id) Prod.mk

/-- The byte that ends the fields. -/
def write_field_stop : σ → Int × σ :=
  write_byte T (BitVec.ofNat 8 TType.T_STOP.code)

/-- Type and number of the elements. -/
def write_list_begin (element_type : TType) (size : BitVec 32) :
    σ → Int × σ :=
  seq 0 (write_byte T (BitVec.ofNat 8 element_type.code)) fun xfer =>
    seq xfer (write_i32 T size) Prod.mk

/-- An address of four bytes, as a number. -/
def write_ipv4 (value : BitVec 32) : σ → Int × σ := write_u32 T value

/-- The family, and the bytes that go with it; no other family is written.
-/
def write_ipaddr : IpAddr → σ → Int × σ
  | .ipv4 bytes _ =>
      seq 0 (write_byte T (BitVec.ofNat 8 AF_INET)) fun xfer s =>
        match T.write s bytes with
        | (true, s) => (xfer + 4, s)
        | (false, s) => (-1, s)
  | .ipv6 bytes _ =>
      seq 0 (write_byte T (BitVec.ofNat 8 AF_INET6)) fun xfer s =>
        match T.write s bytes with
        | (true, s) => (xfer + 16, s)
        | (false, s) => (-1, s)
  | .other _ => fun s => (-1, s)

/-- Sixteen bytes, in the order they are in. -/
def write_uuid_t (value : Bytes) : σ → Int × σ := put T value

/-- The bits go out as the host keeps them. -/
def write_double (bits : BitVec 64) : σ → Int × σ :=
  put T (image 8 bits.toNat)

end Write

-- ================================================================= read

section Read

variable {σ : Type} (T : Transport σ)

/-- A read function. -/
abbrev Reader (σ α : Type) : Type := σ → Option (α × Int) × σ

/-- `if ((ret = f) < 0) return -1; xfer += ret;` -/
def andThen {α β : Type} (xfer : Int) (f : Reader σ α)
    (k : α → Int → Reader σ β) : Reader σ β := fun s =>
  match f s with
  | (none, s) => (none, s)
  | (some (a, ret), s) => k a (i32 (xfer + ret)) s

/-- The end of a function: its value and `xfer`. -/
def done {α : Type} (a : α) (xfer : Int) : Reader σ α := fun s =>
  (some (a, xfer), s)

/-- `thrift_transport_read` -/
def get (len : Nat) : Reader σ Bytes := fun s =>
  match T.read s len with
  | (none, s) => (none, s)
  | (some bs, s) => (some (bs, len), s)

/-- A function whose last statement makes something else of the value. -/
def map {α β : Type} (g : α → β) (f : Reader σ α) : Reader σ β := fun s =>
  match f s with
  | (none, s) => (none, s)
  | (some (a, ret), s) => (some (g a, ret), s)

/-- The numbers are read as they are written. -/
def read_byte : Reader σ (BitVec 8) :=
  map (fun bs => BitVec.ofNat 8 (ofImage bs)) (get T 1)

/-- Whatever is not 0 reads as 1. -/
def read_bool : Reader σ (BitVec 8) :=
  map (fun bs => if ofImage bs ≠ 0 then 1 else 0) (get T 1)

/-- `ntohs` -/
def read_i16 : Reader σ (BitVec 16) :=
  map (fun bs => BitVec.ofNat 16 (swap 2 (ofImage bs))) (get T 2)

/-- As an `i16`. -/
def read_u16 : Reader σ (BitVec 16) :=
  map (fun bs => BitVec.ofNat 16 (swap 2 (ofImage bs))) (get T 2)

/-- `ntohl` -/
def read_i32 : Reader σ (BitVec 32) :=
  map (fun bs => BitVec.ofNat 32 (swap 4 (ofImage bs))) (get T 4)

/-- As an `i32`. -/
def read_u32 : Reader σ (BitVec 32) :=
  map (fun bs => BitVec.ofNat 32 (swap 4 (ofImage bs))) (get T 4)

/-- Eight bytes in network order. -/
def read_i64 : Reader σ (BitVec 64) :=
  map (fun bs => BitVec.ofNat 64 (os_get_value64 bs)) (get T 8)

/-- As an `i64`. -/
def read_u64 : Reader σ (BitVec 64) :=
  map (fun bs => BitVec.ofNat 64 (os_get_value64 bs)) (get T 8)

/-- As a `u32`. -/
def read_ipv4 : Reader σ (BitVec 32) := read_u32 T

/-- The `iptype` and the bytes of the address. -/
def read_ipaddr : Reader σ (Nat × Bytes) :=
  andThen 0 (read_byte T) fun iptype xfer =>
    if iptype.toNat = AF_INET then
      andThen xfer (get T 4) fun bs xfer => done (AF_INET, bs) xfer
    else if iptype.toNat = AF_INET6 then
      andThen xfer (get T 16) fun bs xfer => done (AF_INET6, bs) xfer
    else fun s => (none, s)

/-- Sixteen bytes. -/
def read_uuid_t : Reader σ Bytes := get T 16

/-- Eight bytes, as they are: nothing swaps them. -/
def read_double : Reader σ (BitVec 64) :=
  map (fun bs => BitVec.ofNat 64 (ofImage bs)) (get T 8)

/-- An empty string is read as a null pointer. -/
def read_string : Reader σ (Option Bytes) :=
  andThen 0 (read_i32 T) fun read_len xfer =>
    if read_len.toInt > 0 then
      andThen xfer (get T read_len.toNat) fun bs xfer => done (some bs) xfer
    else done none xfer

/-- As a string. -/
def read_xml : Reader σ (Option Bytes) := read_string T

/-- As a string. -/
def read_binary : Reader σ (Option Bytes) := read_string T

/-- The name. -/
def read_sandesh_begin : Reader σ (Option Bytes) :=
  andThen 0 (read_string T) done

/-- A type from the wire is sign-extended to the enumeration's width. -/
def thriftType (type : BitVec 8) : Nat := (type.signExtend 32).toNat

/-- The type and the id of a field. -/
def read_field_begin : Reader σ (Nat × BitVec 16) :=
  andThen 0 (read_byte T) fun type xfer =>
    if thriftType type = TType.T_STOP.code then done (thriftType type, 0) xfer
    else andThen xfer (read_i16 T) fun field_id xfer =>
      done (thriftType type, field_id) xfer

/-- The type and the number of the elements. -/
def read_list_begin : Reader σ (Nat × Nat) :=
  andThen 0 (read_byte T) fun e xfer =>
    andThen xfer (read_i32 T) fun sizei xfer =>
      if sizei.toInt < 0 then fun s => (none, s)
      else done (thriftType e, sizei.toNat) xfer

end Read

end Sandesh.Binary.C

/-
Values of any shape, written with the functions of the C binary protocol
(library/c/protocol/thrift_binary_protocol.c).

A `Scalar` is a value of a base type as the C code holds it. A `Tree` is a
value, the fields of a structure or the elements of a list, by its `Kind`;
the elements of a list are of the type its header gives.
-/

namespace Sandesh.Binary

open Lib C

/-- The values that are no container, of which a skip has to know the
length. -/
inductive Scalar
  | bool (value : BitVec 8)
  | byte (value : BitVec 8)
  | i16 (value : BitVec 16)
  | i32 (value : BitVec 32)
  | i64 (value : BitVec 64)
  | u16 (value : BitVec 16)
  | u32 (value : BitVec 32)
  | u64 (value : BitVec 64)
  | ipv4 (value : BitVec 32)
  | ipaddr (value : IpAddr)
  | double (bits : BitVec 64)
  | string (value : Option Bytes)
  | xml (value : Option Bytes)
  | uuid (value : Bytes) (h : value.length = 16)

/-- The type under which a value is announced. -/
def Scalar.type : Scalar → TType
  | bool _ => .T_BOOL
  | byte _ => .T_BYTE
  | i16 _ => .T_I16
  | i32 _ => .T_I32
  | i64 _ => .T_I64
  | u16 _ => .T_U16
  | u32 _ => .T_U32
  | u64 _ => .T_U64
  | ipv4 _ => .T_IPV4
  | ipaddr _ => .T_IPADDR
  | double _ => .T_DOUBLE
  | string _ => .T_STRING
  | xml _ => .T_XML
  | uuid _ _ => .T_UUID

/-- What a tree is: a value of a type, fields, or so many elements. -/
inductive Kind
  | value (type : Nat)
  | fields
  | elems (type n : Nat)

/-- What a writer can put on the wire, by what `skip` takes it for: a value
under its type, fields up to a stop, or a number of elements. -/
inductive Tree : Kind → Type
  | leaf (v : Scalar) : Tree (.value v.type.code)
  | struct (fs : Tree .fields) : Tree (.value TType.T_STRUCT.code)
  | list (t : TType) {n : Nat} (es : Tree (.elems t.code n)) :
      Tree (.value TType.T_LIST.code)
  | stop : Tree .fields
  | field (t : TType) (id : BitVec 16) (h : t ≠ .T_STOP)
      (v : Tree (.value t.code)) (fs : Tree .fields) : Tree .fields
  | nil {t : Nat} : Tree (.elems t 0)
  | cons {t n : Nat} (v : Tree (.value t)) (es : Tree (.elems t n)) :
      Tree (.elems t (n + 1))

section Write

variable {σ : Type} (T : Transport σ)

/-- The function of the protocol for each. -/
def Scalar.write : Scalar → σ → Int × σ
  | bool v => write_bool T v
  | byte v => write_byte T v
  | i16 v => write_i16 T v
  | i32 v => write_i32 T v
  | i64 v => write_i64 T v
  | u16 v => write_u16 T v
  | u32 v => write_u32 T v
  | u64 v => write_u64 T v
  | ipv4 v => write_ipv4 T v
  | ipaddr v => write_ipaddr T v
  | double v => write_double T v
  | string s => write_string T s
  | xml s => write_xml T s
  | uuid u _ => write_uuid_t T u

/-- One after the other, unless the first fails. -/
def chain (f g : Int → σ → Int × σ) (xfer : Int) (s : σ) : Int × σ :=
  match f xfer s with
  | (xfer, s) => if xfer < 0 then (-1, s) else g xfer s

/-- Write a tree, going on from a result so far. -/
def Tree.write {k : Kind} : Tree k → Int → σ → Int × σ
  | .leaf v, xfer => seq xfer (v.write T) Prod.mk
  | .struct fs, xfer => fs.write xfer
  | .list (n := n) t es, xfer =>
      seq xfer (write_list_begin T t (BitVec.ofNat 32 n)) es.write
  | .stop, xfer => seq xfer (write_field_stop T) Prod.mk
  | .field t id _ v fs, xfer =>
      seq xfer (write_field_begin T t id) (chain v.write fs.write)
  | .nil, xfer => Prod.mk xfer
  | .cons v es, xfer => chain v.write es.write xfer

end Write

end Sandesh.Binary
