/-
The C++ library's binary protocol, `TBinaryProtocolT` over `TMemoryBuffer`
(library/cpp/protocol/TBinaryProtocol.tcc,
library/cpp/transport/TBufferTransports.h, TTransport.h).

What `trans_->write` and `trans_->readAll` return is not looked at. Where
the buffer ends before the bytes asked for, `readAll` has copied what there
was and the rest of the variable or of `string_buf_` is what was there
before: `stale` is what such places hold, in the order in which they are
read. No limits on strings and containers are set.

Reading functions return what they store through their references and the
number of bytes, or nothing where the source returns -1. The functions that
return 0 and do nothing else are left out.
-/
import Sandesh.Binary.C

namespace Sandesh.Binary.Cpp

open Lib C

/-- `boost::asio::ip::address` -/
inductive Address
  | v4 (bytes : Bytes) (h : bytes.length = 4)
  | v6 (bytes : Bytes) (h : bytes.length = 16)

-- ================================================================ write

/-- `trans_->write` -/
def write (b : Buffer) (bs : Bytes) : Buffer :=
  if b.room < bs.length then b else b.append bs

/-- `trans_->write(.., n); return n;` -/
def writeBytes (bs : Bytes) (b : Buffer) : Int × Buffer :=
  (bs.length, write b bs)

/-- The functions that write a value of fixed length hand its bytes to the
transport, and return their number. -/
def writeBool (value : Bool) : Buffer → Int × Buffer :=
  writeBytes (image 1 (if value then 1 else 0))

/-- One byte. -/
def writeByte (byte : BitVec 8) : Buffer → Int × Buffer :=
  writeBytes (image 1 byte.toNat)

/-- Two bytes in network order. -/
def writeI16 (i16 : BitVec 16) : Buffer → Int × Buffer :=
  writeBytes (image 2 (swap 2 i16.toNat))

/-- Four bytes in network order. -/
def writeI32 (i32 : BitVec 32) : Buffer → Int × Buffer :=
  writeBytes (image 4 (swap 4 i32.toNat))

/-- Eight bytes in network order. -/
def writeI64 (i64 : BitVec 64) : Buffer → Int × Buffer :=
  writeBytes (image 8 (swap 8 i64.toNat))

/-- As an `i16`. -/
def writeU16 (u16 : BitVec 16) : Buffer → Int × Buffer :=
  writeBytes (image 2 (swap 2 u16.toNat))

/-- As an `i32`. -/
def writeU32 (u32 : BitVec 32) : Buffer → Int × Buffer :=
  writeBytes (image 4 (swap 4 u32.toNat))

/-- As an `i64`. -/
def writeU64 (u64 : BitVec 64) : Buffer → Int × Buffer :=
  writeBytes (image 8 (swap 8 u64.toNat))

/-- As an `i32`. -/
def writeIPV4 (ip4 : BitVec 32) : Buffer → Int × Buffer :=
  writeBytes (image 4 (swap 4 ip4.toNat))

/-- The result counts the four or sixteen bytes of the address whether they
are written or not. -/
def writeIPADDR (ipaddress : Address) (b : Buffer) : Int × Buffer :=
  match ipaddress with
  | .v4 bytes _ =>
      match writeByte (BitVec.ofNat 8 AF_INET) b with
      | (ret, b) => (ret + 4, write b bytes)
  | .v6 bytes _ =>
      match writeByte (BitVec.ofNat 8 AF_INET6) b with
      | (ret, b) => (ret + 16, write b bytes)

/-- `htonll` -/
def writeDouble (bits : BitVec 64) : Buffer → Int × Buffer :=
  writeBytes (image 8 (swap 8 bits.toNat))

/-- The length as an `uint32_t`, and all of the bytes. -/
def writeString (str : Bytes) (b : Buffer) : Int × Buffer :=
  let size : BitVec 32 := BitVec.ofNat 32 str.length
  match writeI32 size b with
  | (result, b) =>
      (i32 (result + size.toNat),
        if size.toNat > 0 then write b (str.take size.toNat) else b)

/-- An xml is written as a string. -/
def writeXML (str : Bytes) : Buffer → Int × Buffer := writeString str

/-- Sixteen bytes, as they are. -/
def writeUUID (uuid : Bytes) : Buffer → Int × Buffer := writeBytes uuid

/-- A sandesh begins with its name. -/
def writeSandeshBegin (name : Bytes) : Buffer → Int × Buffer := writeString name

/-- Type and id. The name of the field is not written. -/
def writeFieldBegin (fieldType : TType) (fieldId : BitVec 16) :
    Buffer → Int × Buffer :=
  seq 0 (writeByte (BitVec.ofNat 8 fieldType.code)) fun wsize =>
    seq wsize (writeI16 fieldId) Prod.mk

/-- The byte behind the last field. -/
def writeFieldStop : Buffer → Int × Buffer :=
  writeByte (BitVec.ofNat 8 TType.T_STOP.code)

/-- Type and number of the elements. -/
def writeListBegin (elemType : TType) (size : BitVec 32) :
    Buffer → Int × Buffer :=
  seq 0 (writeByte (BitVec.ofNat 8 elemType.code)) fun wsize =>
    seq wsize (writeI32 size) Prod.mk

/-- A set is written as a list. -/
def writeSetBegin (elemType : TType) (size : BitVec 32) :
    Buffer → Int × Buffer :=
  writeListBegin elemType size

/-- The types of keys and values, and the number of pairs. -/
def writeMapBegin (keyType valType : TType) (size : BitVec 32) :
    Buffer → Int × Buffer :=
  seq 0 (writeByte (BitVec.ofNat 8 keyType.code)) fun wsize =>
    seq wsize (writeByte (BitVec.ofNat 8 valType.code)) fun wsize =>
      seq wsize (writeI32 size) Prod.mk

-- ================================================================= read

/-- `trans_->readAll`: the bytes that are then in the place read into. -/
def readAll (n : Nat) (s : Input) : Bytes × Input :=
  if h : n ≤ s.buffer.unread.length then
    (s.buffer.unread.take n, { s with buffer := s.buffer.consume n h })
  else
    let got := s.buffer.unread
    match draw (n - got.length) s.stale with
    | (rest, stale) =>
        (got ++ rest,
          { buffer := s.buffer.consume s.buffer.unread.length (Nat.le_refl _)
            stale := stale })

/-- Every read of a fixed length looks the same: it takes what `readAll` has
put there, and returns the length, whatever `readAll` returned. -/
def readFixed {α : Type} (n : Nat) (value : Bytes → α) : Reader Input α :=
  fun s =>
    match readAll n s with
    | (bs, s) => (some (value bs, n), s)

/-- Whatever is not 0 is true. -/
def readBool : Reader Input Bool := readFixed 1 fun bs => ofImage bs ≠ 0

/-- One byte. -/
def readByte : Reader Input (BitVec 8) :=
  readFixed 1 fun bs => BitVec.ofNat 8 (ofImage bs)

/-- Two bytes in network order. -/
def readI16 : Reader Input (BitVec 16) :=
  readFixed 2 fun bs => BitVec.ofNat 16 (swap 2 (ofImage bs))

/-- Four bytes in network order. -/
def readI32 : Reader Input (BitVec 32) :=
  readFixed 4 fun bs => BitVec.ofNat 32 (swap 4 (ofImage bs))

/-- Eight bytes in network order. -/
def readI64 : Reader Input (BitVec 64) :=
  readFixed 8 fun bs => BitVec.ofNat 64 (swap 8 (ofImage bs))

/-- As an `i16`. -/
def readU16 : Reader Input (BitVec 16) :=
  readFixed 2 fun bs => BitVec.ofNat 16 (swap 2 (ofImage bs))

/-- As an `i32`. -/
def readU32 : Reader Input (BitVec 32) :=
  readFixed 4 fun bs => BitVec.ofNat 32 (swap 4 (ofImage bs))

/-- As an `i64`. -/
def readU64 : Reader Input (BitVec 64) :=
  readFixed 8 fun bs => BitVec.ofNat 64 (swap 8 (ofImage bs))

/-- As an `i32`. -/
def readIPV4 : Reader Input (BitVec 32) :=
  readFixed 4 fun bs => BitVec.ofNat 32 (swap 4 (ofImage bs))

/-- The version and the bytes of the address. -/
def readIPADDR : Reader Input (Nat × Bytes) :=
  andThen 0 readByte fun version ret =>
    if version.toNat = AF_INET then
      andThen ret (readFixed 4 id) fun bs => done (AF_INET, bs)
    else if version.toNat = AF_INET6 then
      andThen ret (readFixed 16 id) fun bs => done (AF_INET6, bs)
    else fun s => (none, s)

/-- Eight bytes in network order: C++ swaps them, C does not. -/
def readDouble : Reader Input (BitVec 64) :=
  readFixed 8 fun bs => BitVec.ofNat 64 (swap 8 (ofImage bs))

/-- Whether the bytes are borrowed or copied to `string_buf_`, the string is
what `readAll` leaves. -/
def readStringBody (size : BitVec 32) : Reader Input Bytes :=
  if size.toInt < 0 then fun s => (none, s)
  else if size.toInt = 0 then done [] 0
  else readFixed size.toNat id

/-- The length, and so many bytes of the buffer. -/
def readString : Reader Input Bytes :=
  andThen 0 readI32 fun size result =>
    andThen result (readStringBody size) done

/-- An xml is read as a string. -/
def readXML : Reader Input Bytes := readString

/-- Sixteen bytes, as they are. -/
def readUUID : Reader Input Bytes := readFixed 16 id

/-- The name. -/
def readSandeshBegin : Reader Input Bytes := readString

/-- Type and id; behind a stop there is no id. -/
def readFieldBegin : Reader Input (Nat × BitVec 16) :=
  andThen 0 readByte fun type result =>
    if thriftType type = TType.T_STOP.code then done (thriftType type, 0) result
    else andThen result readI16 fun fieldId =>
      done (thriftType type, fieldId)

/-- Type and size; a negative size is refused. -/
def readListBegin : Reader Input (Nat × Nat) :=
  andThen 0 readByte fun e result =>
    andThen result readI32 fun sizei result =>
      if sizei.toInt < 0 then fun s => (none, s)
      else done (thriftType e, sizei.toNat) result

/-- Unlike for a list, a negative size is only logged. -/
def readSetBegin : Reader Input (Nat × Nat) :=
  andThen 0 readByte fun e result =>
    andThen result readI32 fun sizei =>
      done (thriftType e, sizei.toNat)

/-- Types and size, the same way. -/
def readMapBegin : Reader Input (Nat × Nat × Nat) :=
  andThen 0 readByte fun k result =>
    andThen result readByte fun v result =>
      andThen result readI32 fun sizei result =>
        if sizei.toInt < 0 then fun s => (none, s)
        else done (thriftType k, thriftType v, sizei.toNat) result

-- ================================================================ calls

/-- The read functions that generated code calls. -/
inductive Call
  | readBool
  | readByte
  | readI16
  | readI32
  | readI64
  | readU16
  | readU32
  | readU64
  | readIPV4
  | readIPADDR
  | readDouble
  | readString
  | readXML
  | readUUID
  | readSandeshBegin
  | readFieldBegin
  | readListBegin
  | readSetBegin
  | readMapBegin

/-- What the call does. -/
def Call.read : Call → Reader Input Value
  | readBool => map .bool Cpp.readBool
  | readByte => map number Cpp.readByte
  | readI16 => map number Cpp.readI16
  | readI32 => map number Cpp.readI32
  | readI64 => map number Cpp.readI64
  | readU16 => map number Cpp.readU16
  | readU32 => map number Cpp.readU32
  | readU64 => map number Cpp.readU64
  | readIPV4 => map number Cpp.readIPV4
  | readIPADDR => map (fun a => .address a.1 a.2) Cpp.readIPADDR
  | readDouble => map number Cpp.readDouble
  | readString => map .bytes Cpp.readString
  | readXML => map .bytes Cpp.readXML
  | readUUID => map .bytes Cpp.readUUID
  | readSandeshBegin => map .bytes Cpp.readSandeshBegin
  | readFieldBegin => map (fun f => .field f.1 f.2) Cpp.readFieldBegin
  | readListBegin => map (fun l => .list l.1 l.2) Cpp.readListBegin
  | readSetBegin => map (fun l => .list l.1 l.2) Cpp.readSetBegin
  | readMapBegin => map (fun m => .map m.1 m.2.1 m.2.2) Cpp.readMapBegin

/-- What generated code writes: a value of a base type or a header. -/
inductive Piece
  | bool (value : Bool)
  | byte (value : BitVec 8)
  | i16 (value : BitVec 16)
  | i32 (value : BitVec 32)
  | i64 (value : BitVec 64)
  | u16 (value : BitVec 16)
  | u32 (value : BitVec 32)
  | u64 (value : BitVec 64)
  | ipv4 (value : BitVec 32)
  | ipaddr (value : Address)
  | double (bits : BitVec 64)
  | string (value : Bytes)
  | xml (value : Bytes)
  | uuid (value : Bytes) (h : value.length = 16)
  | sandeshBegin (name : Bytes)
  | fieldBegin (type : TType) (id : BitVec 16) (h : type ≠ .T_STOP)
  | fieldStop
  | listBegin (type : TType) (size : BitVec 32)
  | setBegin (type : TType) (size : BitVec 32)
  | mapBegin (keyType valType : TType) (size : BitVec 32)

/-- The version and the bytes of an address. -/
def family : Address → Nat × Bytes
  | .v4 bytes _ => (AF_INET, bytes)
  | .v6 bytes _ => (AF_INET6, bytes)

namespace Piece

def write : Piece → Buffer → Int × Buffer
  | bool v => writeBool v
  | byte v => writeByte v
  | i16 v => writeI16 v
  | i32 v => writeI32 v
  | i64 v => writeI64 v
  | u16 v => writeU16 v
  | u32 v => writeU32 v
  | u64 v => writeU64 v
  | ipv4 v => writeIPV4 v
  | ipaddr a => writeIPADDR a
  | double v => writeDouble v
  | string s => writeString s
  | xml s => writeXML s
  | uuid u _ => writeUUID u
  | sandeshBegin s => writeSandeshBegin s
  | fieldBegin t id _ => writeFieldBegin t id
  | fieldStop => writeFieldStop
  | listBegin t n => writeListBegin t n
  | setBegin t n => writeSetBegin t n
  | mapBegin k v n => writeMapBegin k v n

/-- The call that reads it. -/
def call : Piece → Call
  | bool _ => .readBool
  | byte _ => .readByte
  | i16 _ => .readI16
  | i32 _ => .readI32
  | i64 _ => .readI64
  | u16 _ => .readU16
  | u32 _ => .readU32
  | u64 _ => .readU64
  | ipv4 _ => .readIPV4
  | ipaddr _ => .readIPADDR
  | double _ => .readDouble
  | string _ => .readString
  | xml _ => .readXML
  | uuid _ _ => .readUUID
  | sandeshBegin _ => .readSandeshBegin
  | fieldBegin _ _ _ => .readFieldBegin
  | fieldStop => .readFieldBegin
  | listBegin _ _ => .readListBegin
  | setBegin _ _ => .readSetBegin
  | mapBegin _ _ _ => .readMapBegin

/-- The value that a reader gets of it. -/
def value : Piece → Value
  | bool v => .bool v
  | byte v => number v
  | i16 v | u16 v => number v
  | i32 v | u32 v | ipv4 v => number v
  | i64 v | u64 v | double v => number v
  | ipaddr a => .address (family a).1 (family a).2
  | string s | xml s | uuid s _ | sandeshBegin s => .bytes s
  | fieldBegin t id _ => .field t.code id
  | fieldStop => .field TType.T_STOP.code 0
  | listBegin t n | setBegin t n => .list t.code n.toNat
  | mapBegin k v n => .map k.code v.code n.toNat

end Piece

end Sandesh.Binary.Cpp

/-
The headers of containers in the C++ binary protocol, with the limit on
their size (`readMapBegin`, `readListBegin` and `readSetBegin` in
library/cpp/protocol/TBinaryProtocol.tcc).

`container_limit_` is an `int32_t`; 0 means that there is no limit. The
three functions are copies of each other but for one thing: where the size
is negative, `readSetBegin` logs that and goes on. What is logged is left
out.

The size that is returned is the number of turns of the loops in `skip`
(library/cpp/protocol/TProtocol.h) and in generated readers.
-/

namespace Sandesh.Binary.Container

open Lib C Cpp

/-- `return -1`. -/
def fail {α : Type} : Reader Input α := fun s => (none, s)

variable (container_limit_ : BitVec 32)

def readMapBegin : Reader Input (Nat × Nat × Nat) :=
  andThen 0 readByte fun k result =>
    andThen result readByte fun v result =>
      andThen result readI32 fun sizei result =>
        if sizei.toInt < 0 then fail
        else if container_limit_ ≠ 0 ∧ sizei.toInt > container_limit_.toInt then fail
        else done (thriftType k, thriftType v, sizei.toNat) result

def readListBegin : Reader Input (Nat × Nat) :=
  andThen 0 readByte fun e result =>
    andThen result readI32 fun sizei result =>
      if sizei.toInt < 0 then fail
      else if container_limit_ ≠ 0 ∧ sizei.toInt > container_limit_.toInt then fail
      else done (thriftType e, sizei.toNat) result

/-- The first branch has no `return`. -/
def readSetBegin : Reader Input (Nat × Nat) :=
  andThen 0 readByte fun e result =>
    andThen result readI32 fun sizei result =>
      if sizei.toInt < 0 then done (thriftType e, sizei.toNat) result
      else if container_limit_ ≠ 0 ∧ sizei.toInt > container_limit_.toInt then fail
      else done (thriftType e, sizei.toNat) result

end Sandesh.Binary.Container
