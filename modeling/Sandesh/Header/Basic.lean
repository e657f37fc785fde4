/-
`SandeshHeader`, the struct every message starts with
(library/common/sandesh.sandesh). Strings are byte strings, integers are
the machine words of their thrift types; the enumeration `SandeshType` is
kept as the `i32` it is sent as, since neither side checks its range.
-/
import Sandesh.Lib.Text
import Sandesh.Xml.Protocol

namespace Sandesh.Header

open Lib

/-- The header of every message, as sandesh.sandesh declares it. -/
structure SandeshHeader where
  Namespace : Bytes
  Timestamp : BitVec 64
  Module : Bytes
  Source : Bytes
  Context : Bytes
  SequenceNum : BitVec 32
  VersionSig : BitVec 32
  Type_ : BitVec 32
  Hints : BitVec 32
  Level : BitVec 32
  Category : Bytes
  NodeType : Bytes
  InstanceId : Bytes
  /-- `optional`: written and compared only when `__isset` -/
  IPAddress : Option Bytes
  Pid : Option (BitVec 32)
deriving DecidableEq

/-- `SandeshHeader()`. -/
def SandeshHeader.init : SandeshHeader where
  Namespace := []
  Timestamp := 0
  Module := []
  Source := []
  Context := []
  SequenceNum := 0
  VersionSig := 0
  Type_ := 0
  Hints := 0
  Level := 0
  Category := []
  NodeType := []
  InstanceId := []
  IPAddress := none
  Pid := none

/-- The bit of `Hints` for control messages. -/
def SANDESH_CONTROL_HINT : BitVec 32 := 0x2

/-- `header.get_Hints() & SANDESH_CONTROL_HINT`. -/
def SandeshHeader.control (header : SandeshHeader) : Bool :=
  header.Hints &&& SANDESH_CONTROL_HINT != 0

end Sandesh.Header

/-
Reading a struct, and `SandeshReader::ExtractMsgHeader`
(library/cpp/sandesh_session.cc; the struct reader is the one that
compiler/generate/t_cpp_generator.cc generates).

A struct is a table of slots, one a field of the IDL: its id, its name, its
type, and how a value gets in and out. The generated reader switches on the
id that was read and skips the field when the type is not the one declared
or the id is none of the table's.

`xfer` and `ret` are `int32_t` in the generated code, the counts here are
not bounded. The two differ only for a header of `2 ^ 31` bytes or more,
which is never sent: what `header.write` returns is the same sum as an
`int32_t`, negative at that size, and a negative result is a failure to its
callers.
-/

namespace Sandesh.Header

open Lib Xml

-- =============================================================== slots

/-- The types of the header's fields; an enumeration goes as an `i32`. -/
inductive Kind
  | string | i64 | i32

/-- The values of the three kinds of fields. -/
abbrev Kind.Val : Kind → Type
  | .string => Bytes
  | .i64 => BitVec 64
  | .i32 => BitVec 32

/-- The type that the kind is written with. -/
def Kind.ttype : Kind → TType
  | .string => .T_STRING
  | .i64 => .T_I64
  | .i32 => .T_I32

/-- A field of a struct; `get` is `none` for an optional one not set. -/
structure Slot (S : Type) where
  id : Nat
  name : Bytes
  kind : Kind
  get : S → Option kind.Val
  put : kind.Val → S → S

variable {S : Type} (W : World) (R : Reads)

/-- The read of the protocol for the kind. -/
def readKind : (kind : Kind) → Read (Int × kind.Val)
  | .string => readString R
  | .i64 => readXMLInteger W R 64
  | .i32 => readXMLInteger W R 32

/-- The `else` of a generated `read`: a field with another type is skipped.
-/
def skipField (ftype : TType) (s : S) : Read (Int × S) := do
  let ret ← skip W R ftype
  pure (ret, s)

/-- `switch (fid)`. -/
def readField (slots : List (Slot S)) (ftype : TType) (fid : BitVec 16)
    (s : S) : Read (Int × S) :=
  match slots.find? (fun slot => BitVec.ofNat 16 slot.id == fid) with
  | some slot =>
      if ftype = slot.kind.ttype then do
        let (ret, v) ← readKind W R slot.kind
        pure (ret, slot.put v s)
      else skipField W R ftype s
  | none => skipField W R ftype s

/-- The variables of the field loop. -/
structure Fields (S : Type) where
  xfer : Int
  ftype : TType
  fid : BitVec 16
  value : S

/-- The loop of a generated `read`, up to the stop. -/
def readFields (slots : List (Slot S)) : Fields S → Read (Int × S) :=
  Prog.loop fun t => do
    let (ret, ftype, fid) ← readFieldBegin W R t.ftype t.fid
    if ftype = .T_STOP then pure (.inr (t.xfer + ret, t.value))
    else
      let (ret2, value) ← readField W R slots ftype fid t.value
      let ret3 ← readFieldEnd R
      pure (.inl ⟨t.xfer + ret + ret2 + ret3, ftype, fid, value⟩)

/-- The generated `read`. -/
def readStruct (slots : List (Slot S)) (init : S) : Read (Int × S) := do
  let (ret, _) ← readStructBegin R
  let (xfer, value) ← readFields W R slots
    ⟨ret, W.junk.ftype, W.junk.fid, init⟩
  let ret2 ← readStructEnd R
  pure (xfer + ret2, value)

-- ========================================================== the header

/-- A field with its id, its name and its two accessors. -/
def stringSlot (id : Nat) (name : Bytes) (get : S → Bytes)
    (put : Bytes → S → S) : Slot S where
  id := id
  name := name
  kind := .string
  get := fun s => some (get s)
  put := put

/-- The same for a number. -/
def i32Slot (id : Nat) (name : Bytes) (get : S → BitVec 32)
    (put : BitVec 32 → S → S) : Slot S where
  id := id
  name := name
  kind := .i32
  get := fun s => some (get s)
  put := put

/-- The fields of the header, by id. -/
def headerSlots : List (Slot SandeshHeader) :=
  [stringSlot 1 (lit "Namespace") (·.Namespace)
      fun v h => { h with Namespace := v },
    { id := 2, name := lit "Timestamp", kind := .i64,
      get := fun h => some h.Timestamp
      put := fun v h => { h with Timestamp := v } },
    stringSlot 3 (lit "Module") (·.Module) fun v h => { h with Module := v },
    stringSlot 4 (lit "Source") (·.Source) fun v h => { h with Source := v },
    stringSlot 5 (lit "Context") (·.Context)
      fun v h => { h with Context := v },
    i32Slot 6 (lit "SequenceNum") (·.SequenceNum)
      fun v h => { h with SequenceNum := v },
    i32Slot 7 (lit "VersionSig") (·.VersionSig)
      fun v h => { h with VersionSig := v },
    i32Slot 8 (lit "Type") (·.Type_) fun v h => { h with Type_ := v },
    i32Slot 9 (lit "Hints") (·.Hints) fun v h => { h with Hints := v },
    i32Slot 10 (lit "Level") (·.Level) fun v h => { h with Level := v },
    stringSlot 11 (lit "Category") (·.Category)
      fun v h => { h with Category := v },
    stringSlot 12 (lit "NodeType") (·.NodeType)
      fun v h => { h with NodeType := v },
    stringSlot 13 (lit "InstanceId") (·.InstanceId)
      fun v h => { h with InstanceId := v },
    { id := 14, name := lit "IPAddress", kind := .string,
      get := fun h => h.IPAddress
      put := fun v h => { h with IPAddress := some v } },
    { id := 15, name := lit "Pid", kind := .i32,
      get := fun h => h.Pid
      put := fun v h => { h with Pid := some v } }]

/-- What `ExtractMsgHeader` hands back. -/
structure MsgHeader where
  header : SandeshHeader
  msg_type : Bytes
  header_offset : Int
deriving DecidableEq

/-- `SandeshReader::ExtractMsgHeader` on a reader over the message. It
returns 0 with the values its reference parameters have got; `EINVAL` is
the exit `failed`, the one a -1 from below takes too. -/
def ExtractMsgHeader : Read MsgHeader := do
  let (ret, header) ← readStruct W R headerSlots SandeshHeader.init
  if ret ≤ 0 then fail
  else
    let (ret2, msg_type) ← readSandeshBegin R
    if ret2 ≤ 0 then fail
    else pure ⟨header, msg_type, ret⟩

end Sandesh.Header

/-
Writing a struct: the writing half of `TXMLProtocol` as far as the header
needs it (library/cpp/protocol/TXMLProtocol.cpp), and the struct writer
that compiler/generate/t_cpp_generator.cc generates.

The names of the open tags are kept on a stack, from which the end tags
are taken. Indentation and line ends are empty strings (they are for
debugging), and the memory buffer below takes everything, so no write
fails.
-/

namespace Sandesh.Header

open Lib Xml

-- ========================================================= TXMLProtocol

/-- The writing half of `TXMLProtocol`: what is out, and the names of the
open tags. -/
structure TXMLWriter where
  /-- what the transport has got -/
  out : Bytes
  xml_state_ : List Bytes

namespace TXMLWriter

/-- A protocol before anything is written. -/
def init : TXMLWriter := ⟨[], []⟩

/-- The names of the types in attributes. -/
def fieldTypeName : TType → Bytes
  | .T_BOOL => lit "bool"
  | .T_BYTE => lit "byte"
  | .T_I16 => lit "i16"
  | .T_I32 => lit "i32"
  | .T_I64 => lit "i64"
  | .T_U16 => lit "u16"
  | .T_U32 => lit "u32"
  | .T_U64 => lit "u64"
  | .T_IPV4 => lit "ipv4"
  | .T_IPADDR => lit "ipaddr"
  | .T_DOUBLE => lit "double"
  | .T_STRING => lit "string"
  | .T_STRUCT => lit "struct"
  | .T_MAP => lit "map"
  | .T_SET => lit "set"
  | .T_LIST => lit "list"
  | .T_SANDESH => lit "sandesh"
  | .T_XML => lit "xml"
  | .T_UUID => lit "uuid_t"
  | .T_STOP | .T_VOID | .T_UTF8 | .T_UTF16 => lit "unknown"

/-- `writePlain`: the text goes to the transport as it is. -/
def writePlain (str : Bytes) (w : TXMLWriter) : TXMLWriter :=
  { w with out := w.out ++ str }

/-- An open tag, its name pushed. -/
def writeBegin (name attrs : Bytes) (w : TXMLWriter) : TXMLWriter where
  out := w.out ++ lit "<" ++ name ++ attrs ++ lit ">"
  xml_state_ := name :: w.xml_state_

/-- An end tag, its name popped; the stack is never empty here. -/
def writeEnd (w : TXMLWriter) : TXMLWriter where
  out := w.out ++ lit "</" ++ w.xml_state_.headD [] ++ lit ">"
  xml_state_ := w.xml_state_.tail

/-- `name="value"`. -/
def formXMLAttr (name value : Bytes) : Bytes :=
  name ++ lit "=\"" ++ value ++ lit "\""

/-- The begins differ in the attributes behind the name. -/
def writeStructBegin (name : Bytes) : TXMLWriter → TXMLWriter :=
  writeBegin name []

/-- An end closes the tag on top. -/
def writeStructEnd : TXMLWriter → TXMLWriter := writeEnd

/-- A sandesh has a type attribute. -/
def writeSandeshBegin (name : Bytes) : TXMLWriter → TXMLWriter :=
  writeBegin name (lit " type=\"sandesh\"")

/-- The attributes of a field. -/
def fieldTag (W : World) (fieldType : TType) (fieldId : Nat) : Bytes :=
  lit " " ++ formXMLAttr (lit "type") (fieldTypeName fieldType) ++ lit " "
    ++ formXMLAttr (lit "identifier") (W.integerToString fieldId)

/-- The tag of a field. -/
def writeFieldBegin (W : World) (name : Bytes) (fieldType : TType)
    (fieldId : Nat) : TXMLWriter → TXMLWriter :=
  writeBegin name (fieldTag W fieldType fieldId)

/-- The end of it. -/
def writeFieldEnd : TXMLWriter → TXMLWriter := writeEnd

end TXMLWriter

open TXMLWriter

-- ============================================================== structs

variable {S : Type} (W : World)

/-- What `writeString`, `writeI64` and `writeI32` write. -/
def Kind.text : (kind : Kind) → kind.Val → Bytes
  | .string, v => escapeXMLControlChars v
  | .i64, v => W.integerToString (BitVec.toInt v)
  | .i32, v => W.integerToString (BitVec.toInt v)

/-- A field, if it is set. -/
def writeField (value : S) (w : TXMLWriter) (slot : Slot S) : TXMLWriter :=
  match slot.get value with
  | none => w
  | some v => writeFieldEnd (writePlain (slot.kind.text W v)
      (writeFieldBegin W slot.name slot.kind.ttype slot.id w))

/-- The generated `write`. -/
def writeStruct (name : Bytes) (slots : List (Slot S)) (value : S)
    (w : TXMLWriter) : TXMLWriter :=
  writeStructEnd (slots.foldl (writeField W value) (writeStructBegin name w))

/-- The generated `write` of the header. -/
def SandeshHeader.write (h : SandeshHeader) : TXMLWriter → TXMLWriter :=
  writeStruct W (lit "SandeshHeader") headerSlots h

/-- A header, and a sandesh of the given name behind it: everything after
its open tag is `body`. -/
def message (h : SandeshHeader) (name body : Bytes) : Bytes :=
  (writePlain body (writeSandeshBegin name (h.write W init))).out

end Sandesh.Header
