/-
The header on the Python side: the class that
compiler/generate/t_py_generator.cc generates for `SandeshHeader`,
`SandeshReader.extract_sandesh_header`
(library/python/pysandesh/sandesh_session.py) and
`SandeshConnection._receive_sandesh_msg` (sandesh_connection.py), with the
writing half of TXMLProtocol.py as far as the header needs it.

Every field may be `None`, and is then not written. Python's integers have
no width: it is put on them when they are written, not when they are read.
-/
import Sandesh.Header.Basic
import Sandesh.Py.Protocol

namespace Sandesh.Py

open Lib
open Xml (TType)
open Header (Kind TXMLWriter)
open Header.TXMLWriter (writeBegin writeEnd writePlain formXMLAttr)

-- =============================================================== fields

/-- The attributes of the header; any may be `None`. -/
structure SandeshHeader where
  Namespace : Option Bytes
  Timestamp : Option Int
  Module : Option Bytes
  Source : Option Bytes
  Context : Option Bytes
  SequenceNum : Option Int
  VersionSig : Option Int
  Type_ : Option Int
  Hints : Option Int
  Level : Option Int
  Category : Option Bytes
  NodeType : Option Bytes
  InstanceId : Option Bytes
  IPAddress : Option Bytes
  Pid : Option Int
deriving DecidableEq

/-- `SandeshHeader()`. -/
def SandeshHeader.init : SandeshHeader :=
  ⟨none, none, none, none, none, none, none, none, none, none, none, none,
    none, none, none⟩

/-- The values of the kinds of fields: numbers have no width. -/
abbrev PyVal : Kind → Type
  | .string => Bytes
  | .i64 => Int
  | .i32 => Int

/-- A field of the class. -/
structure Slot where
  id : Nat
  name : Bytes
  kind : Kind
  get : SandeshHeader → Option (PyVal kind)
  put : Option (PyVal kind) → SandeshHeader → SandeshHeader

/-- The fields of the header, by id. -/
def headerSlots : List Slot :=
  [⟨1, lit "Namespace", .string, (·.Namespace),
      fun v h => { h with Namespace := v }⟩,
    ⟨2, lit "Timestamp", .i64, (·.Timestamp),
      fun v h => { h with Timestamp := v }⟩,
    ⟨3, lit "Module", .string, (·.Module), fun v h => { h with Module := v }⟩,
    ⟨4, lit "Source", .string, (·.Source), fun v h => { h with Source := v }⟩,
    ⟨5, lit "Context", .string, (·.Context),
      fun v h => { h with Context := v }⟩,
    ⟨6, lit "SequenceNum", .i32, (·.SequenceNum),
      fun v h => { h with SequenceNum := v }⟩,
    ⟨7, lit "VersionSig", .i32, (·.VersionSig),
      fun v h => { h with VersionSig := v }⟩,
    ⟨8, lit "Type", .i32, (·.Type_), fun v h => { h with Type_ := v }⟩,
    ⟨9, lit "Hints", .i32, (·.Hints), fun v h => { h with Hints := v }⟩,
    ⟨10, lit "Level", .i32, (·.Level), fun v h => { h with Level := v }⟩,
    ⟨11, lit "Category", .string, (·.Category),
      fun v h => { h with Category := v }⟩,
    ⟨12, lit "NodeType", .string, (·.NodeType),
      fun v h => { h with NodeType := v }⟩,
    ⟨13, lit "InstanceId", .string, (·.InstanceId),
      fun v h => { h with InstanceId := v }⟩,
    ⟨14, lit "IPAddress", .string, (·.IPAddress),
      fun v h => { h with IPAddress := v }⟩,
    ⟨15, lit "Pid", .i32, (·.Pid), fun v h => { h with Pid := v }⟩]

-- ================================================================ write

/-- `re.search('<|>|&|\'|\"', string) is not None`. -/
def searchEscapes (string : Bytes) : Bool :=
  string.any fun c => (lit "<>&'\"").contains c

/-- The text `writeString` writes. -/
def escape (string : Bytes) : Bytes :=
  if searchEscapes string then
    let string := replaceAll (lit "&") (lit "&amp;") string
    let string := replaceAll (lit "'") (lit "&apos;") string
    let string := replaceAll (lit "<") (lit "&lt;") string
    replaceAll (lit ">") (lit "&gt;") string
  else string

/-- An escaped text. -/
def writeString (string : Bytes) : TXMLWriter → TXMLWriter :=
  writePlain (escape string)

/-- Three calls of `writeBuffer`. -/
def writeXML (xml : Bytes) (w : TXMLWriter) : TXMLWriter :=
  writePlain (lit "]]>") (writePlain xml (writePlain (lit "<![CDATA[") w))

/-- `str(ctypes.c_longlong(i64).value)`, and the same for an `i32`. -/
def intText (width : Nat) (i : Int) : Bytes :=
  decimalInt (BitVec.ofInt width i).toInt

/-- A number, taken into its width. -/
def writeI64 (i64 : Int) : TXMLWriter → TXMLWriter :=
  writePlain (intText 64 i64)

/-- The same in 32 bits. -/
def writeI32 (i32 : Int) : TXMLWriter → TXMLWriter :=
  writePlain (intText 32 i32)

/-- The function of each kind. -/
def writeVal : (kind : Kind) → PyVal kind → TXMLWriter → TXMLWriter
  | .string => writeString
  | .i64 => writeI64
  | .i32 => writeI32

/-- The name of a type, `unknown` if it has none. -/
def fieldTypeName (ftype : TType) : Bytes :=
  match field_typename_dict.find? (fun t => t.1 == ftype) with
  | some t => t.2
  | none => lit "unknown"

/-- No field of the header has annotations. -/
def writeFieldBegin (name : Bytes) (ftype : TType) (iden : Nat) :
    TXMLWriter → TXMLWriter :=
  writeBegin name (lit " " ++ formXMLAttr (lit "type") (fieldTypeName ftype)
    ++ lit " " ++ formXMLAttr (lit "identifier") (decimal iden))

/-- A field that is not `None`. -/
def writeField (hdr : SandeshHeader) (w : TXMLWriter) (slot : Slot) :
    TXMLWriter :=
  match slot.get hdr with
  | none => w
  | some v =>
      writeEnd (writeVal slot.kind v
        (writeFieldBegin slot.name slot.kind.ttype slot.id w))

/-- The generated `write`. -/
def SandeshHeader.write (hdr : SandeshHeader) (w : TXMLWriter) : TXMLWriter :=
  writeEnd (headerSlots.foldl (writeField hdr)
    (writeBegin (lit "SandeshHeader") [] w))

/-- The tag of a sandesh. -/
def writeSandeshBegin (name : Bytes) : TXMLWriter → TXMLWriter :=
  writeBegin name (lit " " ++ formXMLAttr (lit "type") (lit "sandesh"))

/-- A header, and a sandesh of the given name behind it. -/
def message (hdr : SandeshHeader) (name body : Bytes) : Bytes :=
  (writePlain body (writeSandeshBegin name (hdr.write .init))).out

-- ================================================================= read

variable (L : Libs)

/-- Methods, and loops over them. -/
abbrev Call (α : Type) : Type := Prog TXMLProtocol PyExc α

/-- A method as a step of a computation. -/
def call {α : Type} (m : Method α) : Call α :=
  Prog.act fun s =>
    match m s with
    | .ok (a, s') => (.ok a, s')
    | .error e => (.error e, s)

/-- The read of each kind. -/
def readVal : (kind : Kind) → Method (Int × Option (PyVal kind))
  | .string => readString
  | .i64 => readI64
  | .i32 => readI32

/-- `iprot.skip(ftype)`; what it skips is not counted. -/
def skipField (ftype : Option TType) (hdr : SandeshHeader) :
    Method (Option (Int × SandeshHeader)) := do
  match ftype with
  | none => pure ()
  | some ftype => skip L ftype
  pure (some (0, hdr))

/-- The `if` on `fid`; `none` is a `return -1`. -/
def readField (ftype : Option TType) (fid : Option Int)
    (hdr : SandeshHeader) : Method (Option (Int × SandeshHeader)) :=
  match headerSlots.find? (fun slot => fid == some (slot.id : Int)) with
  | some slot =>
      if ftype = some slot.kind.ttype then do
        let (length, v) ← readVal slot.kind
        if length < 0 then pure none
        else pure (some (length, slot.put v hdr))
      else skipField L ftype hdr
  | none => skipField L ftype hdr

/-- One turn of the loop over the fields. -/
def fieldTurn (t : Int × SandeshHeader) :
    Method ((Int × SandeshHeader) ⊕ Option (Int × SandeshHeader)) := do
  let b ← readFieldBegin
  if b.length < 0 then pure (.inr none)
  else if b.ftype = some .T_STOP then
    pure (.inr (some (t.1 + b.length, t.2)))
  else
    match ← readField L b.ftype b.fid t.2 with
    | none => pure (.inr none)
    | some (length, hdr) =>
        let length' ← readFieldEnd
        if length' < 0 then pure (.inr none)
        else pure (.inl (t.1 + b.length + length + length', hdr))

/-- `length < 0`, which holds of a `None`. -/
def negative (length : Option Int) : Bool := length.elim true (decide <| · < 0)

/-- The generated `read`: the count and the object, or `none` for -1. -/
def SandeshHeader.read (hdr : SandeshHeader) :
    Call (Option (Int × SandeshHeader)) := do
  let length ← call readStructBegin
  if negative length then pure none
  else
    match ← Prog.loop (fun t => call (fieldTurn L t)) (length.getD 0, hdr) with
    | none => pure none
    | some (read_cnt, hdr) =>
        let length ← call readStructEnd
        if negative length then pure none
        else pure (some (read_cnt + length.getD 0, hdr))

/-- `SandeshReader.extract_sandesh_header`, on a protocol over the
message. -/
def extract_sandesh_header :
    Call (Option SandeshHeader × Int × Option Bytes) := do
  match ← SandeshHeader.init.read L with
  | none => pure (none, 0, none)
  | some (hdr_len, hdr) =>
      let (length, sandesh_name) ← call readSandeshBegin
      if length = -1 then pure (some hdr, hdr_len, none)
      else pure (some hdr, hdr_len, sandesh_name)

-- ============================================================== receive

/-- What becomes of a message. -/
inductive Received
  | DecodingFailed
  | ControlMsgFailed (sandesh_name : Bytes)
  /-- the bytes that `SandeshCtrlServerToClient.read` is given -/
  | control (msg : Bytes)
  /-- the bytes that `handle_sandesh_msg` is given -/
  | sandesh (sandesh_name msg : Bytes)

/-- What is passed on. -/
def Received.passed : Received → Option Bytes
  | .control msg => some msg
  | .sandesh _ msg => some msg
  | _ => none

/-- `hints & SANDESH_CONTROL_HINT`, that is, bit 1. -/
def controlHint (hints : Int) : Bool := hints / 2 % 2 == 1

/-- `SandeshConnection._receive_sandesh_msg`, from the protocol over `msg`
on. -/
def receive_sandesh_msg (msg : Bytes) : Call Received := do
  match ← extract_sandesh_header L with
  | (some hdr, hdr_len, some sandesh_name) =>
      match hdr.Hints with
      | none => Prog.throw .TypeError
      | some hints =>
          if controlHint hints then
            if sandesh_name ≠ lit "SandeshCtrlServerToClient" then
              pure (.ControlMsgFailed sandesh_name)
            else pure (.control (msg.drop hdr_len.toNat))
          else pure (.sandesh sandesh_name (msg.drop hdr_len.toNat))
  | _ => pure .DecodingFailed

end Sandesh.Py
