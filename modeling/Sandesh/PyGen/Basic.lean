/-
The Python code that compiler/generate/t_py_generator.cc generates to write
and to read a value of any type, over the writing and the reading half of
library/python/pysandesh/protocol/TXMLProtocol.py.

Types are those of `CppGen.Idl`. An attribute of an object is a value or
`None`, whatever the IDL says of its field; that all which are required are
set is for `validate`, which the application calls. Numbers have no bounds
until they are written.

# Sets and dictionaries

These are the lists of what an iteration meets: in a writer that order is
anything, in a reader it is the order in which elements come first. A class
has `__eq__` and no `__hash__`, so that its instances cannot be in a set or
be keys, and no more can lists, sets and dictionaries.

# What stays outside

`fastbinary`; attributes of another type than the IDL says, on which a
writer returns -1; default values; and the options of the generator, none
of which is on unless it is asked for. What a writer has put out when it
returns -1 is thrown away.
-/
import Mathlib.Data.List.Sort
import Sandesh.CppGen.Idl
import Sandesh.Py.Header

namespace Sandesh.PyGen

open Lib Xml CppGen
open Py (Call call raise intText fieldTypeName)
open Header (TXMLWriter)
open Header.TXMLWriter (writePlain writeBegin writeEnd formXMLAttr)

-- ============================================================= objects

/-- What is used of `netaddr`, `uuid` and `float`: also `str` and `==`. -/
structure Libs extends Py.Libs where
  str : Object → Bytes
  same : Object → Object → Bool

variable (L : Libs)

/-- The Python objects of a base type. Numbers have no width. -/
def BaseObj : Base → Type
  | .bool => Bool
  | .byte | .i16 | .i32 | .i64 | .u16 | .u32 | .u64 | .ipv4 => Int
  | .ipaddr | .double | .uuid => L.Object
  | .string | .xml => Bytes

mutual

/-- The Python objects of a type: a set is a list, a map a list of pairs. -/
def Obj : Ty → Type
  | .base b => BaseObj L b
  | .enum => Int
  | .typedef t => Obj t
  | .struct _ fs => Attrs fs
  | .list e => List (Obj e)
  | .set e => List (Obj e)
  | .map k v => List (Obj k × Obj v)

/-- The attributes of an instance, `none` for `None`. -/
def Attrs : Fields → Type
  | .nil => Unit
  | .cons _ t fs => Option (Obj t) × Attrs fs

end

/-- `__init__` without arguments. -/
def init : (fs : Fields) → Attrs L fs
  | .nil => ()
  | .cons _ _ fs => (none, init fs)

-- ============================================================= writing

/-- A method of a writer, with `none` for -1. -/
abbrev Write : Type := TXMLWriter → Option TXMLWriter

/-- `<element>`. -/
def writeContainerElementBegin : TXMLWriter → TXMLWriter := writePlain (lit "<element>")

/-- `</element>`. -/
def writeContainerElementEnd : TXMLWriter → TXMLWriter := writePlain (lit "</element>")

/-- `iteritems` of the dictionary of annotations meets them in this order. -/
def writeFieldBegin (name : Bytes) (ftype : TType) (iden : Int)
    (annotations : List (Bytes × Bytes)) : TXMLWriter → TXMLWriter :=
  writeBegin name (lit " " ++ formXMLAttr (lit "type") (fieldTypeName ftype)
    ++ lit " " ++ formXMLAttr (lit "identifier") (decimalInt iden)
    ++ annotations.flatMap fun a => lit " " ++ formXMLAttr a.1 a.2)

/-- The tag of a map. -/
def writeMapBegin (ktype vtype : TType) (size : Nat) : TXMLWriter → TXMLWriter :=
  writePlain (lit "<map " ++ formXMLAttr (lit "key") (fieldTypeName ktype)
    ++ lit " " ++ formXMLAttr (lit "value") (fieldTypeName vtype)
    ++ lit " " ++ formXMLAttr (lit "size") (decimal size) ++ lit ">")

/-- Its end. -/
def writeMapEnd : TXMLWriter → TXMLWriter := writePlain (lit "</map>")

/-- `writeListBegin` and `writeSetBegin`, by the name of the tag. -/
def writeElemsBegin (name : Bytes) (etype : TType) (size : Nat) : TXMLWriter → TXMLWriter :=
  writePlain (lit "<" ++ name ++ lit " "
    ++ formXMLAttr (lit "type") (fieldTypeName etype)
    ++ lit " " ++ formXMLAttr (lit "size") (decimal size) ++ lit ">")

/-- The tag of a list. -/
def writeListBegin : TType → Nat → TXMLWriter → TXMLWriter := writeElemsBegin (lit "list")

/-- Its end. -/
def writeListEnd : TXMLWriter → TXMLWriter := writePlain (lit "</list>")

/-- The tag of a set. -/
def writeSetBegin : TType → Nat → TXMLWriter → TXMLWriter := writeElemsBegin (lit "set")

/-- Its end. -/
def writeSetEnd : TXMLWriter → TXMLWriter := writePlain (lit "</set>")

/-- `str(ctypes.c_ushort(u16).value)`, and so on. -/
def uintText (width : Nat) (i : Int) : Bytes := decimal (BitVec.ofInt width i).toNat

variable {L}

/-- `writeBool`, `writeByte` and so on. -/
def writeBase : (b : Base) → BaseObj L b → TXMLWriter → TXMLWriter
  | .bool, v => writePlain (bif v then lit "true" else lit "false")
  | .byte, v => writePlain (intText 8 v)
  | .i16, v => writePlain (intText 16 v)
  | .i32, v => writePlain (intText 32 v)
  | .i64, v => writePlain (intText 64 v)
  | .u16, v => writePlain (uintText 16 v)
  | .u32, v | .ipv4, v => writePlain (uintText 32 v)
  | .u64, v => writePlain (uintText 64 v)
  | .ipaddr, v | .double, v | .uuid, v => writePlain (L.str v)
  | .string, v => Py.writeString v
  | .xml, v => Py.writeXML v

/-- The tags around an element, if its declared type asks for them. -/
def writeElement (delimited : Bool) (value : Write) (w : TXMLWriter) : Option TXMLWriter :=
  if delimited then (value (writeContainerElementBegin w)).map writeContainerElementEnd
  else value w

/-- `annotations['key'] = self._table`, in a field called `name`: without a
table nothing is written. -/
def untabled (f : Field) : Bool :=
  f.name == lit "name" && f.annotations.any fun a => a.1 == lit "key" && a.2 == []

/-- One field in a generated `write`. -/
def writeField (order : List (Bytes × Bytes) → List (Bytes × Bytes)) (f : Field)
    (ftype : TType) (value : Write) (w : TXMLWriter) : Option TXMLWriter :=
  if untabled f then none
  else (value (writeFieldBegin f.name ftype f.key (order f.annotations) w)).map writeEnd

/-- `get_sorted_members`: the ids are all different. -/
def sorted (ps : List (Int × Write)) : List (Int × Write) :=
  ps.insertionSort fun p q => p.1 ≤ q.1

variable (order : List (Bytes × Bytes) → List (Bytes × Bytes))

mutual

/-- `generate_serialize_field`, and the `write` of a class. -/
def write : (t : Ty) → Obj L t → Write
  | .base b, v => fun w => some (writeBase b v w)
  | .enum, v => fun w => some (writePlain (intText 32 v) w)
  | .typedef t, v => write t v
  | .struct name fs, self => fun w =>
      ((sorted (writeFields fs self)).foldlM (fun w (p : Int × Write) => p.2 w)
        (writeBegin name [] w)).map writeEnd
  | .list e, vs => fun w =>
      (List.foldlM (fun w (v : Obj L e) => writeElement e.isBaseOrEnum (write e v) w)
        (writeListBegin e.type_to_enum (List.length vs) w) vs).map writeListEnd
  | .set e, vs => fun w =>
      (List.foldlM (fun w (v : Obj L e) => writeElement e.isBaseOrEnum (write e v) w)
        (writeSetBegin e.type_to_enum (List.length vs) w) vs).map writeSetEnd
  | .map k v, es => fun w =>
      (List.foldlM (fun w (e : Obj L k × Obj L v) => do
          let w ← writeElement k.isBaseOrEnum (write k e.1) w
          writeElement v.isBaseOrEnum (write v e.2) w)
        (writeMapBegin k.type_to_enum v.type_to_enum (List.length es) w) es).map writeMapEnd

/-- What is generated for each field, with its id. -/
def writeFields : (fs : Fields) → Attrs L fs → List (Int × Write)
  | .nil, _ => []
  | .cons f t fs, self =>
      (f.key, match self.1 with
        | none => some
        | some v => writeField order f t.type_to_enum (write t v)) :: writeFields fs self.2

end

-- ============================================================= reading

/-- A read of a value: the length it adds to `read_cnt` and the value, or
`return -1`, which leaves the variable as it is then. -/
inductive Outcome (α : Type)
  | value (length : Int) (v : α)
  | fails (v : Option α)

/-- A value read, as something else. -/
def Outcome.map {α β : Type} (f : α → β) : Outcome α → Outcome β
  | value length v => value length (f v)
  | fails v => fails (v.map f)

variable (L)

/-- `readBool`, `readByte` and so on. -/
def readBase : (b : Base) → Py.Method (Int × Option (BaseObj L b))
  | .bool => Py.readBool
  | .byte => Py.readByte
  | .i16 => Py.readI16
  | .i32 => Py.readI32
  | .i64 => Py.readI64
  | .u16 => Py.readU16
  | .u32 => Py.readU32
  | .u64 => Py.readU64
  | .ipv4 => Py.readIPV4
  | .ipaddr => Py.readIPADDR L.toLibs
  | .double => Py.readDouble L.toLibs
  | .string => Py.readString
  | .xml => Py.readXML
  | .uuid => Py.readUUID L.toLibs

/-- `(length, v) = iprot.readX()`, and `if length < 0: return -1`. -/
def readLeaf {α : Type} (m : Py.Method (Int × Option α)) : Call (Outcome α) := do
  let (length, v) ← call m
  pure (match v with
    | some w => if length < 0 then .fails v else .value length w
    | none => .fails none)

/-- The tags around an element, if its declared type asks for them. -/
def readElement {α : Type} (delimited : Bool) (value : Call (Outcome α)) :
    Call (Outcome α) :=
  if delimited then do
    let length ← call Py.readContainerElementBegin
    match ← value with
    | .fails v => pure (.fails v)
    | .value length2 v => do
        let length3 ← call Py.readContainerElementEnd
        pure (.value (length + length2 + length3) v)
  else value

/-- `for i in xrange(size)`: what is read goes into the container. -/
def readItems {α β : Type} (item : Call (Outcome α)) (put : β → α → Call β) :
    Nat → Int → β → Call (Outcome β)
  | 0, read_cnt, acc => pure (.value read_cnt acc)
  | n + 1, read_cnt, acc => do
      match ← item with
      | .fails _ => pure (.fails (some acc))
      | .value length v => do
          let acc ← put acc v
          readItems item put n (read_cnt + length) acc

/-- A container: a size that is `None` is not taken by `xrange`. -/
def readContainer {α β : Type} (readBegin : Py.Method (Int × List TType × Option Int))
    (readEnd : Py.Method Int) (item : Call (Outcome α)) (put : β → α → Call β) (empty : β) :
    Call (Outcome β) := do
  let (length, _, size) ← call readBegin
  match size with
  | none => Prog.throw .TypeError
  | some size =>
      match ← readItems item put size.toNat length empty with
      | .fails v => pure (.fails v)
      | .value read_cnt v => do
          let length ← call readEnd
          pure (.value (read_cnt + length) v)

/-- A key, and its value. -/
def readEntry {α β : Type} (key : Call (Outcome α)) (val : Call (Outcome β)) :
    Call (Outcome (α × β)) := do
  match ← key with
  | .fails _ => pure (.fails none)
  | .value length k =>
      match ← val with
      | .fails _ => pure (.fails none)
      | .value length2 v => pure (.value (length + length2) (k, v))

/-- `==`, as a test. -/
def equal {α : Type} [DecidableEq α] (a b : α) : Bool := decide (a = b)

/-- When two objects are the same key. -/
def baseSame : (b : Base) → BaseObj L b → BaseObj L b → Bool
  | .bool => (equal : Bool → Bool → Bool)
  | .byte | .i16 | .i32 | .i64 | .u16 | .u32 | .u64 | .ipv4 => (equal : Int → Int → Bool)
  | .ipaddr | .double | .uuid => L.same
  | .string | .xml => (equal : Bytes → Bytes → Bool)

/-- `==` of what can be hashed. -/
def same : (t : Ty) → Obj L t → Obj L t → Bool
  | .base b => baseSame L b
  | .enum => (equal : Int → Int → Bool)
  | .typedef t => same t
  | .struct _ _ | .list _ | .set _ | .map _ _ => fun _ _ => false

/-- `set.add`. -/
def added (t : Ty) (s : List (Obj L t)) (v : Obj L t) : List (Obj L t) :=
  if s.any (same L t v) then s else s ++ [v]

/-- `dict[key] = value`. -/
def assigned (t : Ty) {β : Type} (m : List (Obj L t × β)) (e : Obj L t × β) :
    List (Obj L t × β) :=
  if m.any (fun e' => same L t e.1 e'.1) then
    m.map fun e' => if same L t e.1 e'.1 then (e'.1, e.2) else e'
  else m ++ [e]

/-- `s.add(v)`. -/
def add (t : Ty) (s : List (Obj L t)) (v : Obj L t) : Call (List (Obj L t)) :=
  if t.trueBaseOrEnum then pure (added L t s v) else Prog.throw .TypeError

/-- `m[k] = v`. -/
def assign (t : Ty) {β : Type} (m : List (Obj L t × β)) (e : Obj L t × β) :
    Call (List (Obj L t × β)) :=
  if t.trueBaseOrEnum then pure (assigned L t m e) else Prog.throw .TypeError

/-- `iprot.skip(ftype)`; what it skips is not counted. -/
def skipField {α : Type} (ftype : Option TType) (self : α) : Call (Option Int × α) := do
  match ftype with
  | none => pure ()
  | some ftype => call (Py.skip L.toLibs ftype)
  pure (some 0, self)

/-- The loop over the fields, and the tags around it: `read_cnt`, or -1. -/
def readStruct {α : Type}
    (field : Option TType → Option Int → α → Call (Option Int × α)) (self : α) :
    Call (Int × α) := do
  let length ← call Py.readStructBegin
  if Py.negative length then pure (-1, self)
  else
    match ← Prog.loop readTurn (length.getD 0, self) with
    | (none, self) => pure (-1, self)
    | (some read_cnt, self) => do
        let length ← call Py.readStructEnd
        if Py.negative length then pure (-1, self)
        else pure (read_cnt + length.getD 0, self)
where
  readTurn (t : Int × α) : Call ((Int × α) ⊕ (Option Int × α)) := do
    let b ← call Py.readFieldBegin
    if b.length < 0 then pure (.inr (none, t.2))
    else if b.ftype = some .T_STOP then pure (.inr (some (t.1 + b.length), t.2))
    else
      match ← field b.ftype b.fid t.2 with
      | (none, self) => pure (.inr (none, self))
      | (some length, self) => do
          let length2 ← call Py.readFieldEnd
          if length2 < 0 then pure (.inr (none, self))
          else pure (.inl (t.1 + b.length + length + length2, self))

mutual

/-- `generate_deserialize_field`. A struct whose `read` returns -1 counts
for that, and its reader goes on. -/
def read : (t : Ty) → Call (Outcome (Obj L t))
  | .base b => readLeaf (readBase L b)
  | .enum => readLeaf Py.readI32
  | .typedef t => read t
  | .struct _ fs => do
      let (read_cnt, v) ← readStruct (readField fs) (init L fs)
      pure (.value read_cnt v)
  | .list e => readContainer Py.readListBegin Py.readListEnd
      (readElement e.isBaseOrEnum (read e))
      (fun (vs : List (Obj L e)) v => pure (vs ++ [v])) []
  | .set e => readContainer Py.readSetBegin Py.readSetEnd
      (readElement e.isBaseOrEnum (read e)) (add L e) ([] : List (Obj L e))
  | .map k v => readContainer Py.readMapBegin Py.readMapEnd
      (readEntry (readElement k.isBaseOrEnum (read k)) (readElement v.isBaseOrEnum (read v)))
      (assign L k) ([] : List (Obj L k × Obj L v))

/-- The `if` on `fid` in the `read` of a class. -/
def readField : (fs : Fields) → Option TType → Option Int → Attrs L fs →
    Call (Option Int × Attrs L fs)
  | .nil, ftype, _, self => skipField L ftype self
  | .cons f t fs, ftype, fid, self =>
      if fid = some f.key then
        if ftype = some t.type_to_enum then do
          match ← read t with
          | .value length v => pure (some length, (some v, self.2))
          | .fails v => pure (none, (v, self.2))
        else skipField L ftype self
      else do
        let (length, rest) ← readField fs ftype fid self.2
        pure (length, (self.1, rest))

end

end Sandesh.PyGen
