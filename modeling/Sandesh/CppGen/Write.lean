/-
The writing half of `TXMLProtocol` as generated code calls it
(library/cpp/protocol/TXMLProtocol.cpp): containers, base values, and
fields with their annotations. Structures are written in `Header.Basic`.
And the code that compiler/generate/t_cpp_generator.cc generates to write
a value of any type.

The annotations of a field are a `std::map`, so they are written in the
order of their keys: here they are the list in that order.
-/
import Sandesh.CppGen.Idl
import Sandesh.Header.Basic

namespace Sandesh.CppGen

open Lib Xml Header TXMLWriter

/-- `writeFieldBegin`, with the annotations of the field. -/
def writeFieldBegin (W : World) (name : Bytes) (fieldType : TType) (fieldId : BitVec 16)
    (amap : List (Bytes × Bytes)) : TXMLWriter → TXMLWriter :=
  writeBegin name (lit " " ++ formXMLAttr (lit "type") (fieldTypeName fieldType)
    ++ lit " " ++ formXMLAttr (lit "identifier") (W.integerToString fieldId.toInt)
    ++ amap.flatMap fun a => lit " " ++ formXMLAttr a.1 a.2)

/-- `writeXML`. -/
def writeXML (str : Bytes) : TXMLWriter → TXMLWriter :=
  writePlain (lit "<![CDATA[" ++ str ++ lit "]]>")

-- ========================================================== containers

/-- `<element>`. -/
def writeContainerElementBegin : TXMLWriter → TXMLWriter := writePlain (lit "<element>")

/-- `</element>`. -/
def writeContainerElementEnd : TXMLWriter → TXMLWriter := writePlain (lit "</element>")

variable (W : World)

/-- The tag of a map. -/
def writeMapBegin (keyType valType : TType) (size : BitVec 32) : TXMLWriter → TXMLWriter :=
  writePlain (lit "<map " ++ formXMLAttr (lit "key") (fieldTypeName keyType)
    ++ lit " " ++ formXMLAttr (lit "value") (fieldTypeName valType)
    ++ lit " " ++ formXMLAttr (lit "size") (W.integerToString size.toNat) ++ lit ">")

/-- Its end. -/
def writeMapEnd : TXMLWriter → TXMLWriter := writePlain (lit "</map>")

/-- `writeListBegin` and `writeSetBegin`, by the name of the tag. -/
def writeElemsBegin (name : Bytes) (elemType : TType) (size : BitVec 32) :
    TXMLWriter → TXMLWriter :=
  writePlain (lit "<" ++ name ++ lit " "
    ++ formXMLAttr (lit "type") (fieldTypeName elemType)
    ++ lit " " ++ formXMLAttr (lit "size") (W.integerToString size.toNat) ++ lit ">")

/-- The tag of a list. -/
def writeListBegin : TType → BitVec 32 → TXMLWriter → TXMLWriter :=
  writeElemsBegin W (lit "list")

/-- Its end. -/
def writeListEnd : TXMLWriter → TXMLWriter := writePlain (lit "</list>")

/-- The tag of a set. -/
def writeSetBegin : TType → BitVec 32 → TXMLWriter → TXMLWriter :=
  writeElemsBegin W (lit "set")

/-- Its end. -/
def writeSetEnd : TXMLWriter → TXMLWriter := writePlain (lit "</set>")

-- ==================================================== generated writers

variable {F : Foreign}

/-- `value ? kXMLBoolTrue : kXMLBoolFalse`. -/
def boolText (value : Bool) : Bytes := if value then lit "true" else lit "false"

/-- What `writeXML` writes. -/
def xmlText (str : Bytes) : Bytes := lit "<![CDATA[" ++ str ++ lit "]]>"

/-- What `writeBool`, `writeByte` and so on write. -/
def Base.text : (b : Base) → b.Val F → Bytes
  | bool, v => boolText v
  | byte, v | i16, v | i32, v | i64, v => W.integerToString (BitVec.toInt v)
  | u16, v | u32, v | u64, v | ipv4, v => W.integerToString (BitVec.toNat v)
  | ipaddr, v => F.address_to_string v
  | double, v => F.double_to_string v
  | string, v => escapeXMLControlChars v
  | xml, v => xmlText v
  | uuid, v => escapeXMLControlChars (F.uuid_to_string v)

/-- The tags around an element, if its declared type asks for them. -/
def serializeElement (delimited : Bool) (value : TXMLWriter → TXMLWriter) (w : TXMLWriter) :
    TXMLWriter :=
  if delimited then writeContainerElementEnd (value (writeContainerElementBegin w))
  else value w

mutual

/-- `generate_serialize_field`. -/
def Ty.serialize : (t : Ty) → t.Val F → TXMLWriter → TXMLWriter
  | .base b, v => writePlain (b.text W v)
  | .enum, v => writePlain (W.integerToString (BitVec.toInt v))
  | .typedef t, v => t.serialize v
  | .struct name fs, r => fun w => writeStructEnd (fs.serialize r (writeStructBegin name w))
  | .list e, vs => fun w =>
      writeListEnd (vs.foldl (fun w v => serializeElement e.isBaseOrEnum (e.serialize v) w)
        (writeListBegin W e.type_to_enum (BitVec.ofNat 32 vs.length) w))
  | .set e, vs => fun w =>
      writeSetEnd (vs.foldl (fun w v => serializeElement e.isBaseOrEnum (e.serialize v) w)
        (writeSetBegin W e.type_to_enum (BitVec.ofNat 32 vs.length) w))
  | .map k v, es => fun w =>
      writeMapEnd (es.foldl (fun w e =>
        serializeElement v.isBaseOrEnum (v.serialize e.2)
          (serializeElement k.isBaseOrEnum (k.serialize e.1) w))
        (writeMapBegin W k.type_to_enum v.type_to_enum (BitVec.ofNat 32 es.length) w))

/-- The fields in `generate_struct_writer`; an optional one only if it is
set. -/
def Fields.serialize : (fs : Fields) → fs.Rec F → TXMLWriter → TXMLWriter
  | .nil, _ => id
  | .cons f t fs, r => fun w =>
      fs.serialize r.2 (match f.req.get r.1 with
        | none => w
        | some v => writeFieldEnd (t.serialize v
            (writeFieldBegin W f.name t.type_to_enum (BitVec.ofInt 16 f.key) f.annotations w)))

end

end Sandesh.CppGen
