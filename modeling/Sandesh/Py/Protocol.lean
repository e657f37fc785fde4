/-
The Python `TXMLProtocol`, reading half
(library/python/pysandesh/protocol/TXMLProtocol.py).

# Reading

`XMLReader` holds the rest of the message in `_read_buf`, and its three
reads take a prefix off it: each is a function of the buffer that returns
what was read and how many characters are gone (`reading`). The reader is
made by the first `readSandeshBegin` or `readStructBegin`, which runs into
an `AttributeError` before.

# Returns

A length of -1 reports a failure. A few operations do not look at the
`(None, None)` of a failed tag and hand the `None` on as their length, so
there a length is an `Option`; an exception ends the call.
-/
import Sandesh.Lib.Replace
import Sandesh.Xml.Protocol

namespace Sandesh.Py

open Lib
open Xml (TType)

-- ============================================================== strings

/-- `str.find`. -/
def find (pat : Bytes) : Bytes → Option Nat
  | [] => if pat = [] then some 0 else none
  | c :: s => if pat <+: c :: s then some 0 else (find pat s).map (· + 1)

/-- `int(s)`: blanks around the number and behind its sign are allowed. -/
def int (s : Bytes) : Option Int :=
  let s := ((s.dropWhile isSpace).reverse.dropWhile isSpace).reverse
  let (neg, digits) := takeSign s
  let digits := digits.dropWhile isSpace
  if digits ≠ [] ∧ digits.all isDigit then
    some (if neg then -(decVal digits : Int) else decVal digits)
  else none

/-- A number without blanks. -/
theorem int_of_takeSign {s digits : Bytes} {neg : Bool}
    (hspace : ∀ c ∈ s, isSpace c = false)
    (hsign : takeSign s = (neg, digits)) (hne : digits ≠ [])
    (hdigits : ∀ c ∈ digits, isDigit c = true) :
    int s = some (if neg then -(decVal digits : Int) else decVal digits) := by
  have hstrip : (s.reverse.dropWhile isSpace).reverse = s := by
    rw [dropWhile_none fun c hc => hspace c (List.mem_reverse.mp hc),
      List.reverse_reverse]
  have hblank : digits.dropWhile isSpace = digits :=
    dropWhile_none fun c hc => isSpace_of_isDigit (hdigits c hc)
  unfold int
  rw [dropWhile_none hspace]
  simp only [hstrip, hsign, hblank]
  rw [if_pos ⟨hne, List.all_eq_true.mpr hdigits⟩]

-- =============================================================== states

/-- The exceptions that a call may leave by. -/
inductive PyExc
  | AttributeError
  | AssertionError
  | KeyError
  | IndexError
  | ValueError
  | TypeError
  /-- raised by a library -/
  | other
deriving DecidableEq

/-- The attributes of a `TXMLProtocol`; its reader's are among them. -/
structure TXMLProtocol where
  /-- `trans.getvalue()` -/
  trans : Bytes
  /-- `_xml_reader._read_buf`, once there is a reader -/
  read_buf : Option Bytes
  /-- `_xml_tag`, the top in front -/
  xml_tag : List (Option Bytes)
deriving DecidableEq

/-- `__init__`: there is no reader yet. -/
def TXMLProtocol.new (trans : Bytes) : TXMLProtocol := ⟨trans, none, []⟩

/-- A method: it returns a value and leaves a state, or raises. -/
abbrev Method (α : Type) : Type :=
  TXMLProtocol → Except PyExc (α × TXMLProtocol)

instance : Monad Method where
  pure := fun a s => .ok (a, s)
  bind := fun m f s =>
    match m s with
    | .ok (a, s') => f a s'
    | .error e => .error e

/-- `raise`: there is no state behind it. -/
def raise {α : Type} (e : PyExc) : Method α := fun _ => .error e

/-- `self._xml_tag.append(tag)`. -/
def append (tag : Option Bytes) : Method Unit := fun s =>
  .ok ((), { s with xml_tag := tag :: s.xml_tag })

/-- `self._xml_tag.pop()`. -/
def pop : Method (Option Bytes) := fun s =>
  match s.xml_tag with
  | [] => .error .IndexError
  | tag :: rest => .ok (tag, { s with xml_tag := rest })

-- ============================================================ XMLReader

/-- A read of `XMLReader`: what it finds at the front of the buffer, and
how much of the buffer that takes up. -/
def reading (f : Bytes → Option (Bytes × Nat)) :
    Method (Option (Bytes × Nat)) := fun s =>
  match s.read_buf with
  | none => .error .AttributeError
  | some buf =>
      match f buf with
      | none => .ok (none, s)
      | some (val, offset) =>
          .ok (some (val, offset), { s with read_buf := some (buf.drop offset) })

/-- What `readXMLTag` finds in a buffer: the text of a tag in front, and how
much of the buffer it is. Whatever stands in front of the first `>` is the
tag. -/
def tagText (end_tag : Bool) (buf : Bytes) : Option (Bytes × Nat) :=
  let tag_start := if end_tag then lit "</" else lit "<"
  if tag_start ≠ buf.take tag_start.length then none
  else (find (lit ">") buf).map fun tag_end_pos =>
    ((buf.take tag_end_pos).drop tag_start.length, tag_end_pos + 1)

/-- What `readXMLValue` finds: the text up to the next `<`, which may be
empty. -/
def valueText (buf : Bytes) : Option (Bytes × Nat) :=
  (find (lit "<") buf).map fun val_end_pos =>
    (buf.take val_end_pos, val_end_pos)

/-- What `readXMLCDATA` finds: the text between the delimiters. -/
def cdataText (buf : Bytes) : Option (Bytes × Nat) :=
  let cdata_open := lit "<![CDATA["
  let cdata_close := lit "]]>"
  if cdata_open ≠ buf.take cdata_open.length then none
  else (find cdata_close buf).map fun end_pos =>
    ((buf.take end_pos).drop cdata_open.length, end_pos + cdata_close.length)

/-- The three methods of the reader move `_read_buf` behind what they
return. -/
def readXMLTag (end_tag : Bool) : Method (Option (Bytes × Nat)) :=
  reading (tagText end_tag)

/-- The text up to the next tag. -/
def readXMLValue : Method (Option (Bytes × Nat)) := reading valueText

/-- The text of a CDATA section. -/
def readXMLCDATA : Method (Option (Bytes × Nat)) := reading cdataText

/-- `peekXMLTag`. -/
def peekXMLTag (num_bytes : Nat) : Method (Option Bytes) := fun s =>
  match s.read_buf with
  | none => .error .AttributeError
  | some buf =>
      .ok (if buf.length < num_bytes then none else some (buf.take num_bytes), s)

/-- `self._xml_reader = self.XMLReader(self.trans)`. -/
def newReader : Method Unit := fun s =>
  if s.trans = [] then .error .AssertionError
  else .ok ((), { s with read_buf := some s.trans })

/-- `try: m() except: self._xml_reader = ...; m()`, as `readXMLTag` can
only fail for want of a reader; `retried` tells which of the two it was. -/
def withReader {α : Type} (m : Bool → Method α) : Method α := fun s =>
  match s.read_buf with
  | some _ => m false s
  | none => (do
      newReader
      m true) s

-- ================================================================= tags

/-- `extractXMLTagName`: the name, and the tag behind it and a blank. -/
def extractXMLTagName (tag : Bytes) : Option (Bytes × Bytes) :=
  (find (lit " ") tag).map fun pos => (tag.take pos, tag.drop (pos + 1))

/-- `extractXMLAttr`: name and value, and the tag behind them and a
blank. -/
def extractXMLAttr (tag : Bytes) : Option (Bytes × Bytes × Bytes) := do
  let name_end_pos ← find (lit "=") tag
  let offset := name_end_pos + 2
  let val_end_pos ← find (lit "\"") (tag.drop offset)
  pure (tag.take name_end_pos, (tag.drop offset).take val_end_pos,
    tag.drop (offset + val_end_pos + 1 + 1))

/-- An attribute that must have the given name. -/
def namedAttr (name tag : Bytes) : Option (Bytes × Bytes) := do
  let (act_name, val, rest) ← extractXMLAttr tag
  if name = act_name then pure (val, rest) else none

/-- `_field_typename_dict`: the types by the names that the writer uses. -/
def field_typename_dict : List (TType × Bytes) :=
  [(.T_BOOL, lit "bool"), (.T_BYTE, lit "byte"), (.T_I16, lit "i16"),
    (.T_I32, lit "i32"), (.T_I64, lit "i64"), (.T_U16, lit "u16"),
    (.T_U32, lit "u32"), (.T_U64, lit "u64"), (.T_IPV4, lit "ipv4"),
    (.T_IPADDR, lit "ipaddr"), (.T_DOUBLE, lit "double"),
    (.T_STRING, lit "string"), (.T_STRUCT, lit "struct"),
    (.T_MAP, lit "map"), (.T_SET, lit "set"), (.T_LIST, lit "list"),
    (.T_SANDESH, lit "sandesh"), (.T_XML, lit "xml"), (.T_UUID, lit "uuid_t")]

/-- A lookup by name; what is not in the dictionary raises. -/
def fieldType (field_name : Bytes) : Method TType :=
  match field_typename_dict.find? (fun t => t.2 == field_name) with
  | some t => pure t.1
  | none => raise .KeyError

/-- The name of a sandesh, from the tag in front of it; it is pushed on the
stack. -/
def readSandeshBegin : Method (Int × Option Bytes) := withReader fun _ => do
  match ← readXMLTag false with
  | none => pure (-1, none)
  | some (tag, length) =>
      match extractXMLTagName tag with
      | none => pure (-1, none)
      | some (sandesh_name, tag) =>
          append (some sandesh_name)
          match namedAttr (lit "type") tag with
          | some (value, _) =>
              if value = lit "sandesh" then
                pure ((length : Int), some sandesh_name)
              else pure (-1, none)
          | none => pure (-1, none)

/-- `readSandeshEnd` and `readStructEnd`: the popped name is compared with
whatever the tag gave, a `None` included, and then the length is not
there either. -/
def readNamedEnd : Method (Option Int) := do
  let found ← readXMLTag true
  let name_begin ← pop
  if name_begin ≠ found.map Prod.fst then pure (some (-1))
  else pure (found.map fun t => (t.2 : Int))

/-- `</name>` of a sandesh. -/
def readSandeshEnd : Method (Option Int) := readNamedEnd

/-- A failed tag is noticed only when the reader has just been made. -/
def readStructBegin : Method (Option Int) := withReader fun retried => do
  let found ← readXMLTag false
  if retried ∧ found = none then pure (some (-1))
  else
    append (found.map Prod.fst)
    pure (found.map fun t => (t.2 : Int))

/-- `</name>` of a structure. -/
def readStructEnd : Method (Option Int) := readNamedEnd

/-- A tag of which only the length is used. -/
def readElement (end_tag : Bool) : Method Int := do
  match ← readXMLTag end_tag with
  | none => pure (-1)
  | some (_, length) => pure (length : Int)

/-- `<element>`, around an element that is a structure. -/
def readContainerElementBegin : Method Int := readElement false

/-- `</element>`. -/
def readContainerElementEnd : Method Int := readElement true

/-- The four values of `readFieldBegin`; an error or the end of the fields
leaves some of them `None`. -/
structure FieldBegin where
  length : Int
  field_name : Option Bytes
  ftype : Option TType
  fid : Option Int
deriving DecidableEq

/-- `readFieldBegin` past the test for the end of the struct. -/
def readFieldTag : Method FieldBegin := do
  match ← readXMLTag false with
  | none => pure ⟨-1, none, none, none⟩
  | some (tag, length) =>
      match extractXMLTagName tag with
      | none => pure ⟨-1, none, none, none⟩
      | some (field_name, tag) =>
          append (some field_name)
          match namedAttr (lit "type") tag with
          | none => pure ⟨-1, some field_name, none, none⟩
          | some (ftype_str, tag) =>
              let ftype ← fieldType ftype_str
              match (namedAttr (lit "identifier") tag).bind
                  fun t => int t.1 with
              | none => pure ⟨-1, some field_name, some ftype, none⟩
              | some fid =>
                  pure ⟨length, some field_name, some ftype, some fid⟩

/-- Name, type and identifier of a field. Two bytes are looked at first:
`</` ends the fields. -/
def readFieldBegin : Method FieldBegin := do
  match ← peekXMLTag 2 with
  | none => pure ⟨-1, none, none, none⟩
  | some field_stop =>
      if field_stop = lit "</" then pure ⟨0, none, some .T_STOP, none⟩
      else readFieldTag

/-- Where there is no tag the name stays on the stack, unlike at the end of
a structure. -/
def readFieldEnd : Method Int := do
  match ← readXMLTag true with
  | none => pure (-1)
  | some (field_end, length) =>
      let field_begin ← pop
      if field_begin ≠ some field_end then pure (-1)
      else pure (length : Int)

-- =========================================================== containers

/-- The open tag of a container: `typed` are its type attributes in order,
and `size` comes last. -/
def readContainerBegin (typename : Bytes) (typed : List Bytes) :
    Method (Int × List TType × Option Int) := do
  match ← readXMLTag false with
  | none => pure (-1, [], none)
  | some (tag, length) =>
      match extractXMLTagName tag with
      | none => pure (-1, [], none)
      | some (name, tag) =>
          if typename ≠ name then pure (-1, [], none)
          else types length typed tag []
where
  types (length : Nat) : List Bytes → Bytes → List TType →
      Method (Int × List TType × Option Int)
    | [], tag, acc =>
        match (namedAttr (lit "size") tag).bind fun t => int t.1 with
        | none => pure (-1, acc, none)
        | some size => pure ((length : Int), acc, some size)
    | name :: typed, tag, acc =>
        match namedAttr name tag with
        | none => pure (-1, acc, none)
        | some (type_str, tag) => do
            let ttype ← fieldType type_str
            types length typed tag (acc ++ [ttype])

/-- The container methods differ in the word and in the attributes they look
for. -/
def readMapBegin : Method (Int × List TType × Option Int) :=
  readContainerBegin (lit "map") [lit "key", lit "value"]

/-- `<list type=".." size="..">`. -/
def readListBegin : Method (Int × List TType × Option Int) :=
  readContainerBegin (lit "list") [lit "type"]

/-- `<set type=".." size="..">`. -/
def readSetBegin : Method (Int × List TType × Option Int) :=
  readContainerBegin (lit "set") [lit "type"]

/-- The end tag of a container. -/
def readContainerEnd (typename : Bytes) : Method Int := do
  match ← readXMLTag true with
  | none => pure (-1)
  | some (name, length) =>
      if typename ≠ name then pure (-1) else pure (length : Int)

/-- The ends differ in the word only. -/
def readMapEnd : Method Int := readContainerEnd (lit "map")

/-- `</list>`. -/
def readListEnd : Method Int := readContainerEnd (lit "list")

/-- `</set>`. -/
def readSetEnd : Method Int := readContainerEnd (lit "set")

-- ============================================================== scalars

/-- What a conversion makes of a text. -/
inductive Conv (α : Type)
  | value (v : α)
  | ValueError
  | raises (e : PyExc)

/-- A scalar: its text, converted. -/
def readScalar {α : Type} (conv : Bytes → Conv α) : Method (Int × Option α) := do
  match ← readXMLValue with
  | none => pure (-1, none)
  | some (str, length) =>
      match conv str with
      | .value v => pure ((length : Int), some v)
      | .ValueError => pure (-1, none)
      | .raises e => raise e

/-- `int(str)`. -/
def intConv (s : Bytes) : Conv Int :=
  match int s with
  | some i => .value i
  | none => .ValueError

/-- The comparisons of `readBool`. Any other text ends as a `ValueError` of
the other conversions does. -/
def boolConv (s : Bytes) : Conv Bool :=
  if s = lit "true" then .value true
  else if s = lit "false" then .value false
  else .ValueError

/-- The methods for values are `readScalar` with the conversion of the type.
-/
def readBool : Method (Int × Option Bool) := readScalar boolConv
/-- The numbers are all read by `int`, whatever their width. -/
def readByte : Method (Int × Option Int) := readScalar intConv
/-- `int(str)`. -/
def readI16 : Method (Int × Option Int) := readScalar intConv
/-- `int(str)`. -/
def readI32 : Method (Int × Option Int) := readScalar intConv
/-- `int(str)`. -/
def readI64 : Method (Int × Option Int) := readScalar intConv
/-- `int(str)`. -/
def readU16 : Method (Int × Option Int) := readScalar intConv
/-- `int(str)`. -/
def readU32 : Method (Int × Option Int) := readScalar intConv
/-- `int(str)`. -/
def readU64 : Method (Int × Option Int) := readScalar intConv
/-- `int(str)`. -/
def readIPV4 : Method (Int × Option Int) := readScalar intConv

/-- `netaddr`, `uuid` and `float`: the objects are left open. -/
structure Libs where
  Object : Type
  IPAddress : Bytes → Conv Object
  UUID : Bytes → Conv Object
  float : Bytes → Conv Object

/-- An address is an object of the library. -/
def readIPADDR (L : Libs) : Method (Int × Option L.Object) :=
  readScalar L.IPAddress

/-- `float(str)`. -/
def readDouble (L : Libs) : Method (Int × Option L.Object) := readScalar L.float

/-- `uuid.UUID(str)`. -/
def readUUID (L : Libs) : Method (Int × Option L.Object) := readScalar L.UUID

/-- The text as it is. -/
def readBinary : Method (Int × Option Bytes) := readScalar fun s => .value s

/-- `_unescape`: four replacements in this order, each over all of the text.
-/
def unescape (string : Bytes) : Bytes :=
  let string := replaceAll (lit "&amp;") (lit "&") string
  let string := replaceAll (lit "&apos;") (lit "'") string
  let string := replaceAll (lit "&lt;") (lit "<") string
  replaceAll (lit "&gt;") (lit ">") string

/-- `readString`: the length of what is returned, not of what was read. -/
def readString : Method (Int × Option Bytes) := do
  match ← readXMLValue with
  | none => pure (-1, none)
  | some (string, _) => pure ((unescape string).length, some (unescape string))

/-- `readXML`: the same. -/
def readXML : Method (Int × Option Bytes) := do
  match ← readXMLCDATA with
  | none => pure (-1, none)
  | some (xml, _) => pure (xml.length, some xml)

-- ================================================================= skip

/-- `TProtocolBase.skip`. The begin calls return one value more than is
unpacked here, so nothing nested is ever skipped; types it does not name
fall through. -/
def skip (L : Libs) : TType → Method Unit
  | .T_STOP => pure ()
  | .T_BOOL => do let _ ← readBool
  | .T_BYTE => do let _ ← readByte
  | .T_I16 => do let _ ← readI16
  | .T_I32 => do let _ ← readI32
  | .T_I64 => do let _ ← readI64
  | .T_DOUBLE => do let _ ← readDouble L
  | .T_STRING => do let _ ← readString
  | .T_XML => do let _ ← readXML
  | .T_STRUCT => do
      let _ ← readStructBegin
      let _ ← readFieldBegin
      raise .ValueError
  | .T_MAP => do
      let _ ← readMapBegin
      raise .ValueError
  | .T_SET => do
      let _ ← readSetBegin
      raise .ValueError
  | .T_LIST => do
      let _ ← readListBegin
      raise .ValueError
  | _ => pure ()

-- =========================================================== operations

/-- The read operations of the protocol. -/
inductive ReadOp
  | readSandeshBegin | readSandeshEnd | readStructBegin | readStructEnd
  | readContainerElementBegin | readContainerElementEnd
  | readFieldBegin | readFieldEnd
  | readMapBegin | readMapEnd | readListBegin | readListEnd
  | readSetBegin | readSetEnd
  | readBool | readByte | readI16 | readI32 | readI64
  | readU16 | readU32 | readU64 | readIPV4 | readIPADDR | readDouble
  | readString | readBinary | readXML | readUUID
deriving DecidableEq

/-- The length an operation returns, `none` for a `None`. -/
def ReadOp.run (L : Libs) : ReadOp → Method (Option Int)
  | .readSandeshBegin => (fun x => some x.1) <$> Py.readSandeshBegin
  | .readSandeshEnd => Py.readSandeshEnd
  | .readStructBegin => Py.readStructBegin
  | .readStructEnd => Py.readStructEnd
  | .readContainerElementBegin => some <$> Py.readContainerElementBegin
  | .readContainerElementEnd => some <$> Py.readContainerElementEnd
  | .readFieldBegin => (fun x => some x.length) <$> Py.readFieldBegin
  | .readFieldEnd => some <$> Py.readFieldEnd
  | .readMapBegin => (fun x => some x.1) <$> Py.readMapBegin
  | .readMapEnd => some <$> Py.readMapEnd
  | .readListBegin => (fun x => some x.1) <$> Py.readListBegin
  | .readListEnd => some <$> Py.readListEnd
  | .readSetBegin => (fun x => some x.1) <$> Py.readSetBegin
  | .readSetEnd => some <$> Py.readSetEnd
  | .readBool => (fun x => some x.1) <$> Py.readBool
  | .readByte => (fun x => some x.1) <$> Py.readByte
  | .readI16 => (fun x => some x.1) <$> Py.readI16
  | .readI32 => (fun x => some x.1) <$> Py.readI32
  | .readI64 => (fun x => some x.1) <$> Py.readI64
  | .readU16 => (fun x => some x.1) <$> Py.readU16
  | .readU32 => (fun x => some x.1) <$> Py.readU32
  | .readU64 => (fun x => some x.1) <$> Py.readU64
  | .readIPV4 => (fun x => some x.1) <$> Py.readIPV4
  | .readIPADDR => (fun x => some x.1) <$> Py.readIPADDR L
  | .readDouble => (fun x => some x.1) <$> Py.readDouble L
  | .readString => (fun x => some x.1) <$> Py.readString
  | .readBinary => (fun x => some x.1) <$> Py.readBinary
  | .readXML => (fun x => some x.1) <$> Py.readXML
  | .readUUID => (fun x => some x.1) <$> Py.readUUID L

end Sandesh.Py
