/-
The reading calls of `TXMLProtocol`, over any reader, and the order in
which generated code makes them (library/cpp/protocol/TXMLProtocol.cpp,
compiler/generate/t_cpp_generator.cc).

# Over any reader

`Xml.Reader` and `Xml.Protocol` run over `LookaheadReader` itself. Here
the same code is written over whatever has a `read`, a `peek` and a
`peek2` (`Ops`): at `Ops.plain` it is the code of these modules, and at
`Ops.logged` every operation on the reader leaves an entry behind, with
what was pending when it was made.

# The order

A generated reader opens a struct or a sandesh, reads fields until
`readFieldBegin` answers `T_STOP`, and closes it. Between the tags of a
field stands one value: a base type, a struct, or a container with any
number of elements, each in tags of its own or not. `Next` is this
grammar, one call at a time, over the constructs that are still open.
-/
import Sandesh.CppGen.Read

namespace Sandesh.CppGen

open Lib Xml

-- ====================================================== over any reader

/-- What the code uses of a reader. -/
structure Ops (σ : Type) where
  read : σ → UInt8 × σ
  peek : σ → UInt8 × σ
  peek2 : σ → UInt8 × σ

namespace Ops

variable {σ : Type} (O : Ops σ)

/-- The calls of the lookahead reader, each with the byte it gives. -/
def getChar : Prog σ Abort UInt8 := Prog.act fun r => (.ok (O.read r).1, (O.read r).2)

def peekChar : Prog σ Abort UInt8 := Prog.act fun r => (.ok (O.peek r).1, (O.peek r).2)

def peek2Char : Prog σ Abort UInt8 := Prog.act fun r => (.ok (O.peek2 r).1, (O.peek2 r).2)

/-- The reads of `TXMLProtocol` once more, over any reader that has the
three calls; what they compute is that of Xml/Reader.lean. -/
def readXMLSyntaxChar (ch : UInt8) : Prog σ Abort Int := do
  let ch2 ← O.getChar
  pure (if ch2 ≠ ch then -1 else 1)

/-- Character by character: the first that differs ends it. -/
def readXMLSyntaxString : Bytes → Int → Prog σ Abort Int
  | [], result => pure result
  | ch :: str, result => do
      let ret ← O.readXMLSyntaxChar ch
      if ret < 0 then pure ret else readXMLSyntaxString str (result + ret)

/-- Up to the `>`. -/
def tagLoop : Int × Bytes → Prog σ Abort (Int × Bytes) :=
  Prog.loop fun t => do
    let ch ← O.getChar
    pure (if ch = kcXMLTagC then .inr (t.1 + 1, t.2)
      else .inl (t.1 + 1, t.2 ++ [ch]))

/-- With `endTag` a slash is asked for behind the `<`. -/
def readXMLTag (endTag : Bool) : Prog σ Abort (Int × Bytes) := do
  let ret ← O.readXMLSyntaxChar kcXMLTagO
  if ret < 0 then pure (ret, [])
  else if endTag then
    let ret2 ← O.readXMLSyntaxChar kcXMLSlash
    if ret2 < 0 then pure (ret2, []) else O.tagLoop (ret + ret2, [])
  else O.tagLoop (ret, [])

/-- Up to a character that `stop` accepts, which is looked at and not taken.
-/
def charsLoop (stop : UInt8 → Bool) : Int × Bytes → Prog σ Abort (Int × Bytes) :=
  Prog.loop fun t => do
    let ch ← O.peekChar
    if stop ch then pure (.inr t)
    else
      let _ ← O.getChar
      pure (.inl (t.1 + 1, t.2 ++ [ch]))

/-- A character that was carried over from the last turn, or the next one.
-/
def nextChar (ch : Option UInt8) (result : Int) : Prog σ Abort (UInt8 × Int) :=
  match ch with
  | some ch => pure (ch, result)
  | none => do
      let ch ← O.peekChar
      let _ ← O.getChar
      pure (ch, result + 1)

/-- The three characters of `]]>` are looked for one by one. -/
def cdataLoop : CData → Prog σ Abort (Int × Bytes) :=
  Prog.loop fun t => do
    let (ch, result) ← O.nextChar t.ch t.result
    if ch = kcXMLSBracketC then
      let (ch2, result) ← O.nextChar t.ch2 result
      if ch2 = kcXMLSBracketC then
        let (ch3, result) ← O.nextChar none result
        if ch3 = kcXMLTagC then pure (.inr (result, t.str))
        else pure (.inl ⟨result, t.str ++ [ch], some ch2, some ch3⟩)
      else pure (.inl ⟨result, t.str ++ [ch], some ch2, none⟩)
    else pure (.inl ⟨result, t.str ++ [ch], none, t.ch2⟩)

/-- The opening delimiter, and then up to the closing one. -/
def readXMLCDATA : Prog σ Abort (Int × Bytes) := do
  let ret ← O.readXMLSyntaxString kXMLCDATAO 0
  if ret < 0 then pure (ret, []) else O.cdataLoop ⟨ret, [], none, none⟩

/-- The four reads. -/
def code : ReadOp → Prog σ Abort (Int × Bytes)
  | .tag endTag => O.readXMLTag endTag
  | .string => O.charsLoop (fun ch => ch == kcXMLTagO) (0, [])
  | .numeric => O.charsLoop (fun ch => !isXMLNumeric ch) (0, [])
  | .cdata => O.readXMLCDATA

-- ============================================================ the calls

/-- A read, with -1 made an exit. -/
def get (op : ReadOp) : Prog σ Abort (Int × Bytes) := do
  let x ← O.code op
  if x.1 < 0 then Prog.throw (.fault .failed) else pure x

/-- Pure work on what was read. -/
def lift {α : Type} : Except Fault α → Prog σ Abort α
  | .ok a => pure a
  | .error f => Prog.throw (.fault f)

/-- What every begin starts with: a tag, cut into words. -/
def readTagTokens : Prog σ Abort (Int × Bytes × List Bytes) := do
  let (ret, str) ← O.get (.tag false)
  match tokens str with
  | [] => Prog.throw (.fault .token)
  | name :: rest => pure (ret, name, rest)

/-- The name; the attributes must be those of a sandesh. -/
def readSandeshBegin : Prog σ Abort (Int × Bytes) := do
  let (ret, name, rest) ← O.readTagTokens
  lift (readAttrs sandeshAttrs rest none ())
  pure (ret, name)

/-- Every call that reads an end tag. -/
def readEnd : Prog σ Abort Int := Prod.fst <$> O.get (.tag true)

variable (W : World)

/-- Two calls of `peek2Char` look for the end of the fields. The name and
the id that were passed come back if it is there. -/
def readFieldBegin (name : Bytes) (fieldType : TType) (fieldId : BitVec 16) :
    Prog σ Abort (Int × Bytes × TType × BitVec 16) := do
  let ch ← O.peek2Char
  let ch1 ← O.peek2Char
  if ch = kcXMLTagO ∧ ch1 = kcXMLSlash then pure (0, name, .T_STOP, fieldId)
  else
    let (ret, name, rest) ← O.readTagTokens
    let (fieldType, fieldId) ← lift (readAttrs (fieldAttrs W) rest none (fieldType, fieldId))
    pure (ret, name, fieldType, fieldId)

/-- A tag with this name, and its attributes. -/
def readContainerBegin {τ : Type} (name : Bytes) (attrs : List (Attr τ)) (s : τ) :
    Prog σ Abort (Int × τ) := do
  let (ret, first, rest) ← O.readTagTokens
  if first ≠ name then Prog.throw (.fault .failed)
  else
    let s ← lift (readAttrs attrs rest none s)
    pure (ret, s)

/-- The digits up to the next tag. -/
def readXMLInteger (w : Nat) : Prog σ Abort (Int × BitVec w) := do
  let (ret, str) ← O.get .numeric
  pure (ret, W.stringToInteger w str)

/-- The text is unescaped, and the length returned is that of the result. -/
def readString : Prog σ Abort (Int × Bytes) := do
  let (_, str) ← O.get .string
  pure ((unescapeXMLControlChars str).length, unescapeXMLControlChars str)

/-- A text that is no address is an error. -/
def readIPADDR : Prog σ Abort Int := do
  let (ret, str) ← O.get .string
  if W.isAddress str then pure ret else Prog.throw (.fault .failed)

/-- A text that is neither leaves the value as it was. -/
def readBool (value : Bool) : Prog σ Abort (Int × Bool) := do
  let (ret, str) ← O.get .string
  pure (ret, if str = lit "true" then true else if str = lit "false" then false else value)

end Ops

/-- The containers. -/
inductive Kind
  | map | list | set
deriving DecidableEq

/-- A value that is not made of others: the reads of base types, with the
value that the variable of a bool has before. -/
inductive Leaf
  | bool (value : Bool)
  | integer (w : Nat)
  | string
  /-- `readBinary` and `readUUID`, which take any text -/
  | text
  | ipaddr
  | xml
  | double
deriving DecidableEq

/-- The calls that read; a field's begin with the values its reference
parameters have. -/
inductive Call
  | sandeshBegin
  | sandeshEnd
  | structBegin
  | structEnd
  | fieldBegin (name : Bytes) (fieldType : TType) (fieldId : BitVec 16)
  | fieldEnd
  | containerBegin (kind : Kind)
  | containerEnd (kind : Kind)
  | elementBegin
  | elementEnd
  | leaf (leaf : Leaf)
deriving DecidableEq

variable {σ : Type}

/-- The begin of a container. What it returns decides nothing about the
calls that may follow, so there is no answer. -/
def Kind.readBegin (O : Ops σ) (W : World) : Kind → Prog σ Abort (Option TType)
  | map => do
      let _ ← O.readContainerBegin (lit "map")
        [typeAttr (lit "key") fun t s => (t, s.2),
          typeAttr (lit "value") fun t s => (s.1, t, s.2.2),
          sizeAttr W fun n s => (s.1, s.2.1, n)]
        (W.junk.keyType, W.junk.valType, W.junk.size)
      pure none
  | list => do
      let _ ← O.readContainerBegin (lit "list") (elemAttrs W) (W.junk.keyType, W.junk.size)
      pure none
  | set => do
      let _ ← O.readContainerBegin (lit "set") (elemAttrs W) (W.junk.keyType, W.junk.size)
      pure none

/-- The read of a value. -/
def Leaf.read (O : Ops σ) (W : World) : Leaf → Prog σ Abort (Option TType)
  | bool value => do
      let _ ← O.readBool value
      pure none
  | integer w => do
      let _ ← O.readXMLInteger W w
      pure none
  | string => do
      let _ ← O.readString
      pure none
  | text => do
      let _ ← O.get .string
      pure none
  | ipaddr => do
      let _ ← O.readIPADDR W
      pure none
  | xml => do
      let _ ← O.get .cdata
      pure none
  | double => Prog.throw (.fault .double)

/-- A call, and the field type it answers with if it is one that does. -/
def Call.code (O : Ops σ) (W : World) : Call → Prog σ Abort (Option TType)
  | sandeshBegin => do
      let _ ← O.readSandeshBegin
      pure none
  | structBegin => do
      let _ ← O.get (.tag false)
      pure none
  | elementBegin => do
      let _ ← Prod.fst <$> O.get (.tag false)
      pure none
  | sandeshEnd | structEnd | fieldEnd | containerEnd _ | elementEnd => do
      let _ ← O.readEnd
      pure none
  | fieldBegin name fieldType fieldId => do
      let (_, _, ftype, _) ← O.readFieldBegin W name fieldType fieldId
      pure (some ftype)
  | containerBegin kind => kind.readBegin O W
  | leaf l => l.read O W

/-- `LookaheadReader`. -/
def Ops.plain : Ops LookaheadReader where
  read := LookaheadReader.read
  peek := LookaheadReader.peek
  peek2 := LookaheadReader.peek2

/-- The calls, as the protocol has them. -/
def Call.source (W : World) : Call → Read (Option TType)
  | sandeshBegin => do
      let _ ← Xml.readSandeshBegin Reads.code
      pure none
  | sandeshEnd => do
      let _ ← readSandeshEnd Reads.code
      pure none
  | structBegin => do
      let _ ← readStructBegin Reads.code
      pure none
  | structEnd => do
      let _ ← readStructEnd Reads.code
      pure none
  | fieldBegin name fieldType fieldId => do
      let (_, _, ftype, _) ← CppGen.readFieldBegin W Reads.code name fieldType fieldId
      pure (some ftype)
  | fieldEnd => do
      let _ ← readFieldEnd Reads.code
      pure none
  | containerBegin .map => do
      let _ ← readMapBegin W Reads.code
      pure none
  | containerBegin .list => do
      let _ ← readListBegin W Reads.code
      pure none
  | containerBegin .set => do
      let _ ← readSetBegin W Reads.code
      pure none
  | containerEnd _ => do
      let _ ← readContainerEnd Reads.code
      pure none
  | elementBegin => do
      let _ ← readContainerElementBegin Reads.code
      pure none
  | elementEnd => do
      let _ ← readContainerElementEnd Reads.code
      pure none
  | leaf (.bool value) => do
      let _ ← CppGen.readBool Reads.code value
      pure none
  | leaf (.integer w) => do
      let _ ← Xml.readXMLInteger W Reads.code w
      pure none
  | leaf .string => do
      let _ ← Xml.readString Reads.code
      pure none
  | leaf .text => do
      let _ ← Reads.code.get .string
      pure none
  | leaf .ipaddr => do
      let _ ← Xml.readIPADDR W Reads.code
      pure none
  | leaf .xml => do
      let _ ← readXML Reads.code
      pure none
  | leaf .double => Prog.throw (.fault .double)

/-- Over `LookaheadReader` this is the code of the protocol. -/
theorem Call.code_plain (W : World) (c : Call) : c.code Ops.plain W = c.source W := by
  cases c with
  | containerBegin kind => cases kind <;> rfl
  | leaf l => cases l <;> rfl
  | _ => rfl

-- ============================================================= the log

/-- The calls to the transport below. -/
inductive ReaderOp
  | read | peek | peek2
deriving DecidableEq

/-- An operation made on the reader: what was pending before it, and the
byte it returned. -/
structure Entry where
  op : ReaderOp
  hasData_ : Bool
  has2Data_ : Bool
  byte : UInt8
deriving DecidableEq

/-- A reader with the list of its calls and of what each gave. -/
structure Logged where
  reader : LookaheadReader
  log : List Entry
deriving DecidableEq

namespace Logged

/-- A reader on a buffer, with nothing logged. The lookahead bytes are not
initialized, so they are arguments. -/
def new (buf : Bytes) (data_ : UInt8) (data2_ : UInt8 × UInt8) : Logged where
  reader := LookaheadReader.new buf data_ data2_
  log := []

/-- The operation `f` on the reader, and its entry. -/
def note (op : ReaderOp) (f : LookaheadReader → UInt8 × LookaheadReader) (s : Logged) :
    UInt8 × Logged :=
  let x := f s.reader
  (x.1, ⟨x.2, s.log ++ [⟨op, s.reader.hasData_, s.reader.has2Data_, x.1⟩]⟩)

/-- The bytes that `read` has returned. -/
def consumed (s : Logged) : Bytes :=
  (s.log.filter fun e => e.op = .read).map Entry.byte

end Logged

/-- `LookaheadReader`, with a log of what is done to it. -/
def Ops.logged : Ops Logged where
  read := Logged.note .read LookaheadReader.read
  peek := Logged.note .peek LookaheadReader.peek
  peek2 := Logged.note .peek2 LookaheadReader.peek2

-- =========================================================== the order

/-- What is open around the next call. -/
inductive Frame
  /-- a struct or a sandesh, between two of its fields -/
  | fields (sandesh : Bool)
  /-- the same, once `readFieldBegin` has answered `T_STOP` -/
  | stopped (sandesh : Bool)
  /-- a field, before or behind its value -/
  | field (read : Bool)
  /-- a container, between two of its elements -/
  | elements (kind : Kind)
  /-- an element in tags of its own, before or behind its value -/
  | element (read : Bool)
deriving DecidableEq

/-- Where a value may stand, and what is open behind it. -/
inductive Slot : List Frame → List Frame → Prop
  | field {p : List Frame} : Slot (.field false :: p) (.field true :: p)
  | element {p : List Frame} : Slot (.element false :: p) (.element true :: p)
  /-- elements without tags follow each other directly -/
  | elements {kind : Kind} {p : List Frame} : Slot (.elements kind :: p) (.elements kind :: p)

/-- The call that opens a struct or a sandesh, and the one that closes it. -/
def openCall (sandesh : Bool) : Call := if sandesh then .sandeshBegin else .structBegin

/-- The end that goes with a begin. -/
def closeCall (sandesh : Bool) : Call := if sandesh then .sandeshEnd else .structEnd

/-- The calls that may come next, with the answer they get and what is
open behind them. -/
inductive Next : List Frame → Call → Option TType → List Frame → Prop
  | start {sandesh : Bool} : Next [] (openCall sandesh) none [.fields sandesh]
  | opened {sandesh : Bool} {p p' : List Frame} (slot : Slot p p') :
      Next p (openCall sandesh) none (.fields sandesh :: p')
  | stop {sandesh : Bool} {p : List Frame} {name : Bytes} {fieldType : TType}
      {fieldId : BitVec 16} :
      Next (.fields sandesh :: p) (.fieldBegin name fieldType fieldId) (some .T_STOP)
        (.stopped sandesh :: p)
  | fieldBegin {sandesh : Bool} {p : List Frame} {name : Bytes} {fieldType ftype : TType}
      {fieldId : BitVec 16} (htype : ftype ≠ .T_STOP) :
      Next (.fields sandesh :: p) (.fieldBegin name fieldType fieldId) (some ftype)
        (.field false :: .fields sandesh :: p)
  /-- `skip` reads nothing at all for some types, so a field may also be
  closed before its value -/
  | fieldEnd {read : Bool} {p : List Frame} : Next (.field read :: p) .fieldEnd none p
  | closed {sandesh : Bool} {p : List Frame} :
      Next (.stopped sandesh :: p) (closeCall sandesh) none p
  | leaf {l : Leaf} {p p' : List Frame} (slot : Slot p p') : Next p (.leaf l) none p'
  | containerBegin {kind : Kind} {p p' : List Frame} (slot : Slot p p') :
      Next p (.containerBegin kind) none (.elements kind :: p')
  | elementBegin {kind : Kind} {p : List Frame} :
      Next (.elements kind :: p) .elementBegin none
        (.element false :: .elements kind :: p)
  | elementEnd {p : List Frame} : Next (.element true :: p) .elementEnd none p
  | containerEnd {kind : Kind} {p : List Frame} :
      Next (.elements kind :: p) (.containerEnd kind) none p

/-- The calls made so far on a reader that is logged: what is open behind
them, or nothing once a call has failed, which ends the reading. -/
inductive Session (W : World) (s₀ : Logged) : Option (List Frame) → Logged → Prop
  | nil : Session W s₀ (some []) s₀
  | call {p p' : List Frame} {c : Call} {a : Option TType} {s s' : Logged}
      (before : Session W s₀ (some p) s) (runs : (c.code Ops.logged W).Runs s (.ok a) s')
      (next : Next p c a p') : Session W s₀ (some p') s'
  | failed {p p' : List Frame} {c : Call} {a : Option TType} {e : Abort} {s s' : Logged}
      (before : Session W s₀ (some p) s) (runs : (c.code Ops.logged W).Runs s (.error e) s')
      (next : Next p c a p') : Session W s₀ none s'

end Sandesh.CppGen
