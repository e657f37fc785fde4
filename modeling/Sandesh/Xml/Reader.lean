/-
Escaping of control characters in text, C++ side
(library/cpp/protocol/TXMLProtocol.h).

Escaping is one pass over the characters; unescaping is four global
replacements one after the other, `&amp;` first, so what one of them
writes is read by the next. `strpbrk` looks at the C string, which ends
at the first nul: control characters behind one do not trigger escaping.
-/
import Sandesh.Lib.Prog
import Sandesh.Lib.Replace
import Sandesh.Lib.Text

namespace Sandesh.Xml

open Lib

-- the four characters: & ' < >
/-- The four characters that are escaped. -/
def chAmp : UInt8 := 38
def chApos : UInt8 := 39
def chLt : UInt8 := 60
def chGt : UInt8 := 62

/-- One turn of the loop of `escapeXMLControlCharsInternal`. -/
def escapeChar (c : UInt8) : Bytes :=
  if c = chAmp then lit "&amp;"
  else if c = chApos then lit "&apos;"
  else if c = chLt then lit "&lt;"
  else if c = chGt then lit "&gt;"
  else [c]

/-- Character by character. -/
def escapeXMLControlCharsInternal (str : Bytes) : Bytes :=
  str.flatMap escapeChar

/-- `strpbrk(str.c_str(), accept) != NULL`. -/
def strpbrk (str accept : Bytes) : Bool :=
  (str.takeWhile (· != nul)).any fun c => accept.contains c

/-- A string without any of the four is returned as it is. `strpbrk` gets a
C string. -/
def escapeXMLControlChars (str : Bytes) : Bytes :=
  if strpbrk str (lit "&'<>") then escapeXMLControlCharsInternal str
  else str

/-- Four replacements in this order, each over all of the text. -/
def unescapeXMLControlChars (str : Bytes) : Bytes :=
  let str := replaceAll (lit "&amp;") (lit "&") str
  let str := replaceAll (lit "&apos;") (lit "'") str
  let str := replaceAll (lit "&lt;") (lit "<") str
  replaceAll (lit "&gt;") (lit ">") str

end Sandesh.Xml

/-
The C++ XML reader: `LookaheadReader` over a `TMemoryBuffer`, and the
four reads every other operation of `TXMLProtocol` is made of
(library/cpp/protocol/TXMLProtocol.h and .cpp).

# Lookahead

`peek` and `peek2` keep what they have taken from the transport, one byte
in `data_` and two in `data2_`, and `read` hands these out first. The two
do not know of each other: `peek` goes to the transport even when
`data2_` is waiting.

# The end of the input

`readAll` reports that the transport has run dry, but `read`, `peek` and
`peek2` drop what it returns and hand out whatever `data_` or `data2_`
held before. Before the first read these are uninitialised, so they are
part of the state a reader starts from. `ranOut` is not a field of the
class: it records that some `readAll` has failed.

The four reads are `while (true)` loops that only a delimiter ends, so
they are loops of `Prog` here, which may or may not return.
-/

namespace Sandesh.Xml

open Lib

-- ==================================================== LookaheadReader

/-- The members of the reader, and the transport behind it. -/
structure LookaheadReader where
  /-- the bytes of the transport not read yet -/
  trans : Bytes
  hasData_ : Bool
  data_ : UInt8
  has2Data_ : Bool
  data2_ : UInt8 × UInt8
  firstRead_ : Bool
  /-- some `readAll` has returned -1 -/
  ranOut : Bool
deriving DecidableEq

/-- A reader over a buffer; `data_` and `data2_` are uninitialised. -/
def LookaheadReader.new (buf : Bytes) (data_ : UInt8)
    (data2_ : UInt8 × UInt8) : LookaheadReader where
  trans := buf
  hasData_ := false
  data_ := data_
  has2Data_ := false
  data2_ := data2_
  firstRead_ := false
  ranOut := false

namespace LookaheadReader

/-- `trans_->readAll(&data_, 1)`, the status dropped. -/
def readAll (r : LookaheadReader) : LookaheadReader :=
  match r.trans with
  | [] => { r with ranOut := true }
  | b :: trans => { r with trans := trans, data_ := b }

/-- `trans_->readAll(data2_, 2)`, the status dropped. A last single byte
is copied before the failure is noticed. -/
def readAll2 (r : LookaheadReader) : LookaheadReader :=
  match r.trans with
  | [] => { r with ranOut := true }
  | [b] => { r with trans := [], data2_ := (b, r.data2_.2), ranOut := true }
  | b :: c :: trans => { r with trans := trans, data2_ := (b, c) }

/-- A byte that was looked at comes first. -/
def read (r : LookaheadReader) : UInt8 × LookaheadReader :=
  if r.hasData_ then (r.data_, { r with hasData_ := false })
  else if r.has2Data_ then
    if r.firstRead_ then
      (r.data2_.2, { r with has2Data_ := false, firstRead_ := false })
    else (r.data2_.1, { r with firstRead_ := true })
  else (r.readAll.data_, r.readAll)

/-- One byte, kept for the next read. -/
def peek (r : LookaheadReader) : UInt8 × LookaheadReader :=
  let r' := if r.hasData_ then r else r.readAll
  (r'.data_, { r' with hasData_ := true })

/-- Two bytes. The first call gives the first of them, the next one the
second. -/
def peek2 (r : LookaheadReader) : UInt8 × LookaheadReader :=
  if r.has2Data_ then (r.data2_.2, r)
  else (r.readAll2.data2_.1, { r.readAll2 with has2Data_ := true })

end LookaheadReader

-- ============================================================ programs

/-- Where the reader's code stops short. -/
inductive Fault
  /-- -1 is returned, and by every caller in turn -/
  | failed
  /-- `*it` or `++it` at the end of the tokens of a tag -/
  | token
  /-- a character of a type name past its end -/
  | index
  /-- `assert(false)` in `readXMLDouble` -/
  | double
deriving DecidableEq

/-- Why a run of the reader stops: a fault of its own, or a watch kept on
it from outside. -/
inductive Abort
  | fault (f : Fault)
  | watch
deriving DecidableEq

/-- A member function of `TXMLProtocol`, as far as reading goes. -/
abbrev Read (α : Type) : Type := Prog LookaheadReader Abort α

/-- `reader_.read()`. -/
def getChar : Read UInt8 := Prog.act fun r => (.ok r.read.1, r.read.2)

/-- `reader_.peek()`. -/
def peekChar : Read UInt8 := Prog.act fun r => (.ok r.peek.1, r.peek.2)

/-- `reader_.peek2()`. -/
def peek2Char : Read UInt8 := Prog.act fun r => (.ok r.peek2.1, r.peek2.2)

/-- The characters that the protocol reads. -/
def kcXMLTagO : UInt8 := 60
def kcXMLTagC : UInt8 := 62
def kcXMLSlash : UInt8 := 47
def kcXMLSBracketC : UInt8 := 93
/-- What a CDATA section begins with. -/
def kXMLCDATAO : Bytes := lit "<![CDATA["

/-- `readSyntaxChar`. -/
def readXMLSyntaxChar (ch : UInt8) : Read Int := do
  let ch2 ← getChar
  pure (if ch2 ≠ ch then -1 else 1)

/-- `readSyntaxString`, with the count so far. -/
def readXMLSyntaxString : Bytes → Int → Read Int
  | [], result => pure result
  | ch :: str, result => do
      let ret ← readXMLSyntaxChar ch
      if ret < 0 then pure ret else readXMLSyntaxString str (result + ret)

-- ====================================================== the four reads

/-- The loop of `readXMLTag`: characters up to and with the closing `>`,
counted in `result`. -/
def tagLoop : Int × Bytes → Read (Int × Bytes) :=
  Prog.loop fun t => do
    let ch ← getChar
    pure (if ch = kcXMLTagC then .inr (t.1 + 1, t.2)
      else .inl (t.1 + 1, t.2 ++ [ch]))

/-- The text between the delimiters. What follows the `<` is not looked at
but for the slash. -/
def readXMLTag (endTag : Bool) : Read (Int × Bytes) := do
  let ret ← readXMLSyntaxChar kcXMLTagO
  if ret < 0 then pure (ret, [])
  else if endTag then
    let ret2 ← readXMLSyntaxChar kcXMLSlash
    if ret2 < 0 then pure (ret2, []) else tagLoop (ret + ret2, [])
  else tagLoop (ret, [])

/-- Characters up to, and without, the first one that `stop`s. -/
def charsLoop (stop : UInt8 → Bool) : Int × Bytes → Read (Int × Bytes) :=
  Prog.loop fun t => do
    let ch ← peekChar
    if stop ch then pure (.inr t)
    else
      let _ ← getChar
      pure (.inl (t.1 + 1, t.2 ++ [ch]))

/-- `readXMLString`. -/
def readXMLString : Read (Int × Bytes) :=
  charsLoop (fun ch => ch == kcXMLTagO) (0, [])

/-- The characters in `[-+0-9]`. -/
def isXMLNumeric (ch : UInt8) : Bool := (lit "+-0123456789").contains ch

/-- `readXMLNumericChars`. -/
def readXMLNumericChars : Read (Int × Bytes) :=
  charsLoop (fun ch => !isXMLNumeric ch) (0, [])

/-- The variables of the loop of `readXMLCDATA`; `ch` and `ch2` with
their `_read` flags. -/
structure CData where
  result : Int
  str : Bytes
  ch : Option UInt8
  ch2 : Option UInt8
deriving DecidableEq

/-- `ch = reader_.peek(); reader_.read(); ++result` unless already read. -/
def nextChar (ch : Option UInt8) (result : Int) : Read (UInt8 × Int) :=
  match ch with
  | some ch => pure (ch, result)
  | none => do
      let ch ← peekChar
      let _ ← getChar
      pure (ch, result + 1)

/-- The loop of `readXMLCDATA`: at most two characters are held back
until the third shows whether they start the `]]>`. -/
def cdataLoop : CData → Read (Int × Bytes) :=
  Prog.loop fun t => do
    let (ch, result) ← nextChar t.ch t.result
    if ch = kcXMLSBracketC then
      let (ch2, result) ← nextChar t.ch2 result
      if ch2 = kcXMLSBracketC then
        let (ch3, result) ← nextChar none result
        if ch3 = kcXMLTagC then pure (.inr (result, t.str))
        else pure (.inl ⟨result, t.str ++ [ch], some ch2, some ch3⟩)
      else pure (.inl ⟨result, t.str ++ [ch], some ch2, none⟩)
    else pure (.inl ⟨result, t.str ++ [ch], none, t.ch2⟩)

/-- The opening delimiter, then the section's text. -/
def readXMLCDATA : Read (Int × Bytes) := do
  let ret ← readXMLSyntaxString kXMLCDATAO 0
  if ret < 0 then pure (ret, []) else cdataLoop ⟨ret, [], none, none⟩

/-- The four reads, as operations of the protocol. -/
inductive ReadOp
  | tag (endTag : Bool)
  | string
  | numeric
  | cdata
deriving DecidableEq

/-- The function for each. -/
def ReadOp.code : ReadOp → Read (Int × Bytes)
  | .tag endTag => readXMLTag endTag
  | .string => readXMLString
  | .numeric => readXMLNumericChars
  | .cdata => readXMLCDATA

end Sandesh.Xml
