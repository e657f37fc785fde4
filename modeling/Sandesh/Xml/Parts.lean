/-
A message as a row of parts.

How far reading gets in a message is decided by its bytes. `Part` is what is
read at one time: a tag, a string, or what a tag stands for, which is a row
of parts itself. The parts still to come are on a stack; the one on top takes
its bytes off the front of what is left (`Left`), and may put others in its
place, as the open tag of a list puts its elements and an end tag.

A part that finds something else than it looks for is `refused`, by a -1 or
by a fault of another kind. One that looks for a delimiter which is not left
is `missing` it, and looks for it for ever.

# Behind the last byte

Two things are still found there. Two bytes that `peek2` finds no more are
those it found before, of which it replaces the first if there is just one
left. And the `>` of the last tag is found again, by an open tag which these
two bytes begin and by a number, which ends before it. `out` is set once
something was looked for there.
-/
import Sandesh.Lib.Stack
import Sandesh.Xml.Proofs.Delimited
import Sandesh.Xml.Protocol

namespace Sandesh.Xml

open Lib TType

-- ========================================================= what is left

/-- What is left of the text for the reader. -/
structure Left where
  bytes : Bytes
  /-- what `peek2` has found -/
  pair : UInt8 × UInt8
  /-- the first two bytes are `pair` -/
  looked : Bool
  out : Bool
deriving DecidableEq

/-- Why there is no going on. -/
inductive Snag
  | missing
  | refused (f : Fault) (out : Bool)
deriving DecidableEq

/-- What reading should not come to: a part that is on for ever, or a fault that
does not tell that the input has run out. -/
def Snag.Bad : Snag → Prop
  | .missing => True
  | .refused f out => out = true ∧ f ≠ .failed

/-- The text in front of the first `]]>`, and what is behind. -/
def cutCData : Bytes → Option (Bytes × Bytes)
  | [] => none
  | c :: s =>
      if kXMLCDATAC <+: c :: s then some ([], (c :: s).drop kXMLCDATAC.length)
      else (cutCData s).map fun x => (c :: x.1, x.2)

namespace Left

variable (l : Left)

/-- The text is refused here. -/
def refused {α : Type} (f : Fault) : Except Snag α := .error (.refused f l.out)

/-- The reader goes on behind so much. -/
def behind (bytes : Bytes) : Left := { l with bytes := bytes, looked := false }

/-- The text of a tag, the last one perhaps closed by an old `>`. -/
def tag (endTag : Bool) : Except Snag (Bytes × Left) :=
  if tagOpen endTag <+: l.bytes then
    let text := l.bytes.drop (tagOpen endTag).length
    if kcXMLTagC ∈ text then
      .ok (text.takeWhile (· != kcXMLTagC),
        l.behind (text.dropWhile (· != kcXMLTagC)).tail)
    else if l.looked = true ∧ l.bytes.length = 2 then
      .ok (text, { l.behind [] with out := true })
    else .error .missing
  else l.refused .failed

/-- Up to, and without, the first byte that `stop`s. -/
def chars (stop : UInt8 → Bool) : Except Snag (Bytes × Left) :=
  if l.bytes.any stop then
    .ok (l.bytes.takeWhile fun c => !stop c, l.behind (l.bytes.dropWhile fun c => !stop c))
  else .error .missing

/-- The text of a section. -/
def cdata : Except Snag (Bytes × Left) :=
  if kXMLCDATAO <+: l.bytes then
    match cutCData (l.bytes.drop kXMLCDATAO.length) with
    | some (text, bytes) => .ok (text, l.behind bytes)
    | none => .error .missing
  else l.refused .failed

/-- What one of the four reads finds. -/
def read : ReadOp → Except Snag (Bytes × Left)
  | .tag endTag => l.tag endTag
  | .string => l.chars fun c => c == kcXMLTagO
  | .numeric =>
      -- the old `>` ends a number of no digits, and is left
      if l.bytes = [] then .ok ([], { l.behind [kcXMLTagC] with out := true })
      else l.chars fun c => !isXMLNumeric c
  | .cdata => l.cdata

/-- With two bytes looked at. -/
def look : Left :=
  match l.bytes with
  | [] => ⟨[l.pair.1, l.pair.2], l.pair, true, true⟩
  | [a] => ⟨[a, l.pair.2], (a, l.pair.2), true, true⟩
  | a :: b :: _ => { l with pair := (a, b), looked := true }

end Left

-- ================================================================ parts

/-- What an open tag is read for. -/
inductive Use
  | sandesh
  /-- with the values the type and the id have so far -/
  | field (ftype : TType) (fid : BitVec 16)
  | map | set | list

/-- What a reader has still to do. -/
inductive Part
  | read (op : ReadOp)
  | address
  | value (t : TType)
  /-- `n` rounds of values of these types -/
  | rounds (ts : List TType) (n : Nat)
  /-- the fields from here on -/
  | fields (ftype : TType) (fid : BitVec 16)
  | opened (use : Use)
  /-- what the name and the other tokens of an open tag ask for -/
  | begun (use : Use) (name : Bytes) (rest : List Bytes)

variable (W : World)

/-- The fields of a struct that has begun, and its end. -/
def fieldParts : List Part :=
  [.fields W.junk.ftype W.junk.fid, .read (.tag true)]

/-- What has to be skipped for a value. -/
def Part.ofType : TType → Except Fault (List Part)
  | T_BOOL | T_STRING | T_UUID => .ok [.read .string]
  | T_BYTE | T_I16 | T_I32 | T_I64 | T_U16 | T_U32 | T_U64 | T_IPV4 => .ok [.read .numeric]
  | T_IPADDR => .ok [.address]
  | T_XML => .ok [.read .cdata]
  | T_DOUBLE => .error .double
  | T_STRUCT => .ok (.read (.tag false) :: fieldParts W)
  | T_SANDESH => .ok (.opened .sandesh :: fieldParts W)
  | T_MAP => .ok [.opened .map]
  | T_SET => .ok [.opened .set]
  | T_LIST => .ok [.opened .list]
  | T_STOP | T_VOID | T_UTF8 | T_UTF16 => .ok []

/-- The attributes of a map, in the order in which they are looked for. -/
def entryAttrs : List (Attr (TType × TType × BitVec 32)) :=
  [typeAttr (lit "key") fun t s => (t, s.2),
    typeAttr (lit "value") fun t s => (s.1, t, s.2.2),
    sizeAttr W fun n s => (s.1, s.2.1, n)]

/-- The elements of a container of this name, and its end. -/
def containerParts {σ : Type} (name first : Bytes) (rest : List Bytes)
    (attrs : List (Attr σ)) (s : σ) (types : σ → List TType) (size : σ → BitVec 32) :
    Except Fault (List Part) :=
  if first ≠ name then .error .failed
  else (readAttrs attrs rest none s).map fun s =>
    [.rounds (types s) (size s).toNat, .read (.tag true)]

/-- What follows an open tag, by what it was read for. -/
def Use.parts (first : Bytes) (rest : List Bytes) : Use → Except Fault (List Part)
  | .sandesh => (readAttrs sandeshAttrs rest none ()).map fun _ => []
  | .field ftype fid =>
      (readAttrs (fieldAttrs W) rest none (ftype, fid)).map fun x =>
        if x.1 = T_STOP then [] else [.value x.1, .read (.tag true), .fields x.1 x.2]
  | .map =>
      containerParts (lit "map") first rest (entryAttrs W)
        (W.junk.keyType, W.junk.valType, W.junk.size) (fun s => [s.1, s.2.1]) (·.2.2)
  | .set =>
      containerParts (lit "set") first rest (elemAttrs W) (W.junk.keyType, W.junk.size)
        (fun s => [s.1]) (·.2)
  | .list =>
      containerParts (lit "list") first rest (elemAttrs W) (W.junk.keyType, W.junk.size)
        (fun s => [s.1]) (·.2)

/-- The parts put in the place of one, or why there are none. -/
def Left.put (l : Left) : Except Fault (List Part) → Except Snag (List Part × Left)
  | .ok ps => .ok (ps, l)
  | .error f => l.refused f

/-- What the part on top takes, and the parts it leads to. -/
def Part.turn : Part → Left → Except Snag (List Part × Left)
  | .read op, l => (l.read op).map fun x => ([], x.2)
  | .address, l => do
      let (str, l) ← l.read .string
      if W.isAddress str then .ok ([], l) else l.refused .failed
  | .value t, l => l.put (ofType W t)
  | .rounds _ 0, l => .ok ([], l)
  | .rounds ts (n + 1), l => .ok (ts.map .value ++ [.rounds ts n], l)
  | .fields ftype fid, l =>
      .ok (if l.look.pair = (kcXMLTagO, kcXMLSlash) then [] else [.opened (.field ftype fid)],
        l.look)
  | .opened use, l => do
      let (text, l) ← l.tag false
      match tokens text with
      | [] => l.refused .token
      | name :: rest => .ok ([.begun use name rest], l)
  | .begun use name rest, l => l.put (use.parts W name rest)

/-- The parts of a message, one after another. -/
def parts : StackMachine Part Left Snag := ⟨Part.turn W⟩

end Sandesh.Xml
