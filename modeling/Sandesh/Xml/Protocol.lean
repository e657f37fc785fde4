/-
The reading half of `TXMLProtocol` above its four reads, and
`TProtocol`'s `skip` (library/cpp/protocol/TXMLProtocol.cpp, TProtocol.h).

# Returns

Every function here returns the count of what it read, or -1. A -1 is
passed on at once by every caller (`if ((ret = f()) < 0) return ret`), so
it is an exit of the run (`Fault.failed`) and what comes back is the
count. Reference parameters come back beside it; the ones a function may
leave alone are passed in.

The counts are `int32_t`, here they are not bounded. A count is never more
than the bytes it counts, so up to `2 ^ 31` of these no sum wraps and no
count comes back negative, and the two are the same number. Behind that the
value in the source is `i32` of the one here, or a -1 passed on earlier;
what is said about a result as a length takes its `i32`.

# What is left open

`integerToString` and, for each width, `stringToInteger` are those of
`base/string_util`; whether a string is an IP address is for `boost::asio`
to say; and variables that the source reads before it has set them hold
some value (`Junk`). The operations are written over the four reads
(`Reads`), so that they can also be run with a watch on these.
-/
import Sandesh.Lib.Fix
import Sandesh.Xml.Reader

namespace Sandesh.Xml

open Lib

-- =============================================================== types

/-- `TType`; `T_I08` and `T_UTF7` are other names of two of them. -/
inductive TType
  | T_STOP | T_VOID | T_BOOL | T_BYTE | T_I16 | T_I32 | T_U64 | T_I64
  | T_DOUBLE | T_STRING | T_STRUCT | T_MAP | T_SET | T_LIST | T_UTF8
  | T_UTF16 | T_SANDESH | T_U16 | T_U32 | T_XML | T_IPV4 | T_UUID
  | T_IPADDR
deriving DecidableEq

open TType

/-- `name[i]`: the terminating nul may be looked at, nothing behind it. -/
def nameChar (name : Bytes) (i : Nat) : Except Fault UInt8 :=
  if i < name.length then .ok (name.getD i 0)
  else if i = name.length then .ok nul
  else .error .index

/-- `getTypeIDForTypeName`: two, three or four letters decide. -/
def getTypeIDForTypeName (name : Bytes) : Except Fault TType :=
  match name with
  | [] => .ok T_STOP
  | [_] => .ok T_STOP
  | c₀ :: c₁ :: _ =>
      if c₀ = 98 then
        .ok (if c₁ = 111 then T_BOOL else if c₁ = 121 then T_BYTE else T_STOP)
      else if c₀ = 100 then .ok T_DOUBLE
      else if c₀ = 105 then
        if c₁ = 49 then .ok T_I16
        else if c₁ = 51 then .ok T_I32
        else if c₁ = 54 then .ok T_I64
        else if c₁ = 112 then
          (nameChar name 2).map fun c₂ =>
            if c₂ = 97 then T_IPADDR else if c₂ = 118 then T_IPV4 else T_STOP
        else .ok T_STOP
      else if c₀ = 108 then .ok T_LIST
      else if c₀ = 109 then .ok T_MAP
      else if c₀ = 115 then
        if c₁ = 97 then .ok T_SANDESH
        else if c₁ = 101 then .ok T_SET
        else if c₁ = 116 then
          (nameChar name 3).map fun c₃ =>
            if c₃ = 105 then T_STRING
            else if c₃ = 117 then T_STRUCT
            else T_STOP
        else .ok T_STOP
      else if c₀ = 117 then
        .ok (if c₁ = 49 then T_U16
          else if c₁ = 51 then T_U32
          else if c₁ = 54 then T_U64
          else if c₁ = 117 then T_UUID
          else T_STOP)
      else if c₀ = 120 then .ok T_XML
      else .ok T_STOP

-- ========================================================== attributes

/-- `boost::char_separator<char> sep("=\" ")`. -/
def isSeparator (c : UInt8) : Bool := (lit "=\" ").contains c

/-- The tokens of a string, the one in front already begun. -/
def tokensFrom : Bytes → Bytes → List Bytes
  | cur, [] => if cur = [] then [] else [cur]
  | cur, c :: s =>
      if isSeparator c then
        if cur = [] then tokensFrom [] s else cur :: tokensFrom [] s
      else tokensFrom (cur ++ [c]) s

/-- `tokenizer tokens(str, sep)`. -/
def tokens (str : Bytes) : List Bytes := tokensFrom [] str

/-- One `if (*it == key) { ++it; ... *it ... }`. -/
structure Attr (σ : Type) where
  key : Bytes
  set : Bytes → σ → Except Fault σ

variable {σ : Type}

/-- The first of the `if`s that a token meets, and those after it. -/
def Attr.meets (attrs : List (Attr σ)) (token : Bytes) :
    Option (Attr σ × List (Attr σ)) :=
  match attrs.dropWhile (fun a => a.key != token) with
  | [] => none
  | a :: rest => some (a, rest)

/-- The loop over the tokens of a tag. With an attribute pending, `++it`
has just been made for it: the token is its value, and then meets the
`if`s that follow in the same turn. -/
def readAttrs (attrs : List (Attr σ)) :
    List Bytes → Option (Attr σ × List (Attr σ)) → σ → Except Fault σ
  | [], none, s => .ok s
  | [], some _, _ => .error .token
  | token :: rest, none, s => readAttrs attrs rest (Attr.meets attrs token) s
  | token :: rest, some (a, later), s =>
      match a.set token s with
      | .error e => .error e
      | .ok s' => readAttrs attrs rest (Attr.meets later token) s'

-- ============================================================ the world

/-- Values of variables read before they are set. -/
structure Junk where
  ftype : TType
  fid : BitVec 16
  keyType : TType
  valType : TType
  size : BitVec 32

/-- What is used of other libraries. -/
structure World where
  integerToString : Int → Bytes
  stringToInteger : (w : Nat) → Bytes → BitVec w
  isAddress : Bytes → Bool
  junk : Junk

/-- What is relied on in `base/string_util`: decimal text, and back. -/
structure World.Decimal (W : World) : Prop where
  text : ∀ i, W.integerToString i = decimalInt i
  parse : ∀ (w : Nat) (v : BitVec w), w ≤ 64 →
    W.stringToInteger w (decimalInt v.toInt) = v

/-- Integers through the C library. -/
def World.posix (isAddress : Bytes → Bool) (junk : Junk) : World where
  integerToString := decimalInt
  stringToInteger := fun w s => BitVec.ofNat w (strtoul s)
  isAddress := isAddress
  junk := junk

/-- Nothing is an address, and uninitialised variables are zero. -/
def World.plain : World :=
  World.posix (fun _ => false) ⟨T_STOP, 0, T_STOP, T_STOP, 0⟩

/-- The reads a run is made with. -/
structure Reads where
  read : ReadOp → Read (Int × Bytes)

/-- The reads of the protocol itself. -/
def Reads.code : Reads where
  read := ReadOp.code

variable (W : World) (R : Reads)

/-- `return -1`. -/
def fail {α : Type} : Read α := Prog.throw (.fault .failed)

/-- A read, with -1 made an exit. -/
def Reads.get (op : ReadOp) : Read (Int × Bytes) := do
  let x ← R.read op
  if x.1 < 0 then fail else pure x

/-- Pure work on what was read. -/
def lift {α : Type} : Except Fault α → Read α
  | .ok a => pure a
  | .error f => Prog.throw (.fault f)

/-- The tokens of the next open tag, at least one. -/
def readTagTokens : Read (Int × Bytes × List Bytes) := do
  let (ret, str) ← R.get (.tag false)
  match tokens str with
  | [] => Prog.throw (.fault .token)
  | name :: rest => pure (ret, name, rest)

-- ========================================================== the reads

/-- `type="sandesh"`, if there is a type. -/
def sandeshAttrs : List (Attr Unit) :=
  [{ key := lit "type"
     set := fun v _ => if v = lit "sandesh" then .ok () else .error .failed }]

/-- The name of a sandesh, from its tag; the attributes must be those of a
sandesh. -/
def readSandeshBegin : Read (Int × Bytes) := do
  let (ret, name, rest) ← readTagTokens R
  lift (readAttrs sandeshAttrs rest none ())
  pure (ret, name)

/-- A closing tag, whatever its name. -/
def readSandeshEnd : Read Int := Prod.fst <$> R.get (.tag true)

/-- An open tag, whatever is in it. -/
def readStructBegin : Read (Int × Bytes) := R.get (.tag false)

/-- A closing tag, whatever its name. -/
def readStructEnd : Read Int := Prod.fst <$> R.get (.tag true)

/-- An attribute that names a type. -/
def typeAttr (key : Bytes) (put : TType → σ → σ) : Attr σ where
  key := key
  set := fun v s => (getTypeIDForTypeName v).map fun t => put t s

/-- `type="..." identifier="..."`. -/
def fieldAttrs : List (Attr (TType × BitVec 16)) :=
  [typeAttr (lit "type") fun t s => (t, s.2),
    { key := lit "identifier"
      set := fun v s => .ok (s.1, W.stringToInteger 16 v) }]

/-- `readFieldBegin`, with the values its reference parameters have. -/
def readFieldBegin (ftype : TType) (fid : BitVec 16) :
    Read (Int × TType × BitVec 16) := do
  -- check if we hit the end of the list
  let ch ← peek2Char
  let ch1 ← peek2Char
  if ch = kcXMLTagO ∧ ch1 = kcXMLSlash then pure (0, T_STOP, fid)
  else
    let (ret, _, rest) ← readTagTokens R
    let (ftype, fid) ← lift (readAttrs (fieldAttrs W) rest none (ftype, fid))
    pure (ret, ftype, fid)

/-- A closing tag, whatever its name. -/
def readFieldEnd : Read Int := Prod.fst <$> R.get (.tag true)

/-- A container's open tag: its name, and attributes over the values its
reference parameters have. -/
def readContainerBegin (name : Bytes) (attrs : List (Attr σ)) (s : σ) :
    Read (Int × σ) := do
  let (ret, first, rest) ← readTagTokens R
  if first ≠ name then fail
  else
    let s ← lift (readAttrs attrs rest none s)
    pure (ret, s)

/-- The attribute with the number of elements. -/
def sizeAttr (put : BitVec 32 → σ → σ) : Attr σ where
  key := lit "size"
  set := fun v s => .ok (put (W.stringToInteger 32 v) s)

/-- The begin calls differ in the name of the tag and in the attributes they
look for. -/
def readMapBegin : Read (Int × TType × TType × BitVec 32) :=
  readContainerBegin R (lit "map")
    [typeAttr (lit "key") fun t s => (t, s.2),
      typeAttr (lit "value") fun t s => (s.1, t, s.2.2),
      sizeAttr W fun n s => (s.1, s.2.1, n)]
    (W.junk.keyType, W.junk.valType, W.junk.size)

/-- The attributes of a list and of a set. -/
def elemAttrs : List (Attr (TType × BitVec 32)) :=
  [typeAttr (lit "type") fun t s => (t, s.2), sizeAttr W fun n s => (s.1, n)]

/-- One type and a size. -/
def readListBegin : Read (Int × TType × BitVec 32) :=
  readContainerBegin R (lit "list") (elemAttrs W)
    (W.junk.keyType, W.junk.size)

/-- As for a list. -/
def readSetBegin : Read (Int × TType × BitVec 32) :=
  readContainerBegin R (lit "set") (elemAttrs W) (W.junk.keyType, W.junk.size)

/-- `readMapEnd`, `readListEnd` and `readSetEnd`. -/
def readContainerEnd : Read Int := Prod.fst <$> R.get (.tag true)

/-- `readXMLInteger`, for a type of `w` bits. -/
def readXMLInteger (w : Nat) : Read (Int × BitVec w) := do
  let (ret, str) ← R.get .numeric
  pure (ret, W.stringToInteger w str)

/-- `readString`: the count is the size of the unescaped string. -/
def readString : Read (Int × Bytes) := do
  let (_, str) ← R.get .string
  pure ((unescapeXMLControlChars str).length, unescapeXMLControlChars str)

/-- A text that is no address is an error. -/
def readIPADDR : Read Int := do
  let (ret, str) ← R.get .string
  if W.isAddress str then pure ret else fail

-- ================================================================ skip

/-- The field loop of a struct or a sandesh inside `skip`. -/
def skipFields (skip : TType → Read Int) (result : Int) : Read Int :=
  Prog.loop (fun (t : Int × TType × BitVec 16) => do
    let (ret, ftype, fid) ← readFieldBegin W R t.2.1 t.2.2
    if ftype = T_STOP then pure (.inr (t.1 + ret))
    else
      let ret2 ← skip ftype
      let ret3 ← readFieldEnd R
      pure (.inl (t.1 + ret + ret2 + ret3, ftype, fid)))
    (result, W.junk.ftype, W.junk.fid)

/-- `for (i = 0; i < size; i++)` around the elements of a container. -/
def skipElems (elem : Read Int) : Nat → Int → Read Int
  | 0, result => pure result
  | n + 1, result => do
      let ret ← elem
      skipElems elem n (result + ret)

/-- The body of `skip`. -/
def skipBody (skip : TType → Read Int) : TType → Read Int
  | T_BOOL => Prod.fst <$> R.get .string
  | T_BYTE => Prod.fst <$> readXMLInteger W R 8
  | T_I16 => Prod.fst <$> readXMLInteger W R 16
  | T_I32 => Prod.fst <$> readXMLInteger W R 32
  | T_I64 => Prod.fst <$> readXMLInteger W R 64
  | T_U16 => Prod.fst <$> readXMLInteger W R 16
  | T_U32 => Prod.fst <$> readXMLInteger W R 32
  | T_U64 => Prod.fst <$> readXMLInteger W R 64
  | T_IPV4 => Prod.fst <$> readXMLInteger W R 32
  | T_IPADDR => readIPADDR W R
  | T_DOUBLE => Prog.throw (.fault .double)
  | T_STRING => Prod.fst <$> R.get .string
  | T_XML => Prod.fst <$> R.get .cdata
  | T_UUID => Prod.fst <$> R.get .string
  | T_STRUCT => do
      let (ret, _) ← readStructBegin R
      let result ← skipFields W R skip ret
      let ret2 ← readStructEnd R
      pure (result + ret2)
  | T_SANDESH => do
      let (ret, _) ← readSandeshBegin R
      let result ← skipFields W R skip ret
      let ret2 ← readSandeshEnd R
      pure (result + ret2)
  | T_MAP => do
      let (ret, keyType, valType, size) ← readMapBegin W R
      let entry : Read Int := do
        let ret ← skip keyType
        let ret2 ← skip valType
        pure (ret + ret2)
      let result ← skipElems entry size.toNat ret
      let ret2 ← readContainerEnd R
      pure (result + ret2)
  | T_SET => do
      let (ret, elemType, size) ← readSetBegin W R
      let result ← skipElems (skip elemType) size.toNat ret
      let ret2 ← readContainerEnd R
      pure (result + ret2)
  | T_LIST => do
      let (ret, elemType, size) ← readListBegin W R
      let result ← skipElems (skip elemType) size.toNat ret
      let ret2 ← readContainerEnd R
      pure (result + ret2)
  | T_STOP => pure 0
  | T_VOID => pure 0
  | T_UTF8 => pure 0
  | T_UTF16 => pure 0

open Prog

theorem skipFields_le {n : Nat} {g h : TType → Read Int}
    (hgh : ∀ t, Le n (g t) (h t)) (result : Int) :
    Le n (skipFields W R g result) (skipFields W R h result) := by
  refine le_loop (fun t => le_bind (le_refl _) fun x => ?_) _
  exact le_ite (le_refl _) (le_bind (hgh _) fun _ => le_refl _)

theorem skipElems_le {n : Nat} {x y : Read Int} (hxy : Le n x y) :
    ∀ (k : Nat) (result : Int),
      Le n (skipElems x k result) (skipElems y k result) := by
  intro k
  induction k with
  | zero =>
      intro result
      exact le_refl _
  | succ k ih =>
      intro result
      exact le_bind hxy fun ret => ih (result + ret)

/-- `skip` may be defined by its body. -/
theorem skipBody_monotone : Monotone (skipBody W R) := by
  intro n g h hgh t
  cases t with
  | T_STRUCT =>
      exact le_bind (le_refl _) fun _ =>
        le_bind (skipFields_le W R hgh _) fun _ => le_refl _
  | T_SANDESH =>
      exact le_bind (le_refl _) fun _ =>
        le_bind (skipFields_le W R hgh _) fun _ => le_refl _
  | T_MAP =>
      refine le_bind (le_refl _) fun _ => ?_
      refine le_bind (skipElems_le ?_ _ _) fun _ => le_refl _
      exact le_bind (hgh _) fun _ => le_bind (hgh _) fun _ => le_refl _
  | T_SET =>
      exact le_bind (le_refl _) fun _ =>
        le_bind (skipElems_le (hgh _) _ _) fun _ => le_refl _
  | T_LIST =>
      exact le_bind (le_refl _) fun _ =>
        le_bind (skipElems_le (hgh _) _ _) fun _ => le_refl _
  | _ => exact le_refl _

/-- `skip`: what is read of a value of the type, in bytes. -/
def skip : TType → Read Int := fix (skipBody W R) (skipBody_monotone W R)

end Sandesh.Xml
