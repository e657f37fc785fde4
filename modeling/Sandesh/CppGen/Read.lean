/-
The reading half of `TXMLProtocol` as generated code calls it
(library/cpp/protocol/TXMLProtocol.cpp), as far as `Xml.Protocol` does not
have it: there `readFieldBegin` is without the name, which `skip` does not
look at. And the code that compiler/generate/t_cpp_generator.cc generates
to read a value of any type.

A reader is given the value that the variable has before, since not every
read sets it. `less` is `operator <` of each type: the one of a struct is
for the application to write.
-/
import Sandesh.CppGen.Write
import Sandesh.Lib.Sorted

namespace Sandesh.CppGen

open Lib Xml

variable (W : World) (R : Reads)

/-- `readFieldBegin`, with the values its reference parameters have. -/
def readFieldBegin (name : Bytes) (fieldType : TType) (fieldId : BitVec 16) :
    Read (Int × Bytes × TType × BitVec 16) := do
  -- check if we hit the end of the list
  let ch ← peek2Char
  let ch1 ← peek2Char
  if ch = kcXMLTagO ∧ ch1 = kcXMLSlash then pure (0, name, .T_STOP, fieldId)
  else
    let (ret, name, rest) ← readTagTokens R
    let (fieldType, fieldId) ← lift (readAttrs (fieldAttrs W) rest none (fieldType, fieldId))
    pure (ret, name, fieldType, fieldId)

/-- `readXML`. -/
def readXML : Read (Int × Bytes) := R.get .cdata

/-- An open tag, whatever is in it. -/
def readContainerElementBegin : Read Int := Prod.fst <$> R.get (.tag false)

/-- A closing tag, whatever its name. -/
def readContainerElementEnd : Read Int := Prod.fst <$> R.get (.tag true)

/-- Any other text leaves the value as it is. -/
def readBool (value : Bool) : Read (Int × Bool) := do
  let (ret, str) ← R.get .string
  pure (ret, if str = lit "true" then true else if str = lit "false" then false else value)

variable {F : Foreign}

/-- `readIPADDR`, with the address. -/
def readAddress : Read (Int × F.Address) := do
  let (ret, str) ← R.get .string
  match F.address_from_string str with
  | some a => pure (ret, a)
  | none => fail

def readUUID (value : F.Uuid) : Read (Int × F.Uuid) := do
  let (ret, str) ← R.get .string
  pure (ret, (F.uuid_from_string str).getD value)

-- ==================================================== generated readers

/-- `readBool`, `readByte` and so on. -/
def Base.read : (b : Base) → b.Val F → Read (Int × b.Val F)
  | bool, value => readBool R value
  | byte, _ => readXMLInteger W R 8
  | i16, _ | u16, _ => readXMLInteger W R 16
  | i32, _ | u32, _ | ipv4, _ => readXMLInteger W R 32
  | i64, _ | u64, _ => readXMLInteger W R 64
  | ipaddr, _ => readAddress R
  | double, _ => Prog.throw (.fault .double)
  | string, _ => readString R
  | xml, _ => readXML R
  | uuid, value => readUUID R value

/-- The tags around an element, if its declared type asks for them. -/
def deserializeElement {α : Type} (delimited : Bool) (value : Read (Int × α)) :
    Read (Int × α) :=
  if delimited then do
    let ret ← readContainerElementBegin R
    let (ret2, v) ← value
    let ret3 ← readContainerElementEnd R
    pure (ret + ret2 + ret3, v)
  else value

/-- The loop over the elements of a list; `resize` has made them. -/
def readElems {α : Type} (elem : Read (Int × α)) : Nat → Read (Int × List α)
  | 0 => pure (0, [])
  | n + 1 => do
      let (ret, v) ← elem
      let (ret2, vs) ← readElems elem n
      pure (ret + ret2, v :: vs)

/-- The loop over the entries of a map. `prefix[key]` makes an entry for a
key that is not there. -/
def readEntries {α β : Type} (less : α → α → Bool) (key : Read (Int × α))
    (val : β → Read (Int × β)) (zero : β) : Nat → List (α × β) → Read (Int × List (α × β))
  | 0, m => pure (0, m)
  | n + 1, m => do
      let (ret, k) ← key
      let (ret2, v) ← val ((Sorted.find less k m).getD zero)
      let (ret3, m) ← readEntries less key val zero n (Sorted.assign less k v m)
      pure (ret + ret2 + ret3, m)

/-- The variables of a struct's reader. `isset` has the keys of the fields
that have been read. -/
structure Reading (ρ : Type) where
  xfer : Int
  fname : Bytes
  ftype : TType
  fid : BitVec 16
  isset : List Int
  value : ρ

/-- The ids that `read` must have met. -/
def Fields.required : Fields → List Int
  | nil => []
  | cons f _ fs => if f.req = .required then f.key :: fs.required else fs.required

/-- `while (true)`, around the fields of a struct. -/
def readLoop {ρ : Type} (field : BitVec 16 → TType → ρ → Read (Int × List Int × ρ)) :
    Reading ρ → Read (Reading ρ) :=
  Prog.loop fun t => do
    let (ret, fname, ftype, fid) ← readFieldBegin W R t.fname t.ftype t.fid
    if ftype = .T_STOP then
      pure (.inr { t with xfer := t.xfer + ret, fname := fname, ftype := ftype, fid := fid })
    else
      let (ret2, isset, value) ← field fid ftype t.value
      let ret3 ← readFieldEnd R
      pure (.inl ⟨t.xfer + ret + ret2 + ret3, fname, ftype, fid, isset ++ t.isset, value⟩)

/-- `generate_struct_reader`, but for its `switch`. -/
def readStruct {ρ : Type} (required : List Int)
    (field : BitVec 16 → TType → ρ → Read (Int × List Int × ρ)) (value : ρ) :
    Read (Int × ρ) := do
  let (ret, fname) ← readStructBegin R
  let t ← readLoop W R field ⟨ret, fname, W.junk.ftype, W.junk.fid, [], value⟩
  let ret2 ← readStructEnd R
  if required.all fun key => t.isset.contains key then pure (t.xfer + ret2, t.value)
  else fail

/-- `default: skip(ftype)`. -/
def skipField {ρ : Type} (ftype : TType) (value : ρ) : Read (Int × List Int × ρ) := do
  let ret ← skip W R ftype
  pure (ret, [], value)

section Generated

variable (junk : Bool) (less : (t : Ty) → t.Val F → t.Val F → Bool)

mutual

/-- `generate_deserialize_field`. -/
def Ty.deserialize : (t : Ty) → t.Val F → Read (Int × t.Val F)
  | .base b, v => b.read W R v
  | .enum, _ => readXMLInteger W R 32
  | .typedef t, v => t.deserialize v
  | .struct _ fs, r => readStruct W R fs.required fs.deserialize r
  | .list e, _ => do
      let (ret, _, size) ← readListBegin W R
      let (ret2, vs) ← readElems (deserializeElement R e.isBaseOrEnum
        (e.deserialize (e.zero F))) size.toNat
      let ret3 ← readContainerEnd R
      pure (ret + ret2 + ret3, vs)
  | .set e, _ => do
      let (ret, _, size) ← readSetBegin W R
      let (ret2, vs) ← readElems (deserializeElement R e.isBaseOrEnum
        (e.deserialize (e.declared F junk))) size.toNat
      let ret3 ← readContainerEnd R
      -- each is inserted once it is read; no read looks at the set
      pure (ret + ret2 + ret3, vs.foldl (fun s v => Sorted.insert (less e) v s) [])
  | .map k v, _ => do
      let (ret, _, _, size) ← readMapBegin W R
      let (ret2, es) ← readEntries (less k)
        (deserializeElement R k.isBaseOrEnum (k.deserialize (k.declared F junk)))
        (fun w => deserializeElement R v.isBaseOrEnum (v.deserialize w)) (v.zero F)
        size.toNat []
      let ret3 ← readContainerEnd R
      pure (ret + ret2 + ret3, es)

/-- The `switch` of a struct's reader: the field with this id is read if it
has the type that is expected, and skipped if not. -/
def Fields.deserialize : (fs : Fields) → BitVec 16 → TType → fs.Rec F →
    Read (Int × List Int × fs.Rec F)
  | .nil, _, ftype, r => skipField W R ftype r
  | .cons f t fs, fid, ftype, r =>
      if fid.toInt = f.key then
        if ftype = t.type_to_enum then do
          let (ret, v) ← t.deserialize ((f.req.get r.1).getD (t.zero F))
          pure (ret, [f.key], (f.req.put v, r.2))
        else skipField W R ftype r
      else do
        let (ret, isset, rest) ← fs.deserialize fid ftype r.2
        pure (ret, isset, (r.1, rest))

end

end Generated

end Sandesh.CppGen
