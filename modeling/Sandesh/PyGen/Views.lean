/-
Objects in Python and values in C++.

A Python writer leaves out what is `None` and takes the fields of a class in
the order of their ids. In this it is a writer of another version of the
IDL, one in which every field is optional (`written`), and what is said of
versions holds of it. `value` is the value that writer has, and `toCpp` the
one that the reader in C++ should have in the end: a number is cut to its
size, a set or a dictionary is put together in the order of C++.
-/
import Sandesh.CppGen.Versions
import Sandesh.PyGen.Basic

namespace Sandesh.CppGen

open Lib Xml

variable {F : Foreign}

-- ==================================================== fields by their ids

/-- `g` comes behind or in front, as `first` says. -/
def Fields.place (first : Bool) (f : Field) (t : Ty) (g : Field) (u : Ty) (gs rest : Fields) :
    Fields :=
  match first with
  | true => .cons f t (.cons g u gs)
  | false => .cons g u rest

/-- One more field, where its id belongs. -/
def Fields.insert (f : Field) (t : Ty) : Fields → Fields
  | .nil => .cons f t .nil
  | .cons g u gs => .place (decide (f.key ≤ g.key)) f t g u gs (gs.insert f t)

/-- A value among those of the fields, where the field goes. -/
def Fields.placeRec {f : Field} {t : Ty} {g : Field} {u : Ty} {gs rest : Fields} :
    (first : Bool) → f.req.Slot (t.Val F) → g.req.Slot (u.Val F) → gs.Rec F → rest.Rec F →
    (Fields.place first f t g u gs rest).Rec F
  | true, v, w, x, _ => (v, w, x)
  | false, _, w, _, x => (w, x)

/-- And its value. -/
def Fields.insertRec (f : Field) {t : Ty} (v : f.req.Slot (t.Val F)) : (gs : Fields) →
    gs.Rec F → (gs.insert f t).Rec F
  | .nil, _ => (v, ())
  | .cons g _ gs, x => placeRec (decide (f.key ≤ g.key)) v x.1 x.2 (gs.insertRec f v x.2)

end Sandesh.CppGen

namespace Sandesh.PyGen

open Lib Xml CppGen

-- ====================================================== what is written

section Written

variable (order : List (Bytes × Bytes) → List (Bytes × Bytes))

/-- A field as Python writes it: one that is `None` is left out, required or
not. -/
def writtenField (f : Field) : Field :=
  { f with
    req := .optional
    annotations := order f.annotations }

mutual

/-- The IDL of which Python's writer is a writer. -/
def written : Ty → Ty
  | .base b => .base b
  | .enum => .enum
  | .typedef t => .typedef (written t)
  | .struct name fs => .struct name (writtenFields fs)
  | .list e => .list (written e)
  | .set e => .set (written e)
  | .map k v => .map (written k) (written v)

/-- The fields by id. -/
def writtenFields : Fields → Fields
  | .nil => .nil
  | .cons f t fs => (writtenFields fs).insert (writtenField order f) (written t)

end

end Written

-- =============================================================== values

/-- The addresses, uuids and doubles of boost for the objects of Python. -/
structure Conversion (L : Libs) (F : Foreign) where
  address : L.Object → F.Address
  uuid : L.Object → F.Uuid
  double : L.Object → F.Double

section Values

variable {L : Libs} {F : Foreign} (A : Conversion L F)
  (order : List (Bytes × Bytes) → List (Bytes × Bytes))
  (less : (t : Ty) → t.Val F → t.Val F → Bool)

/-- The value that a C++ reader has for an object of a base type: numbers
are cut to their width. -/
def baseValue : (b : Base) → BaseObj L b → b.Val F
  | .bool, v | .string, v | .xml, v => v
  | .byte, v => BitVec.ofInt 8 v
  | .i16, v | .u16, v => BitVec.ofInt 16 v
  | .i32, v | .u32, v | .ipv4, v => BitVec.ofInt 32 v
  | .i64, v | .u64, v => BitVec.ofInt 64 v
  | .ipaddr, v => A.address v
  | .double, v => A.double v
  | .uuid, v => A.uuid v

mutual

/-- The same for any type. -/
def value : (t : Ty) → Obj L t → (written order t).Val F
  | .base b, v => baseValue A b v
  | .enum, v => BitVec.ofInt 32 v
  | .typedef t, v => value t v
  | .struct _ fs, self => attrsValue fs self
  | .list e, vs => List.map (fun v : Obj L e => value e v) vs
  | .set e, vs => List.map (fun v : Obj L e => value e v) vs
  | .map k v, es => List.map (fun e : Obj L k × Obj L v => (value k e.1, value v e.2)) es

/-- The same for the attributes of a structure, in the order in which they
are written. -/
def attrsValue : (fs : Fields) → Attrs L fs → (writtenFields order fs).Rec F
  | .nil, _ => ()
  | .cons f t fs, self => Fields.insertRec (writtenField order f)
      (Option.map (fun v : Obj L t => value t v) self.1) (writtenFields order fs)
      (attrsValue fs self.2)

end

mutual

/-- What the reader in C++ makes of an object. -/
def toCpp : (t : Ty) → Obj L t → t.Val F
  | .base b, v => baseValue A b v
  | .enum, v => BitVec.ofInt 32 v
  | .typedef t, v => toCpp t v
  | .struct _ fs, self => attrsCpp fs self
  | .list e, vs => List.map (fun v : Obj L e => toCpp e v) vs
  | .set e, vs =>
      List.foldl (fun s (v : Obj L e) => Sorted.insert (less e) (toCpp e v) s) [] vs
  | .map k v, es =>
      List.foldl (fun m (e : Obj L k × Obj L v) =>
        Sorted.assign (less k) (toCpp k e.1) (toCpp v e.2) m) [] es

/-- An attribute that is `None` is as in a new variable. -/
def attrsCpp : (fs : Fields) → Attrs L fs → fs.Rec F
  | .nil, _ => ()
  | .cons f t fs, self =>
      ((match self.1 with
        | some v => f.req.put (toCpp t v)
        | none => f.req.unset (t.zero F)), attrsCpp fs self.2)

end

mutual

/-- All attributes that are required are there. -/
def Complete : (t : Ty) → Obj L t → Prop
  | .base _, _ | .enum, _ => True
  | .typedef t, v => Complete t v
  | .struct _ fs, self => CompleteAttrs fs self
  | .list e, vs => Every (fun v : Obj L e => Complete e v) vs
  | .set e, vs => Every (fun v : Obj L e => Complete e v) vs
  | .map k v, es => Every (fun e : Obj L k × Obj L v => Complete k e.1 ∧ Complete v e.2) es

/-- No attribute of a required field is `None`. -/
def CompleteAttrs : (fs : Fields) → Attrs L fs → Prop
  | .nil, _ => True
  | .cons f t fs, self => (f.req = .required → self.1.isSome = true)
      ∧ (∀ v : Obj L t, self.1 = some v → Complete t v) ∧ CompleteAttrs fs self.2

end

-- ============================================================ conditions

/-- Nothing in a string looks escaped. -/
def StringFine (s : Bytes) : Prop := nul ∉ s ∧ ¬ HasEntity s

/-- An object is printed as its counterpart in C++, which reads it. -/
def BaseFine : (b : Base) → BaseObj L b → Prop
  | .string, v => StringFine v
  | .xml, v => ¬ kXMLCDATAC <:+: v
  | .ipaddr, v => F.address_to_string (A.address v) = L.str v
      ∧ F.address_from_string (L.str v) = some (A.address v)
  | .uuid, v => F.uuid_to_string (A.uuid v) = L.str v
      ∧ F.uuid_from_string (L.str v) = some (A.uuid v)
  | .double, _ => False
  | .bool, _ | .byte, _ | .i16, _ | .i32, _ | .i64, _ | .u16, _ | .u32, _ | .u64, _
  | .ipv4, _ => True

mutual

/-- Sizes fit in a `uint32_t`, elements are told apart, and a field that
needs the name of a table has one. -/
def Fine : (t : Ty) → Obj L t → Prop
  | .base b, v => BaseFine A b v
  | .enum, _ => True
  | .typedef t, v => Fine t v
  | .struct _ fs, self => FineAttrs fs self
  | .list e, vs => List.length vs < 2 ^ 32
      ∧ (e.undelimited = false ∨ List.length vs ≤ 1) ∧ Every (fun v : Obj L e => Fine e v) vs
  | .set e, vs => List.length vs < 2 ^ 32
      ∧ (e.undelimited = false ∨ List.length vs ≤ 1) ∧ Every (fun v : Obj L e => Fine e v) vs
  | .map k v, es => List.length es < 2 ^ 32
      ∧ ((k.undelimited = false ∨ v.undelimited = false) ∨ es = [])
      ∧ Every (fun e : Obj L k × Obj L v => Fine k e.1 ∧ Fine v e.2) es

/-- Every attribute that is there is fine. -/
def FineAttrs : (fs : Fields) → Attrs L fs → Prop
  | .nil, _ => True
  | .cons f t fs, self =>
      (∀ v : Obj L t, self.1 = some v → untabled f = false ∧ Fine t v) ∧ FineAttrs fs self.2

end

mutual

/-- No two keys of a dictionary are the same to C++. -/
def Distinct : (t : Ty) → Obj L t → Prop
  | .base _, _ | .enum, _ => True
  | .typedef t, v => Distinct t v
  | .struct _ fs, self => DistinctAttrs fs self
  | .list e, vs => Every (fun v : Obj L e => Distinct e v) vs
  | .set e, vs => Every (fun v : Obj L e => Distinct e v) vs
  | .map k v, es => Every (fun e : Obj L k × Obj L v => Distinct k e.1 ∧ Distinct v e.2) es
      ∧ List.Pairwise (fun a b : Obj L k × Obj L v =>
          Sorted.Apart (less k) (toCpp A less k a.1) (toCpp A less k b.1)) es

/-- Sets and maps among the attributes have no two keys that are one to C++.
-/
def DistinctAttrs : (fs : Fields) → Attrs L fs → Prop
  | .nil, _ => True
  | .cons _ t fs, self =>
      (∀ v : Obj L t, self.1 = some v → Distinct t v) ∧ DistinctAttrs fs self.2

end

end Values

-- ============================================================ in Python

/-- And back: the objects for those of boost. -/
structure Parsed (F : Foreign) (L : Libs) where
  address : F.Address → L.Object
  uuid : F.Uuid → L.Object
  double : F.Double → L.Object

section Python

variable {F : Foreign} {L : Libs} (B : Parsed F L)

/-- The object that Python has for a value of a base type. -/
def baseObj : (b : Base) → b.Val F → BaseObj L b
  | .bool, v | .string, v | .xml, v => v
  | .byte, v | .i16, v | .i32, v | .i64, v => BitVec.toInt v
  | .u16, v | .u32, v | .u64, v | .ipv4, v => (BitVec.toNat v : Int)
  | .ipaddr, v => B.address v
  | .double, v => B.double v
  | .uuid, v => B.uuid v

/-- An object of each type. -/
def blank : (t : Ty) → Obj L t
  | .base b => baseObj B b (b.zero F)
  | .enum => (0 : Int)
  | .typedef t => blank t
  | .struct _ fs => init L fs
  | .list _ | .set _ | .map _ _ => []

/-- The attributes that are offered. -/
def gather : (gs : Fields) → Offer (Obj L) → Attrs L gs
  | .nil, _ => ()
  | .cons g u gs, o => (o g.key u, gather gs o)

mutual

/-- What a reader in Python for the second type makes of a value of the
first. -/
def fromCpp : (t u : Ty) → t.Val F → Obj L u
  | .base b, .base b', v => baseObj B b' (if h : b = b' then h ▸ v else b'.zero F)
  | .enum, .enum, v => BitVec.toInt v
  | .typedef t, .typedef u, v => fromCpp t u v
  | .struct _ fs, .struct _ gs, x => gather gs (given fs x)
  | .list e, .list e', vs => List.map (fromCpp e e') vs
  | .set e, .set e', vs => List.foldl (fun s v => added L e' s (fromCpp e e' v)) [] vs
  | .map k v, .map k' v', es =>
      List.foldl (fun m e => assigned L k' m (fromCpp k k' e.1, fromCpp v v' e.2)) [] es
  | _, u, _ => blank B u

/-- The fields of a struct that are written. -/
def given : (fs : Fields) → fs.Rec F → Offer (Obj L)
  | .nil, _, _, _ => none
  | .cons f t fs, x, key, u =>
      if f.key = key then
        if t.type_to_enum = u.type_to_enum then (f.req.get x.1).map (fromCpp t u) else none
      else given fs x.2 key u

end

/-- A base value that the libraries of Python take for its counterpart. -/
def BaseHeard : (b : Base) → b.Val F → Prop
  | .string, v => kcXMLTagO ∉ escapeXMLControlChars v
      ∧ Py.unescape (escapeXMLControlChars v) = v
  | .xml, v => ¬ kXMLCDATAC <:+: v
  | .ipaddr, v => L.IPAddress (F.address_to_string v) = .value (B.address v)
  | .double, v => L.float (F.double_to_string v) = .value (B.double v)
  | .uuid, v => L.UUID (F.uuid_to_string v) = .value (B.uuid v)
  | .bool, _ | .byte, _ | .i16, _ | .i32, _ | .i64, _ | .u16, _ | .u32, _ | .u64, _
  | .ipv4, _ => True

/-- `skip` has a case for the type, and its read is enough. -/
def skipped : Base → Bool
  | .bool | .byte | .i16 | .i32 | .i64 | .double | .string | .xml => true
  | .u16 | .u32 | .u64 | .ipv4 | .ipaddr | .uuid => false

/-- A value of a field that the reader does not know. -/
def Passed : (t : Ty) → t.Val F → Prop
  | .base b, v => skipped b = true ∧ BaseHeard B b v
  | .enum, _ => True
  | .typedef t, v => Passed t v
  | .struct _ _, _ | .list _, _ | .set _, _ | .map _ _, _ => False

mutual

/-- A value that a reader in Python takes: types are the same but for the
fields of structs, and those that it does not know are skipped; what goes
into a set, and a key, is hashed. -/
def Heard : (t u : Ty) → t.Val F → Prop
  | .base b, .base b', v => b' = b ∧ BaseHeard B b v
  | .enum, .enum, _ => True
  | .typedef t, .typedef u, v => Heard t u v
  | .struct _ fs, .struct _ gs, x => HeardFields fs gs x
  | .list e, .list e', vs => List.length vs < 2 ^ 32
      ∧ (e.undelimited = false ∨ List.length vs ≤ 1) ∧ Every (Heard e e') vs
  | .set e, .set e', vs => List.length vs < 2 ^ 32
      ∧ (e.undelimited = false ∨ List.length vs ≤ 1) ∧ (e'.trueBaseOrEnum = true ∨ vs = [])
      ∧ Every (Heard e e') vs
  | .map k v, .map k' v', es => List.length es < 2 ^ 32
      ∧ ((k.undelimited = false ∨ v.undelimited = false) ∨ es = [])
      ∧ (k'.trueBaseOrEnum = true ∨ es = [])
      ∧ Every (fun e => Heard k k' e.1 ∧ Heard v v' e.2) es
  | _, _, _ => False

/-- Every field that is there can be heard. -/
def HeardFields : (fs : Fields) → Fields → fs.Rec F → Prop
  | .nil, _, _ => True
  | .cons f t fs, gs, x => (∀ v, f.req.get x.1 = some v →
      (gs.known f.key t.type_to_enum = none → Passed B t v)
      ∧ ∀ u, gs.known f.key t.type_to_enum = some u → Heard t u v) ∧ HeardFields fs gs x.2

end

-- =================================================== there and back again

variable (A : Conversion L F)

/-- An object that is the same when it has been printed and parsed. -/
def BaseKept : (b : Base) → BaseObj L b → Prop
  | .byte, (i : Int) => -2 ^ 7 ≤ i ∧ i < 2 ^ 7
  | .i16, (i : Int) => -2 ^ 15 ≤ i ∧ i < 2 ^ 15
  | .i32, (i : Int) => -2 ^ 31 ≤ i ∧ i < 2 ^ 31
  | .i64, (i : Int) => -2 ^ 63 ≤ i ∧ i < 2 ^ 63
  | .u16, (i : Int) => 0 ≤ i ∧ i < 2 ^ 16
  | .u32, (i : Int) | .ipv4, (i : Int) => 0 ≤ i ∧ i < 2 ^ 32
  | .u64, (i : Int) => 0 ≤ i ∧ i < 2 ^ 64
  | .ipaddr, v => L.IPAddress (L.str v) = .value v ∧ B.address (A.address v) = v
  | .uuid, v => L.UUID (L.str v) = .value v ∧ B.uuid (A.uuid v) = v
  | .bool, _ | .double, _ | .string, _ | .xml, _ => True

mutual

/-- Numbers are in their ranges, and sets and keys are of hashable objects,
no two of them equal. -/
def Kept : (t : Ty) → Obj L t → Prop
  | .base b, v => BaseKept B A b v
  | .enum, (i : Int) => -2 ^ 31 ≤ i ∧ i < 2 ^ 31
  | .typedef t, v => Kept t v
  | .struct _ fs, self => KeptAttrs fs self
  | .list e, vs => Every (fun v : Obj L e => Kept e v) vs
  | .set e, vs => (e.trueBaseOrEnum = true ∨ vs = []) ∧ Every (fun v : Obj L e => Kept e v) vs
      ∧ List.Pairwise (fun a b : Obj L e => same L e b a = false) vs
  | .map k v, es => (k.trueBaseOrEnum = true ∨ es = [])
      ∧ Every (fun e : Obj L k × Obj L v => Kept k e.1 ∧ Kept v e.2) es
      ∧ List.Pairwise (fun a b : Obj L k × Obj L v => same L k b.1 a.1 = false) es

/-- Every attribute comes back as it is. -/
def KeptAttrs : (fs : Fields) → Attrs L fs → Prop
  | .nil, _ => True
  | .cons _ t fs, self =>
      (∀ v : Obj L t, self.1 = some v → Kept t v) ∧ KeptAttrs fs self.2

end

end Python

end Sandesh.PyGen
