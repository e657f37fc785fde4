/-
Definitions of structures and sandeshs, and what the C generator makes of
their types and names (compiler/generate/t_c_generator.cc).

A type is a tree: a structure has to be defined before it is used. The C
compiler takes the generated code (`Def.Compiles`) if every expression has
the type its use asks for, and every function that is called is defined,
once. Fields are of default requiredness and there is no C namespace; the
fields the IDL compiler adds itself are ignored by the generator.
-/
import Sandesh.Binary.C

namespace Sandesh.CGen

open Lib Binary Binary.C

/-- An identifier of the IDL. -/
structure Ident where
  text : Bytes
  nonempty : text ≠ []
  noNul : nul ∉ text
  deriving DecidableEq

/-- The base types; double is not supported. -/
inductive Base
  | bool
  | byte
  | i16
  | i32
  | i64
  | u16
  | u32
  | u64
  | ipv4
  | ipaddr
  | string
  | xml
  | uuid
  deriving DecidableEq

mutual

/-- The types for which the C generator has code. -/
inductive Ty
  | base (b : Base)
  | enum (name : Ident)
  | struct (name : Ident) (fs : Fields)
  | list (elem : Ty)

/-- The fields of a definition: key and type. -/
inductive Fields
  | nil
  | cons (key : Int) (type : Ty) (rest : Fields)

end

/-- `type_to_enum` of a base type. -/
def Base.type : Base → TType
  | bool => .T_BOOL
  | byte => .T_BYTE
  | i16 => .T_I16
  | i32 => .T_I32
  | i64 => .T_I64
  | u16 => .T_U16
  | u32 => .T_U32
  | u64 => .T_U64
  | ipv4 => .T_IPV4
  | ipaddr => .T_IPADDR
  | string => .T_STRING
  | xml => .T_XML
  | uuid => .T_UUID

/-- The type on the wire. -/
def Ty.type_to_enum : Ty → TType
  | base b => b.type
  | enum _ => .T_I32
  | struct _ _ => .T_STRUCT
  | list _ => .T_LIST

/-- The ids. -/
def Fields.keys : Fields → List Int
  | nil => []
  | cons key _ fs => key :: fs.keys

mutual

/-- The IDL compiler refuses a key that is used twice. -/
def Ty.Distinct : Ty → Prop
  | .base _ | .enum _ => True
  | .struct _ fs => fs.Distinct
  | .list e => e.Distinct

/-- No id is there twice, here and below. -/
def Fields.Distinct : Fields → Prop
  | .nil => True
  | .cons key t fs => key ∉ fs.keys ∧ t.Distinct ∧ fs.Distinct

end

/-- A definition, of a structure or of a sandesh. -/
structure Def where
  sandesh : Bool
  name : Ident
  fields : Fields
  distinct : fields.Distinct

-- =============================================================== values

/-- A value of a base type. -/
def Base.Val (b : Base) : Type := { v : Scalar // v.type = b.type }

mutual

/-- The values of a type as the generated C code holds them; a pointer to a
structure points to one. -/
def Ty.Val : Ty → Type
  | .base b => b.Val
  | .enum _ => BitVec 32
  | .struct _ fs => fs.Rec
  | .list e => List e.Val

/-- A value for each field. -/
def Fields.Rec : Fields → Type
  | .nil => Unit
  | .cons _ t fs => t.Val × fs.Rec

end

-- ======================================================== names and types

/-- For ASCII letters. -/
def tolower (c : UInt8) : UInt8 := if 65 ≤ c ∧ c ≤ 90 then c + 32 else c

/-- Small letters, each capital but the first with an underscore in front.
-/
def initial_caps_to_underscores : Bytes → Bytes
  | [] => [nul]
  | c :: cs => tolower c ::
      cs.flatMap fun c => if tolower c ≠ c then [95, tolower c] else [c]

/-- The name of a definition's functions, less what they do. -/
def Ident.name_u (name : Ident) : Bytes := initial_caps_to_underscores name.text

/-- Types of C. A base type stands for its `base_type_name`. -/
inductive CType
  | base (b : Base)
  | named (name : Ident)
  | pointer (t : CType)
  deriving DecidableEq

/-- Not `S *` nor `E`, but what `type_name` makes of an element that is no
base type, is the type of a list. -/
def Ty.type_name : Ty → CType
  | base b => .base b
  | enum name => .named name
  | struct name _ => .pointer (.named name)
  | list (base b) => .pointer (.base b)
  | list e => e.type_name

/-- An expression of this C type can stand where the code that is generated
for the type uses it: a structure is passed to a function that takes a
pointer, and a list is subscripted. -/
def Ty.accepts : Ty → CType → Bool
  | base b, c => c = .base b
  | enum name, c => c = .named name
  | struct name _, c => c = .pointer (.named name)
  | list e, .pointer c => e.accepts c
  | list _, _ => false

mutual

/-- The functions that are called for values of the type are the ones that
are defined: the call is made by the name of the structure as it is. -/
def Ty.resolves : Ty → Bool
  | .base _ | .enum _ => true
  | .struct name fs => name.text = name.name_u && fs.compiles
  | .list e => e.resolves

/-- Every field of a structure is taken by the C compiler. -/
def Fields.compiles : Fields → Bool
  | .nil => true
  | .cons _ t fs => t.accepts t.type_name && t.resolves && fs.compiles

end

mutual

/-- The structures that are used, as definitions of the program. -/
def Ty.defs : (t : Ty) → t.Distinct → List Def
  | .base _, _ | .enum _, _ => []
  | .struct name fs, h => ⟨false, name, fs, h⟩ :: fs.defs h
  | .list e, h => e.defs h

/-- The definitions that the fields need. -/
def Fields.defs : (fs : Fields) → fs.Distinct → List Def
  | .nil, _ => []
  | .cons _ t fs, h => t.defs h.2.1 ++ fs.defs h.2.2

end

/-- A definition and the structures it uses. -/
def Def.defs (d : Def) : List Def := d :: d.fields.defs d.distinct

/-- No two definitions have functions of one name. -/
def Apart (ds : List Def) : Prop :=
  ∀ d ∈ ds, ∀ d' ∈ ds, d.name.name_u = d'.name.name_u → d = d'

/-- The C compiler and linker take the code that is generated. -/
def Compiles (ds : List Def) : Prop :=
  Apart (ds.flatMap Def.defs) ∧ ∀ d ∈ ds, d.fields.compiles = true

end Sandesh.CGen
