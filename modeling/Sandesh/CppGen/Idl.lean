/-
The types of the IDL as the C++ generator sees them (compiler/parse,
compiler/generate/t_cpp_generator.cc), and the values that the generated
code has of them.

A type is a tree: whatever it is made of has to be defined before it. A
typedef is a node of its own. `get_true_type` looks through it, but
`is_base_type` and `is_enum` are what `t_type` says, false.

Fields have no default values here. A field that is optional is `none`
while its `__isset` is false. A set and a map are the lists of what an
iterator meets.
-/
import Sandesh.Xml.Protocol

namespace Sandesh.CppGen

open Lib Xml

-- =============================================================== types

/-- `t_base_type`, without void and the types of a sandesh. -/
inductive Base
  | bool
  | byte
  | i16
  | i32
  | i64
  | u16
  | u32
  | u64
  | ipv4
  | ipaddr
  | double
  | string
  | xml
  | uuid
  deriving DecidableEq

/-- `T_REQUIRED`, `T_OPTIONAL` and `T_OPT_IN_REQ_OUT`. -/
inductive Req
  | required
  | optional
  | optInReqOut
  deriving DecidableEq

/-- A `t_field`, less its type. The annotations are those the writer hands
over: the one called `key` of a field called `name` has the name of the
table for a value. -/
structure Field where
  name : Bytes
  key : Int
  req : Req
  annotations : List (Bytes × Bytes)

mutual

/-- The types that a definition may use. -/
inductive Ty
  | base (b : Base)
  | enum
  | typedef (t : Ty)
  | struct (name : Bytes) (fs : Fields)
  | list (elem : Ty)
  | set (elem : Ty)
  | map (key val : Ty)

/-- The fields of a structure, in the order they are declared in. -/
inductive Fields
  | nil
  | cons (f : Field) (t : Ty) (rest : Fields)

end

/-- The type on the wire. -/
def Base.type_to_enum : Base → TType
  | bool => .T_BOOL
  | byte => .T_BYTE
  | i16 => .T_I16
  | i32 => .T_I32
  | i64 => .T_I64
  | u16 => .T_U16
  | u32 => .T_U32
  | u64 => .T_U64
  | ipv4 => .T_IPV4
  | ipaddr => .T_IPADDR
  | double => .T_DOUBLE
  | string => .T_STRING
  | xml => .T_XML
  | uuid => .T_UUID

/-- That of any type; an enumeration goes as a number. -/
def Ty.type_to_enum : Ty → TType
  | base b => b.type_to_enum
  | enum => .T_I32
  | typedef t => t.type_to_enum
  | struct _ _ => .T_STRUCT
  | list _ => .T_LIST
  | set _ => .T_SET
  | map _ _ => .T_MAP

/-- `type->is_base_type() || type->is_enum()`, of the type as declared. -/
def Ty.isBaseOrEnum : Ty → Bool
  | base _ | enum => true
  | typedef _ | struct _ _ | list _ | set _ | map _ _ => false

/-- The same of the true type. -/
def Ty.trueBaseOrEnum : Ty → Bool
  | base _ | enum => true
  | typedef t => t.trueBaseOrEnum
  | struct _ _ | list _ | set _ | map _ _ => false

/-- The ids. -/
def Fields.keys : Fields → List Int
  | nil => []
  | cons f _ fs => f.key :: fs.keys

-- ============================================================== values

/-- What is used of boost, and the doubles. -/
structure Foreign where
  Address : Type
  Uuid : Type
  Double : Type
  /-- the ones a variable starts with -/
  address : Address
  nil_uuid : Uuid
  zero : Double
  address_to_string : Address → Bytes
  address_from_string : Bytes → Option Address
  uuid_to_string : Uuid → Bytes
  /-- `ss >> uuid` -/
  uuid_from_string : Bytes → Option Uuid
  double_to_string : Double → Bytes

variable (F : Foreign)

/-- The values of a base type. -/
def Base.Val : Base → Type
  | bool => Bool
  | byte => BitVec 8
  | i16 | u16 => BitVec 16
  | i32 | u32 | ipv4 => BitVec 32
  | i64 | u64 => BitVec 64
  | ipaddr => F.Address
  | double => F.Double
  | string | xml => Bytes
  | uuid => F.Uuid

/-- A member of a struct, with its `__isset`. -/
def Req.Slot : Req → Type → Type
  | optional, α => Option α
  | required, α | optInReqOut, α => α

mutual

/-- The values of a type. -/
def Ty.Val : Ty → Type
  | .base b => b.Val F
  | .enum => BitVec 32
  | .typedef t => t.Val
  | .struct _ fs => fs.Rec
  | .list e => List e.Val
  | .set e => List e.Val
  | .map k v => List (k.Val × v.Val)

/-- A structure: a slot for each field. -/
def Fields.Rec : Fields → Type
  | .nil => Unit
  | .cons f t fs => f.req.Slot t.Val × fs.Rec

end

namespace Req

variable {α : Type}

/-- The value, if the field is written. -/
def get : (req : Req) → req.Slot α → Option α
  | optional, v => v
  | required, v | optInReqOut, v => some v

/-- A value has been set. -/
def put : (req : Req) → α → req.Slot α
  | optional, v => some v
  | required, v | optInReqOut, v => v

/-- A member of this value whose `__isset` is false. -/
def unset : (req : Req) → α → req.Slot α
  | optional, _ => none
  | required, v | optInReqOut, v => v

end Req

/-- The value that a constructor gives. -/
def Base.zero : (b : Base) → b.Val F
  | bool => false
  | byte => 0#8
  | i16 | u16 => 0#16
  | i32 | u32 | ipv4 => 0#32
  | i64 | u64 => 0#64
  | ipaddr => F.address
  | double => F.zero
  | string | xml => []
  | uuid => F.nil_uuid

mutual

/-- The value of a member of a class, or of an element of a `vector`. -/
def Ty.zero : (t : Ty) → t.Val F
  | .base b => b.zero F
  | .enum => 0#32
  | .typedef t => t.zero
  | .struct _ fs => fs.zero
  | .list _ | .set _ | .map _ _ => []

/-- A structure as its constructor leaves it. -/
def Fields.zero : (fs : Fields) → fs.Rec F
  | .nil => ()
  | .cons f t fs => (f.req.unset t.zero, fs.zero)

end

/-- The value of a local variable; that of a bool is not initialized. -/
def Base.declared (junk : Bool) : (b : Base) → b.Val F
  | bool => junk
  | b => b.zero F

/-- The value of a variable that is declared and no more. Only a bool may
be left as it is by the read that follows. -/
def Ty.declared (junk : Bool) : (t : Ty) → t.Val F
  | base b => b.declared F junk
  | typedef t => t.declared junk
  | enum => 0#32
  | struct name fs => (Ty.struct name fs).zero F
  | list _ | set _ | map _ _ => []

end Sandesh.CppGen
