/-
The types of the IDL (compiler/parse), and the names that the C generator
has for them (compiler/generate/t_c_generator.cc).

Only what the generator looks at is kept of a type: of a structure, its
name. A type that the parser builds is always one of these, so the
branches for a type that nobody knows are not reached. The name that
`cpp_type` gives a container is the name of a type, a text without braces.
-/
import Sandesh.CText.Emit

namespace Sandesh.CText

open Lib

/-- `t_base_type::t_base`. -/
inductive Base
  | TYPE_VOID | TYPE_STRING | TYPE_STATIC_CONST_STRING | TYPE_SANDESH_SYSTEM
  | TYPE_SANDESH_REQUEST | TYPE_SANDESH_RESPONSE | TYPE_SANDESH_TRACE
  | TYPE_SANDESH_TRACE_OBJECT | TYPE_SANDESH_BUFFER | TYPE_SANDESH_UVE
  | TYPE_SANDESH_DYNAMIC_UVE | TYPE_SANDESH_ALARM | TYPE_SANDESH_OBJECT
  | TYPE_SANDESH_FLOW | TYPE_SANDESH_SESSION | TYPE_BOOL | TYPE_BYTE | TYPE_I16
  | TYPE_I32 | TYPE_I64 | TYPE_U16 | TYPE_U32 | TYPE_U64 | TYPE_XML | TYPE_IPV4
  | TYPE_UUID | TYPE_IPADDR | TYPE_DOUBLE
deriving DecidableEq

/-- A `t_type`. -/
inductive Ty
  /-- `binary` is looked at for a string only -/
  | base (b : Base) (binary : Bool)
  | typedef (symbolic : Word) (type : Ty)
  | enum (name : Word)
  | struct (name : Word)
  | xception (name : Word)
  | map (cpp_name : Option Word) (key val : Ty)
  | set (cpp_name : Option Word) (elem : Ty)
  | list (cpp_name : Option Word) (elem : Ty)

/-- `t_field::e_req`. -/
inductive Req
  | T_REQUIRED | T_OPTIONAL | T_OPT_IN_REQ_OUT
deriving DecidableEq

/-- A `t_field`, as far as the generator looks at it. -/
structure Field where
  type : Ty
  name : Word
  key : Int
  req : Req
  auto_generated : Bool

/-- `namespace` of the program, for types and for functions. -/
structure Namespace where
  nspace : Word
  nspace_lc : Word

/-- The names of the base types. -/
def t_base_name : Base → Bytes
  | .TYPE_VOID => lit "void"
  | .TYPE_STRING => lit "string"
  | .TYPE_BOOL => lit "bool"
  | .TYPE_BYTE => lit "byte"
  | .TYPE_I16 => lit "i16"
  | .TYPE_I32 => lit "i32"
  | .TYPE_I64 => lit "i64"
  | .TYPE_DOUBLE => lit "double"
  | .TYPE_U16 => lit "u16"
  | .TYPE_U32 => lit "u32"
  | .TYPE_U64 => lit "u64"
  | .TYPE_IPV4 => lit "ipv4"
  | .TYPE_IPADDR => lit "ipaddr"
  | .TYPE_XML => lit "xml"
  | .TYPE_UUID => lit "uuid_t"
  | .TYPE_STATIC_CONST_STRING => lit "static const string"
  | .TYPE_SANDESH_SYSTEM => lit "system"
  | .TYPE_SANDESH_REQUEST => lit "request"
  | .TYPE_SANDESH_RESPONSE => lit "response"
  | .TYPE_SANDESH_TRACE => lit "trace"
  | .TYPE_SANDESH_TRACE_OBJECT => lit "traceobject"
  | .TYPE_SANDESH_BUFFER => lit "buffer"
  | .TYPE_SANDESH_UVE => lit "uve"
  | .TYPE_SANDESH_DYNAMIC_UVE => lit "dynamicuve"
  | .TYPE_SANDESH_ALARM => lit "alarm"
  | .TYPE_SANDESH_OBJECT => lit "object"
  | .TYPE_SANDESH_FLOW => lit "flow"
  | .TYPE_SANDESH_SESSION => lit "session"

/-- A typedef is the type that it names. -/
def get_true_type : Ty → Ty
  | .typedef _ t => get_true_type t
  | t => t

/-- `t_type::get_name`; a container has none. -/
def Ty.get_name : Ty → Bytes
  | .base b _ => t_base_name b
  | .typedef symbolic _ => symbolic.text
  | .enum name | .struct name | .xception name => name.text
  | .map _ _ _ | .set _ _ | .list _ _ => []

/-- The constant of the type in the emitted code. -/
def type_to_enum (type : Ty) : Except Bytes Word :=
  match get_true_type type with
  | .base .TYPE_VOID _ => .error (lit "NO T_VOID CONSTRUCT")
  | .base .TYPE_STRING _ | .base .TYPE_STATIC_CONST_STRING _
  | .base .TYPE_SANDESH_SYSTEM _ | .base .TYPE_SANDESH_REQUEST _
  | .base .TYPE_SANDESH_RESPONSE _ | .base .TYPE_SANDESH_TRACE _
  | .base .TYPE_SANDESH_TRACE_OBJECT _ | .base .TYPE_SANDESH_BUFFER _
  | .base .TYPE_SANDESH_UVE _ | .base .TYPE_SANDESH_OBJECT _
  | .base .TYPE_SANDESH_FLOW _ => .ok (w "T_STRING")
  | .base .TYPE_BOOL _ => .ok (w "T_BOOL")
  | .base .TYPE_BYTE _ => .ok (w "T_BYTE")
  | .base .TYPE_I16 _ => .ok (w "T_I16")
  | .base .TYPE_I32 _ => .ok (w "T_I32")
  | .base .TYPE_I64 _ => .ok (w "T_I64")
  | .base .TYPE_U16 _ => .ok (w "T_U16")
  | .base .TYPE_U32 _ => .ok (w "T_U32")
  | .base .TYPE_U64 _ => .ok (w "T_U64")
  | .base .TYPE_XML _ => .ok (w "T_XML")
  | .base .TYPE_DOUBLE _ => .ok (w "T_DOUBLE")
  | .base .TYPE_IPV4 _ => .ok (w "T_IPV4")
  | .base .TYPE_IPADDR _ => .ok (w "T_IPADDR")
  | .base .TYPE_UUID _ => .ok (w "T_UUID")
  | .enum _ => .ok (w "T_I32")
  | .struct _ | .xception _ => .ok (w "T_STRUCT")
  | .map _ _ _ => .ok (w "T_MAP")
  | .set _ _ => .ok (w "T_SET")
  | .list _ _ => .ok (w "T_LIST")
  -- no case of the `switch`
  | t => .error (lit "INVALID TYPE IN type_to_enum: " ++ t.get_name)

/-- The C type of a base type. -/
def base_type_name : Base → Bool → Except Bytes Word
  | .TYPE_VOID, _ => .ok (w "void")
  | .TYPE_STRING, binary => .ok (if binary then w "u_int8_t *" else w "char *")
  | .TYPE_XML, _ => .ok (w "char *")
  | .TYPE_BOOL, _ => .ok (w "u_int8_t")
  | .TYPE_BYTE, _ => .ok (w "int8_t")
  | .TYPE_I16, _ => .ok (w "int16_t")
  | .TYPE_I32, _ => .ok (w "int32_t")
  | .TYPE_I64, _ => .ok (w "int64_t")
  | .TYPE_U16, _ => .ok (w "uint16_t")
  | .TYPE_U32, _ => .ok (w "uint32_t")
  | .TYPE_U64, _ => .ok (w "uint64_t")
  | .TYPE_DOUBLE, _ => .ok (w "double")
  | .TYPE_IPV4, _ => .ok (w "uint32_t")
  | .TYPE_IPADDR, _ => .ok (w "ipaddr_t")
  | .TYPE_UUID, _ => .ok (w "uuid_t")
  | b, _ => .error (lit "compiler error: no C base type name for base type " ++ t_base_name b)

/-- Containers and structures. -/
def is_complex_type (type : Ty) : Bool :=
  match get_true_type type with
  | .map _ _ _ | .set _ _ | .list _ _ | .struct _ | .xception _ => true
  | .base .TYPE_STRING _ | .base .TYPE_XML _ => true
  | _ => false

/-- A name of the program, with its namespace. -/
def pname (ns : Namespace) (name : Word) (type : Ty) : Word :=
  if is_complex_type type then ns.nspace ++ name ++ w " *" else ns.nspace ++ name

/-- `type_name (ttype, false, false)`. A typedef is neither a base type nor
a container here. -/
def type_name (ns : Namespace) : Ty → Except Bytes Word
  | .base b binary => base_type_name b binary
  | .map (some cpp_name) _ _ | .set (some cpp_name) _ | .list (some cpp_name) _ =>
      .ok cpp_name
  | .map none _ _ => .error (lit "compiler error: no C support for map")
  | .set none _ => .error (lit "compiler error: no C support for set")
  | .list none (.base b binary) => (base_type_name b binary).map (· ++ w " *")
  | .list none elem => type_name ns elem
  | .typedef symbolic t => .ok (pname ns symbolic (.typedef symbolic t))
  | .enum name => .ok (pname ns name (.enum name))
  | .struct name => .ok (pname ns name (.struct name))
  | .xception name => .ok (pname ns name (.xception name))

-- ============================================================ supported

/-- The base types that all of the generated functions are made for. -/
def Base.supported : Base → Bool → Bool
  | .TYPE_STRING, binary => !binary
  | .TYPE_BOOL, _ | .TYPE_BYTE, _ | .TYPE_I16, _ | .TYPE_I32, _ | .TYPE_I64, _
  | .TYPE_U16, _ | .TYPE_U32, _ | .TYPE_U64, _ | .TYPE_XML, _ | .TYPE_IPV4, _
  | .TYPE_UUID, _ | .TYPE_IPADDR, _ | .TYPE_DOUBLE, _ => true
  | _, _ => false

/-- The types that all of the generated functions are made for. -/
def Ty.supported : Ty → Bool
  | .base b binary => b.supported binary
  | .typedef _ t => t.supported
  | .enum _ | .struct _ | .xception _ => true
  | .map _ _ _ | .set _ _ => false
  | .list _ elem => elem.supported

end Sandesh.CText
