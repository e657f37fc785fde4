/-
The code that is generated for a field of any type
(compiler/generate/t_c_generator.cc, generate_serialize_field and its like).

A field is given by its type, what it is called and the text in front of
that; the text behind it is empty at every call. The functions for a
container and for an element of it are part of the recursion over the
type, which goes through typedefs as `get_true_type` does.
-/
import Sandesh.CText.Buffer

namespace Sandesh.CText

open Lib

/-- The result of a function of the generator that writes nothing. -/
def lift {α : Type} (x : Except Bytes α) : Gen α := StateT.lift x

-- ============================================================ to a stream

/-- `if ((ret = thrift_protocol_write_`, and what follows for each type. -/
def writeCall (b : Base) (binary : Bool) (name : Word) : Except Bytes (List Tok) :=
  match b with
  | .TYPE_VOID =>
      .error (lit "compiler error: cannot serialize void field in a struct: " ++ name.text)
  | .TYPE_BOOL => .ok [w "bool (protocol, ", name]
  | .TYPE_BYTE => .ok [w "byte (protocol, ", name]
  | .TYPE_I16 => .ok [w "i16 (protocol, ", name]
  | .TYPE_I32 => .ok [w "i32 (protocol, ", name]
  | .TYPE_I64 => .ok [w "i64 (protocol, ", name]
  | .TYPE_U16 => .ok [w "u16 (protocol, ", name]
  | .TYPE_U32 => .ok [w "u32 (protocol, ", name]
  | .TYPE_U64 => .ok [w "u64 (protocol, ", name]
  | .TYPE_DOUBLE => .ok [w "double (protocol, ", name]
  | .TYPE_IPV4 => .ok [w "ipv4 (protocol, ", name]
  | .TYPE_IPADDR => .ok [w "ipaddr (protocol, &", name]
  | .TYPE_STRING =>
      if binary then
        .error (lit "CANNOT GENERATE SERIALIZE CODE FOR binary TYPE: " ++ name.text)
      else .ok [w "string (protocol, ", name]
  | .TYPE_XML => .ok [w "xml (protocol, ", name]
  | .TYPE_UUID => .ok [w "uuid_t (protocol, ", name]
  | b => .error (lit "compiler error: no C writer for base type " ++ t_base_name b ++ name.text)

/-- The call of `thrift_protocol_write_` for a base type or an enum. -/
def writeLine (call : List Tok) (error_ret : Int) : Gen Unit := do
  indent
  out [w "if ((ret = thrift_protocol_write_"]
  out call
  out [w ", error)) < 0)"]
  endl
  line [w "  return ", num error_ret, w ";"]

/-- A structure is written by its own function. -/
def generate_serialize_struct (struct_name target : Word) (error_ret : Int) : Gen Unit := do
  line [w "if ((ret = ", struct_name, w "_write (", target, w " , protocol, error)) < 0)"]
  line [w "  return ", num error_ret, w ";"]
  endl

/-- A field through the protocol, by its type. -/
def generate_serialize_field : Ty → Word → Int → Gen Unit
  | .typedef _ t, name, error_ret => generate_serialize_field t name error_ret
  | .base .TYPE_VOID _, name, _ =>
      throw (lit "CANNOT GENERATE SERIALIZE CODE FOR void TYPE: " ++ name.text)
  | .base b binary, name, error_ret => do
      let call ← lift (writeCall b binary name)
      writeLine call error_ret
  | .enum _, name, error_ret => writeLine [w "i32 (protocol, ", name] error_ret
  | .struct sname, name, error_ret => generate_serialize_struct sname name error_ret
  | .xception sname, name, error_ret => generate_serialize_struct sname name error_ret
  | .map _ _ _, _, _ => do
      scope_up
      throw (lit "compiler error: serialize of map not supported in C")
  | .set _ _, _, _ => do
      scope_up
      throw (lit "compiler error: serialize of set not supported in C")
  | .list _ elem, name, error_ret => do
      scope_up
      let length := name ++ w "_size"
      let tenum ← lift (type_to_enum elem)
      line [w "if ((ret = thrift_protocol_write_list_begin (protocol, ", tenum, w ", ", length,
        w ", error)) < 0)"]
      line [w "  return ", num error_ret, w ";"]
      line [w "xfer += ret;"]
      line [w "for (i = 0; i < ", length, w "; i++)"]
      scope_up
      -- generate_serialize_list_element
      generate_serialize_field elem (name ++ w "[i]") error_ret
      line [w "xfer += ret;"]
      scope_down
      line [w "if ((ret = thrift_protocol_write_list_end (protocol, error)) < 0)"]
      line [w "  return ", num error_ret, w ";"]
      scope_down

-- ============================================================ to a buffer

/-- A structure is written into the buffer by its own function. -/
def generate_serialize_struct_to_buffer (struct_name target : Word) (error_ret : Int) :
    Gen Unit := do
  line [w "if ((Xret = ", struct_name, w "_write_binary_to_buffer (", target,
    w ", Xbuf + Xoffset, Xbuflen - Xoffset, Xerror)) < 0)"]
  line [w "  return ", num error_ret, w ";"]
  line [w "Xoffset += Xret;"]

/-- The `switch` over the base types. -/
def serializeBaseToBuffer (b : Base) (binary : Bool) (name : Word) (error_ret : Int) :
    Gen Unit :=
  match b with
  | .TYPE_VOID =>
      throw (lit "compiler error: cannot serialize void field in a struct: " ++ name.text)
  | .TYPE_BOOL => generate_serialize_bool_to_buffer name error_ret
  | .TYPE_BYTE => generate_serialize_byte_to_buffer name error_ret
  | .TYPE_I16 => generate_serialize_i16_to_buffer name error_ret
  | .TYPE_I32 => generate_serialize_i32_to_buffer name error_ret
  | .TYPE_I64 => generate_serialize_i64_to_buffer name error_ret
  | .TYPE_U16 => generate_serialize_u16_to_buffer name error_ret
  | .TYPE_U32 => generate_serialize_u32_to_buffer name error_ret
  | .TYPE_U64 => generate_serialize_u64_to_buffer name error_ret
  | .TYPE_DOUBLE => generate_serialize_double_to_buffer error_ret
  | .TYPE_IPV4 => generate_serialize_i32_to_buffer name error_ret
  | .TYPE_IPADDR => generate_serialize_ipaddr_to_buffer name error_ret
  | .TYPE_STRING =>
      if binary then throw (lit "CANNOT GENERATE SERIALIZE CODE FOR binary TYPE: " ++ name.text)
      else generate_serialize_string_to_buffer name error_ret
  | .TYPE_XML => generate_serialize_xml_to_buffer name error_ret
  | .TYPE_UUID => generate_serialize_uuid_t_to_buffer name error_ret
  | b => throw (lit "compiler error: no C writer for base type " ++ t_base_name b ++ name.text)

/-- The field's own enum is asked for first, though it is not used. -/
def generate_serialize_field_to_buffer : Ty → Word → Int → Gen Unit
  | .typedef _ t, name, error_ret => generate_serialize_field_to_buffer t name error_ret
  | .base b binary, name, error_ret => do
      let _ ← lift (type_to_enum (.base b binary))
      if b = .TYPE_VOID then
        throw (lit "CANNOT GENERATE SERIALIZE CODE FOR void TYPE: " ++ name.text)
      serializeBaseToBuffer b binary name error_ret
  | .enum _, name, error_ret => generate_serialize_i32_to_buffer name error_ret
  | .struct sname, name, error_ret => generate_serialize_struct_to_buffer sname name error_ret
  | .xception sname, name, error_ret => generate_serialize_struct_to_buffer sname name error_ret
  | .map _ _ _, _, _ => do
      scope_up
      throw (lit "compiler error: serialize of map not supported in C")
  | .set _ _, _, _ => do
      scope_up
      throw (lit "compiler error: serialize of set not supported in C")
  | .list _ elem, name, error_ret => do
      scope_up
      let length := name ++ w "_size"
      let tenum ← lift (type_to_enum elem)
      generate_list_begin_writer_to_buffer tenum length error_ret
      line [w "for (Xi = 0; Xi < ", length, w "; Xi++)"]
      scope_up
      -- generate_serialize_list_element_to_buffer
      generate_serialize_field_to_buffer elem (name ++ w "[Xi]") error_ret
      endl
      scope_down
      generate_list_end_writer_to_buffer
      endl
      scope_down

-- ========================================================== from a stream

/-- `if ((ret = thrift_protocol_read_`, and what follows for each type. -/
def readCall (b : Base) (binary : Bool) (name : Word) : Except Bytes (List Tok) :=
  match b with
  | .TYPE_VOID =>
      .error (lit "compiler error: cannot serialize void field in a struct: " ++ name.text)
  | .TYPE_STRING =>
      .ok (if binary then [w "binary (protocol, &data, &len"]
        else [w "string (protocol, &", name])
  | .TYPE_XML => .ok [w "xml (protocol, &", name]
  | .TYPE_BOOL => .ok [w "bool (protocol, &", name]
  | .TYPE_BYTE => .ok [w "byte (protocol, &", name]
  | .TYPE_I16 => .ok [w "i16 (protocol, &", name]
  | .TYPE_I32 => .ok [w "i32 (protocol, &", name]
  | .TYPE_I64 => .ok [w "i64 (protocol, &", name]
  | .TYPE_U16 => .ok [w "u16 (protocol, &", name]
  | .TYPE_U32 => .ok [w "u32 (protocol, &", name]
  | .TYPE_U64 => .ok [w "u64 (protocol, &", name]
  | .TYPE_DOUBLE => .ok [w "double (protocol, &", name]
  | .TYPE_IPV4 => .ok [w "ipv4 (protocol, &", name]
  | .TYPE_IPADDR => .ok [w "ipaddr (protocol, &", name]
  | .TYPE_UUID => .ok [w "uuid_t (protocol, &", name]
  | b => .error (lit "compiler error: no C reader for base type " ++ t_base_name b ++ name.text)

/-- A structure is allocated and read by its own function. -/
def generate_deserialize_struct (struct_name target : Word) (error_ret : Int) : Gen Unit := do
  line [target, w " = (", struct_name, w "* ) os_zalloc (sizeof(*", target, w "));"]
  line [w "if ((ret = ", struct_name, w "_read (", target, w ", protocol, error)) < 0)"]
  line [w "  return ", num error_ret, w ";"]
  line [w "xfer += ret;"]

/-- The last lines for a field: an element of a list has nothing in front
of its name, and has none. -/
def setIsset (req : Req) (front name : Word) : Gen Unit :=
  if req ≠ .T_REQUIRED ∧ front.text ≠ [] then line [front, w "__isset_", name, w " = 1;"]
  else if req = .T_REQUIRED ∧ front.text ≠ [] then line [w "isset_", name, w " = 1;"]
  else pure ()

/-- A read of the field `front ++ name`. -/
def generate_deserialize_field (ns : Namespace) : Ty → Req → Word → Word → Int → Gen Unit
  | .typedef _ t, req, front, name, error_ret =>
      generate_deserialize_field ns t req front name error_ret
  | .base .TYPE_VOID _, _, front, name, _ =>
      throw (lit "CANNOT GENERATE DESERIALIZE CODE FOR void TYPE: " ++ front.text ++ name.text)
  | .base b binary, req, front, name, error_ret => do
      let call ← lift (readCall b binary (front ++ name))
      indent
      out [w "if ((ret = thrift_protocol_read_"]
      out call
      out [w ", error)) < 0)"]
      endl
      line [w "  return ", num error_ret, w ";"]
      line [w "xfer += ret;"]
      setIsset req front name
  | .enum ename, req, front, name, error_ret => do
      let t ← tmp (w "ecast")
      let tname ← lift (type_name ns (.enum ename))
      line [w "int32_t ", t, w ";"]
      line [w "if ((ret = thrift_protocol_read_i32 (protocol, &", t, w ", error)) < 0)"]
      line [w "  return ", num error_ret, w ";"]
      line [w "xfer += ret;"]
      line [front ++ name, w " = (", tname, w ")", t, w ";"]
      setIsset req front name
  | .struct sname, req, front, name, error_ret => do
      generate_deserialize_struct sname (front ++ name) error_ret
      setIsset req front name
  | .xception sname, req, front, name, error_ret => do
      generate_deserialize_struct sname (front ++ name) error_ret
      setIsset req front name
  | .map _ _ _, _, _, _, _ => do
      scope_up
      throw (lit "compiler error: deserialize of map not supported in C")
  | .set _ _, _, _, _, _ => do
      scope_up
      throw (lit "compiler error: deserialize of set not supported in C")
  | .list cpp_name elem, req, front, name, error_ret => do
      let target := front ++ name
      scope_up
      line [w "ThriftType element_type;"]
      line [w "if ((ret = thrift_protocol_read_list_begin (protocol, &element_type, &", target,
        w "_size, error)) < 0)"]
      line [w "  return ", num error_ret, w ";"]
      line [w "xfer += ret;"]
      endl
      let tname ← lift (type_name ns (.list cpp_name elem))
      line [target, w " = (", tname, w ") os_zalloc (sizeof(*", target, w ") * ", target,
        w "_size);"]
      line [w "/* iterate through list elements */"]
      line [w "for (i = 0; i < ", target, w "_size; i++)"]
      scope_up
      -- generate_deserialize_list_element
      generate_deserialize_field ns elem .T_OPT_IN_REQ_OUT (w "") (target ++ w "[i]") error_ret
      scope_down
      line [w "if ((ret = thrift_protocol_read_list_end (protocol, error)) < 0)"]
      line [w "  return ", num error_ret, w ";"]
      line [w "xfer += ret;"]
      endl
      scope_down
      setIsset req front name

-- ========================================================== from a buffer

/-- The same from a buffer. -/
def generate_deserialize_struct_from_buffer (struct_name target : Word) (error_ret : Int) :
    Gen Unit := do
  line [target, w " = (", struct_name, w "* ) os_zalloc (sizeof(*", target, w "));"]
  line [w "if ((Xret = ", struct_name, w "_read_binary_from_buffer (", target,
    w ", Xbuf + Xoffset, Xbuflen - Xoffset, Xerror)) < 0)"]
  line [w "  return ", num error_ret, w ";"]
  line [w "Xoffset += Xret;"]

/-- The `switch` over the base types. -/
def deserializeBaseFromBuffer (b : Base) (binary : Bool) (name : Word) (error_ret : Int) :
    Gen Unit :=
  match b with
  | .TYPE_VOID =>
      throw (lit "compiler error: cannot serialize void field in a struct: " ++ name.text)
  | .TYPE_STRING =>
      if binary then
        throw (lit "CANNOT GENERATE DESERIALIZE CODE FOR binary TYPE: " ++ name.text)
      else generate_deserialize_string_from_buffer name error_ret
  | .TYPE_XML => generate_deserialize_xml_from_buffer name error_ret
  | .TYPE_BOOL => generate_deserialize_bool_from_buffer name error_ret
  | .TYPE_BYTE => generate_deserialize_byte_from_buffer name error_ret
  | .TYPE_I16 => generate_deserialize_i16_from_buffer name error_ret
  | .TYPE_I32 => generate_deserialize_i32_from_buffer name error_ret
  | .TYPE_I64 => generate_deserialize_i64_from_buffer name error_ret
  | .TYPE_U16 => generate_deserialize_u16_from_buffer name error_ret
  | .TYPE_U32 => generate_deserialize_u32_from_buffer name error_ret
  | .TYPE_U64 => generate_deserialize_u64_from_buffer name error_ret
  | .TYPE_DOUBLE => generate_deserialize_double_from_buffer error_ret
  | .TYPE_IPV4 => generate_deserialize_i32_from_buffer name error_ret
  | .TYPE_IPADDR => generate_deserialize_ipaddr_from_buffer name error_ret
  | .TYPE_UUID => generate_deserialize_uuid_t_from_buffer name error_ret
  | b => throw (lit "compiler error: no C reader for base type " ++ t_base_name b ++ name.text)

/-- A field from a buffer, by its type. -/
def generate_deserialize_field_from_buffer (ns : Namespace) :
    Ty → Req → Word → Word → Int → Gen Unit
  | .typedef _ t, req, front, name, error_ret =>
      generate_deserialize_field_from_buffer ns t req front name error_ret
  | .base .TYPE_VOID _, _, front, name, _ =>
      throw (lit "CANNOT GENERATE DESERIALIZE CODE FOR void TYPE: " ++ front.text ++ name.text)
  | .base b binary, req, front, name, error_ret => do
      deserializeBaseFromBuffer b binary (front ++ name) error_ret
      setIsset req front name
  | .enum _, req, front, name, error_ret => do
      generate_deserialize_i32_from_buffer (front ++ name) error_ret
      setIsset req front name
  | .struct sname, req, front, name, error_ret => do
      generate_deserialize_struct_from_buffer sname (front ++ name) error_ret
      setIsset req front name
  | .xception sname, req, front, name, error_ret => do
      generate_deserialize_struct_from_buffer sname (front ++ name) error_ret
      setIsset req front name
  | .map _ _ _, _, _, _, _ => do
      scope_up
      throw (lit "compiler error: deserialize of map not supported in C")
  | .set _ _, _, _, _, _ => do
      scope_up
      throw (lit "compiler error: deserialize of set not supported in C")
  | .list cpp_name elem, req, front, name, error_ret => do
      let target := front ++ name
      let element_size := target ++ w "_size"
      scope_up
      generate_list_begin_reader_from_buffer element_size error_ret
      let tname ← lift (type_name ns (.list cpp_name elem))
      line [target, w " = (", tname, w ") os_zalloc (sizeof(*", target, w ") * ", element_size,
        w ");"]
      line [w "/* iterate through list elements */"]
      line [w "for (Xi = 0; Xi < ", element_size, w "; Xi++)"]
      scope_up
      -- generate_deserialize_list_element_from_buffer
      generate_deserialize_field_from_buffer ns elem .T_OPT_IN_REQ_OUT (w "")
        (target ++ w "[Xi]") error_ret
      scope_down
      generate_list_end_reader_from_buffer
      scope_down
      setIsset req front name

end Sandesh.CText
