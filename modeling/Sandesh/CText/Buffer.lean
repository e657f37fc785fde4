/-
The code that is generated for one value in a buffer
(compiler/generate/t_c_generator.cc, the functions that end in `to_buffer`
and `from_buffer`, up to the ones for a field).

Lines are put together in the order of the source. The functions for
integers of one size differ in a few words, and are one function of these.
-/
import Sandesh.CText.Types

namespace Sandesh.CText

open Lib

-- =============================================================== buffers

/-- The check in front of every access: the function returns if fewer bytes
are left of the buffer. `length` is spliced in as it is, so it may be a
variable of the emitted code. -/
def generate_buffer_bounds_chk (length : Word) (error_ret : Int) : Gen Unit := do
  line [w "if (Xbuflen < Xoffset + ", length, w ") ", .opening]
  line [w "  return ", num error_ret, w ";"]
  line [.closing]

/-- Behind an access, `Xoffset` goes on. -/
def generate_buffer_incr_offset (length : Word) : Gen Unit :=
  line [w "Xoffset += ", length, w ";"]

/-- `memcpy` into the buffer. With `ref` the address of the source is taken:
it is a variable and no pointer. -/
def generate_write_buffer_memcpy (source length : Word) (ref : Bool) : Gen Unit :=
  if ref then line [w "memcpy (Xbuf + Xoffset, &", source, w ", ", length, w ");"]
  else line [w "memcpy (Xbuf + Xoffset, ", source, w ", ", length, w ");"]

/-- `memcpy` out of the buffer, the same way. -/
def generate_read_buffer_memcpy (dest length : Word) (ref : Bool) : Gen Unit :=
  if ref then line [w "memcpy (&", dest, w ", Xbuf + Xoffset, ", length, w ");"]
  else line [w "memcpy (", dest, w ", Xbuf + Xoffset, ", length, w ");"]

/-- Copy and go on, without a check of its own: the caller has made one. -/
def generate_write_buffer_memcpy_incr_offset (source length : Word) (ref : Bool) : Gen Unit := do
  generate_write_buffer_memcpy source length ref
  generate_buffer_incr_offset length

/-- The reader's side of it. -/
def generate_read_buffer_memcpy_incr_offset (dest length : Word) (ref : Bool) : Gen Unit := do
  generate_read_buffer_memcpy dest length ref
  generate_buffer_incr_offset length

/-- Check, copy and go on: what a value of known length takes. -/
def generate_write_buffer_chk_memcpy_incr_offset (source length : Word) (error_ret : Int)
    (ref : Bool) : Gen Unit := do
  generate_buffer_bounds_chk length error_ret
  generate_write_buffer_memcpy_incr_offset source length ref

/-- The reader's side of it. -/
def generate_read_buffer_chk_memcpy_incr_offset (dest length : Word) (error_ret : Int)
    (ref : Bool) : Gen Unit := do
  generate_buffer_bounds_chk length error_ret
  generate_read_buffer_memcpy_incr_offset dest length ref

/-- A length in network order and so many bytes. The variable for the length
is in a scope of its own, closed before the bytes are copied. -/
def generate_write_buffer_binary (buf buf_len : Word) (error_ret : Int) : Gen Unit := do
  let nbuf_len ← tmp (w "Xnbuflen")
  generate_buffer_bounds_chk (w "4") error_ret
  scope_up
  line [w "int32_t ", nbuf_len, w " = htonl (", buf_len, w ");"]
  generate_write_buffer_memcpy_incr_offset nbuf_len (w "4") true
  scope_down
  generate_write_buffer_chk_memcpy_incr_offset buf buf_len error_ret false

-- ============================================================ base types

/-- One byte, from the variable itself. -/
def generate_serialize_byte_to_buffer (name : Word) (error_ret : Int) : Gen Unit := do
  line [w "/* thrift_protocol_write_byte */"]
  generate_write_buffer_chk_memcpy_incr_offset name (w "1") error_ret true

/-- One byte, through an array that is declared for it. -/
def generate_deserialize_byte_from_buffer (name : Word) (error_ret : Int) : Gen Unit := do
  line [w "/* thrift_protocol_read_byte */"]
  scope_up
  line [w "void * b[1];"]
  generate_read_buffer_chk_memcpy_incr_offset (w "b") (w "1") error_ret false
  line [name, w " = *(int8_t *) b;"]
  scope_down

/-- A bool is written from a new variable that is 0 or 1. -/
def generate_serialize_bool_to_buffer (name : Word) (error_ret : Int) : Gen Unit := do
  let nbool ← tmp (w "Xbool")
  line [w "/* thrift_protocol_write_bool */"]
  scope_up
  line [w "uint8_t ", nbool, w " = ", name, w " ? 1 : 0;"]
  generate_serialize_byte_to_buffer nbool error_ret
  scope_down

/-- Whatever is not 0 is true. -/
def generate_deserialize_bool_from_buffer (name : Word) (error_ret : Int) : Gen Unit := do
  line [w "/* thrift_protocol_read_bool */"]
  scope_up
  line [w "void * b[1];"]
  generate_read_buffer_chk_memcpy_incr_offset (w "b") (w "1") error_ret false
  line [name, w " = *(int8_t *) b != 0;"]
  scope_down

/-- An integer of two or four bytes, in the order of the network. -/
def serializeShort (temp comment ctype hton length name : Word) (error_ret : Int) : Gen Unit := do
  let n ← tmp temp
  line [comment]
  scope_up
  line [ctype, n, w " = ", hton, w " (", name, w ");"]
  generate_write_buffer_chk_memcpy_incr_offset n length error_ret true
  scope_down

/-- What the readers of two and four bytes share: a union of the bytes and
the number, and a conversion from network order. -/
def deserializeShort (comment array all ntoh length name : Word) (error_ret : Int) : Gen Unit := do
  line [comment]
  scope_up
  line [w "union ", .opening]
  line [w "  ", array]
  line [w "  ", all]
  line [.closing, w " bytes;"]
  generate_read_buffer_chk_memcpy_incr_offset (w "bytes.b") length error_ret false
  line [name, w " = ", ntoh, w " (bytes.all);"]
  scope_down

/-- The six pairs that follow differ in their types, in the conversion and
in the number of bytes, and in nothing else. -/
def generate_serialize_i16_to_buffer (name : Word) (error_ret : Int) : Gen Unit :=
  serializeShort (w "Xni16") (w "/* thrift_protocol_write_i16 */") (w "int16_t ") (w "htons")
    (w "2") name error_ret

/-- Two bytes, by `ntohs`. -/
def generate_deserialize_i16_from_buffer (name : Word) (error_ret : Int) : Gen Unit :=
  deserializeShort (w "/* thrift_protocol_read_i16 */") (w "void * b[2];") (w "int16_t all;")
    (w "ntohs") (w "2") name error_ret

/-- The same without a sign. -/
def generate_serialize_u16_to_buffer (name : Word) (error_ret : Int) : Gen Unit :=
  serializeShort (w "Xnu16") (w "/* thrift_protocol_write_u16 */") (w "uint16_t ") (w "htons")
    (w "2") name error_ret

/-- The reader's side of it. -/
def generate_deserialize_u16_from_buffer (name : Word) (error_ret : Int) : Gen Unit :=
  deserializeShort (w "/* thrift_protocol_read_u16 */") (w "void * b[2];") (w "uint16_t all;")
    (w "ntohs") (w "2") name error_ret

/-- Four bytes, by `htonl`. -/
def generate_serialize_i32_to_buffer (name : Word) (error_ret : Int) : Gen Unit :=
  serializeShort (w "Xni32") (w "/* thrift_protocol_write_i32 */") (w "int32_t ") (w "htonl")
    (w "4") name error_ret

/-- The reader's side of it. -/
def generate_deserialize_i32_from_buffer (name : Word) (error_ret : Int) : Gen Unit :=
  deserializeShort (w "/* thrift_protocol_read_i32 */") (w "void * b[4];") (w "int32_t all;")
    (w "ntohl") (w "4") name error_ret

/-- The same without a sign. -/
def generate_serialize_u32_to_buffer (name : Word) (error_ret : Int) : Gen Unit :=
  serializeShort (w "Xnu32") (w "/* thrift_protocol_write_u32 */") (w "uint32_t ") (w "htonl")
    (w "4") name error_ret

/-- The reader's side of it. -/
def generate_deserialize_u32_from_buffer (name : Word) (error_ret : Int) : Gen Unit :=
  deserializeShort (w "/* thrift_protocol_read_u32 */") (w "void * b[4];") (w "uint32_t all;")
    (w "ntohl") (w "4") name error_ret

/-- An integer of eight bytes. -/
def serializeLong (temp comment ctype name : Word) (error_ret : Int) : Gen Unit := do
  let n ← tmp temp
  line [comment]
  scope_up
  line [ctype, n, w ";"]
  line [w "os_put_value64((uint8_t *)&", n, w ", ", name, w ");"]
  generate_write_buffer_chk_memcpy_incr_offset n (w "8") error_ret true
  scope_down

/-- What the two readers of eight bytes share: the bytes are put together by
`os_get_value64`. -/
def deserializeLong (comment name : Word) (error_ret : Int) : Gen Unit := do
  line [comment]
  scope_up
  line [w "void * b[8];"]
  generate_read_buffer_chk_memcpy_incr_offset (w "b") (w "8") error_ret false
  line [name, w " = os_get_value64((uint8_t *)b);"]
  scope_down

/-- Eight bytes, by `os_put_value64`. -/
def generate_serialize_i64_to_buffer (name : Word) (error_ret : Int) : Gen Unit :=
  serializeLong (w "Xni64") (w "/* thrift_protocol_write_i64 */") (w "int64_t ") name error_ret

/-- The reader's side of it. -/
def generate_deserialize_i64_from_buffer (name : Word) (error_ret : Int) : Gen Unit :=
  deserializeLong (w "/* thrift_protocol_read_i64 */") name error_ret

/-- The same without a sign. -/
def generate_serialize_u64_to_buffer (name : Word) (error_ret : Int) : Gen Unit :=
  serializeLong (w "Xnu64") (w "/* thrift_protocol_write_u64 */") (w "uint64_t ") name error_ret

/-- The reader's side of it. -/
def generate_deserialize_u64_from_buffer (name : Word) (error_ret : Int) : Gen Unit :=
  deserializeLong (w "/* thrift_protocol_read_u64 */") name error_ret

/-- A string that is a null pointer is written as an empty one. -/
def generate_serialize_string_to_buffer (name : Word) (error_ret : Int) : Gen Unit := do
  let s_strlen ← tmp (w "Xsstrlen")
  line [w "/* thrift_protocol_write_string */"]
  scope_up
  line [w "int32_t ", s_strlen, w " = ", name, w " != NULL ? strlen (", name, w ") : 0;"]
  generate_write_buffer_binary name s_strlen error_ret
  scope_down

/-- The length, a new array and so many bytes; the terminator is put behind
them. For a length that is not positive the string is `NULL`. -/
def generate_deserialize_string_from_buffer (name : Word) (error_ret : Int) : Gen Unit := do
  let s_strlen ← tmp (w "Xread_len")
  line [w "/* thrift_protocol_read_string */"]
  scope_up
  line [w "int32_t ", s_strlen, w " = 0;"]
  generate_deserialize_i32_from_buffer s_strlen error_ret
  line [w "if (", s_strlen, w " > 0)"]
  scope_up
  line [w "if (Xbuflen < Xoffset + ", s_strlen, w ") ", .opening]
  line [w "  return ", num error_ret, w ";"]
  line [.closing]
  line [name, w " = os_malloc (", s_strlen, w " + 1);"]
  generate_read_buffer_memcpy_incr_offset name s_strlen false
  line [name, w "[", s_strlen, w "] = 0;"]
  scope_down
  line [w " else"]
  scope_up
  line [name, w " = NULL;"]
  scope_down
  scope_down

/-- An xml is written and read as a string is. -/
def generate_serialize_xml_to_buffer (name : Word) (error_ret : Int) : Gen Unit :=
  generate_serialize_string_to_buffer name error_ret

/-- The reader's side of an xml. -/
def generate_deserialize_xml_from_buffer (name : Word) (error_ret : Int) : Gen Unit :=
  generate_deserialize_string_from_buffer name error_ret

/-- The family and the bytes that go with it. The last branch is for an
address of another family: the function returns. -/
def generate_serialize_ipaddr_to_buffer (name : Word) (error_ret : Int) : Gen Unit := do
  line [w "/* thrift_protocol_write_ipaddr */"]
  let iptype := name ++ w ".iptype"
  line [w "if (", iptype, w " == AF_INET)"]
  scope_up
  generate_write_buffer_chk_memcpy_incr_offset iptype (w "1") error_ret true
  generate_write_buffer_chk_memcpy_incr_offset (name ++ w ".ipv4") (w "4") error_ret true
  scope_down
  line [w " else if (", iptype, w " == AF_INET6)"]
  scope_up
  generate_write_buffer_chk_memcpy_incr_offset iptype (w "1") error_ret true
  generate_write_buffer_chk_memcpy_incr_offset (name ++ w ".ipv6") (w "16") error_ret true
  scope_down
  line [w " else"]
  scope_up
  line [w "return -1;"]
  scope_down

/-- The reader's side of it, with the same last branch. -/
def generate_deserialize_ipaddr_from_buffer (name : Word) (error_ret : Int) : Gen Unit := do
  line [w "/* thrift_protocol_read_ipaddr */"]
  let iptype := name ++ w ".iptype"
  generate_deserialize_byte_from_buffer iptype error_ret
  line [w "if (", iptype, w " == AF_INET)"]
  scope_up
  generate_read_buffer_chk_memcpy_incr_offset (name ++ w ".ipv4") (w "4") error_ret true
  scope_down
  line [w "else if (", iptype, w " == AF_INET6)"]
  scope_up
  generate_read_buffer_chk_memcpy_incr_offset (name ++ w ".ipv6") (w "16") error_ret true
  scope_down
  line [w " else"]
  scope_up
  line [w "return -1;"]
  scope_down

/-- The sixteen bytes of a uuid. -/
def generate_serialize_uuid_t_to_buffer (name : Word) (error_ret : Int) : Gen Unit := do
  line [w "/* thrift_protocol_write_uuid_t */"]
  generate_write_buffer_chk_memcpy_incr_offset name (w "16") error_ret true

/-- The reader's side of a uuid. -/
def generate_deserialize_uuid_t_from_buffer (name : Word) (error_ret : Int) : Gen Unit := do
  line [w "/* thrift_protocol_read_uuid_t */"]
  generate_read_buffer_chk_memcpy_incr_offset name (w "16") error_ret true

/-- Not supported at run time. -/
def generate_serialize_double_to_buffer (error_ret : Int) : Gen Unit := do
  line [w "/* thrift_protocol_write_double */"]
  line [w "/* NOT SUPPORTED */"]
  line [w "return ", num error_ret, w ";"]

/-- A double is not supported: the function returns. -/
def generate_deserialize_double_from_buffer (error_ret : Int) : Gen Unit := do
  line [w "/* thrift_protocol_read_double */"]
  line [w "/* NOT SUPPORTED */"]
  line [w "return ", num error_ret, w ";"]

-- ========================================================= around values

/-- A sandesh begins with its name, a structure with nothing. -/
def generate_struct_begin_writer_to_buffer (name : Word) (is_sandesh : Bool) (error_ret : Int) :
    Gen Unit :=
  if is_sandesh then do
    line [w "/* thrift_protocol_write_sandesh_begin */"]
    generate_write_buffer_binary (w "\"" ++ name ++ w "\"") (num name.text.length) error_ret
  else line [w "/* thrift_protocol_write_struct_begin */"]

/-- The reader's side of it: the name is read and not compared. -/
def generate_struct_begin_reader_from_buffer (name : Word) (is_sandesh : Bool) (error_ret : Int) :
    Gen Unit :=
  if is_sandesh then do
    line [w "/* thrift_protocol_read_sandesh_begin */"]
    generate_deserialize_string_from_buffer name error_ret
    line [w "if (", name, w ") ", .opening, w " os_free (", name, w "); ", name, w " = NULL; ",
      .closing]
    endl
  else line [w "/* thrift_protocol_read_struct_begin */"]

/-- Nothing ends a structure but a comment. -/
def generate_struct_end_writer_to_buffer (is_sandesh : Bool) : Gen Unit :=
  if is_sandesh then line [w "/* thrift_protocol_write_sandesh_send */"]
  else line [w "/* thrift_protocol_write_struct_send */"]

/-- The reader's side of it. -/
def generate_struct_end_reader_from_buffer (is_sandesh : Bool) : Gen Unit :=
  if is_sandesh then line [w "/* thrift_protocol_read_sandesh_send */"]
  else line [w "/* thrift_protocol_read_struct_send */"]

/-- The byte behind the last field, from a variable of its own. -/
def generate_field_stop_writer_to_buffer (error_ret : Int) : Gen Unit := do
  let field_stop ← tmp (w "Xfield_stop")
  endl
  line [w "/* thrift_protocol_field_stop */"]
  generate_buffer_bounds_chk (w "1") error_ret
  scope_up
  line [w "int8_t ", field_stop, w " = (int8_t) T_STOP;"]
  generate_write_buffer_memcpy_incr_offset field_stop (w "1") true
  scope_down

/-- Type and id of a field; each is copied from a variable in a scope of its
own, behind its own check. -/
def generate_field_begin_writer_to_buffer (key field_type : Word) (error_ret : Int) :
    Gen Unit := do
  line [w "/* thrift_protocol_write_field_begin */"]
  generate_buffer_bounds_chk (w "1") error_ret
  let field_type8 ← tmp (w "Xfield_type8")
  scope_up
  line [w "int8_t ", field_type8, w " = (int8_t) ", field_type, w ";"]
  generate_write_buffer_memcpy_incr_offset field_type8 (w "1") true
  scope_down
  generate_buffer_bounds_chk (w "2") error_ret
  let nkey ← tmp (w "Xnfield_id")
  scope_up
  line [w "int16_t ", nkey, w " = htons (", key, w ");"]
  generate_write_buffer_memcpy_incr_offset nkey (w "2") true
  scope_down
  endl

/-- Type and id of a field. Behind a stop there is no id: the loop is left
before it is read. -/
def generate_field_begin_reader_from_buffer (field_type field_id : Word) (error_ret : Int) :
    Gen Unit := do
  line [w "/* thrift_protocol_read_field_begin */"]
  generate_deserialize_byte_from_buffer field_type error_ret
  -- check for field STOP marker
  line [w "/* break if we get a STOP field */"]
  line [w "if (", field_type, w " == T_STOP)"]
  line [.opening]
  line [w "  break;"]
  line [.closing]
  line [w " else"]
  scope_up
  generate_deserialize_i16_from_buffer field_id error_ret
  scope_down

/-- Nothing ends a field but a comment. -/
def generate_field_end_writer_to_buffer : Gen Unit :=
  line [w "/* thrift_protocol_write_field_end */"]

/-- The reader's side of it. -/
def generate_field_end_reader_from_buffer : Gen Unit :=
  line [w "/* thrift_protocol_read_field_end */"]

/-- Type and number of the elements. -/
def generate_list_begin_writer_to_buffer (element_type length : Word) (error_ret : Int) :
    Gen Unit := do
  let element_type8 ← tmp (w "Xelement_type8")
  line [w "/* thrift_protocol_write_list_begin */"]
  generate_buffer_bounds_chk (w "1") error_ret
  scope_up
  line [w "int8_t ", element_type8, w " = (int8_t) ", element_type, w ";"]
  generate_write_buffer_memcpy_incr_offset element_type8 (w "1") true
  scope_down
  let nelement_size ← tmp (w "Xnelement_size")
  generate_buffer_bounds_chk (w "4") error_ret
  scope_up
  line [w "uint32_t ", nelement_size, w " = htonl (", length, w ");"]
  generate_write_buffer_memcpy_incr_offset nelement_size (w "4") true
  scope_down
  endl

/-- Nothing ends a list but a comment. -/
def generate_list_end_writer_to_buffer : Gen Unit :=
  line [w "/* thrift_protocol_write_list_end */"]

/-- The type of the elements is read into a variable that nothing looks at,
their number into `element_size`. -/
def generate_list_begin_reader_from_buffer (element_size : Word) (error_ret : Int) :
    Gen Unit := do
  let element_type8 ← tmp (w "Xelement_type8")
  line [w "/* thrift_protocol_read_list_begin */"]
  scope_up
  line [w "int8_t ", element_type8, w ";"]
  generate_deserialize_byte_from_buffer element_type8 error_ret
  scope_down
  generate_deserialize_i32_from_buffer element_size error_ret

/-- The reader's side of a list's end. -/
def generate_list_end_reader_from_buffer : Gen Unit :=
  line [w "/* thrift_protocol_read_list_end */"]

end Sandesh.CText
