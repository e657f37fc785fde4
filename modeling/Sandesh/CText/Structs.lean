/-
The five functions that are generated for a structure or a sandesh
(compiler/generate/t_c_generator.cc, generate_struct_deleter,
generate_struct_writer, generate_struct_writer_to_buffer,
generate_struct_reader and generate_struct_reader_from_buffer).

Each goes over the fields by itself, and leaves out those that the IDL
compiler has added.
-/
import Sandesh.CText.Fields

namespace Sandesh.CText

open Lib

/-- A definition, and whether a function is made of it or only a block. -/
structure Args where
  ns : Namespace
  name : Word
  fields : List Field
  is_sandesh : Bool
  is_function : Bool

namespace Args

variable (a : Args)

/-- The name in small letters with underscores. -/
def name_u : Word := initial_caps_to_underscores a.name

/-- The name of the parameter, by its first letter. -/
def pname (letter : Word) : Word := letter ++ a.name_u

/-- The type of the parameter, and the name it is declared by. -/
def dname : Word := if a.is_sandesh then w "void" else a.name

/-- A sandesh comes as a `void *`, under another name. -/
def dpname (letter : Word) : Word :=
  if a.is_sandesh then letter ++ w "sandesh" else a.pname letter

/-- The word in the names of the protocol's functions. -/
def sname : Word := if a.is_sandesh then w "sandesh" else w "struct"

/-- What the emitted function returns where a call fails. -/
def error_ret : Int := if a.is_function then -1 else 0

/-- The cast that a sandesh starts with. -/
def cast (letter : Word) : List Tok :=
  [a.name, w "* ", a.pname letter, w " = ", w "(", a.name, w "* ) ", a.dpname letter, w ";"]

end Args

/-- `if (c) { m }`. -/
def onlyIf (c : Prop) [Decidable c] (m : Gen Unit) : Gen Unit := if c then m else pure ()

/-- `for (f_iter = fields.begin(); ...)`, less the fields that are ignored. -/
def eachField (fields : List Field) (body : Field → Gen Unit) : Gen Unit :=
  fields.forM fun f => if f.auto_generated then pure () else body f

/-- The closing line of every one of them. -/
def endFunction : Gen Unit := do
  indent_down
  line [.closing]
  endl

-- ============================================================== deleter

/-- `if (fvname) {`, the lines, and `}`. -/
def freeBlock (fvname : Word) (lines : List (List Tok)) : Gen Unit := do
  line [w "if (", fvname, w ") ", .opening]
  indent_up
  lines.forM line
  scope_down

/-- What the deleter has for a field: strings, structures and lists are
freed. -/
def freeField (fvname : Word) (type : Ty) : Gen Unit :=
  match get_true_type type with
  | .struct sname | .xception sname =>
      freeBlock fvname [[sname, w "_free(", fvname, w ");"], [w "os_free(", fvname, w ");"],
        [fvname, w " = NULL;"]]
  | .map _ _ _ | .set _ _ | .list _ _ =>
      freeBlock fvname [[w "os_free(", fvname, w ");"], [fvname, w "_size = 0;"],
        [fvname, w " = NULL;"]]
  | .base .TYPE_STRING _ | .base .TYPE_XML _ =>
      freeBlock fvname [[w "os_free(", fvname, w ");"], [fvname, w " = NULL;"]]
  | _ => pure ()

/-- The function that frees a structure. -/
def generate_struct_deleter (a : Args) : Gen Unit := do
  let fname := a.pname (w "f")
  onlyIf a.is_function do
    line [w "void"]
    outLine [a.ns.nspace_lc, a.name_u, w "_free (", a.dname, w "* ", a.dpname (w "f"), w ")"]
  line [.opening]
  indent_up
  onlyIf a.is_sandesh do
    line (a.cast (w "f"))
    endl
  -- satisfy -Wall in case we don't use some variables
  line [w "/* satisfy -Wall in case these aren't used */"]
  line [w "THRIFT_UNUSED_VAR (", fname, w ");"]
  eachField a.fields fun f => freeField (fname ++ w "->" ++ f.name) f.type
  endFunction

-- =============================================================== writer

/-- `if (w->__isset_f == 1) {`. -/
def ifIsset (wname : Word) (f : Field) : Gen Unit := do
  line [w "if (", wname, w "->__isset_", f.name, w " == 1) ", .opening]
  indent_up

/-- Two lines that pass an error on, and one that counts. -/
def returnAndCount (error_ret : Int) : Gen Unit := do
  line [w "  return ", num error_ret, w ";"]
  line [w "xfer += ret;"]

/-- What the writer has for a field. -/
def writeField (wname : Word) (error_ret : Int) (f : Field) : Gen Unit := do
  onlyIf (f.req = .T_OPTIONAL) (ifIsset wname f)
  let tenum ← lift (type_to_enum f.type)
  line [w "if ((ret = thrift_protocol_write_field_begin (protocol, ", w "\"", f.name, w "\", ",
    tenum, w ", ", num f.key, w ", error)) < 0)"]
  returnAndCount error_ret
  generate_serialize_field f.type (wname ++ w "->" ++ f.name) error_ret
  line [w "xfer += ret;"]
  line [w "if ((ret = thrift_protocol_write_field_end (protocol, error)) < 0)"]
  returnAndCount error_ret
  onlyIf (f.req = .T_OPTIONAL) do
    indent_down
    line [.closing]

/-- The function that writes through a protocol. -/
def generate_struct_writer (a : Args) : Gen Unit := do
  let wname := a.pname (w "w")
  onlyIf a.is_function do
    line [w "int32_t"]
    outLine [a.ns.nspace_lc, a.name_u, w "_write (", a.dname, w "* ", a.dpname (w "w"),
      w ", ThriftProtocol *protocol, int *error)"]
  line [.opening]
  indent_up
  line [w "int32_t ret;"]
  line [w "int32_t xfer = 0;"]
  line [w "u_int32_t i;"]
  endl
  onlyIf a.is_sandesh do
    line (a.cast (w "w"))
    endl
  -- satisfy -Wall in case we don't use some variables
  line [w "/* satisfy -Wall in case these aren't used */"]
  line [w "THRIFT_UNUSED_VAR (i);"]
  line [w "THRIFT_UNUSED_VAR (", wname, w ");"]
  endl
  line [w "if ((ret = thrift_protocol_write_", a.sname, w "_begin (protocol, \"", a.name,
    w "\", error)) < 0)"]
  returnAndCount a.error_ret
  eachField a.fields (writeField wname a.error_ret)
  -- write the struct map
  line [w "if ((ret = thrift_protocol_write_field_stop (protocol, error)) < 0)"]
  returnAndCount a.error_ret
  line [w "if ((ret = thrift_protocol_write_", a.sname, w "_end (protocol, error)) < 0)"]
  returnAndCount a.error_ret
  endl
  onlyIf a.is_function (line [w "return xfer;"])
  endFunction

/-- A field that is optional is opened before it, and once more behind it. -/
def writeFieldToBuffer (wname : Word) (error_ret : Int) (f : Field) : Gen Unit := do
  onlyIf (f.req = .T_OPTIONAL) (ifIsset wname f)
  let tenum ← lift (type_to_enum f.type)
  generate_field_begin_writer_to_buffer (num f.key) tenum error_ret
  generate_serialize_field_to_buffer f.type (wname ++ w "->" ++ f.name) error_ret
  generate_field_end_writer_to_buffer
  onlyIf (f.req = .T_OPTIONAL) (ifIsset wname f)

/-- The function that writes into a buffer. -/
def generate_struct_writer_to_buffer (a : Args) : Gen Unit := do
  let wname := a.pname (w "w")
  onlyIf a.is_function do
    line [w "int32_t"]
    outLine [a.ns.nspace_lc, a.name_u, w "_write_binary_to_buffer (", a.dname, w "* ",
      a.dpname (w "w"), w ", uint8_t *Xbuf, const size_t Xbuflen, int *Xerror)"]
  line [.opening]
  indent_up
  line [w "int32_t Xret;"]
  line [w "int32_t Xoffset = 0;"]
  line [w "u_int32_t Xi;"]
  endl
  onlyIf a.is_sandesh do
    line (a.cast (w "w"))
    endl
  -- satisfy -Wall in case we don't use some variables
  line [w "/* satisfy -Wall in case these aren't used */"]
  line [w "THRIFT_UNUSED_VAR (Xret);"]
  line [w "THRIFT_UNUSED_VAR (Xi);"]
  line [w "THRIFT_UNUSED_VAR (", wname, w ");"]
  endl
  generate_struct_begin_writer_to_buffer a.name a.is_sandesh a.error_ret
  eachField a.fields (writeFieldToBuffer wname a.error_ret)
  generate_field_stop_writer_to_buffer a.error_ret
  generate_struct_end_writer_to_buffer a.is_sandesh
  onlyIf a.is_function (line [w "return Xoffset;"])
  endFunction

-- =============================================================== reader

/-- `u_int8_t isset_f = 0;`, for a field that is required. -/
def declareIsset (f : Field) : Gen Unit :=
  onlyIf (f.req = .T_REQUIRED) (line [w "u_int8_t isset_", f.name, w " = 0;"])

/-- If a required field is missing, throw an error. -/
def checkIsset (f : Field) : Gen Unit :=
  onlyIf (f.req = .T_REQUIRED) do
    line [w "if (!isset_", f.name, w ")"]
    line [.opening]
    line [w "  *error = THRIFT_PROTOCOL_ERROR_INVALID_DATA;"]
    line [w "  syslog(LOG_ERROR, \"THRIFT_PROTOCOL_ERROR: missing field\");"]
    line [w "  return -1;"]
    line [.closing]
    endl

/-- `if (name) { os_free (name); name = NULL; }`. -/
def freeName : Gen Unit := do
  line [w "if (name) ", .opening, w " os_free (name); name = NULL; ", .closing]
  endl

/-- The braces behind the read of a begin marker. -/
def failRead (error_ret : Int) : Gen Unit := do
  line [.opening]
  line [w "  if (name) os_free (name);"]
  line [w "  return ", num error_ret, w ";"]
  line [.closing]
  line [w "xfer += ret;"]
  freeName

/-- `case` of a field, with the code that reads it and the code that skips
it. -/
def fieldCase (ftype : Word) (read : Gen Unit) (skip : List (List Tok)) (f : Field) :
    Gen Unit := do
  line [w "case ", num f.key, w ":"]
  indent_up
  let tenum ← lift (type_to_enum f.type)
  line [w "if (", ftype, w " == ", tenum, w ")"]
  line [.opening]
  indent_up
  -- generate deserialize field
  read
  indent_down
  line [.closing, w " else ", .opening]
  skip.forM line
  line [.closing]
  line [w "break;"]
  indent_down

/-- What is done with a field that is not known. -/
def skipLines (error_ret : Int) : List (List Tok) :=
  [[w "  if ((ret = thrift_protocol_skip (protocol, ftype, error)) < 0)"],
    [w "    return ", num error_ret, w ";"], [w "  xfer += ret;"]]

def skipLinesFromBuffer (error_ret : Int) : List (List Tok) :=
  [[w "  if ((Xret = thrift_binary_protocol_skip_from_buffer (Xbuf + Xoffset, ",
      w "Xbuflen - Xoffset, Xftype, Xerror)) < 0)"],
    [w "    return ", num error_ret, w ";"], [w "  Xoffset += Xret;"]]

/-- The `default` of the emitted `switch`. -/
def defaultCase (skip : List (List Tok)) : Gen Unit := do
  line [w "default:"]
  skip.forM line
  line [w "  break;"]

/-- The function that reads through a protocol. -/
def generate_struct_reader (a : Args) : Gen Unit := do
  let rname := a.pname (w "r")
  onlyIf a.is_function do
    line [w "/* reads a ", a.name_u, w " ", a.sname, w " */"]
    outLine [w "int32_t"]
    outLine [a.ns.nspace_lc, a.name_u, w "_read (", a.dname, w " *", a.dpname (w "r"),
      w ", ThriftProtocol *protocol, int *error)"]
  line [.opening]
  indent_up
  -- declare stack temp variables
  line [w "int32_t ret;"]
  line [w "int32_t xfer = 0;"]
  line [w "char *name;"]
  line [w "ThriftType ftype;"]
  line [w "int16_t fid;"]
  line [w "u_int32_t len = 0, i;"]
  line [w "void *data = NULL;"]
  onlyIf a.is_sandesh (line (a.cast (w "r")))
  eachField a.fields declareIsset
  -- satisfy -Wall in case we don't use some variables
  line [w "/* satisfy -Wall in case these aren't used */"]
  line [w "THRIFT_UNUSED_VAR (len);"]
  line [w "THRIFT_UNUSED_VAR (data);"]
  line [w "THRIFT_UNUSED_VAR (i);"]
  line [w "THRIFT_UNUSED_VAR (", rname, w ");"]
  endl
  -- read the beginning of the structure marker
  line [w "/* read the ", a.sname, w " begin marker */"]
  line [w "if ((ret = thrift_protocol_read_", a.sname, w "_begin (protocol, &name, error)) < 0)"]
  failRead a.error_ret
  -- read the struct fields
  line [w "/* read the struct fields */"]
  line [w "while (1)"]
  scope_up
  -- read beginning field marker
  line [w "/* read the beginning of a field */"]
  line [w "if ((ret = thrift_protocol_read_field_begin (protocol, &name, &ftype, &fid, error)) < 0)"]
  failRead a.error_ret
  -- check for field STOP marker
  line [w "/* break if we get a STOP field */"]
  line [w "if (ftype == T_STOP)"]
  line [.opening]
  line [w "  break;"]
  line [.closing]
  endl
  -- switch depending on the field type
  line [w "switch (fid)"]
  scope_up
  -- generate deserialization code for known types
  eachField a.fields fun f => fieldCase (w "ftype")
    (generate_deserialize_field a.ns f.type f.req (rname ++ w "->") f.name a.error_ret)
    (skipLines a.error_ret) f
  -- create the default case
  defaultCase (skipLines a.error_ret)
  -- end switch
  scope_down
  -- read field end marker
  line [w "if ((ret = thrift_protocol_read_field_end (protocol, error)) < 0)"]
  returnAndCount a.error_ret
  -- end while loop
  scope_down
  endl
  -- read the end of the structure
  line [w "if ((ret = thrift_protocol_read_", a.sname, w "_end (protocol, error)) < 0)"]
  returnAndCount a.error_ret
  endl
  eachField a.fields checkIsset
  onlyIf a.is_function (line [w "return xfer;"])
  endFunction

/-- The function that reads from a buffer. -/
def generate_struct_reader_from_buffer (a : Args) : Gen Unit := do
  let rname := a.pname (w "r")
  onlyIf a.is_function do
    line [w "/* reads a ", a.name_u, w " ", a.sname, w " */"]
    outLine [w "int32_t"]
    outLine [a.ns.nspace_lc, a.name_u, w "_read_binary_from_buffer (", a.dname, w " *",
      a.dpname (w "r"), w ", uint8_t *Xbuf, const size_t Xbuflen, int *Xerror)"]
  line [.opening]
  indent_up
  -- declare stack temp variables
  line [w "int32_t Xret;"]
  line [w "int32_t Xoffset = 0;"]
  line [w "char *Xname;"]
  line [w "ThriftType Xftype;"]
  line [w "int16_t Xfid;"]
  line [w "u_int32_t Xi;"]
  onlyIf a.is_sandesh (line (a.cast (w "r")))
  eachField a.fields declareIsset
  -- satisfy -Wall in case we don't use some variables
  line [w "/* satisfy -Wall in case these aren't used */"]
  line [w "THRIFT_UNUSED_VAR (Xret);"]
  line [w "THRIFT_UNUSED_VAR (Xname);"]
  line [w "THRIFT_UNUSED_VAR (Xi);"]
  line [w "THRIFT_UNUSED_VAR (", rname, w ");"]
  endl
  -- read the beginning of the structure marker
  line [w "/* read the ", a.sname, w " begin marker */"]
  generate_struct_begin_reader_from_buffer (w "Xname") a.is_sandesh a.error_ret
  -- read the struct fields
  line [w "/* read the struct fields */"]
  line [w "while (1)"]
  scope_up
  -- read beginning field marker
  line [w "/* read the beginning of a field */"]
  generate_field_begin_reader_from_buffer (w "Xftype") (w "Xfid") a.error_ret
  endl
  -- switch depending on the field type
  line [w "switch (Xfid)"]
  scope_up
  -- generate deserialization code for known types
  eachField a.fields fun f => fieldCase (w "Xftype")
    (generate_deserialize_field_from_buffer a.ns f.type f.req (rname ++ w "->") f.name a.error_ret)
    (skipLinesFromBuffer a.error_ret) f
  -- create the default case
  defaultCase (skipLinesFromBuffer a.error_ret)
  -- end switch
  scope_down
  -- read field end marker
  generate_field_end_reader_from_buffer
  -- end while loop
  scope_down
  endl
  -- read the end of the structure
  generate_struct_end_reader_from_buffer a.is_sandesh
  eachField a.fields checkIsset
  onlyIf a.is_function (line [w "return Xoffset;"])
  endFunction

/-- The five of them. -/
inductive Function
  | deleter | writer | writer_to_buffer | reader | reader_from_buffer
deriving DecidableEq

/-- The generator's function for each. -/
def Function.generate : Function → Args → Gen Unit
  | deleter => generate_struct_deleter
  | writer => generate_struct_writer
  | writer_to_buffer => generate_struct_writer_to_buffer
  | reader => generate_struct_reader
  | reader_from_buffer => generate_struct_reader_from_buffer

end Sandesh.CText
