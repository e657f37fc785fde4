/-
The writers that t_c_generator emits (generate_struct_writer and
generate_struct_writer_to_buffer), and their callers in library/c/sandesh.c.

A statement is a function of the code after it, so that `return -1` leaves
at once. `Xoffset` and `xfer` are of type `int32_t`, `Xbuflen` is a
`size_t`. The memory is a list of bytes; an access outside it is a `Fault`.
-/
import Sandesh.Binary.Skip
import Sandesh.CGen.Idl

namespace Sandesh.CGen

open Lib Binary Binary.C

-- ================================================= through the protocol

section Protocol

variable {σ : Type} (T : Transport σ)

mutual

/-- `generate_serialize_field`, and `xfer += ret`. -/
def Ty.serialize : (t : Ty) → t.Val → (Int → σ → Int × σ) → Int → σ → Int × σ
  | .base _, v, k, xfer => seq xfer (v.1.write T) k
  | .enum _, v, k, xfer => seq xfer (write_i32 T v) k
  | .struct _ fs, r, k, xfer =>
      seq xfer (fs.serialize r (fun xfer => seq xfer (write_field_stop T) Prod.mk) 0) k
  | .list e, vs, k, xfer =>
      seq xfer (write_list_begin T e.type_to_enum (BitVec.ofNat 32 vs.length))
        (vs.foldr (fun v k => e.serialize v k) k)

/-- The fields in order. -/
def Fields.serialize :
    (fs : Fields) → fs.Rec → (Int → σ → Int × σ) → Int → σ → Int × σ
  | .nil, _, k, xfer => k xfer
  | .cons key t fs, r, k, xfer =>
      seq xfer (write_field_begin T t.type_to_enum (BitVec.ofInt 16 key))
        (t.serialize r.1 (fs.serialize r.2 k))

end

/-- The function `S_write` of a definition `S`. -/
def Def.write (d : Def) (r : d.fields.Rec) : σ → Int × σ :=
  let fields := d.fields.serialize T r fun xfer =>
    seq xfer (write_field_stop T) Prod.mk
  if d.sandesh then seq 0 (write_sandesh_begin T d.name.text) fields
  else fields 0

end Protocol

/-- The protocol's functions write to a transport that keeps nothing. -/
def sandesh_get_encoded_length (d : Def) (r : d.fields.Rec) : Int :=
  (d.write fakeTransport r ()).1

-- ======================================================= to the buffer

/-- `memcpy` of the first `len` bytes of an object to this place. -/
def memcpyTo (pos : Int) (source : Bytes) (len : Int) : Prog Bytes Fault Unit :=
  Prog.act fun mem =>
    if 0 ≤ pos ∧ 0 ≤ len ∧ pos + len ≤ mem.length then
      (.ok (), mem.take pos.toNat ++ source.take len.toNat
        ++ mem.drop (pos.toNat + len.toNat))
    else (.error .access, mem)

/-- A statement that goes on with `Xoffset`, or returns. -/
abbrev Emitted := (Int → Prog Bytes Fault Int) → Int → Prog Bytes Fault Int

section ToBuffer

variable (Xbuf : Int) (Xbuflen : Nat)

/-- The check, the copy and the new offset. -/
def write_buffer_chk_memcpy_incr_offset (source : Bytes) (len : Int) : Emitted :=
  fun k Xoffset =>
    if Xbuflen < u64 (i32 (Xoffset + len)) then pure (-1)
    else do
      memcpyTo (Xbuf + Xoffset) source len
      k (i32 (Xoffset + len))

/-- A variable of `n` bytes. -/
def writeVariable (bs : Bytes) : Emitted :=
  write_buffer_chk_memcpy_incr_offset Xbuf Xbuflen bs bs.length

/-- A length and so many bytes. -/
def write_buffer_binary (buf : Bytes) (len : Int) : Emitted := fun k =>
  writeVariable Xbuf Xbuflen (image 4 (swap 4 (BitVec.ofInt 32 len).toNat))
    (write_buffer_chk_memcpy_incr_offset Xbuf Xbuflen buf len k)

/-- `generate_serialize_bool_to_buffer` and its kin. -/
def serialize_base_to_buffer : Scalar → Emitted
  | .bool v => writeVariable Xbuf Xbuflen (image 1 (if v ≠ 0 then 1 else 0))
  | .byte v => writeVariable Xbuf Xbuflen (image 1 v.toNat)
  | .i16 v | .u16 v => writeVariable Xbuf Xbuflen (image 2 (swap 2 v.toNat))
  | .i32 v | .u32 v | .ipv4 v => writeVariable Xbuf Xbuflen (image 4 (swap 4 v.toNat))
  | .i64 v | .u64 v => writeVariable Xbuf Xbuflen (os_put_value64 v.toNat)
  | .string none | .xml none => write_buffer_binary Xbuf Xbuflen [] 0
  | .string (some s) | .xml (some s) =>
      write_buffer_binary Xbuf Xbuflen s (i32 (cstr s).length)
  | .ipaddr (.ipv4 bytes _) => fun k =>
      writeVariable Xbuf Xbuflen (image 1 AF_INET) (writeVariable Xbuf Xbuflen bytes k)
  | .ipaddr (.ipv6 bytes _) => fun k =>
      writeVariable Xbuf Xbuflen (image 1 AF_INET6) (writeVariable Xbuf Xbuflen bytes k)
  | .ipaddr (.other _) => fun _ _ => pure (-1)
  | .uuid bytes _ => writeVariable Xbuf Xbuflen bytes
  | .double _ => fun _ _ => pure (-1)

/-- Type and id. -/
def field_begin_writer_to_buffer (key : Int) (field_type : TType) : Emitted := fun k =>
  writeVariable Xbuf Xbuflen (image 1 field_type.code)
    (writeVariable Xbuf Xbuflen (image 2 (swap 2 (BitVec.ofInt 16 key).toNat)) k)

/-- The byte behind the last field. -/
def field_stop_writer_to_buffer : Emitted :=
  writeVariable Xbuf Xbuflen (image 1 TType.T_STOP.code)

/-- Type and number of the elements. -/
def list_begin_writer_to_buffer (element_type : TType) (length : Nat) : Emitted :=
  fun k =>
    writeVariable Xbuf Xbuflen (image 1 element_type.code)
      (writeVariable Xbuf Xbuflen
        (image 4 (swap 4 (BitVec.ofNat 32 length).toNat)) k)

/-- The call of a structure's function, on what is left of the buffer. -/
def callToBuffer (f : Int → Nat → Prog Bytes Fault Int) : Emitted := fun k Xoffset => do
  let Xret ← f (Xbuf + Xoffset) (u64 (Xbuflen - Xoffset))
  if Xret < 0 then pure (-1) else k (i32 (Xoffset + Xret))

end ToBuffer

mutual

/-- The code for a value of a type. -/
def Ty.serialize_field_to_buffer : (t : Ty) → t.Val → Int → Nat → Emitted
  | .base _, v, Xbuf, Xbuflen => serialize_base_to_buffer Xbuf Xbuflen v.1
  | .enum _, v, Xbuf, Xbuflen => serialize_base_to_buffer Xbuf Xbuflen (.i32 v)
  | .struct _ fs, r, Xbuf, Xbuflen => callToBuffer Xbuf Xbuflen fun buf buflen =>
      fs.writer_to_buffer r buf buflen
        (field_stop_writer_to_buffer buf buflen pure) 0
  | .list e, vs, Xbuf, Xbuflen => fun k =>
      list_begin_writer_to_buffer Xbuf Xbuflen e.type_to_enum vs.length
        (vs.foldr (fun v k => e.serialize_field_to_buffer v Xbuf Xbuflen k) k)

/-- The code for the fields, in order. -/
def Fields.writer_to_buffer : (fs : Fields) → fs.Rec → Int → Nat → Emitted
  | .nil, _, _, _ => id
  | .cons key t fs, r, Xbuf, Xbuflen => fun k =>
      field_begin_writer_to_buffer Xbuf Xbuflen key t.type_to_enum
        (t.serialize_field_to_buffer r.1 Xbuf Xbuflen
          (fs.writer_to_buffer r.2 Xbuf Xbuflen k))

end

/-- The function `S_write_binary_to_buffer` of a definition `S`. -/
def Def.write_binary_to_buffer (d : Def) (r : d.fields.Rec) (Xbuf : Int)
    (Xbuflen : Nat) : Prog Bytes Fault Int :=
  let fields := d.fields.writer_to_buffer r Xbuf Xbuflen
    (field_stop_writer_to_buffer Xbuf Xbuflen pure)
  if d.sandesh then
    write_buffer_binary Xbuf Xbuflen d.name.text d.name.text.length fields 0
  else fields 0

end Sandesh.CGen
