/-
The readers that t_c_generator emits (generate_struct_reader_from_buffer),
and `sandesh_decode` of library/c/sandesh.c, which calls them.

A member that no field was read for is `none`: it is as `os_zalloc` left
it. The `__isset_` members, which the reader sets and no writer of a
default field looks at, are left out. Allocation does not fail.
-/
import Sandesh.CGen.Write

namespace Sandesh.CGen

open Lib Binary Binary.C

mutual

/-- What a reader fills in. -/
def Ty.Got : Ty → Type
  | .base b => b.Val
  | .enum _ => BitVec 32
  | .struct _ fs => fs.Got
  | .list e => List e.Got

/-- What has been read of each field, if it was there. -/
def Fields.Got : Fields → Type
  | .nil => Unit
  | .cons _ t fs => Option t.Got × fs.Got

end

/-- `os_zalloc` of a structure. -/
def Fields.os_zalloc : (fs : Fields) → fs.Got
  | .nil => ()
  | .cons _ _ fs => (none, fs.os_zalloc)

-- =========================================================== statements

/-- Code that reads on from `Xoffset`, or returns -1. -/
def Scan (α : Type) : Type := Int → Prog Bytes Fault (Option (α × Int))

instance : Monad Scan where
  pure a := fun Xoffset => pure (some (a, Xoffset))
  bind m f := fun Xoffset => do
    match ← m Xoffset with
    | none => pure none
    | some (a, Xoffset) => f a Xoffset

/-- `return -1` -/
def Scan.fail {α : Type} : Scan α := fun _ => pure none

/-- `while (1)`, left by `break`. -/
def Scan.loop {γ : Type} (body : γ → Scan (γ ⊕ γ)) (g : γ) : Scan γ := fun Xoffset =>
  Prog.loop (fun (t : γ × Int) => do
    match ← body t.1 t.2 with
    | none => pure (.inr none)
    | some (.inl g, Xoffset) => pure (.inl (g, Xoffset))
    | some (.inr g, Xoffset) => pure (.inr (some (g, Xoffset)))) (g, Xoffset)

/-- `for (Xi = 0; Xi < size; Xi++)` -/
def Scan.times {α : Type} (m : Scan α) : Nat → Scan (List α)
  | 0 => pure []
  | n + 1 => do
      let v ← m
      let vs ← Scan.times m n
      pure (v :: vs)

section FromBuffer

variable (mem : Bytes)

/-- `memcpy` of `len` bytes from this place. -/
def memcpyFrom (pos : Int) (len : Nat) :
    Prog Bytes Fault { bs : Bytes // bs.length = len } :=
  if h : 0 ≤ pos ∧ pos.toNat + len ≤ mem.length then
    pure ⟨(mem.drop pos.toNat).take len, by
      rw [List.length_take, List.length_drop]
      omega⟩
  else Prog.throw .access

variable (Xbuf : Int) (Xbuflen : Nat)

/-- The check, the copy and the new offset. -/
def read_buffer_chk_memcpy_incr_offset (len : Nat) :
    Scan { bs : Bytes // bs.length = len } := fun Xoffset =>
  if Xbuflen < u64 (i32 (Xoffset + len)) then pure none
  else do
    let bs ← memcpyFrom mem (Xbuf + Xoffset) len
    pure (some (bs, i32 (Xoffset + len)))

/-- One byte. -/
def deserialize_byte_from_buffer : Scan (BitVec 8) := do
  let b ← read_buffer_chk_memcpy_incr_offset mem Xbuf Xbuflen 1
  pure (BitVec.ofNat 8 (ofImage b.1))

/-- Two bytes in network order. -/
def deserialize_i16_from_buffer : Scan (BitVec 16) := do
  let bytes ← read_buffer_chk_memcpy_incr_offset mem Xbuf Xbuflen 2
  pure (BitVec.ofNat 16 (swap 2 (ofImage bytes.1)))

/-- Four bytes in network order. -/
def deserialize_i32_from_buffer : Scan (BitVec 32) := do
  let bytes ← read_buffer_chk_memcpy_incr_offset mem Xbuf Xbuflen 4
  pure (BitVec.ofNat 32 (swap 4 (ofImage bytes.1)))

/-- Eight bytes in network order. -/
def deserialize_i64_from_buffer : Scan (BitVec 64) := do
  let b ← read_buffer_chk_memcpy_incr_offset mem Xbuf Xbuflen 8
  pure (BitVec.ofNat 64 (os_get_value64 b.1))

/-- A length and so many bytes; for a length that is not positive there is
no string. -/
def deserialize_string_from_buffer : Scan (Option Bytes) := do
  let Xread_len ← deserialize_i32_from_buffer mem Xbuf Xbuflen
  if Xread_len.toInt > 0 then do
    let bs ← read_buffer_chk_memcpy_incr_offset mem Xbuf Xbuflen Xread_len.toNat
    pure (some bs.1)
  else pure none

/-- A family and its bytes; another family ends the function. -/
def deserialize_ipaddr_from_buffer : Scan IpAddr := do
  let iptype ← deserialize_byte_from_buffer mem Xbuf Xbuflen
  if iptype.toNat = AF_INET then do
    let bs ← read_buffer_chk_memcpy_incr_offset mem Xbuf Xbuflen 4
    pure (.ipv4 bs.1 bs.2)
  else if iptype.toNat = AF_INET6 then do
    let bs ← read_buffer_chk_memcpy_incr_offset mem Xbuf Xbuflen 16
    pure (.ipv6 bs.1 bs.2)
  else Scan.fail

/-- `generate_deserialize_bool_from_buffer` and its kin. -/
def Base.deserialize_from_buffer : (b : Base) → Scan b.Val
  | .bool => do
      let b ← read_buffer_chk_memcpy_incr_offset mem Xbuf Xbuflen 1
      pure ⟨.bool (if ofImage b.1 ≠ 0 then 1 else 0), rfl⟩
  | .byte => do pure ⟨.byte (← deserialize_byte_from_buffer mem Xbuf Xbuflen), rfl⟩
  | .i16 => do pure ⟨.i16 (← deserialize_i16_from_buffer mem Xbuf Xbuflen), rfl⟩
  | .u16 => do pure ⟨.u16 (← deserialize_i16_from_buffer mem Xbuf Xbuflen), rfl⟩
  | .i32 => do pure ⟨.i32 (← deserialize_i32_from_buffer mem Xbuf Xbuflen), rfl⟩
  | .u32 => do pure ⟨.u32 (← deserialize_i32_from_buffer mem Xbuf Xbuflen), rfl⟩
  | .ipv4 => do pure ⟨.ipv4 (← deserialize_i32_from_buffer mem Xbuf Xbuflen), rfl⟩
  | .i64 => do pure ⟨.i64 (← deserialize_i64_from_buffer mem Xbuf Xbuflen), rfl⟩
  | .u64 => do pure ⟨.u64 (← deserialize_i64_from_buffer mem Xbuf Xbuflen), rfl⟩
  | .string => do pure ⟨.string (← deserialize_string_from_buffer mem Xbuf Xbuflen), rfl⟩
  | .xml => do pure ⟨.xml (← deserialize_string_from_buffer mem Xbuf Xbuflen), rfl⟩
  | .ipaddr => do pure ⟨.ipaddr (← deserialize_ipaddr_from_buffer mem Xbuf Xbuflen), rfl⟩
  | .uuid => do
      let bs ← read_buffer_chk_memcpy_incr_offset mem Xbuf Xbuflen 16
      pure ⟨.uuid bs.1 bs.2, rfl⟩

/-- A field that the definition does not have, or has with another type. -/
def skipUnknown (Xftype : Nat) : Scan Unit := fun Xoffset =>
  if Xbuf + Xoffset < 0 then Prog.throw .access
  else do
    let Xret ← thrift_binary_protocol_skip_from_buffer mem
      ⟨(Xbuf + Xoffset).toNat, u32 (Xbuflen - Xoffset), Xftype⟩
    if Xret < 0 then pure none else pure (some ((), i32 (Xoffset + Xret)))

/-- One turn of the loop over the fields; `fields` is the `switch`. -/
def readField {γ : Type} (fields : Int → Nat → γ → Scan γ) (g : γ) :
    Scan (γ ⊕ γ) := do
  let Xftype ← deserialize_byte_from_buffer mem Xbuf Xbuflen
  if thriftType Xftype = TType.T_STOP.code then pure (.inr g)
  else do
    let Xfid ← deserialize_i16_from_buffer mem Xbuf Xbuflen
    let g ← fields Xfid.toInt (thriftType Xftype) g
    pure (.inl g)

/-- The call of a structure's function, on what is left of the buffer. -/
def callFromBuffer {α : Type} (f : Int → Nat → Scan α) : Scan α := fun Xoffset => do
  match ← f (Xbuf + Xoffset) (u64 (Xbuflen - Xoffset)) 0 with
  | none => pure none
  | some (a, Xret) =>
      if Xret < 0 then pure none else pure (some (a, i32 (Xoffset + Xret)))

end FromBuffer

mutual

def Ty.deserialize_field_from_buffer (mem : Bytes) :
    (t : Ty) → Int → Nat → Scan t.Got
  | .base b, Xbuf, Xbuflen => b.deserialize_from_buffer mem Xbuf Xbuflen
  | .enum _, Xbuf, Xbuflen => deserialize_i32_from_buffer mem Xbuf Xbuflen
  | .struct _ fs, Xbuf, Xbuflen => callFromBuffer Xbuf Xbuflen fun buf buflen =>
      Scan.loop (readField mem buf buflen (fs.case_from_buffer mem buf buflen))
        fs.os_zalloc
  | .list e, Xbuf, Xbuflen => do
      let _ ← deserialize_byte_from_buffer mem Xbuf Xbuflen
      let size ← deserialize_i32_from_buffer mem Xbuf Xbuflen
      Scan.times (e.deserialize_field_from_buffer mem Xbuf Xbuflen) size.toNat

/-- The cases of `switch (Xfid)`. -/
def Fields.case_from_buffer (mem : Bytes) :
    (fs : Fields) → Int → Nat → Int → Nat → fs.Got → Scan fs.Got
  | .nil, Xbuf, Xbuflen, _, Xftype, g => do
      skipUnknown mem Xbuf Xbuflen Xftype
      pure g
  | .cons key t fs, Xbuf, Xbuflen, Xfid, Xftype, g =>
      if Xfid = key then
        if Xftype = t.type_to_enum.code then do
          let v ← t.deserialize_field_from_buffer mem Xbuf Xbuflen
          pure (some v, g.2)
        else do
          skipUnknown mem Xbuf Xbuflen Xftype
          pure g
      else do
        let rest ← fs.case_from_buffer mem Xbuf Xbuflen Xfid Xftype g.2
        pure (g.1, rest)

end

/-- The function `S_read_binary_from_buffer` of a definition `S`. -/
def Def.read_binary_from_buffer (d : Def) (mem : Bytes) (Xbuf : Int) (Xbuflen : Nat) :
    Scan d.fields.Got :=
  let fields := Scan.loop (readField mem Xbuf Xbuflen
    (d.fields.case_from_buffer mem Xbuf Xbuflen)) d.fields.os_zalloc
  if d.sandesh then do
    let _ ← deserialize_string_from_buffer mem Xbuf Xbuflen
    fields
  else fields

-- ==================================================== sandeshs in a row

/-- A sandesh to encode. -/
structure Message where
  sandesh : Def
  value : sandesh.fields.Rec
  named : sandesh.sandesh = true

/-- Encode each behind the one before. -/
def encodeEach : List Message → Int → Nat → Prog Bytes Fault Int
  | [], _, _ => pure 0
  | m :: ms, buf, buf_len => do
      let ret ← m.sandesh.write_binary_to_buffer m.value buf buf_len
      if ret < 0 then pure (-1)
      else do
        let rest ← encodeEach ms (buf + ret) (buf_len - ret.toNat)
        if rest < 0 then pure (-1) else pure (ret + rest)

/-- A call of a sandesh's process function. -/
structure Processed where
  sandesh : Def
  value : sandesh.fields.Got

section Decode

variable (mem : Bytes) (sinfo_find_fn : Bytes → Option Def)

/-- The result, and the call of the process function if it comes to that. -/
def sandesh_decode_one (buf buf_len : Nat) :
    Prog Bytes Fault (Int × Option Processed) :=
  if buf_len < 4 then pure (-1, none)
  else do
    let bytes4 ← memcpyFrom mem buf 4
    let sread_len := (BitVec.ofNat 32 (swap 4 (ofImage bytes4.1))).toInt
    if sread_len > 0 then
      if buf_len < u32 (4 + sread_len) then pure (-1, none)
      else do
        let sname ← memcpyFrom mem (buf + 4 : Nat) sread_len.toNat
        match sinfo_find_fn (cstr sname.1) with
        | none => pure (-1, none)
        | some sinfo => do
            match ← sinfo.read_binary_from_buffer mem buf buf_len 0 with
            | none => pure (-1, none)
            | some (value, rxfer) =>
                if rxfer < 0 then pure (-1, none)
                else pure (rxfer, some ⟨sinfo, value⟩)
    else pure (-1, none)

/-- One turn of the loop: `xfer`, and the calls so far. -/
def decodeTurn (buf_len : Nat) (t : Nat × List Processed) :
    Prog Bytes Fault ((Nat × List Processed) ⊕ (Int × List Processed)) :=
  if t.1 < buf_len then do
    let (ret, call) ← sandesh_decode_one mem sinfo_find_fn t.1 (buf_len - t.1)
    if ret < 0 then pure (.inr (ret, t.2))
    else pure (.inl (u32 (t.1 + ret), t.2 ++ call.toList))
  else pure (.inr (i32 t.1, t.2))

/-- The result, and the calls of process functions in order. -/
def sandesh_decode (buf_len : Nat) : Prog Bytes Fault (Int × List Processed) :=
  Prog.loop (decodeTurn mem sinfo_find_fn buf_len) (0, [])

end Decode

end Sandesh.CGen
