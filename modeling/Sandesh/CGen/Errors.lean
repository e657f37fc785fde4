/-
`*error`, next to the results (library/c/sandesh.c and its callees).

Three places write to it: `sandesh_decode_one` and `sandesh_encode`, for a
name without information, and `thrift_binary_protocol_skip_from_buffer`.
The emitted readers and writers hand the pointer on, and return -1 from
their own checks without a store. What has no way to the pointer is taken
from CGen/Read and CGen/Write as it is (`keeping`); the functions on the
way are given here once more, with it.

The emitted code for a required field does not compile (it stores to
`error`, where the parameter is `Xerror`), so all fields are default or
optional. Allocation does not fail.
-/
import Sandesh.Lib.Focus
import Sandesh.CGen.Read

namespace Sandesh.CGen.Errors

open Lib Binary Binary.C

/-- `*error`, and what the code works on besides: the bytes of variables
that are not set, for a reader; the memory, for a writer. -/
structure Env where
  state : Bytes
  error : Int
  deriving DecidableEq

/-- The state of the reader changes, `*error` does not. -/
def Env.setState (state : Bytes) (env : Env) : Env := { env with state := state }

/-- Code that does not write to `*error`. -/
def keeping {α : Type} (m : Prog Bytes Fault α) : Prog Env Fault α :=
  Prog.focus Env.state Env.setState m

/-- `*error = code;`, before `a` is returned. -/
def setting {α : Type} (code : Int) (a : α) : Prog Env Fault α :=
  Prog.act fun env => (.ok a, { env with error := code })

/-- The values that `*error` is set to. -/
def EINVAL : Int := 22
def THRIFT_TRANSPORT_ERROR_RECEIVE : Int := 5
def THRIFT_PROTOCOL_ERROR_NEGATIVE_SIZE : Int := 2

-- ======================================================= skipping a value

section Skip

variable (mem : Bytes)

/-- The functions of Binary/Skip.lean once more, with `*error`. -/
def skipFixed (n buflen : Nat) : Prog Env Fault Int :=
  if n > buflen then setting THRIFT_TRANSPORT_ERROR_RECEIVE (-1) else pure n

/-- A length and so many bytes. -/
def skipString (buf buflen : Nat) : Prog Env Fault Int :=
  if 4 > buflen then setting THRIFT_TRANSPORT_ERROR_RECEIVE (-1)
  else do
    let bytes ← keeping (fetch mem buf 4)
    let read_len := (BitVec.ofNat 32 (swap 4 (ofImage bytes))).toInt
    if read_len > 0 then
      if u32 (4 + read_len) > buflen then setting THRIFT_TRANSPORT_ERROR_RECEIVE (-1)
      else pure (i32 (4 + read_len))
    else pure 4

variable (skip : SkipArgs → Prog Env Fault Int)

/-- One turn of the loop for a structure. -/
def skipField (buf buflen result : Nat) : Prog Env Fault (Nat ⊕ Int) :=
  if 1 > u32 (buflen - result) then setting THRIFT_TRANSPORT_ERROR_RECEIVE (.inr (-1))
  else do
    let b ← keeping (fetch mem (buf + result) 1)
    let result := u32 (result + 1)
    let ftype := thriftType (BitVec.ofNat 8 (ofImage b))
    if ftype = TType.T_STOP.code then pure (.inr (i32 result))
    else if 2 > u32 (buflen - result) then
      setting THRIFT_TRANSPORT_ERROR_RECEIVE (.inr (-1))
    else do
      let result := u32 (result + 2)
      let ret ← skip ⟨buf + result, u32 (buflen - result), ftype⟩
      pure (.inl (u32 (result + ret)))

/-- One turn of the loop over the elements of a list. -/
def skipElement (buf buflen elem_type : Nat) (size : Int) (t : Nat × Nat) :
    Prog Env Fault ((Nat × Nat) ⊕ Int) :=
  if t.1 < size then do
    let ret ← skip ⟨buf + t.2, u32 (buflen - t.2), elem_type⟩
    pure (.inl (t.1 + 1, u32 (t.2 + ret)))
  else pure (.inr (i32 t.2))

/-- The list of the `switch`. -/
def skipList (buf buflen : Nat) : Prog Env Fault Int :=
  if 1 > buflen then setting THRIFT_TRANSPORT_ERROR_RECEIVE (-1)
  else do
    let b ← keeping (fetch mem buf 1)
    let rest ← keeping (drawStale 3)
    let elem_type := ofImage (b ++ rest)
    if 5 > buflen then setting THRIFT_TRANSPORT_ERROR_RECEIVE (-1)
    else do
      let bytes ← keeping (fetch mem (buf + 1) 4)
      let size := (BitVec.ofNat 32 (swap 4 (ofImage bytes))).toInt
      if size < 0 then setting THRIFT_PROTOCOL_ERROR_NEGATIVE_SIZE (-1)
      else Prog.loop (skipElement skip buf buflen elem_type size) (0, 5)

/-- The `switch`, with the recursion open. -/
def skipFromBufferBody (a : SkipArgs) : Prog Env Fault Int :=
  match shape a.type with
  | .fixed n => skipFixed n a.buflen
  | .string => skipString mem a.buf a.buflen
  | .struct => Prog.loop (skipField mem skip a.buf a.buflen) 0
  | .list => skipList mem skip a.buf a.buflen
  | .default => pure 0

end Skip

section

open Prog

theorem skipFromBufferBody_mono (mem : Bytes) : Monotone (skipFromBufferBody mem) := by
  intro n g h hgh a
  have hfield : ∀ t, Le n (skipField mem g a.buf a.buflen t)
      (skipField mem h a.buf a.buflen t) := by
    intro t
    unfold skipField
    refine le_ite (le_refl _) (le_bind (le_refl _) fun b => ?_)
    exact le_ite (le_refl _) (le_ite (le_refl _)
      (le_bind (hgh _) fun ret => le_refl _))
  have helement : ∀ elem_type size t, Le n (skipElement g a.buf a.buflen elem_type size t)
      (skipElement h a.buf a.buflen elem_type size t) := by
    intro elem_type size t
    exact le_ite (le_bind (hgh _) fun ret => le_refl _) (le_refl _)
  unfold skipFromBufferBody
  cases shape a.type with
  | struct => exact le_loop hfield _
  | list =>
      exact le_ite (le_refl _) (le_bind (le_refl _) fun b =>
        le_bind (le_refl _) fun rest => le_ite (le_refl _)
        (le_bind (le_refl _) fun bytes => le_ite (le_refl _) (le_loop (helement _ _) _)))
  | fixed | string | default => exact le_refl _

end

/-- `thrift_binary_protocol_skip_from_buffer`. -/
def thrift_binary_protocol_skip_from_buffer (mem : Bytes) (a : SkipArgs) :
    Prog Env Fault Int :=
  Prog.fix (skipFromBufferBody mem) (skipFromBufferBody_mono mem) a

-- =========================================================== statements

/-- Code that reads on from `Xoffset`, or returns -1. -/
def Reads (α : Type) : Type := Int → Prog Env Fault (Option (α × Int))

instance : Monad Reads where
  pure a := fun Xoffset => pure (some (a, Xoffset))
  bind m f := fun Xoffset => do
    match ← m Xoffset with
    | none => pure none
    | some (a, Xoffset) => f a Xoffset

/-- An emitted statement that does not pass the pointer on. -/
def Reads.scan {α : Type} (m : Scan α) : Reads α := fun Xoffset => keeping (m Xoffset)

/-- `while (1)`, left by `break`. -/
def Reads.loop {γ : Type} (body : γ → Reads (γ ⊕ γ)) (g : γ) : Reads γ := fun Xoffset =>
  Prog.loop (fun (t : γ × Int) => do
    match ← body t.1 t.2 with
    | none => pure (.inr none)
    | some (.inl g, Xoffset) => pure (.inl (g, Xoffset))
    | some (.inr g, Xoffset) => pure (.inr (some (g, Xoffset)))) (g, Xoffset)

/-- `for (Xi = 0; Xi < size; Xi++)` -/
def Reads.times {α : Type} (m : Reads α) : Nat → Reads (List α)
  | 0 => pure []
  | n + 1 => do
      let v ← m
      let vs ← Reads.times m n
      pure (v :: vs)

section FromBuffer

variable (mem : Bytes) (Xbuf : Int) (Xbuflen : Nat)

/-- A field that the definition does not have, or has with another type. -/
def skipUnknown (Xftype : Nat) : Reads Unit := fun Xoffset =>
  if Xbuf + Xoffset < 0 then Prog.throw .access
  else do
    let Xret ← thrift_binary_protocol_skip_from_buffer mem
      ⟨(Xbuf + Xoffset).toNat, u32 (Xbuflen - Xoffset), Xftype⟩
    if Xret < 0 then pure none else pure (some ((), i32 (Xoffset + Xret)))

/-- One turn of the loop over the fields; `fields` is the `switch`. -/
def readField {γ : Type} (fields : Int → Nat → γ → Reads γ) (g : γ) :
    Reads (γ ⊕ γ) := do
  let Xftype ← Reads.scan (deserialize_byte_from_buffer mem Xbuf Xbuflen)
  if thriftType Xftype = TType.T_STOP.code then pure (.inr g)
  else do
    let Xfid ← Reads.scan (deserialize_i16_from_buffer mem Xbuf Xbuflen)
    let g ← fields Xfid.toInt (thriftType Xftype) g
    pure (.inl g)

/-- The call of a structure's function, on what is left of the buffer. -/
def callFromBuffer {α : Type} (f : Int → Nat → Reads α) : Reads α := fun Xoffset => do
  match ← f (Xbuf + Xoffset) (u64 (Xbuflen - Xoffset)) 0 with
  | none => pure none
  | some (a, Xret) =>
      if Xret < 0 then pure none else pure (some (a, i32 (Xoffset + Xret)))

end FromBuffer

mutual

/-- The readers of CGen/Read.lean, with `*error` handed on to the skip. -/
def deserialize_field_from_buffer (mem : Bytes) :
    (t : Ty) → Int → Nat → Reads t.Got
  | .base b, Xbuf, Xbuflen => Reads.scan (b.deserialize_from_buffer mem Xbuf Xbuflen)
  | .enum _, Xbuf, Xbuflen => Reads.scan (deserialize_i32_from_buffer mem Xbuf Xbuflen)
  | .struct _ fs, Xbuf, Xbuflen => callFromBuffer Xbuf Xbuflen fun buf buflen =>
      Reads.loop (readField mem buf buflen (case_from_buffer mem fs buf buflen))
        fs.os_zalloc
  | .list e, Xbuf, Xbuflen => do
      let _ ← Reads.scan (deserialize_byte_from_buffer mem Xbuf Xbuflen)
      let size ← Reads.scan (deserialize_i32_from_buffer mem Xbuf Xbuflen)
      Reads.times (deserialize_field_from_buffer mem e Xbuf Xbuflen) size.toNat

/-- The cases of `switch (Xfid)`. -/
def case_from_buffer (mem : Bytes) :
    (fs : Fields) → Int → Nat → Int → Nat → fs.Got → Reads fs.Got
  | .nil, Xbuf, Xbuflen, _, Xftype, g => do
      skipUnknown mem Xbuf Xbuflen Xftype
      pure g
  | .cons key t fs, Xbuf, Xbuflen, Xfid, Xftype, g =>
      if Xfid = key then
        if Xftype = t.type_to_enum.code then do
          let v ← deserialize_field_from_buffer mem t Xbuf Xbuflen
          pure (some v, g.2)
        else do
          skipUnknown mem Xbuf Xbuflen Xftype
          pure g
      else do
        let rest ← case_from_buffer mem fs Xbuf Xbuflen Xfid Xftype g.2
        pure (g.1, rest)

end

/-- The function `S_read_binary_from_buffer` of a definition `S`. -/
def read_binary_from_buffer (d : Def) (mem : Bytes) (Xbuf : Int) (Xbuflen : Nat) :
    Reads d.fields.Got :=
  let fields := Reads.loop (readField mem Xbuf Xbuflen
    (case_from_buffer mem d.fields Xbuf Xbuflen)) d.fields.os_zalloc
  if d.sandesh then do
    let _ ← Reads.scan (deserialize_string_from_buffer mem Xbuf Xbuflen)
    fields
  else fields

-- ============================================================ sandesh.c

section Decode

variable (mem : Bytes) (sinfo_find_fn : Bytes → Option Def)

/-- The result, and the call of the process function if it comes to that. -/
def sandesh_decode_one (buf buf_len : Nat) :
    Prog Env Fault (Int × Option Processed) :=
  if buf_len < 4 then pure (-1, none)
  else do
    let bytes4 ← keeping (memcpyFrom mem buf 4)
    let sread_len := (BitVec.ofNat 32 (swap 4 (ofImage bytes4.1))).toInt
    if sread_len > 0 then
      if buf_len < u32 (4 + sread_len) then pure (-1, none)
      else do
        let sname ← keeping (memcpyFrom mem (buf + 4 : Nat) sread_len.toNat)
        match sinfo_find_fn (cstr sname.1) with
        | none => setting EINVAL (-1, none)
        | some sinfo => do
            match ← read_binary_from_buffer sinfo mem buf buf_len 0 with
            | none => pure (-1, none)
            | some (value, rxfer) =>
                if rxfer < 0 then pure (-1, none)
                else pure (rxfer, some ⟨sinfo, value⟩)
    else pure (-1, none)

/-- One turn of the loop: `xfer`, and the calls so far. -/
def decodeTurn (buf_len : Nat) (t : Nat × List Processed) :
    Prog Env Fault ((Nat × List Processed) ⊕ (Int × List Processed)) :=
  if t.1 < buf_len then do
    let (ret, call) ← sandesh_decode_one mem sinfo_find_fn t.1 (buf_len - t.1)
    if ret < 0 then pure (.inr (ret, t.2))
    else pure (.inl (u32 (t.1 + ret), t.2 ++ call.toList))
  else pure (.inr (i32 t.1, t.2))

/-- The result, and the calls of process functions in order. -/
def sandesh_decode (buf_len : Nat) : Prog Env Fault (Int × List Processed) :=
  Prog.loop (decodeTurn mem sinfo_find_fn buf_len) (0, [])

end Decode

end Sandesh.CGen.Errors
