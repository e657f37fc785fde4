/-
Skipping a value (library/c/protocol/thrift_protocol.c):
`thrift_binary_protocol_skip_from_buffer` and `thrift_protocol_skip` over
the binary protocol and a memory buffer.

Both add the results of recursive calls to an unsigned sum, errors
included, so neither need come to an end on every input. Variables that are
read before they are set hold `stale` bytes. An access outside the buffer,
and freeing a pointer that was never set, end the run (`Fault`).
-/
import Sandesh.Lib.Fix
import Sandesh.Binary.C

namespace Sandesh.Binary

open Lib C

/-- What ends a run of the C code: an access outside of the buffer, or
`free` of what was not allocated. -/
inductive Fault
  | access
  | free
  deriving DecidableEq

/-- The cases of the two `switch`es. -/
inductive Shape
  | fixed (n : Nat)
  | string
  | struct
  | list
  | default

/-- What a type's `case` of the `switch` does. -/
def TType.shape : TType → Shape
  | T_BOOL | T_BYTE => .fixed 1
  | T_I16 | T_U16 => .fixed 2
  | T_I32 | T_U32 | T_IPV4 => .fixed 4
  | T_I64 | T_U64 | T_DOUBLE => .fixed 8
  | T_UUID => .fixed 16
  | T_STRING | T_XML => .string
  | T_STRUCT => .struct
  | T_LIST => .list
  | _ => .default

/-- The same by the byte of the type; a byte without a type is skipped as
nothing. -/
def shape (type : Nat) : Shape :=
  match TType.ofCode type with
  | some t => t.shape
  | none => .default

-- ================================================= from bytes in memory

section FromBuffer

variable (mem : Bytes)

/-- `memcpy` of `n` bytes from this offset of the buffer. -/
def fetch (pos n : Nat) : Prog Bytes Fault Bytes :=
  if pos + n ≤ mem.length then pure ((mem.drop pos).take n)
  else Prog.throw .access

/-- Bytes of a variable that is only set in part. -/
def drawStale (n : Nat) : Prog Bytes Fault Bytes :=
  Prog.act fun stale => (.ok (draw n stale).1, (draw n stale).2)

/-- The arguments of `thrift_binary_protocol_skip_from_buffer`: where `buf`
points to in memory, `buflen`, and `type`. -/
structure SkipArgs where
  buf : Nat
  buflen : Nat
  type : Nat

/-- `if (n > buflen) return -1; return n;` -/
def skipFixed (n buflen : Nat) : Prog Bytes Fault Int :=
  pure (if n > buflen then -1 else n)

/-- A length and so many bytes. -/
def skipString (buf buflen : Nat) : Prog Bytes Fault Int :=
  if 4 > buflen then pure (-1)
  else do
    let bytes ← fetch mem buf 4
    let read_len := (BitVec.ofNat 32 (swap 4 (ofImage bytes))).toInt
    if read_len > 0 then
      if u32 (4 + read_len) > buflen then pure (-1)
      else pure (i32 (4 + read_len))
    else pure 4

variable (skip : SkipArgs → Prog Bytes Fault Int)

/-- One turn of the loop for a structure. -/
def skipField (buf buflen result : Nat) : Prog Bytes Fault (Nat ⊕ Int) :=
  if 1 > u32 (buflen - result) then pure (.inr (-1))
  else do
    let b ← fetch mem (buf + result) 1
    let result := u32 (result + 1)
    let ftype := thriftType (BitVec.ofNat 8 (ofImage b))
    if ftype = TType.T_STOP.code then pure (.inr (i32 result))
    else if 2 > u32 (buflen - result) then pure (.inr (-1))
    else do
      let result := u32 (result + 2)
      let ret ← skip ⟨buf + result, u32 (buflen - result), ftype⟩
      pure (.inl (u32 (result + ret)))

/-- One turn of the loop over the elements of a list. -/
def skipElement (buf buflen elem_type : Nat) (size : Int) (t : Nat × Nat) :
    Prog Bytes Fault ((Nat × Nat) ⊕ Int) :=
  if t.1 < size then do
    let ret ← skip ⟨buf + t.2, u32 (buflen - t.2), elem_type⟩
    pure (.inl (t.1 + 1, u32 (t.2 + ret)))
  else pure (.inr (i32 t.2))

/-- Only one of the four bytes of `elem_type` comes from the buffer. -/
def skipList (buf buflen : Nat) : Prog Bytes Fault Int :=
  if 1 > buflen then pure (-1)
  else do
    let b ← fetch mem buf 1
    let rest ← drawStale 3
    let elem_type := ofImage (b ++ rest)
    if 5 > buflen then pure (-1)
    else do
      let bytes ← fetch mem (buf + 1) 4
      let size := (BitVec.ofNat 32 (swap 4 (ofImage bytes))).toInt
      if size < 0 then pure (-1)
      else Prog.loop (skipElement skip buf buflen elem_type size) (0, 5)

/-- The `switch`, with the recursion open. -/
def skipFromBufferBody (a : SkipArgs) : Prog Bytes Fault Int :=
  match shape a.type with
  | .fixed n => skipFixed n a.buflen
  | .string => skipString mem a.buf a.buflen
  | .struct => Prog.loop (skipField mem skip a.buf a.buflen) 0
  | .list => skipList mem skip a.buf a.buflen
  | .default => pure 0

end FromBuffer

section

open Prog

theorem skipField_mono (mem : Bytes) {n : Nat} {g h : SkipArgs → Prog Bytes Fault Int}
    (hgh : ∀ a, Le n (g a) (h a)) (buf buflen result : Nat) :
    Le n (skipField mem g buf buflen result) (skipField mem h buf buflen result) := by
  unfold skipField
  refine le_ite (le_refl _) (le_bind (le_refl _) fun b => ?_)
  exact le_ite (le_refl _) (le_ite (le_refl _)
    (le_bind (hgh _) fun ret => le_refl _))

theorem skipList_mono (mem : Bytes) {n : Nat} {g h : SkipArgs → Prog Bytes Fault Int}
    (hgh : ∀ a, Le n (g a) (h a)) (buf buflen : Nat) :
    Le n (skipList mem g buf buflen) (skipList mem h buf buflen) := by
  unfold skipList
  refine le_ite (le_refl _) (le_bind (le_refl _) fun b =>
    le_bind (le_refl _) fun rest => le_ite (le_refl _)
    (le_bind (le_refl _) fun bytes => le_ite (le_refl _) (le_loop (fun t => ?_) _)))
  exact le_ite (le_bind (hgh _) fun ret => le_refl _) (le_refl _)

theorem skipFromBufferBody_mono (mem : Bytes) : Monotone (skipFromBufferBody mem) := by
  intro n g h hgh a
  unfold skipFromBufferBody
  cases shape a.type with
  | struct => exact le_loop (fun t => skipField_mono mem hgh _ _ t) _
  | list => exact skipList_mono mem hgh _ _
  | fixed | string | default => exact le_refl _

end

/-- `thrift_binary_protocol_skip_from_buffer`. -/
def thrift_binary_protocol_skip_from_buffer (mem : Bytes) (a : SkipArgs) :
    Prog Bytes Fault Int :=
  Prog.fix (skipFromBufferBody mem) (skipFromBufferBody_mono mem) a

-- ================================================= through the protocol

/-- A call through the protocol, whose result may be -1. -/
def protocolCall {α : Type} (f : Reader Buffer α) : Prog Input Fault (Option α × Int) :=
  Prog.act fun s =>
    match f s.buffer with
    | (none, b) => (.ok (none, -1), { s with buffer := b })
    | (some (v, ret), b) => (.ok (some v, ret), { s with buffer := b })

/-- Bytes of a variable that is not set. -/
def unset (n : Nat) : Prog Input Fault Nat :=
  Prog.act fun s =>
    (.ok (ofImage (draw n s.stale).1), { s with stale := (draw n s.stale).2 })

/-- A call whose value nobody looks at. -/
def protocolRead {α : Type} (f : Reader Buffer α) : Prog Input Fault Int := do
  let (_, ret) ← protocolCall f
  pure ret

/-- `read_field_begin` into `ftype`, which is set as soon as it is known. -/
def readFieldType (ftype : Nat) : Prog Input Fault (Nat × Int) := do
  let (type, ret) ← protocolCall (read_byte memoryBuffer)
  match type with
  | none => pure (ftype, -1)
  | some type =>
      if thriftType type = TType.T_STOP.code then pure (thriftType type, ret)
      else do
        let (id, ret') ← protocolCall (read_i16 memoryBuffer)
        match id with
        | none => pure (thriftType type, -1)
        | some _ => pure (thriftType type, i32 (ret + ret'))

/-- `read_list_begin` into `elem_type` and `size`. -/
def readListType (elem_type size : Nat) : Prog Input Fault (Nat × Nat × Int) := do
  let (e, ret) ← protocolCall (read_byte memoryBuffer)
  match e with
  | none => pure (elem_type, size, -1)
  | some e => do
      let (sizei, ret') ← protocolCall (read_i32 memoryBuffer)
      match sizei with
      | none => pure (thriftType e, size, -1)
      | some sizei =>
          if sizei.toInt < 0 then pure (thriftType e, size, -1)
          else pure (thriftType e, sizei.toNat, i32 (ret + ret'))

/-- `read_binary` leaves `data` alone where it cannot read the length. -/
def skipBinary : Prog Input Fault Int := do
  let (len, ret) ← protocolCall (read_i32 memoryBuffer)
  match len with
  | none => Prog.throw .free
  | some len =>
      if len.toInt > 0 then do
        let (data, ret') ← protocolCall (get memoryBuffer len.toNat)
        match data with
        | none => pure (-1)
        | some _ => pure (i32 (ret + ret'))
      else pure ret

variable (skip : Nat → Prog Input Fault Int)

/-- One turn of the loop over fields. -/
def skipProtocolField (t : Nat × Nat) :
    Prog Input Fault ((Nat × Nat) ⊕ Int) := do
  let (ftype, ret) ← readFieldType t.1
  let result := u32 (t.2 + ret)
  if ftype = TType.T_STOP.code then pure (.inr (i32 result))
  else do
    let ret ← skip ftype
    pure (.inl (ftype, u32 (result + ret)))

/-- One turn of the loop over elements. -/
def skipProtocolElement (elem_type size : Nat) (t : Nat × Nat) :
    Prog Input Fault ((Nat × Nat) ⊕ Int) :=
  if t.1 < size then do
    let ret ← skip elem_type
    pure (.inl (t.1 + 1, u32 (t.2 + ret)))
  else pure (.inr (i32 t.2))

/-- The types whose values are read and thrown away. -/
def skipRead : TType → Prog Input Fault Int
  | .T_BOOL => protocolRead (read_bool memoryBuffer)
  | .T_BYTE => protocolRead (read_byte memoryBuffer)
  | .T_I16 => protocolRead (read_i16 memoryBuffer)
  | .T_I32 => protocolRead (read_i32 memoryBuffer)
  | .T_I64 => protocolRead (read_i64 memoryBuffer)
  | .T_U16 => protocolRead (read_u16 memoryBuffer)
  | .T_U32 => protocolRead (read_u32 memoryBuffer)
  | .T_U64 => protocolRead (read_u64 memoryBuffer)
  | .T_IPV4 => protocolRead (read_ipv4 memoryBuffer)
  | .T_DOUBLE => protocolRead (read_double memoryBuffer)
  | .T_UUID => protocolRead (read_uuid_t memoryBuffer)
  | _ => pure 0

/-- The `switch` of the other function, with the recursion open. -/
def skipBody (type : Nat) : Prog Input Fault Int :=
  match TType.ofCode type with
  | none => pure 0
  | some t =>
      match t.shape with
      | .fixed _ => skipRead t
      | .string => skipBinary
      | .struct => do
          let ftype ← unset 4
          Prog.loop (skipProtocolField skip) (ftype, 0)
      | .list => do
          let elem_type ← unset 4
          let size ← unset 4
          let (elem_type, size, ret) ← readListType elem_type size
          Prog.loop (skipProtocolElement skip elem_type size) (0, u32 ret)
      | .default => pure 0

section

open Prog

theorem skipBody_mono : Monotone skipBody := by
  intro n g h hgh type
  have hfield : ∀ t, Le n (skipProtocolField g t) (skipProtocolField h t) := by
    intro t
    unfold skipProtocolField
    exact le_bind (le_refl _) fun r => le_ite (le_refl _)
      (le_bind (hgh _) fun ret => le_refl _)
  have helement : ∀ elem_type size t,
      Le n (skipProtocolElement g elem_type size t)
        (skipProtocolElement h elem_type size t) := by
    intro elem_type size t
    unfold skipProtocolElement
    exact le_ite (le_bind (hgh _) fun ret => le_refl _) (le_refl _)
  unfold skipBody
  cases TType.ofCode type with
  | none => exact le_refl _
  | some t =>
      dsimp only
      cases t.shape with
      | struct => exact le_bind (le_refl _) fun ftype => le_loop hfield _
      | list =>
          exact le_bind (le_refl _) fun elem_type => le_bind (le_refl _) fun size =>
            le_bind (le_refl _) fun r => le_loop (helement _ _) _
      | fixed | string | default => exact le_refl _

end

/-- `thrift_protocol_skip`. -/
def thrift_protocol_skip (type : Nat) : Prog Input Fault Int :=
  Prog.fix skipBody skipBody_mono type

end Sandesh.Binary
