/-
The bytes that the emitted readers take, and those of which they say
nothing.

The grammar relates what is left of a buffer in front of a piece of a
message to what is left behind it. Nothing is left (`none`) where the piece
is not there as it has to be and the emitted code returns -1: these checks
(generate_buffer_bounds_chk, and the last case of an address's family) do
not store an error. A field that the definition does not have is skipped;
the skip stores an error where a value is not there, and then the grammar
has no entry at all.

A skip takes the type of a list's elements from a variable of which it has
set one byte only, so what is left of a buffer comes with the bytes that
such variables hold.
-/
import Sandesh.Lib.Outcomes
import Sandesh.CGen.Idl
import Sandesh.Binary.Skip

namespace Sandesh.CGen

open Lib Binary Binary.C

-- ================================================================ bytes

/-- The number that the first `n` bytes are. -/
def numberAt (n : Nat) (bs : Bytes) : Nat := ofBe (bs.take n)

/-- The first four bytes as a length. -/
def sizeAt (bs : Bytes) : Int := (BitVec.ofNat 32 (numberAt 4 bs)).toInt

/-- `n`, if there are so many bytes. -/
def within (n : Nat) (bs : Bytes) : Option Nat := if bs.length < n then none else some n

/-- A length, and so many bytes; no bytes if it is negative. -/
def spanString (bs : Bytes) : Option Nat :=
  if bs.length < 4 then none else within (4 + (sizeAt bs).toNat) bs

/-- The number of bytes of the value that comes first. -/
def Base.span : Base → Bytes → Option Nat
  | .bool | .byte => within 1
  | .i16 | .u16 => within 2
  | .i32 | .u32 | .ipv4 => within 4
  | .i64 | .u64 => within 8
  | .uuid => within 16
  | .string | .xml => spanString
  | .ipaddr => fun bs =>
      if numberAt 1 bs = AF_INET then within 5 bs
      else if numberAt 1 bs = AF_INET6 then within 17 bs
      else none

-- ======================================================= what is left

/-- What is left of a buffer, and what variables hold that are not set. -/
structure Rest where
  bytes : Bytes
  stale : Bytes

namespace Rest

variable (p : Rest)

/-- Behind so many bytes. -/
def drop (n : Nat) : Rest := { p with bytes := p.bytes.drop n }

/-- The type of the field that comes first, and its id. -/
def type : Nat := thriftType (BitVec.ofNat 8 (numberAt 1 p.bytes))

/-- The id that comes behind the type. -/
def id : Int := (BitVec.ofNat 16 (numberAt 2 (p.bytes.drop 1))).toInt

/-- The header of the list that comes first: the number of its elements,
and their type as a skip has it. -/
def size : Int := sizeAt (p.bytes.drop 1)

/-- The byte of the type is copied into an integer of four. -/
def elem_type : Nat := ofImage (p.bytes.take 1 ++ (draw 3 p.stale).1)

/-- Behind that header. -/
def elements : Rest := ⟨p.bytes.drop 5, (draw 3 p.stale).2⟩

end Rest

/-- From what is left before to what is left behind. -/
abbrev Grammar := Rest → Option Rest → Prop

/-- So many bytes. -/
def spans (span : Bytes → Option Nat) : Grammar := fun p o => o = (span p.bytes).map p.drop

/-- One piece, and behind it another one. -/
def Grammar.before (A B : Grammar) : Grammar := fun p o =>
  ∃ r, A p r ∧ match r with
    | none => o = none
    | some q => B q o

/-- So many pieces in a row. -/
def times (A : Grammar) : Nat → Grammar
  | 0 => fun p o => o = some p
  | n + 1 => A.before (times A n)

/-- The turn goes on behind what it has taken. -/
def turned : Option Rest → Rest ⊕ Option Rest
  | none => .inr none
  | some q => .inl q

/-- A field, or the stop behind the last one; `field` is what follows a type
and an id. -/
def fieldTurn (field : Nat → Int → Grammar) (p : Rest) (o : Rest ⊕ Option Rest) : Prop :=
  if p.bytes.length < 1 then o = .inr none
  else if p.type = TType.T_STOP.code then o = .inr (some (p.drop 1))
  else if p.bytes.length < 3 then o = .inr none
  else ∃ r, field p.type p.id (p.drop 3) r ∧ o = turned r

/-- Fields, and the stop behind them. -/
def upToStop (field : Nat → Int → Grammar) : Grammar := Iterates (fieldTurn field)

-- ======================================================== skipped values

/-- A value of the type, of containers in one another `depth` deep at most.
A skip never falls short: it reports. -/
def skips : Nat → Nat → Grammar
  | 0, _ => fun _ _ => False
  | depth + 1, type => fun p o => o ≠ none ∧
      match shape type with
      | .fixed n => spans (within n) p o
      | .string => spans spanString p o
      | .struct => upToStop (fun type _ => skips depth type) p o
      | .list => 5 ≤ p.bytes.length ∧ 0 ≤ p.size ∧
          times (skips depth p.elem_type) p.size.toNat p.elements o
      | .default => o = some p

/-- Containers in one another as deep as may be. -/
def skipped (type : Nat) : Grammar := fun p o => ∃ depth, skips depth type p o

-- ============================================================ definitions

mutual

/-- What the reader of a type takes. -/
def Ty.takes : Ty → Grammar
  | .base b => spans b.span
  | .enum _ => spans (within 4)
  | .struct _ fs => upToStop fs.takes
  | .list e => fun p o =>
      if p.bytes.length < 5 then o = none
      else times e.takes (numberAt 4 (p.bytes.drop 1)) (p.drop 5) o

/-- The value of a field of this type and id. -/
def Fields.takes : Fields → Nat → Int → Grammar
  | .nil, type, _ => skipped type
  | .cons key t fs, type, id =>
      if id = key then
        if type = t.type_to_enum.code then t.takes else skipped type
      else fs.takes type id

end

/-- What the function of a definition takes: that of a sandesh reads the
name first. -/
def Def.takes (d : Def) : Grammar :=
  if d.sandesh then (spans spanString).before (upToStop d.fields.takes)
  else upToStop d.fields.takes

-- ============================================================== messages

/-- The name that a message begins with is not there. -/
def NameShort (p : Rest) : Prop :=
  p.bytes.length < 4 ∨ sizeAt p.bytes ≤ 0 ∨ (p.bytes.length : Int) < 4 + sizeAt p.bytes

instance (p : Rest) : Decidable (NameShort p) := inferInstanceAs (Decidable (_ ∨ _ ∨ _))

/-- The name in front, up to a NUL. -/
def Rest.name (p : Rest) : Bytes := cstr ((p.bytes.drop 4).take (sizeAt p.bytes).toNat)

section

variable (sinfo_find_fn : Bytes → Option Def)

/-- A message. No entry for a name that is not known: it is reported. -/
def message : Grammar := fun p o =>
  NameShort p ∧ o = none ∨
    ¬ NameShort p ∧ ∃ sinfo, sinfo_find_fn p.name = some sinfo ∧ sinfo.takes p o

/-- One more message, or the end of the bytes. -/
def messageTurn (p : Rest) (o : Rest ⊕ Option Rest) : Prop :=
  if p.bytes.length < 1 then o = .inr (some p)
  else ∃ r, message sinfo_find_fn p r ∧ o = turned r

/-- Messages up to the end of the buffer. -/
def messages : Grammar := Iterates (messageTurn sinfo_find_fn)

end

end Sandesh.CGen
