/-
Without `*error` the functions of CGen/Errors are those of CGen/Read.

What is proved of a decoder's result in either place holds in the other:
the error code is written and never read.
-/
import Sandesh.CGen.Errors

namespace Sandesh.CGen.Errors

open Lib Binary Binary.C
open Lib.Prog (Over over_pure over_throw over_focus over_note over_bind over_ite
  over_loop over_fix)

/-- Without `*error` a call that hands it on is the call alone. -/
theorem over_keeping {α : Type} (m : Prog Bytes Fault α) :
    Over Env.state (keeping m) m :=
  over_focus (fun _ _ => rfl) m

/-- Setting `*error` leaves no trace in the rest. -/
theorem over_setting {α : Type} (code : Int) (a : α) :
    Over Env.state (setting code a) (pure a) :=
  over_note fun _ => rfl

-- ======================================================= skipping a value

section Skip

variable (mem : Bytes)

/-- Each part of the skip, with `*error` taken away, is the part without it.
-/
theorem over_skipFixed (n buflen : Nat) :
    Over Env.state (skipFixed n buflen) (Binary.skipFixed n buflen) := by
  unfold Binary.skipFixed
  rw [apply_ite pure]
  exact over_ite (over_setting _ _) (over_pure _)

theorem over_skipString (buf buflen : Nat) :
    Over Env.state (skipString mem buf buflen) (Binary.skipString mem buf buflen) := by
  refine over_ite (over_setting _ _) (over_bind (over_keeping _) fun bytes => ?_)
  exact over_ite (over_ite (over_setting _ _) (over_pure _)) (over_pure _)

variable {skip' : SkipArgs → Prog Env Fault Int} {skip : SkipArgs → Prog Bytes Fault Int}
  (hskip : ∀ a, Over Env.state (skip' a) (skip a))

include hskip

theorem over_skipField (buf buflen result : Nat) :
    Over Env.state (skipField mem skip' buf buflen result)
      (Binary.skipField mem skip buf buflen result) := by
  refine over_ite (over_setting _ _) (over_bind (over_keeping _) fun b => ?_)
  refine over_ite (over_pure _) (over_ite (over_setting _ _) ?_)
  exact over_bind (hskip _) fun _ => over_pure _

theorem over_skipElement (buf buflen elem_type : Nat) (size : Int) (t : Nat × Nat) :
    Over Env.state (skipElement skip' buf buflen elem_type size t)
      (Binary.skipElement skip buf buflen elem_type size t) :=
  over_ite (over_bind (hskip _) fun _ => over_pure _) (over_pure _)

theorem over_skipList (buf buflen : Nat) :
    Over Env.state (skipList mem skip' buf buflen)
      (Binary.skipList mem skip buf buflen) := by
  refine over_ite (over_setting _ _) (over_bind (over_keeping _) fun b =>
    over_bind (over_keeping _) fun rest => over_ite (over_setting _ _)
    (over_bind (over_keeping _) fun bytes => over_ite (over_setting _ _) ?_))
  exact over_loop (over_skipElement hskip _ _ _ _) _

theorem over_skipFromBufferBody (a : SkipArgs) :
    Over Env.state (skipFromBufferBody mem skip' a)
      (Binary.skipFromBufferBody mem skip a) := by
  unfold skipFromBufferBody Binary.skipFromBufferBody
  cases shape a.type with
  | fixed n => exact over_skipFixed n _
  | string => exact over_skipString mem _ _
  | struct => exact over_loop (over_skipField mem hskip _ _) _
  | list => exact over_skipList mem hskip _ _
  | default => exact over_pure _

end Skip

/-- The skip as a whole. -/
theorem over_skip_from_buffer (mem : Bytes) (a : SkipArgs) :
    Over Env.state (thrift_binary_protocol_skip_from_buffer mem a)
      (Binary.thrift_binary_protocol_skip_from_buffer mem a) :=
  over_fix (fun h => over_skipFromBufferBody mem h) a

-- =========================================================== statements

/-- The code with `*error` reads as the code without. -/
def Erases {α : Type} (m' : Reads α) (m : Scan α) : Prop :=
  ∀ Xoffset, Over Env.state (m' Xoffset) (m Xoffset)

section Statements

variable {α β γ : Type}

/-- The rules by which `*error` is taken away from a reader. -/
theorem erases_pure (a : α) : Erases (pure a) (pure a) :=
  fun _ => over_pure _

theorem erases_scan (m : Scan α) : Erases (Reads.scan m) m :=
  fun _ => over_keeping _

theorem Erases.bind {m' : Reads α} {m : Scan α} {f' : α → Reads β} {f : α → Scan β}
    (hm : Erases m' m) (hf : ∀ a, Erases (f' a) (f a)) :
    Erases (m' >>= f') (m >>= f) := by
  intro Xoffset
  refine over_bind (hm Xoffset) fun o => ?_
  match o with
  | none => exact over_pure _
  | some (a, Xoffset) => exact hf a Xoffset

theorem Erases.loop {body' : γ → Reads (γ ⊕ γ)} {body : γ → Scan (γ ⊕ γ)}
    (h : ∀ g, Erases (body' g) (body g)) (g : γ) :
    Erases (Reads.loop body' g) (Scan.loop body g) := by
  intro Xoffset
  refine over_loop (fun (t : γ × Int) => over_bind (h t.1 t.2) fun o => ?_) _
  match o with
  | none => exact over_pure _
  | some (.inl g, Xoffset) => exact over_pure _
  | some (.inr g, Xoffset) => exact over_pure _

theorem Erases.times {m' : Reads α} {m : Scan α} (h : Erases m' m) (n : Nat) :
    Erases (Reads.times m' n) (Scan.times m n) := by
  induction n with
  | zero => exact erases_pure _
  | succ n ih => exact h.bind fun v => ih.bind fun vs => erases_pure _

/-- The readers' parts, one by one. -/
theorem erases_skipUnknown (mem : Bytes) (Xbuf : Int) (Xbuflen Xftype : Nat) :
    Erases (skipUnknown mem Xbuf Xbuflen Xftype)
      (CGen.skipUnknown mem Xbuf Xbuflen Xftype) := by
  intro Xoffset
  refine over_ite (over_throw _) (over_bind (over_skip_from_buffer mem _) fun Xret => ?_)
  exact over_ite (over_pure _) (over_pure _)

theorem erases_readField (mem : Bytes) (Xbuf : Int) (Xbuflen : Nat)
    {fields' : Int → Nat → γ → Reads γ} {fields : Int → Nat → γ → Scan γ}
    (h : ∀ Xfid Xftype g, Erases (fields' Xfid Xftype g) (fields Xfid Xftype g)) (g : γ) :
    Erases (readField mem Xbuf Xbuflen fields' g)
      (CGen.readField mem Xbuf Xbuflen fields g) := by
  refine (erases_scan _).bind fun Xftype => ?_
  by_cases hstop : thriftType Xftype = TType.T_STOP.code
  · rw [if_pos hstop, if_pos hstop]
    exact erases_pure _
  · rw [if_neg hstop, if_neg hstop]
    exact (erases_scan _).bind fun Xfid => (h _ _ g).bind fun g => erases_pure _

theorem erases_callFromBuffer (Xbuf : Int) (Xbuflen : Nat) {f' : Int → Nat → Reads α}
    {f : Int → Nat → Scan α} (h : ∀ buf buflen, Erases (f' buf buflen) (f buf buflen)) :
    Erases (callFromBuffer Xbuf Xbuflen f') (CGen.callFromBuffer Xbuf Xbuflen f) := by
  intro Xoffset
  refine over_bind (h _ _ 0) fun o => ?_
  match o with
  | none => exact over_pure _
  | some (a, Xret) => exact over_ite (over_pure _) (over_pure _)

end Statements

-- ============================================================== readers

mutual

/-- A reader of a type, by induction on the type. -/
theorem erases_field (mem : Bytes) : (t : Ty) → (Xbuf : Int) → (Xbuflen : Nat) →
    Erases (deserialize_field_from_buffer mem t Xbuf Xbuflen)
      (t.deserialize_field_from_buffer mem Xbuf Xbuflen)
  | .base _, _, _ => erases_scan _
  | .enum _, _, _ => erases_scan _
  | .struct _ fs, Xbuf, Xbuflen => erases_callFromBuffer Xbuf Xbuflen fun buf buflen =>
      .loop (erases_readField mem buf buflen (erases_case mem fs buf buflen)) _
  | .list e, Xbuf, Xbuflen => (erases_scan _).bind fun _ =>
      (erases_scan _).bind fun _ => (erases_field mem e Xbuf Xbuflen).times _

/-- The `switch` of a structure. -/
theorem erases_case (mem : Bytes) : (fs : Fields) → (Xbuf : Int) → (Xbuflen : Nat) →
    (Xfid : Int) → (Xftype : Nat) → (g : fs.Got) →
    Erases (case_from_buffer mem fs Xbuf Xbuflen Xfid Xftype g)
      (fs.case_from_buffer mem Xbuf Xbuflen Xfid Xftype g)
  | .nil, Xbuf, Xbuflen, _, Xftype, g =>
      (erases_skipUnknown mem Xbuf Xbuflen Xftype).bind fun _ => erases_pure _
  | .cons key t fs, Xbuf, Xbuflen, Xfid, Xftype, g => by
      unfold case_from_buffer Fields.case_from_buffer
      by_cases hkey : Xfid = key
      · rw [if_pos hkey, if_pos hkey]
        by_cases htype : Xftype = t.type_to_enum.code
        · rw [if_pos htype, if_pos htype]
          exact (erases_field mem t Xbuf Xbuflen).bind fun v => erases_pure _
        · rw [if_neg htype, if_neg htype]
          exact (erases_skipUnknown mem Xbuf Xbuflen Xftype).bind fun _ => erases_pure _
      · rw [if_neg hkey, if_neg hkey]
        exact (erases_case mem fs Xbuf Xbuflen Xfid Xftype g.2).bind fun rest =>
          erases_pure _

end

/-- The emitted function for a definition. -/
theorem erases_read_binary (d : Def) (mem : Bytes) (Xbuf : Int) (Xbuflen : Nat) :
    Erases (read_binary_from_buffer d mem Xbuf Xbuflen)
      (d.read_binary_from_buffer mem Xbuf Xbuflen) := by
  have hfields := Erases.loop (erases_readField mem Xbuf Xbuflen
    (erases_case mem d.fields Xbuf Xbuflen)) d.fields.os_zalloc
  unfold read_binary_from_buffer Def.read_binary_from_buffer
  cases d.sandesh with
  | true => exact (erases_scan _).bind fun _ => hfields
  | false => exact hfields

-- ============================================================ sandesh.c

section Decode

variable (mem : Bytes) (sinfo_find_fn : Bytes → Option Def)

/-- A message, and with it all that is proved of `CGen.sandesh_decode_one`,
holds of the version that keeps `*error`. -/
theorem over_sandesh_decode_one (buf buf_len : Nat) :
    Over Env.state (sandesh_decode_one mem sinfo_find_fn buf buf_len)
      (CGen.sandesh_decode_one mem sinfo_find_fn buf buf_len) := by
  refine over_ite (over_pure _) (over_bind (over_keeping _) fun bytes4 => ?_)
  refine over_ite (over_ite (over_pure _) ?_) (over_pure _)
  refine over_bind (over_keeping _) fun sname => ?_
  cases sinfo_find_fn (cstr sname.1) with
  | none => exact over_setting _ _
  | some sinfo =>
      refine over_bind (erases_read_binary sinfo mem buf buf_len 0) fun o => ?_
      match o with
      | none => exact over_pure _
      | some (value, rxfer) => exact over_ite (over_pure _) (over_pure _)

/-- The two models of the decoder agree on the result, on the calls of the
process functions, and on whether it returns at all. -/
theorem over_sandesh_decode (buf_len : Nat) :
    Over Env.state (sandesh_decode mem sinfo_find_fn buf_len)
      (CGen.sandesh_decode mem sinfo_find_fn buf_len) := by
  refine over_loop (fun t => ?_) _
  refine over_ite (over_bind (over_sandesh_decode_one mem sinfo_find_fn _ _) fun o => ?_)
    (over_pure _)
  exact over_ite (over_pure _) (over_pure _)

end Decode

end Sandesh.CGen.Errors
