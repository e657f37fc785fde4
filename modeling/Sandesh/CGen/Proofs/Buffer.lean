/-
What the emitted code for `write_binary_to_buffer` writes.

`Fills k o`: from an offset in a buffer, `k` writes the bytes of `o` there
and returns the offset after them, or it returns -1 if they do not fit or
cannot be written. The bounds check before each `memcpy` is what keeps the
code inside the buffer; the offset does not wrap below 2^31.
-/
import Sandesh.CGen.Proofs.Value

namespace Sandesh.CGen

open Lib Binary Binary.C
open Lib.Prog (Runs runs_act runs_pure)

-- =============================================================== memory

/-- The memory with these bytes at this place. -/
def splice (mem : Bytes) (pos : Nat) (bs : Bytes) : Bytes :=
  mem.take pos ++ bs ++ mem.drop (pos + bs.length)

/-- Bytes put over others change no length. -/
theorem length_splice {mem : Bytes} {pos : Nat} {bs : Bytes}
    (h : pos + bs.length ≤ mem.length) : (splice mem pos bs).length = mem.length := by
  unfold splice
  simp only [List.length_append, List.length_take, List.length_drop]
  omega

/-- No bytes at all. -/
theorem splice_nil (mem : Bytes) (pos : Nat) : splice mem pos [] = mem := by
  show mem.take pos ++ [] ++ mem.drop (pos + 0) = mem
  rw [List.append_nil, Nat.add_zero, List.take_append_drop]

/-- Two pieces, one behind the other. -/
theorem splice_splice {mem : Bytes} {pos : Nat} (a b : Bytes)
    (h : pos ≤ mem.length) :
    splice (splice mem pos a) (pos + a.length) b = splice mem pos (a ++ b) := by
  have hhead : (mem.take pos ++ a).length = pos + a.length := by
    rw [List.length_append, List.length_take_of_le h]
  have htake : (splice mem pos a).take (pos + a.length) = mem.take pos ++ a := by
    unfold splice
    rw [← hhead, List.take_left]
  have hdrop : (splice mem pos a).drop (pos + a.length + b.length)
      = mem.drop (pos + a.length + b.length) := by
    unfold splice
    rw [← List.drop_drop, ← hhead, List.drop_left, hhead, List.drop_drop]
  unfold splice at htake hdrop ⊢
  rw [htake, hdrop, List.length_append, ← Nat.add_assoc, ← List.append_assoc]

/-- `memcpy` into memory that is there. -/
theorem runs_memcpyTo {mem source : Bytes} {buf off len : Nat}
    (hle : buf + off + len ≤ mem.length) (hlen : len ≤ source.length) :
    (memcpyTo ((buf : Int) + off) source len).Runs mem (.ok ())
      (splice mem (buf + off) (source.take len)) := by
  have hpos : ((buf : Int) + off).toNat = buf + off := by omega
  refine runs_act.mpr ?_
  rw [if_pos ⟨by omega, by omega, by omega⟩, hpos, Int.toNat_natCast]
  unfold splice
  rw [List.length_take_of_le hlen]

-- =========================================================== statements

/-- The emitted code writes these bytes where there is room, and goes on;
otherwise it ends with -1. -/
def Fills (buf buflen : Nat) (k : Int → Prog Bytes Fault Int) (o : Out) : Prop :=
  ∀ (off : Nat) (mem : Bytes), buf + buflen ≤ mem.length → off ≤ buflen →
    off + o.bytes.length < 2 ^ 31 →
    if o.ok = true ∧ off + o.bytes.length ≤ buflen then
      (k off).Runs mem (.ok (off + o.bytes.length : Nat))
        (splice mem (buf + off) o.bytes)
    else ∃ mem', (k off).Runs mem (.ok (-1)) mem'

section Statements

variable {buf buflen : Nat} {k : Int → Prog Bytes Fault Int} {o : Out}

/-- The end: nothing more is written. -/
theorem fills_return : Fills buf buflen pure (.good []) := by
  intro off mem _ hoff _
  rw [Out.good_bytes, if_pos ⟨rfl, hoff⟩, splice_nil]
  exact runs_pure.mpr ⟨rfl, rfl⟩

/-- A statement that writes these bytes if they fit. -/
theorem Fills.seq {e : Emitted} (hk : Fills buf buflen k o) (bs : Bytes)
    (hfits : ∀ {off : Nat} {mem : Bytes}, buf + buflen ≤ mem.length →
      off + bs.length ≤ buflen → off + bs.length < 2 ^ 31 →
      ∀ {res mem'}, (k (off + bs.length : Nat)).Runs (splice mem (buf + off) bs) res mem' →
        (e k off).Runs mem res mem')
    (hfull : ∀ {off : Nat} {mem : Bytes}, buf + buflen ≤ mem.length → off ≤ buflen →
      buflen < off + bs.length → off + bs.length < 2 ^ 31 →
      ∃ mem', (e k off).Runs mem (.ok (-1)) mem') :
    Fills buf buflen (e k) ((Out.good bs).seq o) := by
  intro off mem hmem hoff hlt
  simp only [Out.good_seq, List.length_append] at hlt ⊢
  by_cases hfit : off + bs.length ≤ buflen
  · have hlen : (splice mem (buf + off) bs).length = mem.length :=
      length_splice (by omega)
    have hrun := hk (off + bs.length) (splice mem (buf + off) bs) (by omega) hfit
      (by omega)
    by_cases hok : o.ok = true ∧ off + bs.length + o.bytes.length ≤ buflen
    · rw [if_pos hok, ← Nat.add_assoc, splice_splice bs o.bytes (by omega)] at hrun
      rw [if_pos ⟨hok.1, by omega⟩, ← Nat.add_assoc]
      exact hfits hmem hfit (by omega) hrun
    · rw [if_neg hok] at hrun
      obtain ⟨mem', hrun⟩ := hrun
      rw [if_neg (fun h => hok ⟨h.1, by omega⟩)]
      exact ⟨mem', hfits hmem hfit (by omega) hrun⟩
  · rw [if_neg (fun h => hfit (by omega))]
    exact hfull hmem hoff (by omega) (by omega)

/-- A copy with its test in front. -/
theorem fills_chk_memcpy (source : Bytes) {len : Nat} (hlen : len ≤ source.length)
    (hk : Fills buf buflen k o) :
    Fills buf buflen (write_buffer_chk_memcpy_incr_offset buf buflen source len k)
      ((Out.good (source.take len)).seq o) := by
  have htake : (source.take len).length = len := List.length_take_of_le hlen
  have hsize : ∀ {off : Nat}, off + len < 2 ^ 31 →
      i32 ((off : Int) + len) = (off + len : Nat) ∧
        u64 (i32 ((off : Int) + len)) = off + len := by
    intro off hlt
    have hi : i32 ((off : Int) + len) = (off + len : Nat) := by
      rw [i32_eq (by omega) (by omega)]
      rfl
    exact ⟨hi, by rw [hi, u64_nat (by omega)]⟩
  refine hk.seq (source.take len) ?_ ?_
  · intro off mem hmem hfit hlt res mem' hrun
    rw [htake] at hfit hlt hrun
    obtain ⟨hi, hu⟩ := hsize hlt
    unfold write_buffer_chk_memcpy_incr_offset
    rw [hu, if_neg (by omega), hi]
    exact (runs_memcpyTo (by omega) hlen).bind_ok hrun
  · intro off mem hmem hoff hfull hlt
    rw [htake] at hfull hlt
    obtain ⟨-, hu⟩ := hsize hlt
    refine ⟨mem, ?_⟩
    unfold write_buffer_chk_memcpy_incr_offset
    rw [hu, if_pos hfull]
    exact runs_pure.mpr ⟨rfl, rfl⟩

/-- The image of a variable. -/
theorem fills_variable (bs : Bytes) (hk : Fills buf buflen k o) :
    Fills buf buflen (writeVariable buf buflen bs k) ((Out.good bs).seq o) := by
  have h := fills_chk_memcpy bs (Nat.le_refl _) hk
  rw [List.take_length] at h
  exact h

/-- Bytes that are all there is before the code goes on. -/
theorem good_append (a b : Bytes) (o : Out) :
    (Out.good (a ++ b)).seq o = (Out.good a).seq ((Out.good b).seq o) := by
  simp only [Out.good_seq, List.append_assoc]

/-- A number in network byte order. -/
theorem fills_number {w : Nat} (n : Nat) (v : BitVec w) (hk : Fills buf buflen k o) :
    Fills buf buflen (writeVariable buf buflen (image n (swap n v.toNat)) k)
      ((Out.good (be n v.toNat)).seq o) := by
  rw [image_swap]
  exact fills_variable _ hk

/-- A length, and so many bytes. -/
theorem fills_binary (source : Bytes) {len : Nat} (hlen : len ≤ source.length)
    (hk : Fills buf buflen k o) :
    Fills buf buflen (write_buffer_binary buf buflen source len k)
      ((Out.good (be 4 len ++ source.take len)).seq o) := by
  rw [good_append]
  intro off mem hmem hoff hlt
  have hsize : (BitVec.ofInt 32 len).toNat = len := by
    simp only [Out.good_seq, List.length_append, length_be,
      List.length_take_of_le hlen] at hlt
    rw [BitVec.toNat_ofInt]
    omega
  have hout : be 4 (BitVec.ofInt 32 len).toNat = be 4 len := by rw [hsize]
  have h := fills_number 4 (BitVec.ofInt 32 len) (fills_chk_memcpy source hlen hk)
  rw [hout] at h
  exact h off mem hmem hoff hlt

/-- A scalar, other than a double. -/
theorem Scalar.fills (v : Scalar) (hne : v.type ≠ .T_DOUBLE)
    (hk : Fills buf buflen k o) :
    Fills buf buflen (serialize_base_to_buffer buf buflen v k) (v.out.seq o) := by
  have hstring : ∀ s : Bytes,
      Fills buf buflen (write_buffer_binary buf buflen s (i32 (cstr s).length) k)
        ((Out.good (be 4 (cstr s).length ++ cstr s)).seq o) := by
    intro s off mem hmem hoff hlt
    have hle : (cstr s).length ≤ s.length := (List.takeWhile_prefix _).length_le
    have h := fills_binary s hle hk off mem hmem hoff
    simp only [Out.good_seq, List.length_append, length_be, take_cstr] at h hlt ⊢
    rw [i32_eq (by omega) (by omega)]
    exact h hlt
  have hnull : Fills buf buflen (write_buffer_binary buf buflen [] 0 k)
      ((Out.good (be 4 0)).seq o) := fills_binary [] (Nat.le_refl 0) hk
  cases v with
  | bool v =>
      have hbytes : image 1 (if v ≠ 0 then 1 else 0) = [if v ≠ 0 then 1 else 0] := by
        split <;> rfl
      show Fills buf buflen
        (writeVariable buf buflen (image 1 (if v ≠ 0 then 1 else 0)) k)
        ((Out.good [if v ≠ 0 then 1 else 0]).seq o)
      rw [← hbytes]
      exact fills_variable _ hk
  | byte v => exact fills_variable _ hk
  | i16 v | u16 v => exact fills_number 2 v hk
  | i32 v | u32 v | ipv4 v => exact fills_number 4 v hk
  | i64 v | u64 v =>
      show Fills buf buflen (writeVariable buf buflen (os_put_value64 v.toNat) k)
        ((Out.good (be 8 v.toNat)).seq o)
      rw [os_put_value64_eq]
      exact fills_variable _ hk
  | ipaddr a =>
      cases a with
      | ipv4 bytes h =>
          have hbytes := fills_variable (image 1 AF_INET) (fills_variable bytes hk)
          rw [image_one, ← good_append] at hbytes
          exact hbytes
      | ipv6 bytes h =>
          have hbytes := fills_variable (image 1 AF_INET6) (fills_variable bytes hk)
          rw [image_one, ← good_append] at hbytes
          exact hbytes
      | other iptype =>
          intro off mem _ _ _
          rw [if_neg (fun h => Bool.noConfusion h.1)]
          exact ⟨mem, runs_pure.mpr ⟨rfl, rfl⟩⟩
  | double v => exact absurd rfl hne
  | string s | xml s =>
      cases s with
      | none => exact hnull
      | some s => exact hstring s
  | uuid bytes h => exact fills_variable bytes hk

/-- The header of a field. -/
theorem fills_field_begin (key : Int) (t : TType) (hk : Fills buf buflen k o) :
    Fills buf buflen (field_begin_writer_to_buffer buf buflen key t k)
      ((Out.good (be 1 t.code ++ be 2 (BitVec.ofInt 16 key).toNat)).seq o) := by
  rw [good_append]
  exact fills_variable _ (fills_number 2 (BitVec.ofInt 16 key) hk)

/-- The header of a list. -/
theorem fills_list_begin (t : TType) (n : Nat) (hk : Fills buf buflen k o) :
    Fills buf buflen (list_begin_writer_to_buffer buf buflen t n k)
      ((Out.good (be 1 t.code ++ be 4 (BitVec.ofNat 32 n).toNat)).seq o) := by
  rw [good_append]
  exact fills_variable _ (fills_number 4 (BitVec.ofNat 32 n) hk)

/-- The stop byte. -/
theorem fills_field_stop (hk : Fills buf buflen k o) :
    Fills buf buflen (field_stop_writer_to_buffer buf buflen k)
      ((Out.good [0]).seq o) := fills_variable _ hk

/-- The function of a structure, on what is left of the buffer. -/
theorem fills_call (f : Int → Nat → Int → Prog Bytes Fault Int) {a : Out}
    (hf : ∀ buf buflen : Nat, buflen < 2 ^ 64 → Fills buf buflen (f buf buflen) a)
    (hbuflen : buflen < 2 ^ 64) (hk : Fills buf buflen k o) :
    Fills buf buflen (callToBuffer buf buflen (fun buf buflen => f buf buflen 0) k)
      (a.seq o) := by
  have hcall : ∀ {off : Nat} {mem : Bytes}, buf + buflen ≤ mem.length → off ≤ buflen →
      a.bytes.length < 2 ^ 31 →
      if a.ok = true ∧ a.bytes.length ≤ buflen - off then
        (f (buf + off : Nat) (buflen - off) 0).Runs mem (.ok a.bytes.length)
          (splice mem (buf + off) a.bytes)
      else ∃ mem', (f (buf + off : Nat) (buflen - off) 0).Runs mem (.ok (-1)) mem' := by
    intro off mem hmem hoff hlt
    have h := hf (buf + off) (buflen - off) (by omega) 0 mem (by omega)
      (Nat.zero_le _) (by omega)
    rw [Nat.zero_add] at h
    exact h
  have hargs : ∀ {off : Nat}, off ≤ buflen →
      (callToBuffer buf buflen (fun buf buflen => f buf buflen 0) k off)
        = (f (buf + off : Nat) (buflen - off) 0 >>= fun Xret =>
          if Xret < 0 then pure (-1) else k (i32 (off + Xret))) := by
    intro off hoff
    have hleft : u64 ((buflen : Int) - off) = buflen - off := by
      rw [show (buflen : Int) - off = (buflen - off : Nat) by omega,
        u64_nat (by omega)]
    unfold callToBuffer
    rw [hleft]
    rfl
  have hfails : ∀ {off : Nat} {mem mem' : Bytes}, off ≤ buflen →
      (f (buf + off : Nat) (buflen - off) 0).Runs mem (.ok (-1)) mem' →
      (callToBuffer buf buflen (fun buf buflen => f buf buflen 0) k off).Runs mem
        (.ok (-1)) mem' := by
    intro off mem mem' hoff hrun
    rw [hargs hoff]
    exact hrun.bind_ok (runs_pure.mpr ⟨rfl, rfl⟩)
  obtain ⟨bs, ok⟩ := a
  cases ok with
  | false =>
      intro off mem hmem hoff hlt
      change off + bs.length < 2 ^ 31 at hlt
      have h := hcall hmem hoff (show bs.length < 2 ^ 31 by omega)
      rw [if_neg (fun h => Bool.noConfusion h.1)] at h
      obtain ⟨mem', hrun⟩ := h
      rw [if_neg (fun h => Bool.noConfusion h.1)]
      exact ⟨mem', hfails hoff hrun⟩
  | true =>
      refine hk.seq bs ?_ ?_
      · intro off mem hmem hfit hlt res mem' hrun
        have h := hcall hmem (show off ≤ buflen by omega)
          (show bs.length < 2 ^ 31 by omega)
        rw [if_pos ⟨rfl, show bs.length ≤ buflen - off by omega⟩] at h
        rw [hargs (by omega)]
        refine h.bind_ok ?_
        rw [if_neg (Int.not_lt.mpr (Int.natCast_nonneg _)),
          i32_eq (by show _ ≤ (off : Int) + bs.length; omega)
            (by show (off : Int) + bs.length < _; omega)]
        exact hrun
      · intro off mem hmem hoff hfull hlt
        have h := hcall hmem hoff (show bs.length < 2 ^ 31 by omega)
        rw [if_neg (fun h => by
          have hle : bs.length ≤ buflen - off := h.2
          omega)] at h
        obtain ⟨mem', hrun⟩ := h
        exact ⟨mem', hfails hoff hrun⟩

/-- The elements of a list. -/
theorem fills_elems {α : Type} {type : Nat} {f : α → Tree (.value type)}
    {g : α → Emitted}
    (hg : ∀ v {k o}, Fills buf buflen k o → Fills buf buflen (g v k) ((f v).out.seq o))
    (vs : List α) (hk : Fills buf buflen k o) :
    Fills buf buflen (vs.foldr g k) ((elems f vs).out.seq o) := by
  induction vs with
  | nil => exact hk
  | cons v vs ih =>
      have h := hg v ih
      rw [← seq_assoc] at h
      exact h

end Statements

-- ====================================================== types and fields

mutual

/-- A value, by induction on its type. -/
theorem Ty.fills : (t : Ty) → (v : t.Val) → {buf buflen : Nat} → buflen < 2 ^ 64 →
    {k : Int → Prog Bytes Fault Int} → {o : Out} → Fills buf buflen k o →
    Fills buf buflen (t.serialize_field_to_buffer v buf buflen k)
      ((t.tree v).out.seq o)
  | .base b, v, buf, buflen, _, k, o, hk => by
      have hne : v.1.type ≠ .T_DOUBLE := by
        rw [v.2]
        cases b <;> exact fun h => nomatch h
      have h := Scalar.fills v.1 hne hk
      rw [← out_leafAt v.1 v.2] at h
      exact h
  | .enum _, v, buf, buflen, _, k, o, hk => fills_number 4 v hk
  | .struct _ fs, r, buf, buflen, hbuflen, k, o, hk =>
      fills_call (fun buf buflen => fs.writer_to_buffer r buf buflen
          (field_stop_writer_to_buffer buf buflen pure))
        (fun buf _ h => fs.fills r buf h) hbuflen hk
  | .list e, vs, buf, buflen, hbuflen, k, o, hk => by
      have hes := fills_elems (fun v => e.fills v hbuflen) vs hk
      have h := fills_list_begin e.type_to_enum vs.length hes
      rw [← seq_assoc] at h
      exact h

/-- The fields of a struct. -/
theorem Fields.fills : (fs : Fields) → (r : fs.Rec) → (buf : Nat) → {buflen : Nat} →
    buflen < 2 ^ 64 → Fills buf buflen (fs.writer_to_buffer r buf buflen
      (field_stop_writer_to_buffer buf buflen pure)) (fs.tree r).out
  | .nil, _, _, _, _ => fills_field_stop fills_return
  | .cons key t fs, r, buf, _, hbuflen =>
      fills_field_begin key t.type_to_enum
        (t.fills r.1 hbuflen (fs.fills r.2 buf hbuflen))

end

/-- The function writes the bytes if they fit, and returns -1 if not. -/
theorem Def.fills (d : Def) (r : d.fields.Rec) (mem : Bytes) (buf buflen : Nat)
    (hbuflen : buflen < 2 ^ 64) (hmem : buf + buflen ≤ mem.length)
    (hlt : (d.out r).bytes.length < 2 ^ 31) :
    if (d.out r).ok = true ∧ (d.out r).bytes.length ≤ buflen then
      (d.write_binary_to_buffer r buf buflen).Runs mem
        (.ok (d.out r).bytes.length) (splice mem buf (d.out r).bytes)
    else ∃ mem', (d.write_binary_to_buffer r buf buflen).Runs mem (.ok (-1)) mem' := by
  have hstart : ∀ {k : Int → Prog Bytes Fault Int} {o : Out}, Fills buf buflen k o →
      o.bytes.length < 2 ^ 31 →
      if o.ok = true ∧ o.bytes.length ≤ buflen then
        (k 0).Runs mem (.ok o.bytes.length) (splice mem buf o.bytes)
      else ∃ mem', (k 0).Runs mem (.ok (-1)) mem' := by
    intro k o hk hlt
    have h := hk 0 mem hmem (Nat.zero_le _) (by omega)
    rw [Nat.zero_add, Nat.add_zero] at h
    exact h
  have hfields := d.fields.fills r buf hbuflen
  unfold Def.write_binary_to_buffer
  unfold Def.out at hlt ⊢
  cases hsandesh : d.sandesh with
  | false =>
      rw [hsandesh, if_neg Bool.false_ne_true] at hlt
      simp only [if_neg Bool.false_ne_true]
      exact hstart hfields hlt
  | true =>
      rw [hsandesh, if_pos rfl] at hlt
      have h := fills_binary d.name.text (Nat.le_refl _) hfields
      rw [List.take_length] at h
      simp only [if_true]
      exact hstart h hlt

end Sandesh.CGen
