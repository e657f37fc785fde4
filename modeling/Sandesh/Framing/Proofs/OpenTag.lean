/-
The open tag of a frame: what the reader reads out of it.

Two facts carry everything above. The tag is the first 29 bytes, so the
length read from it does not depend on how much of the frame has arrived
after them (`openTagLength_append`); and the tag `SendMsg` writes reads
back as the length of the whole frame (`openTagLength_envelope`), given
only that `stringToInteger` parses decimal digits.
-/
import Sandesh.Framing.Basic

namespace Sandesh.Framing

open Lib SandeshReader

variable {stringToInteger : Bytes → Nat}

-- ===================================================== the tag's length

@[simp] theorem sandesh_open_length : sandesh_open_.length = 29 := by decide

@[simp] theorem sandesh_open_attr_length_length :
    sandesh_open_attr_length_.length = 17 := by decide

@[simp] theorem sandesh_close_length : sandesh_close_.length = 10 := by decide

/-- What the code relies on in `base/string_util`: a string of decimal
digits is parsed to its value. -/
def ParsesDigits (stringToInteger : Bytes → Nat) : Prop :=
  ∀ s : Bytes, s ≠ [] → (∀ b ∈ s, isDigit b = true) → decVal s < 2 ^ 64 →
    stringToInteger s = decVal s

theorem parsesDigits_strtoul : ParsesDigits strtoul :=
  fun _ _ hs hv => strtoul_digits hs hv

/-- The bytes at the front of the undelivered data hold a complete open
tag that declares the length `n`. -/
def Declares (stringToInteger : Bytes → Nat) (bs : Bytes) (n : Nat) : Prop :=
  sandesh_open_.length ≤ bs.length
    ∧ openTagLength stringToInteger bs = .known n

instance (bs : Bytes) (n : Nat) : Decidable (Declares stringToInteger bs n) :=
  inferInstanceAs (Decidable (_ ∧ _))

/-- The tag is read from the first 29 bytes only. -/
theorem openTagLength_append {bs : Bytes} (h : 29 ≤ bs.length) (xs : Bytes) :
    openTagLength stringToInteger (bs ++ xs)
      = openTagLength stringToInteger bs := by
  have hpre : sandesh_open_attr_length_ <+: bs ++ xs
      ↔ sandesh_open_attr_length_ <+: bs := by
    rw [List.prefix_iff_eq_take, List.prefix_iff_eq_take,
      List.take_append_of_le_length (by simp; omega)]
  have hend : (bs ++ xs)[28]? = bs[28]? :=
    List.getElem?_append_left (by omega)
  have htext : (bs ++ xs).take 27 = bs.take 27 :=
    List.take_append_of_le_length (by omega)
  simp only [openTagLength, sandesh_open_length, Nat.reduceSub, hpre, hend,
    htext]

theorem Declares.append {bs : Bytes} {n : Nat}
    (h : Declares stringToInteger bs n) (xs : Bytes) :
    Declares stringToInteger (bs ++ xs) n := by
  obtain ⟨hlen, htag⟩ := h
  rw [sandesh_open_length] at hlen
  refine ⟨by simp; omega, ?_⟩
  rw [openTagLength_append hlen, htag]

theorem Declares.unique {bs : Bytes} {n m : Nat}
    (h : Declares stringToInteger bs n) (h' : Declares stringToInteger bs m) :
    n = m := by
  have heq := h.2.symm.trans h'.2
  injection heq

-- ============================================== the tag SendMsg writes

/-- The length field of a frame. -/
def lengthText (p : Payload) : Bytes :=
  zfill 10 (decimal (39 + p.bytes.length))

theorem lengthText_length (p : Payload) : (lengthText p).length = 10 := by
  refine zfill_length (decimal_length_le (by decide) ?_)
  have := p.fits
  simp only [sandesh_open_length, sandesh_close_length] at this
  omega

/-- The frame, spelled out: the digits land exactly on the zeros of the
open tag. -/
theorem envelope_eq (p : Payload) :
    envelope p.bytes = sandesh_open_attr_length_ ++ (lengthText p
      ++ (lit "\">" ++ (p.bytes ++ sandesh_close_))) := by
  have hfits := p.fits
  have hlen := lengthText_length p
  simp only [sandesh_open_length, sandesh_close_length] at hfits
  have htotal : (sandesh_open_ ++ p.bytes ++ sandesh_close_).length % 2 ^ 32
      = 39 + p.bytes.length := by
    simp only [List.length_append, sandesh_open_length, sandesh_close_length]
    omega
  have hopen : sandesh_open_ = sandesh_open_attr_length_
      ++ (lit "0000000000" ++ lit "\">") := by decide
  have htake : (sandesh_open_ ++ p.bytes ++ sandesh_close_).take 17
      = sandesh_open_attr_length_ := by
    rw [hopen]
    simp only [List.append_assoc]
    exact List.take_left' sandesh_open_attr_length_length
  have hdrop : (sandesh_open_ ++ p.bytes ++ sandesh_close_).drop (17 + 10)
      = lit "\">" ++ (p.bytes ++ sandesh_close_) := by
    rw [hopen, ← List.drop_drop]
    simp only [List.append_assoc]
    rw [List.drop_left' sandesh_open_attr_length_length]
    exact List.drop_left' rfl
  have htext : zfill (sandesh_open_.length - sandesh_open_attr_length_.length
      - 2) (decimal (39 + p.bytes.length)) = lengthText p := by
    simp [lengthText]
  simp only [envelope, htotal, memcpy]
  rw [htext, hlen, sandesh_open_attr_length_length, htake, hdrop,
    List.append_assoc]

theorem envelope_length (p : Payload) :
    (envelope p.bytes).length = 39 + p.bytes.length := by
  have hq : (lit "\">").length = 2 := by decide
  rw [envelope_eq]
  simp only [List.length_append, lengthText_length, hq,
    sandesh_open_attr_length_length, sandesh_close_length]
  omega

/-- A written open tag reads back as the length of its frame. -/
theorem openTagLength_envelope (hsti : ParsesDigits stringToInteger)
    (p : Payload) :
    openTagLength stringToInteger (envelope p.bytes)
      = .known (envelope p.bytes).length := by
  have hlen := lengthText_length p
  have hfits := p.fits
  simp only [sandesh_open_length, sandesh_close_length] at hfits
  have hval : stringToInteger (lengthText p) = 39 + p.bytes.length := by
    rw [hsti, lengthText, decVal_zfill]
    · exact List.ne_nil_of_length_pos (by omega)
    · exact fun b hb => isDigit_of_mem_zfill hb
    · rw [lengthText, decVal_zfill]
      omega
  have hpre : sandesh_open_attr_length_ <+: envelope p.bytes := by
    rw [envelope_eq]
    exact List.prefix_append _ _
  have hend : (envelope p.bytes)[28]? = some 62 := by
    rw [envelope_eq, List.getElem?_append_right (by simp),
      sandesh_open_attr_length_length, List.getElem?_append_right (by omega),
      hlen]
    rfl
  have htext : ((envelope p.bytes).take 27).drop 17 = lengthText p := by
    rw [List.drop_take, envelope_eq,
      List.drop_left' sandesh_open_attr_length_length, List.take_left' hlen]
  simp only [openTagLength, sandesh_open_length, Nat.reduceSub, hpre, hend,
    sandesh_open_attr_length_length, htext, hval, envelope_length]
  simp

-- ============================================================= streams

theorem stream_nil : stream [] = [] := rfl

theorem stream_cons (p : Payload) (ps : List Payload) :
    stream (p :: ps) = envelope p.bytes ++ stream ps := by
  simp [stream]

theorem stream_append (ps qs : List Payload) :
    stream (ps ++ qs) = stream ps ++ stream qs := by
  simp [stream]

/-- As soon as 29 bytes of a stream are there, its first frame's length
can be read. -/
theorem declares_of_stream (hsti : ParsesDigits stringToInteger)
    {p : Payload} {ps : List Payload} {rest : Bytes}
    (hrest : rest <+: stream (p :: ps)) (hlen : 29 ≤ rest.length) :
    Declares stringToInteger rest (envelope p.bytes).length := by
  obtain ⟨tail, htail⟩ := hrest
  refine ⟨by simpa using hlen, ?_⟩
  rw [← openTagLength_append hlen tail, htail, stream_cons,
    openTagLength_append (by rw [envelope_length]; omega)]
  exact openTagLength_envelope hsti p

/-- A stream that has 29 bytes has a first frame. -/
theorem exists_frame_of_prefix {todo : List Payload} {rest : Bytes}
    (hrest : rest <+: stream todo) (hlen : 29 ≤ rest.length) :
    ∃ p todo', todo = p :: todo' := by
  cases todo with
  | nil =>
      rw [stream_nil, List.prefix_nil] at hrest
      rw [hrest] at hlen
      simp at hlen
  | cons p todo' => exact ⟨p, todo', rfl⟩

end Sandesh.Framing
