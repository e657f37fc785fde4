/-
When `WriteBinary` writes all of a sandesh or reports an error.

What the primitives return does not depend on the buffer: it is the number
of bytes they would have written, as an `int32_t` (`write_given`). So the
result of `WriteBinary` is the length of the encoding whether it fits or
not, and negative only where an `int32_t` has run over.
-/
import Sandesh.Binary.Proofs.Wire
import Sandesh.Binary.Receive

namespace Sandesh.Binary.Cpp

open Lib C

variable {ps : List Piece} {buf : Bytes}

/-- A result that is not negative is the length of the whole encoding, which
is in the buffer, and any other comes with an error. -/
def AllOrNothing (sandesh : List Piece) (buf : Bytes) (error : Int) : Prop :=
  let w := WriteBinary sandesh buf error
  (∃ n : Nat, w.xfer = n ∧ n ≤ buf.length ∧ w.buf.take n = encoding sandesh)
  ∨ (w.xfer < 0 ∧ w.error = EINVAL)

/-- An `int32_t` with so many bytes is negative. -/
def Overruns (n : Nat) : Prop := i32 n < 0

-- ======================================================== the transport

/-- The chunks one after the other. -/
def writes (b : Buffer) (chunks : List Bytes) : Buffer := chunks.foldl write b

/-- What fits is written whole. -/
theorem writes_fit (chunks : List Bytes) :
    ∀ {b : Buffer}, chunks.flatten.length ≤ b.room →
      writes b chunks = b.append chunks.flatten := by
  induction chunks with
  | nil =>
      intro b _
      exact (Buffer.append_nil b).symm
  | cons chunk chunks ih =>
      intro b hroom
      rw [List.flatten_cons, List.length_append] at hroom
      show writes (write b chunk) chunks = _
      rw [write_eq (by omega), ih, Buffer.append_append, List.flatten_cons]
      rw [Buffer.room_append]
      omega

-- ========================================================= the primitives

theorem write_bytes {bs : Bytes} (b : Buffer) (h : bs.length < 2 ^ 31) :
    writeBytes bs b = (i32 bs.length, writes b [bs]) := by
  rw [i32_eq (by omega) (by omega)]
  rfl

theorem write_string (str : Bytes) (b : Buffer) :
    writeString str b
      = (i32 (Piece.ofString str).flatten.length, writes b (Piece.ofString str)) := by
  have hsize : (BitVec.ofNat 32 str.length).toNat ≤ str.length := by
    rw [BitVec.toNat_ofNat]
    exact Nat.mod_le _ _
  unfold writeString Piece.ofString
  generalize BitVec.ofNat 32 str.length = size at *
  have hhead : writeI32 size b = (4, write b (image 4 (swap 4 size.toNat))) := by
    unfold writeI32 writeBytes
    rw [length_image]
    rfl
  have htake : (str.take size.toNat).length = size.toNat := List.length_take_of_le hsize
  simp only [hhead]
  by_cases hpos : size.toNat > 0
  · rw [if_pos hpos, if_pos hpos, List.flatten_cons, List.flatten_singleton,
      List.length_append, length_image, htake]
    rfl
  · have hzero : size.toNat = 0 := by omega
    rw [if_neg hpos, if_neg hpos, List.flatten_singleton, length_image, hzero]
    rfl

/-- A call whose result is added to what there is. -/
theorem seq_bytes {bs : Bytes} {xfer : Int} {k : Int → Buffer → Int × Buffer}
    (b : Buffer) :
    seq xfer (writeBytes bs) k b = k (i32 (xfer + bs.length)) (write b bs) := by
  unfold seq writeBytes
  exact if_neg (by omega)

theorem write_fieldBegin (t : TType) (id : BitVec 16) (b : Buffer) :
    writeFieldBegin t id b
      = (3, writes b [Piece.ofCode t, image 2 (swap 2 id.toNat)]) := by
  unfold writeFieldBegin writeByte writeI16
  rw [seq_bytes, seq_bytes, length_image, length_image]
  rfl

theorem write_listBegin (t : TType) (size : BitVec 32) (b : Buffer) :
    writeListBegin t size b = (5, writes b [Piece.ofCode t, Piece.ofSize size]) := by
  unfold writeListBegin writeByte writeI32
  rw [seq_bytes, seq_bytes, length_image, length_image]
  rfl

theorem write_mapBegin (k v : TType) (size : BitVec 32) (b : Buffer) :
    writeMapBegin k v size b
      = (6, writes b [Piece.ofCode k, Piece.ofCode v, Piece.ofSize size]) := by
  unfold writeMapBegin writeByte writeI32
  rw [seq_bytes, seq_bytes, seq_bytes, length_image, length_image, length_image]
  rfl

/-- Every call gives its bytes to the transport and returns their number,
whatever becomes of them. -/
theorem write_given (p : Piece) (b : Buffer) :
    p.write b = (i32 p.bytes.length, writes b p.given) := by
  cases p with
  | bool v | byte v | i16 v | u16 v | i32 v | u32 v | ipv4 v | i64 v | u64 v
  | double v | fieldStop =>
      refine (write_bytes b ?_).trans ?_
      · rw [length_image]
        decide
      · unfold Piece.bytes
        rfl
  | ipaddr a =>
      cases a with
      | v4 bytes h | v6 bytes h =>
          unfold Piece.bytes Piece.given
          simp only [List.flatten_cons, List.flatten_nil, List.append_nil,
            List.length_append, length_image, family, h]
          rfl
  | string s | xml s | sandeshBegin s => exact write_string s b
  | uuid u h =>
      refine (write_bytes b (by omega)).trans ?_
      unfold Piece.bytes Piece.given
      rw [List.flatten_singleton]
  | fieldBegin t id h =>
      refine (write_fieldBegin t id b).trans ?_
      unfold Piece.bytes Piece.given Piece.ofCode
      simp only [List.flatten_cons, List.flatten_nil, List.append_nil,
        List.length_append, length_image]
      rfl
  | listBegin t n | setBegin t n =>
      refine (write_listBegin t n b).trans ?_
      unfold Piece.bytes Piece.given Piece.ofCode Piece.ofSize
      simp only [List.flatten_cons, List.flatten_nil, List.append_nil,
        List.length_append, length_image]
      rfl
  | mapBegin k v n =>
      refine (write_mapBegin k v n b).trans ?_
      unfold Piece.bytes Piece.given Piece.ofCode Piece.ofSize
      simp only [List.flatten_cons, List.flatten_nil, List.append_nil,
        List.length_append, length_image]
      rfl

-- ============================================================== the sum

/-- The result is the sum, whatever became of the bytes. -/
theorem writeFrom_sum (ps : List Piece) :
    ∀ {x : Int} {b : Buffer}, (∀ p ∈ ps, ¬ Overruns p.bytes.length) →
      writeFrom (i32 x) ps b
        = (i32 (x + (encoding ps).length), writes b (ps.flatMap Piece.given)) := by
  induction ps with
  | nil =>
      intro x b _
      show (i32 x, b) = (i32 (x + 0), b)
      rw [Int.add_zero]
  | cons p ps ih =>
      intro x b hfits
      obtain ⟨hp, hps⟩ := List.forall_mem_cons.mp hfits
      have hp : ¬ i32 p.bytes.length < 0 := hp
      unfold writeFrom
      rw [write_given]
      show (if i32 p.bytes.length < 0 then _ else _) = _
      rw [if_neg hp, i32_add_i32, ih hps]
      unfold encoding writes
      rw [List.flatMap_cons, List.flatMap_cons, List.length_append,
        List.foldl_append, Nat.cast_add, Int.add_assoc]

/-- A string that is too long ends the writing. -/
theorem writeFrom_overruns (ps : List Piece) :
    ∀ {xfer : Int} {b : Buffer}, (∃ p ∈ ps, Overruns p.bytes.length) →
      (writeFrom xfer ps b).1 < 0 := by
  induction ps with
  | nil =>
      rintro xfer b ⟨p, hp, -⟩
      cases hp
  | cons p ps ih =>
      rintro xfer b ⟨q, hq, hover⟩
      unfold writeFrom
      rw [write_given]
      show (if i32 p.bytes.length < 0 then _ else _ : Int × Buffer).1 < 0
      by_cases hp : i32 p.bytes.length < 0
      · simp only [if_pos hp]
        exact hp
      · rw [if_neg hp]
        rcases List.mem_cons.mp hq with rfl | hq
        · exact absurd hover hp
        · exact ih ⟨q, hq, hover⟩

theorem writeBinary_sum (error : Int) (h : ∀ p ∈ ps, ¬ Overruns p.bytes.length) :
    (WriteBinary ps buf error).xfer = i32 (encoding ps).length
    ∧ (WriteBinary ps buf error).buf
      = (writes (writeBuffer buf) (ps.flatMap Piece.given)).buf := by
  have hsum : writeFrom 0 ps (writeBuffer buf) = _ := writeFrom_sum ps (x := 0) h
  unfold WriteBinary
  simp only [hsum, Int.zero_add, and_self]

/-- A negative result comes with an error. -/
theorem writeBinary_error {error : Int} (h : (WriteBinary ps buf error).xfer < 0) :
    (WriteBinary ps buf error).error = EINVAL := by
  unfold WriteBinary at h ⊢
  generalize writeFrom 0 ps (writeBuffer buf) = written at h ⊢
  obtain ⟨xfer, b⟩ := written
  exact if_pos h

theorem flatten_given (ps : List Piece) :
    (ps.flatMap Piece.given).flatten = encoding ps := by
  unfold encoding Piece.bytes
  rw [List.flatMap_def, List.flatten_flatten, List.map_map, List.flatMap_def]
  rfl

/-- A buffer that is long enough holds the encoding. -/
theorem take_writes (h : (encoding ps).length ≤ buf.length) :
    (writes (writeBuffer buf) (ps.flatMap Piece.given)).buf.take (encoding ps).length
      = encoding ps := by
  have hroom : (ps.flatMap Piece.given).flatten.length ≤ (writeBuffer buf).room := by
    rw [flatten_given]
    exact h
  rw [writes_fit _ hroom, flatten_given]
  show (buf.take 0 ++ encoding ps ++ _).take _ = _
  rw [List.take_zero, List.nil_append, List.take_left]

-- ============================================================ the results

/-- For every sandesh and every buffer: all of the encoding or an error,
exactly if the encoding fits or an `int32_t` runs over, the sum or that of
one string. -/
theorem all_or_nothing_iff (sandesh : List Piece) (buf : Bytes) (error : Int)
    (hlen : buf.length < 2 ^ 32) :
    AllOrNothing sandesh buf error
      ↔ (encoding sandesh).length ≤ buf.length
        ∨ Overruns (encoding sandesh).length
        ∨ ∃ p ∈ sandesh, Overruns p.bytes.length := by
  by_cases hover : ∃ p ∈ sandesh, Overruns p.bytes.length
  · have hnegative : (WriteBinary sandesh buf error).xfer < 0 :=
      writeFrom_overruns sandesh hover
    exact iff_of_true (.inr ⟨hnegative, writeBinary_error hnegative⟩)
      (.inr (.inr hover))
  have hfits : ∀ p ∈ sandesh, ¬ Overruns p.bytes.length :=
    fun p hp h => hover ⟨p, hp, h⟩
  obtain ⟨hxfer, hbuf⟩ : (WriteBinary sandesh buf error).xfer = _ ∧ _ :=
    writeBinary_sum error hfits
  unfold AllOrNothing Overruns
  simp only []
  rw [← hxfer]
  by_cases hnegative : (WriteBinary sandesh buf error).xfer < 0
  · exact iff_of_true (.inr ⟨hnegative, writeBinary_error hnegative⟩)
      (.inr (.inl hnegative))
  rw [or_iff_left fun h => hnegative h.1, or_iff_left fun h => h.elim hnegative hover,
    hbuf]
  constructor
  · rintro ⟨n, -, hn, htake⟩
    rw [← htake, List.length_take]
    omega
  · intro hle
    have hsmall : (encoding sandesh).length < 2 ^ 31 := by
      by_contra hlarge
      refine hnegative ?_
      rw [hxfer, i32_high (by omega) (by omega)]
      omega
    refine ⟨_, ?_, hle, take_writes hle⟩
    rw [hxfer, i32_eq (by omega) (by omega)]

/-- The name of a sandesh without fields, in a buffer that it just fits. -/
theorem all_or_nothing_fits :
    (List.replicate 6 0 : Bytes).length < 2 ^ 32
    ∧ AllOrNothing [.sandeshBegin [65], .fieldStop] (List.replicate 6 0) 0 :=
  ⟨by decide, (all_or_nothing_iff _ _ 0 (by decide)).mpr (.inl (by decide))⟩

/-- The same in a buffer that is too short by a byte: the result is 6, there
is no error, and the last byte is missing. -/
theorem all_or_nothing_short :
    ¬ AllOrNothing [.sandeshBegin [65], .fieldStop] (List.replicate 5 0) 0
    ∧ (WriteBinary [.sandeshBegin [65], .fieldStop] (List.replicate 5 0) 0).xfer = 6
    ∧ (WriteBinary [.sandeshBegin [65], .fieldStop] (List.replicate 5 0) 0).error = 0 := by
  have hxfer : (WriteBinary [.sandeshBegin [65], .fieldStop] (List.replicate 5 0) 0).xfer
      = 6 := by decide
  have herror : (WriteBinary [.sandeshBegin [65], .fieldStop] (List.replicate 5 0)
      0).error = 0 := by decide
  refine ⟨?_, hxfer, herror⟩
  rintro (⟨n, hn, hle, -⟩ | ⟨hneg, -⟩)
  · rw [hxfer] at hn
    rw [List.length_replicate] at hle
    omega
  · rw [hxfer] at hneg
    omega

end Sandesh.Binary.Cpp
