/-
What the read functions of the two binary protocols read, said once for
each of them.

`Reads S f bs v`: from a source that starts with `bs`, `f` reads the value
`v` and exactly these bytes. The C side reads from a memory buffer. The C++
side reads from the buffer and, where that ends, what its variables held
before: its stream is the one followed by the other, and it cannot tell
where the first ends.
-/
import Sandesh.Binary.Proofs.Wire

namespace Sandesh.Binary

open Lib C

-- ============================================================== sources

/-- What is read from: the bytes to come, and what is left after some. -/
structure Source (σ : Type) where
  stream : σ → Bytes
  taken : σ → Bytes → σ → Prop
  stream_taken : ∀ {s bs s'}, taken s bs s' → stream s = bs ++ stream s'
  taken_nil : ∀ s, taken s [] s
  taken_append : ∀ {s a s₁ b s₂}, taken s a s₁ → taken s₁ b s₂ →
    taken s (a ++ b) s₂

/-- The memory buffer, whose positions only grow. -/
def memorySource : Source Buffer where
  stream := Buffer.unread
  taken b bs b' := b.unread = bs ++ b'.unread
  stream_taken h := h
  taken_nil _ := rfl
  taken_append := by
    intro s a s₁ b s₂ ha hb
    rw [ha, hb, List.append_assoc]

/-- The buffer first, then what was there before. -/
def inputSource : Source Input where
  stream s := s.buffer.unread ++ s.stale
  taken s bs s' := s.buffer.unread ++ s.stale = bs ++ (s'.buffer.unread ++ s'.stale) ∧
    s'.buffer.unread = s.buffer.unread.drop bs.length
  stream_taken h := h.1
  taken_nil _ := ⟨rfl, rfl⟩
  taken_append := by
    rintro s a s₁ b s₂ ⟨ha, ha'⟩ ⟨hb, hb'⟩
    refine ⟨?_, ?_⟩
    · rw [ha, hb, List.append_assoc]
    · rw [hb', ha', List.drop_drop, List.length_append]

section Reads

variable {σ α β : Type} {S : Source σ}

/-- In front of these bytes the function returns the value and their number,
and takes them, as long as no sum wraps. -/
def Reads (S : Source σ) (f : Reader σ α) (bs : Bytes) (v : α) : Prop :=
  ∀ s rest, S.stream s = bs ++ rest → bs.length < 2 ^ 31 →
    ∃ s', f s = (some (v, (bs.length : Int)), s') ∧ S.taken s bs s'

/-- The same for code that goes on from a result so far. -/
def ReadsFrom (S : Source σ) (k : Int → Reader σ α) (bs : Bytes) (v : α) : Prop :=
  ∀ (xfer : Int) (s : σ) (rest : Bytes), 0 ≤ xfer → xfer + bs.length < 2 ^ 31 →
    S.stream s = bs ++ rest →
    ∃ s', k xfer s = (some (v, xfer + bs.length), s') ∧ S.taken s bs s'

/-- At the end of a function nothing more is read. -/
theorem readsFrom_done (v : α) : ReadsFrom S (done v) [] v := by
  intro xfer s rest _ _ _
  refine ⟨s, ?_, S.taken_nil s⟩
  show (some (v, xfer), s) = (some (v, xfer + (0 : Nat)), s)
  rw [Int.natCast_zero, Int.add_zero]

/-- A function that starts to count at 0. -/
theorem Reads.of_from {k : Int → Reader σ α} {bs : Bytes} {v : α}
    (h : ReadsFrom S k bs v) : Reads S (k 0) bs v := by
  intro s rest hs hlt
  have h0 := h 0 s rest (Int.le_refl 0) (by omega) hs
  rwa [Int.zero_add] at h0

/-- Reads in a row take their bytes in a row. -/
theorem readsFrom_andThen {f : Reader σ α} {k : α → Int → Reader σ β}
    {a b : Bytes} {v : α} {w : β} (hf : Reads S f a v)
    (hk : ReadsFrom S (k v) b w) :
    ReadsFrom S (fun xfer => andThen xfer f k) (a ++ b) w := by
  intro xfer s rest hx hlt hs
  rw [List.length_append] at hlt
  push_cast at hlt
  rw [List.append_assoc] at hs
  obtain ⟨s₁, hf₁, ht₁⟩ := hf s (b ++ rest) hs (by omega)
  have hs₁ : S.stream s₁ = b ++ rest := by
    have h := S.stream_taken ht₁
    rw [hs] at h
    exact (List.append_cancel_left h).symm
  obtain ⟨s₂, hk₂, ht₂⟩ :=
    hk (xfer + a.length) s₁ rest (by omega) (by omega) hs₁
  have hrun : andThen xfer f k s = k v (i32 (xfer + a.length)) s₁ := by
    unfold andThen
    rw [hf₁]
  refine ⟨s₂, ?_, S.taken_append ht₁ ht₂⟩
  show andThen xfer f k s = _
  rw [hrun, i32_eq (by omega) (by omega), hk₂, List.length_append,
    Int.natCast_add, ← Int.add_assoc]

/-- Reading and then returning the value. -/
theorem readsFrom_last {f : Reader σ α} {g : α → β} {bs : Bytes} {v : α}
    (hf : Reads S f bs v) :
    ReadsFrom S (fun xfer => andThen xfer f fun a => done (g a)) bs (g v) := by
  have h := readsFrom_andThen (k := fun a => done (g a)) hf (readsFrom_done (g v))
  rwa [List.append_nil] at h

/-- What is made of the value makes no difference. -/
theorem reads_map {f : Reader σ α} {bs : Bytes} {v : α} (g : α → β)
    (hf : Reads S f bs v) : Reads S (C.map g f) bs (g v) := by
  intro s rest hs hlt
  obtain ⟨s', hf', ht⟩ := hf s rest hs hlt
  refine ⟨s', ?_, ht⟩
  unfold C.map
  rw [hf']

end Reads

-- ============================================================== headers

/-- The type survives the trip through a byte. -/
theorem thriftType_code (t : TType) :
    thriftType (BitVec.ofNat 8 t.code) = t.code := by
  cases t <;> decide

/-- No type of a field has the code of a stop, also after the conversion to
an enumeration. -/
theorem thriftType_ne_stop {t : TType} (ht : t ≠ .T_STOP) :
    thriftType (BitVec.ofNat 8 t.code) ≠ TType.T_STOP.code := by
  rw [thriftType_code]
  exact fun h => ht (TType.code_inj h)

/-- Below 2^31 a number is the same with a sign. -/
theorem toInt_of_lt {v : BitVec 32} (h : v.toNat < 2 ^ 31) :
    v.toInt = v.toNat := by
  rw [BitVec.toInt_eq_toNat_cond, if_pos]
  omega

section Headers

-- the two sides have the same headers over their own fixed-width readers
variable {σ : Type} {S : Source σ} {byte : Reader σ (BitVec 8)}
  {short : Reader σ (BitVec 16)} {long : Reader σ (BitVec 32)}
  {f : Nat → Reader σ Bytes}

/-- The code of a type, read as a byte. -/
theorem reads_type (hbyte : ∀ v, Reads S byte (be 1 v.toNat) v) (t : TType) :
    Reads S byte (be 1 t.code) (BitVec.ofNat 8 t.code) := by
  have h := hbyte (BitVec.ofNat 8 t.code)
  rwa [code_toNat] at h

/-- Both libraries read the header of a field alike, up to their functions
for a byte and for two. -/
theorem reads_fieldHeader (hbyte : ∀ v, Reads S byte (be 1 v.toNat) v)
    (hshort : ∀ v, Reads S short (be 2 v.toNat) v) {type : BitVec 8}
    (ht : thriftType type ≠ TType.T_STOP.code) (id : BitVec 16) :
    Reads S (andThen 0 byte fun type xfer =>
        if thriftType type = TType.T_STOP.code then
          done (thriftType type, 0) xfer
        else andThen xfer short fun id xfer => done (thriftType type, id) xfer)
      (be 1 type.toNat ++ be 2 id.toNat) (thriftType type, id) := by
  refine Reads.of_from (readsFrom_andThen (hbyte type) ?_)
  simp only [if_neg ht]
  exact readsFrom_last (g := fun id => (thriftType type, id)) (hshort id)

/-- Behind a stop no id is read. -/
theorem reads_stopHeader (hbyte : ∀ v, Reads S byte (be 1 v.toNat) v) :
    Reads S (andThen 0 byte fun type xfer =>
        if thriftType type = TType.T_STOP.code then
          done (thriftType type, 0) xfer
        else andThen xfer short fun id xfer => done (thriftType type, id) xfer)
      [0] (TType.T_STOP.code, 0) := by
  show Reads _ _ (be 1 TType.T_STOP.code ++ []) _
  refine Reads.of_from (readsFrom_andThen (reads_type hbyte .T_STOP) ?_)
  exact readsFrom_done (TType.T_STOP.code, 0)

/-- A size that must not be negative. -/
theorem readsFrom_size {β : Type} (hlong : ∀ v, Reads S long (be 4 v.toNat) v)
    (g : Nat → β) {size : BitVec 32} (hsize : size.toNat < 2 ^ 31) :
    ReadsFrom S (fun xfer => andThen xfer long fun sizei xfer =>
        if sizei.toInt < 0 then fun s => (none, s)
        else done (g sizei.toNat) xfer)
      (be 4 size.toNat) (g size.toNat) := by
  have hpos : ¬ size.toInt < 0 := by
    rw [toInt_of_lt hsize]
    omega
  have hend : ReadsFrom S (fun xfer =>
      if size.toInt < 0 then fun s => (none, s)
      else done (g size.toNat) xfer) [] (g size.toNat) := by
    simp only [if_neg hpos]
    exact readsFrom_done _
  have h := readsFrom_andThen (k := fun sizei xfer =>
      if sizei.toInt < 0 then fun s => (none, s)
      else done (g sizei.toNat) xfer) (hlong size) hend
  rwa [List.append_nil] at h

/-- The header of a list, whose size must not be negative with its sign. -/
theorem reads_listHeader (hbyte : ∀ v, Reads S byte (be 1 v.toNat) v)
    (hlong : ∀ v, Reads S long (be 4 v.toNat) v) (type : BitVec 8)
    {size : BitVec 32} (hsize : size.toNat < 2 ^ 31) :
    Reads S (andThen 0 byte fun e xfer =>
        andThen xfer long fun sizei xfer =>
          if sizei.toInt < 0 then fun s => (none, s)
          else done (thriftType e, sizei.toNat) xfer)
      (be 1 type.toNat ++ be 4 size.toNat) (thriftType type, size.toNat) :=
  Reads.of_from (readsFrom_andThen (hbyte type)
    (readsFrom_size hlong (fun n => (thriftType type, n)) hsize))

/-- An address of one of the two families. -/
theorem reads_address (hbyte : ∀ v, Reads S byte (be 1 v.toNat) v)
    (hf : ∀ bs, Reads S (f bs.length) bs bs) {family : Nat}
    {bytes : Bytes} (h : (family = AF_INET ∧ bytes.length = 4) ∨
      (family = AF_INET6 ∧ bytes.length = 16)) :
    Reads S (andThen 0 byte fun type xfer =>
        if type.toNat = AF_INET then
          andThen xfer (f 4) fun bs xfer => done (AF_INET, bs) xfer
        else if type.toNat = AF_INET6 then
          andThen xfer (f 16) fun bs xfer => done (AF_INET6, bs) xfer
        else fun s => (none, s))
      (be 1 family ++ bytes) (family, bytes) := by
  have hbytes := hf bytes
  rcases h with ⟨rfl, hlen⟩ | ⟨rfl, hlen⟩
  · rw [hlen] at hbytes
    exact Reads.of_from (readsFrom_andThen (hbyte (BitVec.ofNat 8 AF_INET))
      (readsFrom_last (g := fun bs => (AF_INET, bs)) hbytes))
  · rw [hlen] at hbytes
    exact Reads.of_from (readsFrom_andThen (hbyte (BitVec.ofNat 8 AF_INET6))
      (readsFrom_last (g := fun bs => (AF_INET6, bs)) hbytes))

/-- A length, and what the code reads after it. -/
theorem reads_counted {β : Type} (hlong : ∀ v, Reads S long (be 4 v.toNat) v)
    {body : BitVec 32 → Int → Reader σ β} {str : Bytes} {v : β}
    (hlen : str.length < 2 ^ 31)
    (hbody : ReadsFrom S (body (BitVec.ofNat 32 str.length)) str v) :
    Reads S (andThen 0 long body) (be 4 str.length ++ str) v := by
  have hsize := toNat_ofNat_of_lt (Nat.lt_trans hlen (by decide))
  have hhead := hlong (BitVec.ofNat 32 str.length)
  rw [hsize] at hhead
  exact Reads.of_from (readsFrom_andThen hhead hbody)

/-- The length of a string, as it is read. -/
theorem toInt_length {str : Bytes} (hlen : str.length < 2 ^ 31) :
    (BitVec.ofNat 32 str.length).toInt = str.length := by
  have hsize := toNat_ofNat_of_lt (Nat.lt_trans hlen (by decide))
  rw [toInt_of_lt (by rwa [hsize]), hsize]

end Headers

-- =========================================================== the C side

namespace C

/-- The one function that goes to the transport. -/
theorem reads_get (bs : Bytes) : Reads memorySource (get memoryBuffer bs.length) bs bs := by
  intro b rest hs _
  change b.unread = bs ++ rest at hs
  have hle : bs.length ≤ b.unread.length := by
    rw [hs, List.length_append]
    exact Nat.le_add_right _ _
  have htake : b.unread.take bs.length = bs := by
    rw [hs, List.take_left]
  have hdrop : (b.consume bs.length hle).unread = rest := by
    rw [Buffer.unread_consume, hs, List.drop_left]
  unfold get memoryBuffer
  simp only [hle, dite_true, htake]
  refine ⟨_, rfl, ?_⟩
  show b.unread = bs ++ (if _ then _ else _ : Buffer).unread
  split
  · -- all is read, and the offsets start over
    rename_i hend
    have hempty : (b.consume bs.length hle).unread = [] := by
      refine List.eq_nil_of_length_eq_zero ?_
      rw [Buffer.length_unread, hend, Nat.sub_self]
    rw [Buffer.unread_reset, hs, ← hdrop, hempty]
  · rw [hdrop, hs]

/-- A value that is made of a fixed number of bytes. -/
theorem reads_value {α : Type} (g : Bytes → α) (bs : Bytes) :
    Reads memorySource (map g (get memoryBuffer bs.length)) bs (g bs) :=
  reads_map g (reads_get bs)

/-- A byte, in C. -/
theorem reads_byte (v : BitVec 8) :
    Reads memorySource (read_byte memoryBuffer) (be 1 v.toNat) v := by
  have h := reads_value (fun bs => BitVec.ofNat 8 (ofImage bs)) (be 1 v.toNat)
  rwa [← image_one, ofImage_image v rfl, length_image] at h

/-- A number in network order comes back, through the order of the host. -/
theorem reads_swapped {w k : Nat} (v : BitVec w) (hw : 256 ^ k = 2 ^ w) :
    Reads memorySource (map (fun bs => BitVec.ofNat w (swap k (ofImage bs)))
      (get memoryBuffer k)) (be k v.toNat) v := by
  have h := reads_value (fun bs => BitVec.ofNat w (swap k (ofImage bs)))
    (be k v.toNat)
  rwa [swap_be v hw, length_be] at h

/-- Two bytes, in C. -/
theorem reads_i16 (v : BitVec 16) :
    Reads memorySource (read_i16 memoryBuffer) (be 2 v.toNat) v :=
  reads_swapped v rfl

/-- Four bytes, in C. -/
theorem reads_i32 (v : BitVec 32) :
    Reads memorySource (read_i32 memoryBuffer) (be 4 v.toNat) v :=
  reads_swapped v rfl

/-- Eight bytes, in C. -/
theorem reads_i64 (v : BitVec 64) :
    Reads memorySource (read_i64 memoryBuffer) (be 8 v.toNat) v := by
  have h := reads_value (fun bs => BitVec.ofNat 64 (os_get_value64 bs))
    (be 8 v.toNat)
  rwa [os_get_value64_eq, ofBe_be_bitVec v rfl, BitVec.ofNat_toNat,
    BitVec.setWidth_eq, length_be] at h

/-- A double comes back from its image in memory, in which it was written.
-/
theorem reads_double (v : BitVec 64) :
    Reads memorySource (read_double memoryBuffer) (image 8 v.toNat) v := by
  have h := reads_value (fun bs => BitVec.ofNat 64 (ofImage bs)) (image 8 v.toNat)
  rwa [ofImage_image v rfl, length_image] at h

/-- A header comes back unless its type is that of a stop. -/
theorem reads_field_begin {t : TType} (ht : t ≠ .T_STOP) (id : BitVec 16) :
    Reads memorySource (read_field_begin memoryBuffer)
      (be 1 t.code ++ be 2 id.toNat) (t.code, id) := by
  have h := reads_fieldHeader reads_byte reads_i16 (thriftType_ne_stop ht) id
  rwa [code_toNat, thriftType_code] at h

/-- The stop byte, in C. -/
theorem reads_field_stop :
    Reads memorySource (read_field_begin memoryBuffer) [0]
      (TType.T_STOP.code, 0) :=
  reads_stopHeader reads_byte

/-- The header of a list comes back, if its size is not negative. -/
theorem reads_list_begin (t : TType) {size : BitVec 32}
    (hsize : size.toNat < 2 ^ 31) :
    Reads memorySource (read_list_begin memoryBuffer)
      (be 1 t.code ++ be 4 size.toNat) (t.code, size.toNat) := by
  have h := reads_listHeader reads_byte reads_i32 (BitVec.ofNat 8 t.code) hsize
  rwa [code_toNat, thriftType_code] at h

/-- An address, in C. -/
theorem reads_ipaddr {family : Nat} {bytes : Bytes}
    (h : (family = AF_INET ∧ bytes.length = 4) ∨
      (family = AF_INET6 ∧ bytes.length = 16)) :
    Reads memorySource (read_ipaddr memoryBuffer) (be 1 family ++ bytes)
      (family, bytes) :=
  reads_address reads_byte reads_get h

/-- An empty string comes back as a null pointer. -/
theorem reads_string {str : Bytes} (hlen : str.length < 2 ^ 31) :
    Reads memorySource (read_string memoryBuffer) (be 4 str.length ++ str)
      (if str = [] then none else some str) := by
  refine reads_counted reads_i32 hlen ?_
  rw [toInt_length hlen, toNat_ofNat_of_lt (Nat.lt_trans hlen (by decide))]
  cases str with
  | nil => exact readsFrom_done none
  | cons c cs =>
      have hpos : ((c :: cs).length : Int) > 0 := by
        rw [List.length_cons]
        omega
      rw [if_neg (List.cons_ne_nil c cs)]
      simp only [if_pos hpos]
      exact readsFrom_last (g := some) (reads_get (c :: cs))

end C

-- ========================================================= the C++ side

namespace Cpp

/-- Where the buffer ends, the bytes go on with the stale ones. -/
theorem readAll_stream {bs rest : Bytes} {s : Input}
    (hs : s.buffer.unread ++ s.stale = bs ++ rest) :
    ∃ s', readAll bs.length s = (bs, s') ∧ inputSource.taken s bs s' := by
  unfold readAll
  split
  · rename_i hle
    have htake : s.buffer.unread.take bs.length = bs := by
      rw [← List.take_append_of_le_length hle, hs, List.take_left]
    refine ⟨{ s with buffer := s.buffer.consume bs.length hle }, ?_, ?_, ?_⟩
    · rw [htake]
    · show _ = bs ++ ((s.buffer.consume bs.length hle).unread ++ s.stale)
      rw [Buffer.unread_consume, ← List.append_assoc]
      conv => rhs; arg 1; arg 1; rw [← htake]
      rw [List.take_append_drop]
    · exact Buffer.unread_consume _ _ hle
  · rename_i hlt
    rw [Nat.not_le] at hlt
    -- what the buffer has is a part of the bytes, the stale ones have the rest
    obtain ⟨more, rfl, hstale⟩ : ∃ more, bs = s.buffer.unread ++ more ∧
        s.stale = more ++ rest := by
      rcases List.append_eq_append_iff.mp hs with ⟨m, h, h'⟩ | ⟨m, h, h'⟩
      · exact ⟨m, h, h'⟩
      · rw [h, List.length_append] at hlt
        omega
    have hlen : (s.buffer.unread ++ more).length - s.buffer.unread.length
        = more.length := by
      rw [List.length_append, Nat.add_sub_cancel_left]
    have hdraw : draw more.length s.stale = (more, rest) := by
      unfold draw
      have hzero : more.length - s.stale.length = 0 := by
        rw [hstale, List.length_append]
        omega
      rw [hzero, hstale, List.take_left, List.drop_left, List.replicate_zero,
        List.append_nil]
    have hempty : (s.buffer.consume s.buffer.unread.length (Nat.le_refl _)).unread
        = [] := by
      rw [Buffer.unread_consume, List.drop_length]
    simp only [hlen, hdraw]
    refine ⟨_, rfl, ?_, ?_⟩
    · rw [hempty, List.nil_append, hstale, List.append_assoc]
    · rw [hempty, List.drop_of_length_le]
      rw [List.length_append]
      exact Nat.le_add_right _ _

/-- The same for the C++ library, where a read does not look at what the
transport returned. -/
theorem reads_value {α : Type} (g : Bytes → α) (bs : Bytes) :
    Reads inputSource (readFixed bs.length g) bs (g bs) := by
  intro s rest hs _
  obtain ⟨s', hall, ht⟩ := readAll_stream hs
  refine ⟨s', ?_, ht⟩
  unfold readFixed
  rw [hall]

/-- A byte, in C++. -/
theorem reads_byte (v : BitVec 8) :
    Reads inputSource readByte (be 1 v.toNat) v := by
  have h := reads_value (fun bs => BitVec.ofNat 8 (ofImage bs)) (be 1 v.toNat)
  rwa [← image_one, ofImage_image v rfl, length_image] at h

/-- A number in network order. -/
theorem reads_swapped {w k : Nat} (v : BitVec w) (hw : 256 ^ k = 2 ^ w) :
    Reads inputSource (readFixed k fun bs => BitVec.ofNat w (swap k (ofImage bs)))
      (be k v.toNat) v := by
  have h := reads_value (fun bs => BitVec.ofNat w (swap k (ofImage bs)))
    (be k v.toNat)
  rwa [swap_be v hw, length_be] at h

/-- Two bytes, in C++. -/
theorem reads_i16 (v : BitVec 16) :
    Reads inputSource readI16 (be 2 v.toNat) v := reads_swapped v rfl

/-- Four bytes, in C++. -/
theorem reads_i32 (v : BitVec 32) :
    Reads inputSource readI32 (be 4 v.toNat) v := reads_swapped v rfl

/-- Eight bytes, in C++. -/
theorem reads_i64 (v : BitVec 64) :
    Reads inputSource readI64 (be 8 v.toNat) v := reads_swapped v rfl

/-- A byte that is not 0 is true. -/
theorem reads_bool (b : BitVec 8) :
    Reads inputSource readBool (be 1 b.toNat) (decide (b ≠ 0)) := by
  have h := reads_value (fun bs => decide (ofImage bs ≠ 0)) (be 1 b.toNat)
  have hval : ofImage (be 1 b.toNat) = b.toNat := by
    rw [← image_one, ofImage, image, List.reverse_reverse, ofBe_be_bitVec b rfl]
  have hiff : decide (b.toNat ≠ 0) = decide (b ≠ 0) :=
    decide_eq_decide.mpr (not_congr (BitVec.toNat_inj (x := b) (y := 0)))
  rwa [hval, hiff, length_be] at h

/-- Any byte will do for a type, other than that of a stop. -/
theorem reads_fieldBegin {type : BitVec 8}
    (ht : thriftType type ≠ TType.T_STOP.code) (id : BitVec 16) :
    Reads inputSource readFieldBegin (be 1 type.toNat ++ be 2 id.toNat)
      (thriftType type, id) :=
  reads_fieldHeader reads_byte reads_i16 ht id

/-- The stop byte, in C++. -/
theorem reads_fieldStop :
    Reads inputSource readFieldBegin [0] (TType.T_STOP.code, 0) :=
  reads_stopHeader reads_byte

/-- Any byte will do for the type of the elements. -/
theorem reads_listBegin (type : BitVec 8) {size : BitVec 32}
    (hsize : size.toNat < 2 ^ 31) :
    Reads inputSource readListBegin (be 1 type.toNat ++ be 4 size.toNat)
      (thriftType type, size.toNat) :=
  reads_listHeader reads_byte reads_i32 type hsize

/-- A set is taken with any size. -/
theorem reads_setBegin (type : BitVec 8) (n : BitVec 32) :
    Reads inputSource readSetBegin (be 1 type.toNat ++ be 4 n.toNat)
      (thriftType type, n.toNat) :=
  Reads.of_from (readsFrom_andThen (reads_byte type)
    (readsFrom_last (g := fun n : BitVec 32 => (thriftType type, n.toNat))
      (reads_i32 n)))

/-- The header of a map. -/
theorem reads_mapBegin (k v : BitVec 8) {n : BitVec 32} (hn : n.toNat < 2 ^ 31) :
    Reads inputSource readMapBegin (be 1 k.toNat ++ (be 1 v.toNat ++ be 4 n.toNat))
      (thriftType k, thriftType v, n.toNat) :=
  Reads.of_from (readsFrom_andThen (reads_byte k) (readsFrom_andThen (reads_byte v)
    (readsFrom_size reads_i32 (fun n => (thriftType k, thriftType v, n)) hn)))

/-- An address, in C++. -/
theorem reads_ipaddr {family : Nat} {bytes : Bytes}
    (h : (family = AF_INET ∧ bytes.length = 4) ∨
      (family = AF_INET6 ∧ bytes.length = 16)) :
    Reads inputSource readIPADDR (be 1 family ++ bytes) (family, bytes) :=
  reads_address (f := fun n => readFixed n id) reads_byte (reads_value id) h

/-- A string below `2^31` bytes. -/
theorem reads_string {str : Bytes} (hlen : str.length < 2 ^ 31) :
    Reads inputSource readString (be 4 str.length ++ str) str := by
  refine reads_counted reads_i32 hlen ?_
  have hbody : Reads inputSource (readStringBody (BitVec.ofNat 32 str.length))
      str str := by
    unfold readStringBody
    rw [toInt_length hlen, toNat_ofNat_of_lt (Nat.lt_trans hlen (by decide)),
      if_neg (by omega)]
    split
    · rename_i hzero
      obtain rfl : str = [] := List.length_eq_zero_iff.mp (by omega)
      exact Reads.of_from (readsFrom_done [])
    · exact reads_value id str
  exact readsFrom_last (g := id) hbody

end Cpp

end Sandesh.Binary

/-
What the C++ side writes for a value or a header, and that it reads it back.
-/

namespace Sandesh.Binary.Cpp

open Lib C

namespace Piece

/-- The bytes of a piece. -/
def wire : Piece → Bytes
  | bool v => [if v then 1 else 0]
  | byte v => be 1 v.toNat
  | i16 v | u16 v => be 2 v.toNat
  | i32 v | u32 v | ipv4 v => be 4 v.toNat
  | i64 v | u64 v | double v => be 8 v.toNat
  | ipaddr a => be 1 (family a).1 ++ (family a).2
  | string s | xml s | sandeshBegin s => be 4 s.length ++ s
  | uuid u _ => u
  | fieldBegin t id _ => be 1 t.code ++ be 2 id.toNat
  | fieldStop => [0]
  | listBegin t n | setBegin t n => be 1 t.code ++ be 4 n.toNat
  | mapBegin k v n => be 1 k.code ++ (be 1 v.code ++ be 4 n.toNat)

/-- The sizes that are read back. -/
def Fits : Piece → Prop
  | string s | xml s | sandeshBegin s => s.length + 4 < 2 ^ 31
  | listBegin _ n | setBegin _ n | mapBegin _ _ n => n.toNat < 2 ^ 31
  | _ => True

end Piece

/-- A family and its number of bytes. -/
theorem family_length (a : Address) :
    ((family a).1 = AF_INET ∧ (family a).2.length = 4) ∨
      ((family a).1 = AF_INET6 ∧ (family a).2.length = 16) := by
  cases a with
  | v4 bytes h => exact .inl ⟨rfl, h⟩
  | v6 bytes h => exact .inr ⟨rfl, h⟩

/-- The header of a map, as it is written. -/
theorem writes_mapBegin (k v : TType) (n : BitVec 32) :
    Writes memoryAppends (writeMapBegin k v n)
      (.good (be 1 k.code ++ (be 1 v.code ++ be 4 n.toNat))) := by
  have h := writesFrom_good (writes_code k) (writesFrom_good (writes_code v)
    (writesFrom_good (writes_number 4 n.toNat) writesFrom_done))
  rw [Out.good_bytes, List.append_nil] at h
  exact Writes.of_from h

namespace Piece

/-- No item is so long that its length does not fit. -/
theorem wire_lt {p : Piece} (h : p.Fits) : p.wire.length < 2 ^ 31 := by
  cases p with
  | string s | xml s | sandeshBegin s =>
      have hlen : s.length + 4 < 2 ^ 31 := h
      rw [wire, List.length_append, length_be]
      omega
  | ipaddr a =>
      rw [wire, List.length_append, length_be]
      rcases family_length a with ⟨-, hlen⟩ | ⟨-, hlen⟩ <;> rw [hlen] <;> decide
  | uuid u hlen =>
      rw [wire, hlen]
      decide
  | _ => simp [wire]

/-- Each item is written as `wire` says. -/
theorem writes_wire {p : Piece} (h : p.Fits) :
    Writes memoryAppends p.write (.good p.wire) := by
  cases p with
  | bool v => cases v <;> exact writes_bytes _
  | byte v => exact writes_bytes _
  | i16 v | u16 v | i32 v | u32 v | ipv4 v | i64 v | u64 v | double v =>
      exact writes_number _ _
  | ipaddr a =>
      have hwrites := writes_ipaddr a
      cases a with
      | v4 bytes hlen => exact hwrites
      | v6 bytes hlen => exact hwrites
  | string s | xml s | sandeshBegin s =>
      have hlen : s.length + 4 < 2 ^ 31 := h
      exact writes_string (by omega)
  | uuid u hlen => exact writes_bytes u
  | fieldBegin t id ht => exact writes_fieldBegin t id
  | fieldStop => exact writes_bytes [0]
  | listBegin t n | setBegin t n => exact writes_listBegin t n
  | mapBegin k v n => exact writes_mapBegin k v n

end Piece

-- ============================================================= the calls

/-- The bytes on the wire that a call takes, and the value it stores. -/
def Call.Takes (c : Call) (bs : Bytes) (v : Value) : Prop :=
  match c with
  | readBool => ∃ b : BitVec 8, bs = be 1 b.toNat ∧ v = .bool (b ≠ 0)
  | readByte => ∃ n : BitVec 8, bs = be 1 n.toNat ∧ v = number n
  | readI16 | readU16 => ∃ n : BitVec 16, bs = be 2 n.toNat ∧ v = number n
  | readI32 | readU32 | readIPV4 =>
      ∃ n : BitVec 32, bs = be 4 n.toNat ∧ v = number n
  | readI64 | readU64 | readDouble =>
      ∃ n : BitVec 64, bs = be 8 n.toNat ∧ v = number n
  | readIPADDR => ∃ a, bs = be 1 (family a).1 ++ (family a).2 ∧
      v = .address (family a).1 (family a).2
  | readString | readXML | readSandeshBegin =>
      ∃ s : Bytes, s.length < 2 ^ 31 ∧ bs = be 4 s.length ++ s ∧ v = .bytes s
  | readUUID => bs.length = 16 ∧ v = .bytes bs
  | readFieldBegin => (bs = [0] ∧ v = .field TType.T_STOP.code 0) ∨
      ∃ (type : BitVec 8) (id : BitVec 16), thriftType type ≠ TType.T_STOP.code ∧
        bs = be 1 type.toNat ++ be 2 id.toNat ∧ v = .field (thriftType type) id
  | readListBegin => ∃ (type : BitVec 8) (n : BitVec 32), n.toNat < 2 ^ 31 ∧
      bs = be 1 type.toNat ++ be 4 n.toNat ∧ v = .list (thriftType type) n.toNat
  | readSetBegin => ∃ (type : BitVec 8) (n : BitVec 32),
      bs = be 1 type.toNat ++ be 4 n.toNat ∧ v = .list (thriftType type) n.toNat
  | readMapBegin => ∃ (key val : BitVec 8) (n : BitVec 32), n.toNat < 2 ^ 31 ∧
      bs = be 1 key.toNat ++ (be 1 val.toNat ++ be 4 n.toNat) ∧
      v = .map (thriftType key) (thriftType val) n.toNat

/-- What a call takes, it reads, from wherever these bytes come. -/
theorem Call.Takes.reads {c : Call} {bs : Bytes} {v : Value} (h : c.Takes bs v) :
    Reads inputSource c.read bs v := by
  cases c with
  | readBool =>
      obtain ⟨b, rfl, rfl⟩ := h
      exact reads_map _ (reads_bool b)
  | readByte =>
      obtain ⟨n, rfl, rfl⟩ := h
      exact reads_map number (reads_byte n)
  | readI16 | readU16 =>
      obtain ⟨n, rfl, rfl⟩ := h
      exact reads_map number (reads_i16 n)
  | readI32 | readU32 | readIPV4 =>
      obtain ⟨n, rfl, rfl⟩ := h
      exact reads_map number (reads_i32 n)
  | readI64 | readU64 | readDouble =>
      obtain ⟨n, rfl, rfl⟩ := h
      exact reads_map number (reads_i64 n)
  | readIPADDR =>
      obtain ⟨a, rfl, rfl⟩ := h
      exact reads_map _ (reads_ipaddr (family_length a))
  | readString | readXML | readSandeshBegin =>
      obtain ⟨s, hlt, rfl, rfl⟩ := h
      exact reads_map _ (reads_string hlt)
  | readUUID =>
      obtain ⟨hlen, rfl⟩ := h
      have hread := reads_map Value.bytes (reads_value id bs)
      rw [hlen] at hread
      exact hread
  | readFieldBegin =>
      rcases h with ⟨rfl, rfl⟩ | ⟨type, id, ht, rfl, rfl⟩
      · exact reads_map _ reads_fieldStop
      · exact reads_map _ (reads_fieldBegin ht id)
  | readListBegin =>
      obtain ⟨type, n, hn, rfl, rfl⟩ := h
      exact reads_map (fun l => Value.list l.1 l.2) (reads_listBegin type hn)
  | readSetBegin =>
      obtain ⟨type, n, rfl, rfl⟩ := h
      exact reads_map (fun l => Value.list l.1 l.2) (reads_setBegin type n)
  | readMapBegin =>
      obtain ⟨key, val, n, hn, rfl, rfl⟩ := h
      exact reads_map (fun m => Value.map m.1 m.2.1 m.2.2) (reads_mapBegin key val hn)

namespace Piece

/-- What is written for a piece is what its call takes. -/
theorem takes_wire {p : Piece} (h : p.Fits) : p.call.Takes p.wire p.value := by
  cases p with
  | bool v => cases v with
      | true => exact ⟨1, rfl, rfl⟩
      | false => exact ⟨0, rfl, rfl⟩
  | byte v | i16 v | u16 v | i32 v | u32 v | ipv4 v | i64 v | u64 v | double v =>
      exact ⟨v, rfl, rfl⟩
  | ipaddr a => exact ⟨a, rfl, rfl⟩
  | string s | xml s | sandeshBegin s =>
      have hlen : s.length + 4 < 2 ^ 31 := h
      exact ⟨s, by omega, rfl, rfl⟩
  | uuid u hlen => exact ⟨hlen, rfl⟩
  | fieldBegin t id ht =>
      exact .inr ⟨_, id, thriftType_ne_stop ht, by rw [code_toNat]; rfl,
        by rw [thriftType_code]; rfl⟩
  | fieldStop => exact .inl ⟨rfl, rfl⟩
  | listBegin t n =>
      exact ⟨BitVec.ofNat 8 t.code, n, h, by rw [code_toNat]; rfl,
        by rw [thriftType_code]; rfl⟩
  | setBegin t n =>
      exact ⟨BitVec.ofNat 8 t.code, n, by rw [code_toNat]; rfl,
        by rw [thriftType_code]; rfl⟩
  | mapBegin k v n =>
      exact ⟨BitVec.ofNat 8 k.code, BitVec.ofNat 8 v.code, n, h,
        by rw [code_toNat, code_toNat]; rfl,
        by rw [thriftType_code, thriftType_code]; rfl⟩

/-- The call that goes with a piece reads it. -/
theorem reads_wire {p : Piece} (h : p.Fits) :
    Reads inputSource p.call.read p.wire p.value :=
  (takes_wire h).reads

end Piece

end Sandesh.Binary.Cpp
