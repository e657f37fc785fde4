/-
What the write functions of the two binary protocols write, said once for
each of them.

`Writes f o`: given room, `f` writes the bytes of `o` and returns their
number, or fails after them. A transport only has to append (`Appends`);
the memory buffer does, and so does the fake transport that keeps nothing.
`writesFrom_seq` is the rule for the sequencing the code uses, which adds
up the results.
-/
import Sandesh.Binary.Cpp

namespace Sandesh.Binary

open Lib C

-- ================================================================ bytes

/-- One byte has only one order. -/
theorem image_one (n : Nat) : image 1 n = be 1 n := rfl

/-- `os_put_value64` is the network order. -/
theorem os_put_value64_eq (n : Nat) : os_put_value64 n = be 8 n := by
  simp only [os_put_value64, be, Nat.shiftRight_eq_div_pow]
  rfl

/-- `os_get_value64` reads it, whatever the number of bytes. -/
theorem os_get_value64_eq (bs : Bytes) : os_get_value64 bs = ofBe bs := by
  suffices h : ∀ (bs : Bytes) (n : Nat),
      bs.foldl (fun value b => value * 256 + b.toNat) n
        = n * 256 ^ bs.length + ofBe bs by
    have h0 := h bs 0
    rwa [Nat.zero_mul, Nat.zero_add] at h0
  intro bs
  induction bs with
  | nil =>
      intro n
      rw [List.foldl_nil, List.length_nil, Nat.pow_zero, Nat.mul_one]
      rfl
  | cons b bs ih =>
      intro n
      rw [List.foldl_cons, ih, List.length_cons, ofBe, Nat.pow_succ]
      ring

/-- A number comes back from its bytes if they are as many as its width asks
for. -/
theorem ofBe_be_bitVec {w k : Nat} (v : BitVec w) (h : 256 ^ k = 2 ^ w) :
    ofBe (be k v.toNat) = v.toNat := by
  rw [ofBe_be, h]
  exact Nat.mod_eq_of_lt v.isLt

/-- What `ntohs` and its kin make of the bytes that `htons` made. -/
theorem swap_be {w k : Nat} (v : BitVec w) (h : 256 ^ k = 2 ^ w) :
    BitVec.ofNat w (swap k (ofImage (be k v.toNat))) = v := by
  have hswap := swap_ofImage (be k v.toNat)
  rw [length_be] at hswap
  rw [hswap, ofBe_be_bitVec v h, BitVec.ofNat_toNat, BitVec.setWidth_eq]

/-- The same through the image in memory. -/
theorem ofImage_image {w k : Nat} (v : BitVec w) (h : 256 ^ k = 2 ^ w) :
    BitVec.ofNat w (ofImage (image k v.toNat)) = v := by
  rw [ofImage, image, List.reverse_reverse, ofBe_be_bitVec v h,
    BitVec.ofNat_toNat, BitVec.setWidth_eq]

/-- The code of a type fits into a byte. -/
theorem code_toNat (t : TType) : (BitVec.ofNat 8 t.code).toNat = t.code := by
  have hlt := t.code_lt
  rw [BitVec.toNat_ofNat]
  omega

/-- A length below 2^32 is itself as a `uint32_t`. -/
theorem toNat_ofNat_of_lt {n : Nat} (h : n < 2 ^ 32) :
    (BitVec.ofNat 32 n).toNat = n := by
  rw [BitVec.toNat_ofNat]
  exact Nat.mod_eq_of_lt h

-- =============================================================== writes

/-- Bytes that are written, and whether all is well after them. -/
structure Out where
  bytes : Bytes
  ok : Bool

/-- What is written in a row; nothing behind what cannot be written. -/
def Out.seq (a b : Out) : Out := if a.ok then ⟨a.bytes ++ b.bytes, b.ok⟩ else a

/-- Bytes without a failure after them. -/
def Out.good (bs : Bytes) : Out := ⟨bs, true⟩

@[simp] theorem Out.good_bytes (bs : Bytes) : (Out.good bs).bytes = bs := rfl

@[simp] theorem Out.good_ok (bs : Bytes) : (Out.good bs).ok = true := rfl

@[simp] theorem Out.good_seq (bs : Bytes) (o : Out) :
    (Out.good bs).seq o = ⟨bs ++ o.bytes, o.ok⟩ := rfl

/-- The first part is not longer than the whole. -/
theorem Out.length_le_seq (a b : Out) :
    a.bytes.length ≤ (a.seq b).bytes.length := by
  unfold Out.seq
  split
  · rw [List.length_append]
    exact Nat.le_add_right _ _
  · exact Nat.le_refl _

/-- What a transport has to do: `app s bs` is the state with `bs` written,
which there is room for. -/
structure Appends {σ : Type} (T : Transport σ) where
  room : σ → Nat → Prop
  app : σ → Bytes → σ
  write : ∀ {s bs}, room s bs.length → T.write s bs = (true, app s bs)
  less : ∀ {s n m}, room s n → m ≤ n → room s m
  after : ∀ {s bs n}, room s (bs.length + n) → room (app s bs) n
  app_nil : ∀ s, app s [] = s
  app_app : ∀ s a b, app (app s a) b = app s (a ++ b)

/-- Nothing written changes nothing. -/
theorem Buffer.append_nil (b : Buffer) : b.append [] = b := by
  obtain ⟨buf, r, w, hle, hbound⟩ := b
  simp [Buffer.append]

/-- Writing in a row is writing the whole. -/
theorem Buffer.append_append (b : Buffer) (x y : Bytes) :
    (b.append x).append y = b.append (x ++ y) := by
  obtain ⟨buf, r, w, hle, hbound⟩ := b
  have hw : (buf.take w).length = w := by
    rw [List.length_take]
    omega
  have hwx : (buf.take w ++ x).length = w + x.length := by
    rw [List.length_append, hw]
  have htake : (buf.take w ++ x ++ buf.drop (w + x.length)).take (w + x.length)
      = buf.take w ++ x := by
    rw [← hwx, List.take_left]
  have hdrop : (buf.take w ++ x ++ buf.drop (w + x.length)).drop
      (w + x.length + y.length) = buf.drop (w + x.length + y.length) := by
    rw [← hwx, ← List.drop_drop, List.drop_left, List.drop_drop]
  simp only [Buffer.append, htake, hdrop, List.length_append, ← Nat.add_assoc,
    ← List.append_assoc]

/-- The memory buffer appends as long as it has room. -/
def memoryAppends : Appends memoryBuffer where
  room b n := n ≤ b.room
  app := Buffer.append
  write := by
    intro b bs h
    show (if _ then _ else _) = _
    rw [if_neg (Nat.not_lt.mpr h)]
  less := by
    intro b n m h hle
    exact Nat.le_trans hle h
  after := by
    intro b bs n h
    show n ≤ (b.append bs).room
    rw [Buffer.room_append]
    omega
  app_nil := Buffer.append_nil
  app_app := Buffer.append_append

/-- The fake transport has room for everything and keeps nothing. -/
def fakeAppends : Appends fakeTransport where
  room _ _ := True
  app _ _ := ()
  write := fun _ => rfl
  less := fun _ _ => trivial
  after := fun _ => trivial
  app_nil := fun _ => rfl
  app_app := fun _ _ _ => rfl

section Writes

variable {σ : Type} {T : Transport σ} (A : Appends T)

/-- The function writes these bytes and returns their number, or it returns
-1 where the value cannot be written, as long as there is room and no sum
wraps. -/
def Writes (f : σ → Int × σ) (o : Out) : Prop :=
  ∀ s, A.room s o.bytes.length → o.bytes.length < 2 ^ 31 →
    if o.ok then f s = ((o.bytes.length : Int), A.app s o.bytes)
    else (f s).1 = -1

/-- The same for code that goes on from a result so far. -/
def WritesFrom (k : Int → σ → Int × σ) (o : Out) : Prop :=
  ∀ (xfer : Int) (s : σ), 0 ≤ xfer → xfer + o.bytes.length < 2 ^ 31 →
    A.room s o.bytes.length →
    if o.ok then k xfer s = (xfer + o.bytes.length, A.app s o.bytes)
    else (k xfer s).1 = -1

variable {A}

/-- At the end of a function nothing more is written. -/
theorem writesFrom_done : WritesFrom A Prod.mk (.good []) := by
  intro xfer s _ _ _
  show (xfer, s) = (xfer + (0 : Nat), A.app s [])
  rw [A.app_nil, Int.natCast_zero, Int.add_zero]

/-- A function that starts to count at 0. -/
theorem Writes.of_from {k : Int → σ → Int × σ} {o : Out}
    (h : WritesFrom A k o) : Writes A (k 0) o := by
  intro s hroom hlt
  have h0 := h 0 s (Int.le_refl 0) (by omega) hroom
  rwa [Int.zero_add] at h0

/-- A part that succeeds is added to the sum. -/
theorem seq_ok {f : σ → Int × σ} {k : Int → σ → Int × σ} {xfer n : Int}
    {s s₁ : σ} (h : f s = (n, s₁)) (hn : 0 ≤ n) :
    C.seq xfer f k s = k (i32 (xfer + n)) s₁ := by
  unfold C.seq
  rw [h]
  exact if_neg (Int.not_lt.mpr hn)

/-- A part that fails ends the function. -/
theorem seq_fails {f : σ → Int × σ} {k : Int → σ → Int × σ} {xfer : Int}
    {s : σ} (h : (f s).1 = -1) : (C.seq xfer f k s).1 = -1 := by
  unfold C.seq
  simp only [h, if_pos (show (-1 : Int) < 0 by decide)]

/-- Parts in a row write their bytes in a row. -/
theorem writesFrom_seq {f : σ → Int × σ} {k : Int → σ → Int × σ} {a b : Out}
    (hf : Writes A f a) (hk : WritesFrom A k b) :
    WritesFrom A (fun xfer => C.seq xfer f k) (a.seq b) := by
  intro xfer s hx hlt hroom
  have hle := Out.length_le_seq a b
  have hfs := hf s (A.less hroom hle) (by omega)
  obtain ⟨x, okx⟩ := a
  cases okx with
  | false => exact seq_fails hfs
  | true =>
      obtain ⟨y, oky⟩ := b
      change xfer + (x ++ y).length < 2 ^ 31 at hlt
      change A.room s (x ++ y).length at hroom
      change f s = ((x.length : Int), A.app s x) at hfs
      rw [List.length_append] at hlt hroom
      push_cast at hlt
      have hks := hk (xfer + x.length) (A.app s x) (by omega)
        (by show xfer + x.length + y.length < 2 ^ 31; omega) (A.after hroom)
      have hrun : C.seq xfer f k s = k (xfer + x.length) (A.app s x) := by
        rw [seq_ok hfs (Int.natCast_nonneg _), i32_eq (by omega) (by omega)]
      cases oky with
      | false =>
          show (C.seq xfer f k s).1 = -1
          rw [hrun]
          exact hks
      | true =>
          show C.seq xfer f k s = (xfer + ((x ++ y).length : Nat), A.app s (x ++ y))
          rw [hrun, ← A.app_app, List.length_append, Int.natCast_add,
            ← Int.add_assoc]
          exact hks

/-- The same where the first part is of bytes that can always be written. -/
theorem writesFrom_good {f : σ → Int × σ} {k : Int → σ → Int × σ} {bs : Bytes}
    {o : Out} (hf : Writes A f (.good bs)) (hk : WritesFrom A k o) :
    WritesFrom A (fun xfer => seq xfer f k) ⟨bs ++ o.bytes, o.ok⟩ := by
  rw [← Out.good_seq]
  exact writesFrom_seq hf hk

/-- The same for a whole function. -/
theorem writes_seq {f : σ → Int × σ} {k : Int → σ → Int × σ} {bs : Bytes} {o : Out}
    (hf : Writes A f (.good bs)) (hk : WritesFrom A k o) :
    Writes A (seq 0 f k) ⟨bs ++ o.bytes, o.ok⟩ :=
  Writes.of_from (writesFrom_good hf hk)

/-- The one function that goes to the transport. -/
theorem writes_put (bs : Bytes) : Writes A (put T bs) (.good bs) := by
  intro s hroom _
  have hwrite : T.write s bs = (true, A.app s bs) := A.write hroom
  unfold put
  rw [hwrite]
  rfl

/-- A last write whose number of bytes is added to the result. -/
theorem writesFrom_last (bs : Bytes) {k : Int → σ → Int × σ}
    (hk : ∀ xfer s, k xfer s = match T.write s bs with
      | (true, s) => (xfer + bs.length, s)
      | (false, s) => (-1, s)) :
    WritesFrom A k (.good bs) := by
  intro xfer s _ _ hroom
  have hwrite : T.write s bs = (true, A.app s bs) := A.write hroom
  rw [hk, hwrite]
  rfl

/-- The numbers that follow are written in network order. -/
theorem writes_byte (v : BitVec 8) :
    Writes A (write_byte T v) (.good (be 1 v.toNat)) := writes_put _

theorem writes_i16 (v : BitVec 16) :
    Writes A (write_i16 T v) (.good (be 2 v.toNat)) := by
  unfold write_i16
  rw [image_swap]
  exact writes_put _

theorem writes_i32 (v : BitVec 32) :
    Writes A (write_i32 T v) (.good (be 4 v.toNat)) := by
  unfold write_i32
  rw [image_swap]
  exact writes_put _

theorem writes_i64 (v : BitVec 64) :
    Writes A (write_i64 T v) (.good (be 8 v.toNat)) := by
  unfold write_i64
  rw [os_put_value64_eq]
  exact writes_put _

theorem writes_bool (v : BitVec 8) :
    Writes A (write_bool T v) (.good [if v ≠ 0 then 1 else 0]) := by
  have hbytes : be 1 (if v ≠ 0 then (1 : BitVec 8) else 0).toNat
      = [if v ≠ 0 then 1 else 0] := by
    split <;> rfl
  rw [← hbytes]
  exact writes_byte _

/-- The bytes in front of the NUL are the first `strlen` ones. -/
theorem take_cstr (s : Bytes) : s.take (cstr s).length = cstr s :=
  List.prefix_iff_eq_take.mp (List.takeWhile_prefix _) |>.symm

/-- Without a NUL the string is all of it. -/
theorem cstr_eq {s : Bytes} (hnul : nul ∉ s) : cstr s = s := by
  refine List.takeWhile_eq_self_iff.mpr fun b hb => ?_
  rw [decide_eq_true_eq]
  rintro rfl
  exact hnul hb

/-- A count and that many bytes. -/
theorem writes_binary {buf : Bytes} {len : BitVec 32} (hle : len.toNat ≤ buf.length) :
    Writes A (write_binary T buf len) (.good (be 4 len.toNat ++ buf.take len.toNat)) := by
  refine writes_seq (writes_i32 len) (o := .good (buf.take len.toNat)) ?_
  intro xfer st hx hlt hroom
  have hlength : (buf.take len.toNat).length = len.toNat := by
    rw [List.length_take, Nat.min_eq_left hle]
  rw [Out.good_bytes] at hlt hroom
  simp only [Out.good_ok, if_true, Out.good_bytes]
  split
  · rw [A.write hroom, hlength, i32_eq (by omega) (by omega)]
  · rename_i hzero
    rw [Nat.eq_zero_of_not_pos hzero, List.take_zero, A.app_nil]
    simp

/-- The bytes of a length and of a string up to its first NUL. -/
theorem writes_string (s : Bytes) :
    Writes A (write_string T (some s))
      (.good (be 4 (cstr s).length ++ cstr s)) := by
  intro st hroom hlt
  have hsize : (BitVec.ofNat 32 (cstr s).length).toNat = (cstr s).length := by
    rw [Out.good_bytes, List.length_append] at hlt
    rw [BitVec.toNat_ofNat]
    exact Nat.mod_eq_of_lt (by omega)
  have hle : (BitVec.ofNat 32 (cstr s).length).toNat ≤ s.length := by
    rw [hsize]
    exact (List.takeWhile_prefix _).length_le
  have h := writes_binary (A := A) hle
  rw [hsize, take_cstr] at h
  exact h st hroom hlt

/-- A null pointer is written like an empty string. -/
theorem writes_null : Writes A (write_string T none) (.good (be 4 0)) := by
  have hle : (0 : BitVec 32).toNat ≤ ([] : Bytes).length := Nat.le_refl 0
  exact writes_binary hle

/-- The code of a type, as a byte. -/
theorem writes_code (t : TType) :
    Writes A (write_byte T (BitVec.ofNat 8 t.code)) (.good (be 1 t.code)) := by
  have h := writes_byte (A := A) (BitVec.ofNat 8 t.code)
  have hout : be 1 (BitVec.ofNat 8 t.code).toNat = be 1 t.code := by
    rw [code_toNat]
  exact hout ▸ h

/-- Type and id. -/
theorem writes_field_begin (t : TType) (id : BitVec 16) :
    Writes A (write_field_begin T t id)
      (.good (be 1 t.code ++ be 2 id.toNat)) := by
  have h := writesFrom_good (writes_code (A := A) t)
    (writesFrom_good (writes_i16 (A := A) id) writesFrom_done)
  rw [Out.good_bytes, List.append_nil] at h
  exact Writes.of_from h

theorem writes_field_stop :
    Writes A (write_field_stop T) (.good [0]) := writes_put _

/-- Type and size. -/
theorem writes_list_begin (t : TType) (size : BitVec 32) :
    Writes A (write_list_begin T t size)
      (.good (be 1 t.code ++ be 4 size.toNat)) := by
  have h := writesFrom_good (writes_code (A := A) t)
    (writesFrom_good (writes_i32 (A := A) size) writesFrom_done)
  rw [Out.good_bytes, List.append_nil] at h
  exact Writes.of_from h

/-- An address is its family and its bytes. -/
theorem writes_ipv4 {bytes : Bytes} (hlen : bytes.length = 4) :
    Writes A (write_ipaddr T (.ipv4 bytes hlen))
      (.good (be 1 AF_INET ++ bytes)) := by
  have hlast : WritesFrom A (fun xfer s =>
      match T.write s bytes with
      | (true, s) => (xfer + 4, s)
      | (false, s) => (-1, s)) (.good bytes) := by
    refine writesFrom_last bytes fun xfer s => ?_
    rw [hlen]
    rfl
  exact Writes.of_from
    (writesFrom_good (writes_byte (A := A) (BitVec.ofNat 8 AF_INET)) hlast)

theorem writes_ipv6 {bytes : Bytes} (hlen : bytes.length = 16) :
    Writes A (write_ipaddr T (.ipv6 bytes hlen))
      (.good (be 1 AF_INET6 ++ bytes)) := by
  have hlast : WritesFrom A (fun xfer s =>
      match T.write s bytes with
      | (true, s) => (xfer + 16, s)
      | (false, s) => (-1, s)) (.good bytes) := by
    refine writesFrom_last bytes fun xfer s => ?_
    rw [hlen]
    rfl
  exact Writes.of_from
    (writesFrom_good (writes_byte (A := A) (BitVec.ofNat 8 AF_INET6)) hlast)

/-- An address of a third family is not written. -/
theorem writes_ipaddr_other (iptype : BitVec 8) :
    Writes A (write_ipaddr T (.other iptype)) ⟨[], false⟩ := by
  intro s _ _
  rfl

end Writes

-- ========================================================= the C++ side

namespace Cpp

/-- The one function that goes to the buffer, in C++. -/
theorem writes_bytes (bs : Bytes) :
    Writes memoryAppends (writeBytes bs) (.good bs) := by
  intro b hroom _
  change bs.length ≤ b.room at hroom
  show ((bs.length : Int), if _ then _ else _) = _
  rw [if_neg (Nat.not_lt.mpr hroom)]
  rfl

/-- A number that went through `htons` or `htonl`. -/
theorem writes_number (k n : Nat) :
    Writes memoryAppends (writeBytes (image k (swap k n))) (.good (be k n)) := by
  rw [image_swap]
  exact writes_bytes _

theorem writes_code (t : TType) :
    Writes memoryAppends (writeByte (BitVec.ofNat 8 t.code))
      (.good (be 1 t.code)) := by
  show Writes memoryAppends (writeBytes (be 1 (BitVec.ofNat 8 t.code).toNat)) _
  rw [code_toNat]
  exact writes_bytes _

theorem writes_fieldBegin (t : TType) (id : BitVec 16) :
    Writes memoryAppends (writeFieldBegin t id)
      (.good (be 1 t.code ++ be 2 id.toNat)) := by
  have h := writesFrom_good (writes_code t)
    (writesFrom_good (writes_number 2 id.toNat) writesFrom_done)
  rw [Out.good_bytes, List.append_nil] at h
  exact Writes.of_from h

theorem writes_listBegin (t : TType) (size : BitVec 32) :
    Writes memoryAppends (writeListBegin t size)
      (.good (be 1 t.code ++ be 4 size.toNat)) := by
  have h := writesFrom_good (writes_code t)
    (writesFrom_good (writes_number 4 size.toNat) writesFrom_done)
  rw [Out.good_bytes, List.append_nil] at h
  exact Writes.of_from h

/-- Where there is room the bytes are appended. -/
theorem write_eq {b : Buffer} {bs : Bytes} (h : bs.length ≤ b.room) :
    write b bs = b.append bs := if_neg (Nat.not_lt.mpr h)

/-- Both families are written alike. -/
theorem writes_ipaddr (a : Address) :
    Writes memoryAppends (writeIPADDR a)
      (.good (match a with
        | .v4 bytes _ => be 1 AF_INET ++ bytes
        | .v6 bytes _ => be 1 AF_INET6 ++ bytes)) := by
  -- one write for the family, one for the address
  have htwo : ∀ {family : Nat} {bytes : Bytes} {b : Buffer},
      (be 1 family ++ bytes).length ≤ b.room →
      write (write b (be 1 family)) bytes = b.append (be 1 family ++ bytes) := by
    intro family bytes b h
    rw [List.length_append, length_be] at h
    have hroom₁ : (be 1 family).length ≤ b.room := by
      rw [length_be]
      omega
    have hroom₂ : bytes.length ≤ (b.append (be 1 family)).room := by
      rw [Buffer.room_append, length_be]
      omega
    rw [write_eq hroom₁, write_eq hroom₂, Buffer.append_append]
  intro b hroom _
  cases a with
  | v4 bytes hlen =>
      show ((1 : Int) + 4, write (write b (be 1 AF_INET)) bytes) = _
      rw [htwo hroom]
      simp only [Out.good_bytes, List.length_append, length_be, hlen]
      rfl
  | v6 bytes hlen =>
      show ((1 : Int) + 16, write (write b (be 1 AF_INET6)) bytes) = _
      rw [htwo hroom]
      simp only [Out.good_bytes, List.length_append, length_be, hlen]
      rfl

theorem writes_string {str : Bytes} (hlen : str.length < 2 ^ 32) :
    Writes memoryAppends (writeString str) (.good (be 4 str.length ++ str)) := by
  intro b hroom hlt
  have hsize : (BitVec.ofNat 32 str.length).toNat = str.length := by
    rw [BitVec.toNat_ofNat]
    exact Nat.mod_eq_of_lt hlen
  change (be 4 str.length ++ str).length ≤ b.room at hroom
  rw [Out.good_bytes] at hlt
  rw [List.length_append, length_be] at hroom hlt
  have hhead := writes_number 4 str.length b
    (show (be 4 str.length).length ≤ b.room by rw [length_be]; omega)
    (by rw [Out.good_bytes, length_be]; decide)
  rw [Out.good_ok, if_pos rfl, Out.good_bytes, length_be] at hhead
  simp only [Out.good_ok, if_true, Out.good_bytes, writeString, writeI32, hsize,
    hhead, List.take_length, List.length_append, length_be]
  rw [i32_eq (by omega) (by omega)]
  split
  · rw [show memoryAppends.app = Buffer.append from rfl, write_eq,
      Buffer.append_append]
    · rfl
    · rw [Buffer.room_append, length_be]
      omega
  · rename_i hzero
    obtain rfl : str = [] := List.length_eq_zero_iff.mp (by omega)
    rw [List.append_nil]
    rfl

end Cpp

end Sandesh.Binary
