/-
The C and the C++ binary protocol on the same wire.

An `Item` is what both sides can write: a value of a base type or a header.
They agree on it (`Agree`) when both write the same bytes and return their
number, and both read the value and this number back. They agree on every
item but three kinds (`protocols_agree_iff`): a double, whose bits the C side writes
as the host keeps them, unless its bytes read the same from both ends; a
string that leaves no room for its length below 2^31; and a list with 2^31
elements or more, which both sides write and neither reads.
-/
import Sandesh.Binary.Proofs.Reads

namespace Sandesh.Binary

open Lib C Cpp

-- ================================================================ items

/-- What both protocols have a function for: values, and the parts of
containers and messages. -/
inductive Item
  | bool (value : Bool)
  | byte (value : BitVec 8)
  | i16 (value : BitVec 16)
  | i32 (value : BitVec 32)
  | i64 (value : BitVec 64)
  | u16 (value : BitVec 16)
  | u32 (value : BitVec 32)
  | u64 (value : BitVec 64)
  | ipv4 (value : BitVec 32)
  | ipaddr (value : Address)
  | double (bits : BitVec 64)
  | string (value : Bytes) (h : nul ∉ value)
  | xml (value : Bytes) (h : nul ∉ value)
  | uuid (value : Bytes) (h : value.length = 16)
  | fieldBegin (type : TType) (id : BitVec 16) (h : type ≠ .T_STOP)
  | fieldStop
  | listBegin (type : TType) (size : BitVec 32)
  | sandeshBegin (name : Bytes) (h : nul ∉ name)

/-- The address as the C side has it. -/
def ipaddrC : Address → IpAddr
  | .v4 bytes h => .ipv4 bytes h
  | .v6 bytes h => .ipv6 bytes h

namespace Item

/-- The item as the C++ side has it. -/
def piece : Item → Piece
  | bool v => .bool v
  | byte v => .byte v
  | i16 v => .i16 v
  | i32 v => .i32 v
  | i64 v => .i64 v
  | u16 v => .u16 v
  | u32 v => .u32 v
  | u64 v => .u64 v
  | ipv4 v => .ipv4 v
  | ipaddr a => .ipaddr a
  | double v => .double v
  | string s _ => .string s
  | xml s _ => .xml s
  | uuid u h => .uuid u h
  | fieldBegin t id h => .fieldBegin t id h
  | fieldStop => .fieldStop
  | listBegin t n => .listBegin t n
  | sandeshBegin s _ => .sandeshBegin s

/-- The item as both readers give it. -/
def value (x : Item) : Value := x.piece.value

section

variable {σ : Type} (T : Transport σ)

/-- The C functions, item by item. -/
def writeC : Item → σ → Int × σ
  | bool v => write_bool T (if v then 1 else 0)
  | byte v => write_byte T v
  | i16 v => write_i16 T v
  | i32 v => write_i32 T v
  | i64 v => write_i64 T v
  | u16 v => write_u16 T v
  | u32 v => write_u32 T v
  | u64 v => write_u64 T v
  | ipv4 v => write_ipv4 T v
  | ipaddr a => write_ipaddr T (ipaddrC a)
  | double v => write_double T v
  | string s _ => write_string T (some s)
  | xml s _ => write_xml T (some s)
  | uuid u _ => write_uuid_t T u
  | fieldBegin t id _ => write_field_begin T t id
  | fieldStop => write_field_stop T
  | listBegin t n => write_list_begin T t n
  | sandeshBegin s _ => write_sandesh_begin T s

/-- A null pointer is how the C side holds an empty string. -/
def stringC (s : Option Bytes) : Value := .bytes (s.getD [])

/-- The C reader, with its result as a value. -/
def readC : Item → Reader σ Value
  | bool _ => map (fun v => .bool (decide (v ≠ 0))) (read_bool T)
  | byte _ => map number (read_byte T)
  | i16 _ => map number (read_i16 T)
  | i32 _ => map number (read_i32 T)
  | i64 _ => map number (read_i64 T)
  | u16 _ => map number (read_u16 T)
  | u32 _ => map number (read_u32 T)
  | u64 _ => map number (read_u64 T)
  | ipv4 _ => map number (read_ipv4 T)
  | ipaddr _ => map (fun a => .address a.1 a.2) (read_ipaddr T)
  | double _ => map number (read_double T)
  | string _ _ => map stringC (read_string T)
  | xml _ _ => map stringC (read_xml T)
  | uuid _ _ => map .bytes (read_uuid_t T)
  | fieldBegin _ _ _ => map (fun f => .field f.1 f.2) (read_field_begin T)
  | fieldStop => map (fun f => .field f.1 f.2) (read_field_begin T)
  | listBegin _ _ => map (fun l => .list l.1 l.2) (read_list_begin T)
  | sandeshBegin _ _ => map stringC (read_sandesh_begin T)

end

/-- The C++ functions are those of the piece. -/
def writeCpp (x : Item) : Buffer → Int × Buffer := x.piece.write

/-- So are the reads. -/
def readCpp (x : Item) : Reader Input Value := x.piece.call.read

end Item

-- ============================================================ agreement

/-- Both sides write the same bytes, and each reads the value and the
number of bytes back from them. -/
def Agree (x : Item) : Prop :=
  ∃ bs : Bytes,
    (∀ b : Buffer, bs.length ≤ b.room →
      x.writeC memoryBuffer b = ((bs.length : Int), b.append bs) ∧
      x.writeCpp b = ((bs.length : Int), b.append bs)) ∧
    (∀ (b : Buffer) (rest : Bytes), b.unread = bs ++ rest →
      ∃ b', x.readC memoryBuffer b = (some (x.value, (bs.length : Int)), b') ∧
        b'.unread = rest) ∧
    (∀ (s : Input) (rest : Bytes), s.buffer.unread = bs ++ rest →
      ∃ s', x.readCpp s = (some (x.value, (bs.length : Int)), s') ∧
        s'.buffer.unread = rest)

/-- Where the two sides agree. -/
def Same : Item → Prop
  | .double bits => (be 8 bits.toNat).reverse = be 8 bits.toNat
  | .string s _ | .xml s _ | .sandeshBegin s _ => s.length + 4 < 2 ^ 31
  | .listBegin _ size => size.toNat < 2 ^ 31
  | _ => True

-- ====================================================== they agree there

/-- What is on the wire by the C++ protocol. -/
def Item.wire (x : Item) : Bytes := x.piece.wire

/-- An item that is the same in both fits into its fields. -/
theorem Item.fits {x : Item} (h : Same x) : x.piece.Fits := by
  cases x with
  | string | xml | sandeshBegin | listBegin => exact h
  | _ => trivial

/-- The name, as a string without a NUL. -/
theorem writes_sandesh_begin {σ : Type} {T : Transport σ} {A : Appends T}
    {name : Bytes} (hnul : nul ∉ name) :
    Writes A (write_sandesh_begin T name) (.good (be 4 name.length ++ name)) := by
  have h := writesFrom_good (writes_string (A := A) name) writesFrom_done
  rw [Out.good_bytes, List.append_nil, cstr_eq hnul] at h
  exact Writes.of_from h

/-- The C writer writes the bytes of the C++ protocol. -/
theorem Item.writesC {σ : Type} {T : Transport σ} {A : Appends T} {x : Item}
    (h : Same x) : Writes A (x.writeC T) (.good x.wire) := by
  cases x with
  | bool v => cases v <;> exact writes_bool _
  | byte v => exact writes_byte v
  | i16 v | u16 v => exact writes_i16 v
  | i32 v | u32 v | ipv4 v => exact writes_i32 v
  | i64 v | u64 v => exact writes_i64 v
  | ipaddr a =>
      cases a with
      | v4 bytes hlen => exact writes_ipv4 hlen
      | v6 bytes hlen => exact writes_ipv6 hlen
  | double v =>
      show Writes A (put T (be 8 v.toNat).reverse) (.good (be 8 v.toNat))
      rw [show (be 8 v.toNat).reverse = be 8 v.toNat from h]
      exact writes_put _
  | string s hnul | xml s hnul =>
      have hwrites := writes_string (A := A) s
      rw [cstr_eq hnul] at hwrites
      exact hwrites
  | uuid u hlen => exact writes_put u
  | fieldBegin t id ht => exact writes_field_begin t id
  | fieldStop => exact writes_field_stop
  | listBegin t n => exact writes_list_begin t n
  | sandeshBegin s hnul => exact writes_sandesh_begin hnul

/-- The C reader reads them. -/
theorem Item.readsC {x : Item} (h : Same x) :
    Reads memorySource (x.readC memoryBuffer) x.wire x.value := by
  -- a null pointer stands for an empty string
  have hstring : ∀ {f : Reader Buffer Value} {s : Bytes},
      (∀ {bs v}, Reads memorySource (read_string memoryBuffer) bs v →
        Reads memorySource f bs (stringC v)) →
      s.length + 4 < 2 ^ 31 →
      Reads memorySource f (be 4 s.length ++ s) (.bytes s) := by
    intro f s hf hs
    have hread := hf (C.reads_string (show s.length < 2 ^ 31 by omega))
    cases s with
    | nil => exact hread
    | cons c cs => exact hread
  cases x with
  | bool v => cases v <;> exact reads_map _ (C.reads_value _ _)
  | byte v => exact reads_map number (C.reads_byte v)
  | i16 v | u16 v => exact reads_map number (C.reads_i16 v)
  | i32 v | u32 v | ipv4 v => exact reads_map number (C.reads_i32 v)
  | i64 v | u64 v => exact reads_map number (C.reads_i64 v)
  | ipaddr a => exact reads_map _ (C.reads_ipaddr (family_length a))
  | double v =>
      have hread := reads_map number (reads_double v)
      rw [image, show (be 8 v.toNat).reverse = be 8 v.toNat from h] at hread
      exact hread
  | string s _ | xml s _ => exact hstring (reads_map stringC) h
  | sandeshBegin s _ =>
      exact hstring (fun hread => reads_map stringC
        (Reads.of_from (readsFrom_last (g := id) hread))) h
  | uuid u hlen =>
      have hread := reads_map Value.bytes (reads_get u)
      rw [hlen] at hread
      exact hread
  | fieldBegin t id ht => exact reads_map _ (reads_field_begin ht id)
  | fieldStop => exact reads_map _ reads_field_stop
  | listBegin t n => exact reads_map _ (reads_list_begin t h)

/-- So the two writers leave the same buffer and return the same. -/
theorem Item.writes_wire {x : Item} (h : Same x) {b : Buffer}
    (hroom : x.wire.length ≤ b.room) :
    x.writeC memoryBuffer b = ((x.wire.length : Int), b.append x.wire) ∧
      x.writeCpp b = ((x.wire.length : Int), b.append x.wire) :=
  ⟨x.writesC (A := memoryAppends) h b hroom (Piece.wire_lt (x.fits h)),
    Piece.writes_wire (x.fits h) b hroom (Piece.wire_lt (x.fits h))⟩

/-- And each reader takes the item off what follows. -/
theorem Item.readC_wire {x : Item} (h : Same x) {b : Buffer} {rest : Bytes}
    (hb : b.unread = x.wire ++ rest) :
    ∃ b', x.readC memoryBuffer b = (some (x.value, (x.wire.length : Int)), b') ∧
      b'.unread = rest := by
  obtain ⟨b', hread, ht⟩ := x.readsC h b rest hb (Piece.wire_lt (x.fits h))
  change b.unread = x.wire ++ b'.unread at ht
  rw [hb] at ht
  exact ⟨b', hread, (List.append_cancel_left ht).symm⟩

theorem Item.readCpp_wire {x : Item} (h : Same x) {s : Input} {rest : Bytes}
    (hs : s.buffer.unread = x.wire ++ rest) :
    ∃ s', x.readCpp s = (some (x.value, (x.wire.length : Int)), s') ∧
      s'.buffer.unread = rest := by
  have hstream : inputSource.stream s = x.wire ++ (rest ++ s.stale) := by
    show s.buffer.unread ++ s.stale = _
    rw [hs, List.append_assoc]
  obtain ⟨s', hread, -, hleft⟩ := Piece.reads_wire (x.fits h) s _ hstream
    (Piece.wire_lt (x.fits h))
  change s'.buffer.unread = s.buffer.unread.drop x.wire.length at hleft
  rw [hs, List.drop_left] at hleft
  exact ⟨s', hread, hleft⟩

/-- The condition is enough. -/
theorem agree_of_same {x : Item} (h : Same x) : Agree x :=
  ⟨x.wire, fun _ hroom => x.writes_wire h hroom, fun _ _ hb => x.readC_wire h hb,
    fun _ _ hs => x.readCpp_wire h hs⟩

-- ========================================================= what is read

/-- The rules for a C reader that has returned: it has returned at every
step. -/
theorem andThen_some {σ α β : Type} {xfer : Int} {f : Reader σ α}
    {k : α → Int → Reader σ β} {s s' : σ} {r : β × Int}
    (h : andThen xfer f k s = (some r, s')) :
    ∃ a ret s₁, f s = (some (a, ret), s₁) ∧
      k a (i32 (xfer + ret)) s₁ = (some r, s') := by
  unfold andThen at h
  rcases hf : f s with ⟨_ | ⟨a, ret⟩, s₁⟩
  · rw [hf] at h
    cases h
  · rw [hf] at h
    exact ⟨a, ret, s₁, rfl, h⟩

theorem map_some {σ α β : Type} {g : α → β} {f : Reader σ α} {s s' : σ} {b : β}
    {n : Int} (h : C.map g f s = (some (b, n), s')) :
    ∃ a, f s = (some (a, n), s') ∧ g a = b := by
  unfold C.map at h
  rcases hf : f s with ⟨_ | ⟨a, ret⟩, s₁⟩
  · rw [hf] at h
    cases h
  · rw [hf] at h
    cases h
    exact ⟨a, rfl, rfl⟩

/-- A fixed number of bytes was there. -/
theorem get_some {len : Nat} {b b' : Buffer} {bs : Bytes} {n : Int}
    (h : C.get memoryBuffer len b = (some (bs, n), b')) :
    bs.length = len ∧ n = len := by
  unfold C.get memoryBuffer at h
  by_cases hle : len ≤ b.unread.length
  · simp only [hle, dite_true] at h
    cases h
    exact ⟨List.length_take_of_le hle, rfl⟩
  · simp only [hle, dite_false] at h
    cases h

/-- What the C side reads as a string, and the number it returns. -/
theorem read_string_some {b b' : Buffer} {v : Option Bytes} {n : Int}
    (h : read_string memoryBuffer b = (some (v, n), b')) :
    (v.getD []).length < 2 ^ 31 ∧ n = i32 (4 + (v.getD []).length) := by
  obtain ⟨len, ret, b₁, hlen, h⟩ := andThen_some h
  obtain ⟨bs, hget, -⟩ := map_some hlen
  obtain rfl : ret = 4 := (get_some hget).2
  split at h
  · rename_i hpos
    obtain ⟨s, ret, b₂, hget, h⟩ := andThen_some h
    obtain ⟨hs, rfl⟩ := get_some hget
    cases h
    have hint := BitVec.toInt_eq_toNat_cond len
    have hlt := len.isLt
    refine ⟨?_, ?_⟩
    · show s.length < 2 ^ 31
      split at hint <;> omega
    · show _ = i32 (4 + s.length)
      rw [hs]
      rfl
  · cases h
    exact ⟨by decide, rfl⟩

/-- A count that is not negative has not wrapped. -/
theorem short_of_count {s : Bytes} (h : s.length < 2 ^ 31)
    (hn : 0 ≤ i32 (4 + s.length)) : s.length + 4 < 2 ^ 31 := by
  by_contra hlong
  rw [i32_high (by omega) (by omega)] at hn
  omega

/-- A size that is returned is not negative. -/
theorem read_list_begin_short {b b' : Buffer} {v : Nat × Nat} {n : Int}
    (h : read_list_begin memoryBuffer b = (some (v, n), b')) : v.2 < 2 ^ 31 := by
  obtain ⟨e, ret, b₁, -, h⟩ := andThen_some h
  obtain ⟨size, ret, b₂, -, h⟩ := andThen_some h
  split at h
  · cases h
  · rename_i hpos
    cases h
    have hint := BitVec.toInt_eq_toNat_cond size
    have hlt := size.isLt
    show size.toNat < 2 ^ 31
    split at hint <;> omega

/-- An empty buffer. -/
def Buffer.blank (n : Nat) : Buffer where
  buf := List.replicate n 0
  roffset := 0
  woffset := 0
  le := Buffer.start_le
  bound := Buffer.start_bound _

/-- A new buffer, and what is written into it. -/
theorem Buffer.room_blank (n : Nat) : (Buffer.blank n).room = n := by
  show (List.replicate n (0 : UInt8)).length - 0 = n
  rw [List.length_replicate, Nat.sub_zero]

theorem Buffer.unread_blank_append (n : Nat) (bs : Bytes) :
    ((Buffer.blank n).append bs).unread = bs := by
  rw [Buffer.unread_append]
  show ((List.replicate n (0 : UInt8)).take 0).drop 0 ++ bs = bs
  rw [List.take_zero, List.drop_nil, List.nil_append]

/-- What the C side reads back has a size that it can. -/
theorem same_of_readC {x : Item} (hx : ∀ bits, x ≠ .double bits) {b b' : Buffer}
    {n : Int} (h : x.readC memoryBuffer b = (some (x.value, n), b'))
    (hn : 0 ≤ n) : Same x := by
  cases x with
  | double bits => exact absurd rfl (hx bits)
  | string s _ | xml s _ =>
      obtain ⟨v, hv, heq⟩ := map_some h
      cases heq
      obtain ⟨hlt, hcount⟩ := read_string_some hv
      exact short_of_count hlt (hcount ▸ hn)
  | sandeshBegin s _ =>
      obtain ⟨v, hv, heq⟩ := map_some h
      cases heq
      obtain ⟨v, ret, b₁, hv, hdone⟩ := andThen_some hv
      obtain ⟨hlt, hret⟩ := read_string_some hv
      simp only [done, hret, Int.zero_add, i32_i32, Prod.mk.injEq,
        Option.some.injEq] at hdone
      obtain ⟨⟨rfl, hcount⟩, -⟩ := hdone
      exact short_of_count hlt (hcount ▸ hn)
  | listBegin t size =>
      obtain ⟨v, hv, heq⟩ := map_some h
      have hsize : v.2 = size.toNat := (Value.list.inj heq).2
      show size.toNat < 2 ^ 31
      rw [← hsize]
      exact read_list_begin_short hv
  | _ => trivial

-- ============================================================= messages

/-- Write the items of a message in order. -/
def writeEach {σ : Type} (f : Item → σ → Int × σ) :
    List Item → σ → List Int × σ
  | [], s => ([], s)
  | x :: xs, s =>
      match f x s with
      | (ret, s) =>
          match writeEach f xs s with
          | (rets, s) => (ret :: rets, s)

/-- Read the items of a message in order. -/
def readEach {σ : Type} (f : Item → Reader σ Value) :
    List Item → σ → List (Option (Value × Int)) × σ
  | [], s => ([], s)
  | x :: xs, s =>
      match f x s with
      | (ret, s) =>
          match readEach f xs s with
          | (rets, s) => (ret :: rets, s)

/-- What each read of a message gives back. -/
def returned (bytes : Item → Bytes) (xs : List Item) :
    List (Option (Value × Int)) :=
  xs.map fun x => some (x.value, ((bytes x).length : Int))

/-- `Agree` for a message, item by item. -/
def AgreeAll (xs : List Item) : Prop :=
  ∃ bytes : Item → Bytes,
    (∀ b : Buffer, (xs.flatMap bytes).length ≤ b.room →
      writeEach (Item.writeC memoryBuffer) xs b
        = (xs.map fun x => ((bytes x).length : Int), b.append (xs.flatMap bytes)) ∧
      writeEach Item.writeCpp xs b
        = (xs.map fun x => ((bytes x).length : Int), b.append (xs.flatMap bytes))) ∧
    (∀ (b : Buffer) (rest : Bytes), b.unread = xs.flatMap bytes ++ rest →
      ∃ b', readEach (Item.readC memoryBuffer) xs b = (returned bytes xs, b') ∧
        b'.unread = rest) ∧
    (∀ (s : Input) (rest : Bytes), s.buffer.unread = xs.flatMap bytes ++ rest →
      ∃ s', readEach Item.readCpp xs s = (returned bytes xs, s') ∧
        s'.buffer.unread = rest)

/-- A message is written item by item, by induction. -/
theorem writeEach_wire {f : Item → Buffer → Int × Buffer} {w : Item → Bytes}
    {xs : List Item} (hf : ∀ x ∈ xs, ∀ {b : Buffer}, (w x).length ≤ b.room →
      f x b = (((w x).length : Int), b.append (w x))) {b : Buffer}
    (hroom : (xs.flatMap w).length ≤ b.room) :
    writeEach f xs b = (xs.map fun x => ((w x).length : Int),
      b.append (xs.flatMap w)) := by
  induction xs generalizing b with
  | nil => rw [List.flatMap_nil, Buffer.append_nil]; rfl
  | cons x xs ih =>
      rw [List.flatMap_cons, List.length_append] at hroom
      have hx := hf x (List.mem_cons_self) (b := b) (by omega)
      have hrest := ih (fun y hy => hf y (List.mem_cons_of_mem x hy))
        (b := b.append (w x)) (by rw [Buffer.room_append]; omega)
      simp only [writeEach, hx, hrest, List.map_cons, List.flatMap_cons,
        Buffer.append_append]

/-- And read item by item. -/
theorem readEach_wire {σ : Type} {f : Item → Reader σ Value} {u : σ → Bytes}
    {xs : List Item}
    (hf : ∀ x ∈ xs, ∀ {s : σ} {rest : Bytes}, u s = x.wire ++ rest →
      ∃ s', f x s = (some (x.value, (x.wire.length : Int)), s') ∧ u s' = rest)
    {s : σ} {rest : Bytes} (hs : u s = xs.flatMap Item.wire ++ rest) :
    ∃ s', readEach f xs s = (returned Item.wire xs, s') ∧ u s' = rest := by
  induction xs generalizing s with
  | nil => exact ⟨s, rfl, hs⟩
  | cons x xs ih =>
      rw [List.flatMap_cons, List.append_assoc] at hs
      obtain ⟨s₁, hx, hs₁⟩ := hf x List.mem_cons_self hs
      obtain ⟨s₂, hrest, hs₂⟩ := ih (fun y hy => hf y (List.mem_cons_of_mem x hy)) hs₁
      refine ⟨s₂, ?_, hs₂⟩
      simp only [readEach, hx, hrest, returned, List.map_cons]

/-- The condition is enough for a message. -/
theorem agreeAll_of_same {xs : List Item} (hxs : ∀ x ∈ xs, Same x) :
    AgreeAll xs := by
  refine ⟨Item.wire, ?_, ?_, ?_⟩
  · intro b hroom
    exact ⟨writeEach_wire (fun x hx _ h => (x.writes_wire (hxs x hx) h).1) hroom,
      writeEach_wire (fun x hx _ h => (x.writes_wire (hxs x hx) h).2) hroom⟩
  · intro b rest hb
    exact readEach_wire (fun x hx _ _ h => x.readC_wire (hxs x hx) h) hb
  · intro s rest hs
    exact readEach_wire (u := fun s : Input => s.buffer.unread)
      (fun x hx _ _ h => x.readCpp_wire (hxs x hx) h) hs

-- ================================================= and of no others

/-- Each item of a message that is read back is read back somewhere. -/
theorem readEach_mem {σ : Type} {f : Item → Reader σ Value} {bytes : Item → Bytes}
    {xs : List Item} {s : σ} (h : (readEach f xs s).1 = returned bytes xs)
    {x : Item} (hx : x ∈ xs) :
    ∃ s₁ s₂, f x s₁ = (some (x.value, ((bytes x).length : Int)), s₂) := by
  induction xs generalizing s with
  | nil => cases hx
  | cons y ys ih =>
      obtain ⟨hhead, htail⟩ := List.cons.inj h
      rcases List.mem_cons.mp hx with rfl | hmem
      · exact ⟨s, (f x s).2, Prod.ext hhead rfl⟩
      · exact ih (s := (f y s).2) htail hmem

/-- What the C side writes: a double as the host keeps it. -/
def Item.wireC : Item → Bytes
  | double bits => image 8 bits.toNat
  | x => x.wire

/-- Both protocols use the same number of bytes, whatever the item. -/
theorem Item.length_wireC (x : Item) : x.wireC.length = x.wire.length := by
  cases x with
  | double bits => exact (length_image 8 _).trans (length_be 8 _).symm
  | _ => rfl

/-- The two writers on an item that need not be the same: a double. -/
theorem Item.writeC_wireC {x : Item} (h : (∀ bits, x ≠ .double bits) → Same x)
    {b : Buffer} (hroom : x.wireC.length ≤ b.room) :
    x.writeC memoryBuffer b = ((x.wireC.length : Int), b.append x.wireC) := by
  cases x with
  | double bits =>
      exact writes_put (A := memoryAppends) (image 8 bits.toNat) b hroom
        (by rw [Out.good_bytes, length_image]; decide)
  | _ => exact (Item.writes_wire (h nofun) hroom).1

theorem Item.writeCpp_wire {x : Item} (h : (∀ bits, x ≠ .double bits) → Same x)
    {b : Buffer} (hroom : x.wire.length ≤ b.room) :
    x.writeCpp b = ((x.wire.length : Int), b.append x.wire) := by
  cases x with
  | double bits =>
      exact writes_number 8 bits.toNat b hroom
        (by rw [Out.good_bytes, length_be]; decide)
  | _ => exact (Item.writes_wire (h nofun) hroom).2

/-- Bytes that are equal together are equal one by one, where the lengths
are. -/
theorem eq_of_flatMap_eq {f g : Item → Bytes} {xs : List Item}
    (hlen : ∀ x ∈ xs, (f x).length = (g x).length)
    (h : xs.flatMap f = xs.flatMap g) : ∀ x ∈ xs, f x = g x := by
  induction xs with
  | nil => nofun
  | cons y ys ih =>
      obtain ⟨hy, hys⟩ := List.forall_mem_cons.mp hlen
      rw [List.flatMap_cons, List.flatMap_cons] at h
      obtain ⟨hhead, htail⟩ := List.append_inj h hy
      exact List.forall_mem_cons.mpr ⟨hhead, ih hys htail⟩

/-- A message on which they agree is of items that are the same: the items
stand at the same places, so their bytes are compared one by one. -/
theorem same_of_agreeAll {xs : List Item} (h : AgreeAll xs) : ∀ x ∈ xs, Same x := by
  obtain ⟨bytes, hwrite, hread, -⟩ := h
  -- sizes are told from what is read back
  have hsizes : ∀ x ∈ xs, (∀ bits, x ≠ .double bits) → Same x := by
    intro x hx hdouble
    obtain ⟨b', hreads, -⟩ := hread (Buffer.ofBytes (xs.flatMap bytes)) []
      (by rw [Buffer.unread_ofBytes, List.append_nil])
    obtain ⟨s₁, s₂, hone⟩ := readEach_mem (congrArg Prod.fst hreads) hx
    exact same_of_readC hdouble hone (Int.natCast_nonneg _)
  -- and doubles from what is written, with room for both
  let b := Buffer.blank ((xs.flatMap bytes).length +
    ((xs.flatMap Item.wireC).length + (xs.flatMap Item.wire).length))
  have hroom : b.room = _ := Buffer.room_blank _
  obtain ⟨hC, hCpp⟩ := hwrite b (by omega)
  have hC' := writeEach_wire (fun x hx _ h => x.writeC_wireC (hsizes x hx) h)
    (b := b) (by omega)
  have hCpp' := writeEach_wire (fun x hx _ h => x.writeCpp_wire (hsizes x hx) h)
    (b := b) (by omega)
  have hbytes : b.append (xs.flatMap Item.wireC) = b.append (xs.flatMap Item.wire) :=
    (congrArg Prod.snd (hC'.symm.trans hC)).trans
      (congrArg Prod.snd (hCpp'.symm.trans hCpp)).symm
  have hflat := congrArg Buffer.unread hbytes
  rw [Buffer.unread_blank_append, Buffer.unread_blank_append] at hflat
  intro x hx
  have heq := eq_of_flatMap_eq (fun x _ => x.length_wireC) hflat x hx
  by_cases hdouble : ∃ bits, x = .double bits
  · obtain ⟨bits, rfl⟩ := hdouble
    exact heq
  · exact hsizes x hx fun bits hbits => hdouble ⟨bits, hbits⟩

/-- An item is a message of one. -/
theorem agreeAll_of_agree {x : Item} (h : Agree x) : AgreeAll [x] := by
  obtain ⟨bs, hwrite, hC, hCpp⟩ := h
  have hflat : [x].flatMap (fun _ => bs) = bs := List.flatMap_singleton ..
  refine ⟨fun _ => bs, fun b hroom => ?_, fun b rest hb => ?_, fun s rest hs => ?_⟩
  · rw [hflat] at hroom ⊢
    obtain ⟨h₁, h₂⟩ := hwrite b hroom
    simp only [writeEach, h₁, h₂, List.map_cons, List.map_nil, and_self]
  · rw [hflat] at hb
    obtain ⟨b', hread, hrest⟩ := hC b rest hb
    exact ⟨b', by simp only [readEach, hread, returned, List.map_cons,
      List.map_nil], hrest⟩
  · rw [hflat] at hs
    obtain ⟨s', hread, hrest⟩ := hCpp s rest hs
    exact ⟨s', by simp only [readEach, hread, returned, List.map_cons,
      List.map_nil], hrest⟩

/-- The condition is needed. -/
theorem same_of_agree {x : Item} (h : Agree x) : Same x :=
  same_of_agreeAll (agreeAll_of_agree h) x List.mem_cons_self

/-- The two sides agree on an item exactly where `Same` says, and on a
message exactly where they agree on its items. -/
theorem protocols_agree_iff (x : Item) (xs : List Item) :
    (Agree x ↔ Same x) ∧ (AgreeAll xs ↔ ∀ x ∈ xs, Same x) :=
  ⟨⟨same_of_agree, agree_of_same⟩, ⟨same_of_agreeAll, agreeAll_of_same⟩⟩

/-- A message with a name, a field and a string. -/
theorem protocols_agree_message :
    AgreeAll [.sandeshBegin [65, 66] (by decide),
      .fieldBegin .T_STRING 1 (by decide), .string [67] (by decide),
      .fieldStop] := by
  refine (protocols_agree_iff .fieldStop _).2.mpr fun x hx => ?_
  simp only [List.mem_cons, List.not_mem_nil, or_false] at hx
  rcases hx with rfl | rfl | rfl | rfl <;> simp [Same]

/-- The C side writes the double 1.0 as 00 00 00 00 00 00 f0 3f, the C++
side as 3f f0 00 00 00 00 00 00. -/
theorem double_one_differs : ¬ Agree (.double 0x3ff0000000000000#64) := by
  intro h
  exact absurd (same_of_agree h) (show ¬ _ = _ by decide)

end Sandesh.Binary
