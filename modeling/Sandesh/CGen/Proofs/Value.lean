/-
What a value of a definition is on the wire: a tree, whose bytes both
writers write, and which is written by the functions of the protocol.
-/
import Sandesh.Binary.Proofs.SkipTree
import Sandesh.CGen.Read
import Sandesh.CGen.Write

namespace Sandesh.CGen

open Lib Binary Binary.C

-- ================================================================ trees

/-- The elements of a list. -/
def elems {α : Type} {type : Nat} (f : α → Tree (.value type)) :
    (vs : List α) → Tree (.elems type vs.length)
  | [] => .nil
  | v :: vs => .cons (f v) (elems f vs)

/-- No type is announced by the byte that ends the fields. -/
theorem Ty.type_ne_stop (t : Ty) : t.type_to_enum ≠ .T_STOP := by
  cases t with
  | base b => cases b <;> exact fun h => nomatch h
  | _ => exact fun h => nomatch h

/-- A scalar of a type. -/
def leafAt {t : TType} (v : Scalar) (h : v.type = t) : Tree (.value t.code) :=
  h ▸ .leaf v

/-- A value is written the same under another name for its type. -/
theorem out_leafAt {t : TType} (v : Scalar) (h : v.type = t) :
    (leafAt v h).out = v.out := by
  subst h
  rfl

/-- What a type writes, as the tree that a skip takes it for. -/
def Base.tree (b : Base) (v : b.Val) : Tree (.value b.type.code) := leafAt v.1 v.2

mutual

/-- The same for every type. -/
def Ty.tree : (t : Ty) → t.Val → Tree (.value t.type_to_enum.code)
  | .base b, v => b.tree v
  | .enum _, v => .leaf (.i32 v)
  | .struct _ fs, r => .struct (fs.tree r)
  | .list e, vs => .list e.type_to_enum (elems e.tree vs)

/-- The fields in order, up to the stop. -/
def Fields.tree : (fs : Fields) → fs.Rec → Tree .fields
  | .nil, _ => .stop
  | .cons key t fs, r =>
      .field t.type_to_enum (BitVec.ofInt 16 key) t.type_ne_stop (t.tree r.1)
        (fs.tree r.2)

end

/-- The bytes of a structure or a sandesh, which starts with its name. -/
def Def.out (d : Def) (r : d.fields.Rec) : Out :=
  if d.sandesh then
    (Out.good (be 4 d.name.text.length ++ d.name.text)).seq (d.fields.tree r).out
  else (d.fields.tree r).out

/-- Parts in a row can be bracketed either way, and nothing in front is
nothing. -/
@[simp] theorem nil_seq (o : Out) : (Out.good []).seq o = o := rfl

theorem seq_assoc (a b c : Out) : (a.seq b).seq c = a.seq (b.seq c) := by
  obtain ⟨x, okx⟩ := a
  obtain ⟨y, oky⟩ := b
  cases okx with
  | false => rfl
  | true =>
      cases oky with
      | false => rfl
      | true => simp [Out.seq, List.append_assoc]

-- ================================================= through the protocol

section Protocol

variable {σ : Type} {T : Transport σ} {A : Appends T}

/-- A loop over the elements. -/
theorem writesFrom_elems {α : Type} {type : Nat} {f : α → Tree (.value type)}
    {g : α → (Int → σ → Int × σ) → Int → σ → Int × σ}
    (hg : ∀ v {k o}, WritesFrom A k o → WritesFrom A (g v k) ((f v).out.seq o))
    (vs : List α) {k : Int → σ → Int × σ} {o : Out} (hk : WritesFrom A k o) :
    WritesFrom A (vs.foldr g k) ((elems f vs).out.seq o) := by
  induction vs with
  | nil => exact hk
  | cons v vs ih =>
      have h := hg v ih
      rw [← seq_assoc] at h
      exact h

mutual

/-- A value is written as its tree, whatever comes behind it. The induction
is that of the type. -/
theorem Ty.writes_serialize : (t : Ty) → (v : t.Val) →
    {k : Int → σ → Int × σ} → {o : Out} → WritesFrom A k o →
    WritesFrom A (t.serialize T v k) ((t.tree v).out.seq o)
  | .base b, v, k, o, hk => by
      have h := writesFrom_seq (v.1.writes_out (A := A)) hk
      rw [← out_leafAt v.1 v.2] at h
      exact h
  | .enum _, v, k, o, hk => writesFrom_seq (writes_i32 v) hk
  | .struct _ fs, r, k, o, hk =>
      writesFrom_seq (Writes.of_from (fs.writes_serialize r)) hk
  | .list e, vs, k, o, hk => by
      have hes := writesFrom_elems (fun v => e.writes_serialize v) vs hk
      have h := writesFrom_seq
        (writes_list_begin e.type_to_enum (BitVec.ofNat 32 vs.length)) hes
      rw [← seq_assoc] at h
      exact h

/-- The fields of a structure, in order, and the stop. -/
theorem Fields.writes_serialize : (fs : Fields) → (r : fs.Rec) →
    WritesFrom A (fs.serialize T r fun xfer => seq xfer (write_field_stop T) Prod.mk)
      (fs.tree r).out
  | .nil, _ => writesFrom_single writes_field_stop
  | .cons key t fs, r =>
      writesFrom_seq (writes_field_begin t.type_to_enum (BitVec.ofInt 16 key))
        (t.writes_serialize r.1 (fs.writes_serialize r.2))

end

/-- The name, with its length in front. -/
theorem writes_sandesh_begin (name : Ident) :
    Writes A (write_sandesh_begin T name.text)
      (.good (be 4 name.text.length ++ name.text)) := by
  have h := writes_string (A := A) name.text
  rw [cstr_eq name.noNul] at h
  exact Writes.of_from (writesFrom_single h)

/-- The emitted writer of a definition. -/
theorem Def.writes_out (d : Def) (r : d.fields.Rec) :
    Writes A (d.write T r) (d.out r) := by
  have hfields := d.fields.writes_serialize (A := A) r
  unfold Def.write Def.out
  cases d.sandesh with
  | true => exact Writes.of_from (writesFrom_seq (writes_sandesh_begin d.name) hfields)
  | false => exact Writes.of_from hfields

end Protocol

end Sandesh.CGen

/-
What the emitted reader reads.

`Scans m bs a ls`: where the bytes `bs` come next, `m` returns `a` behind
them. `ls` are the lists with elements in what is skipped on the way, whose
`elem_type` must not have stale bytes (`Zeroed`). The rules follow the
statements: one after the other, a loop, a call.
-/

namespace Sandesh.CGen

open Lib Binary Binary.C
open Lib.Prog (Runs runs_act runs_pure)

variable {mem : Bytes} {buf : Nat}

/-- The statement reads these bytes as this value wherever they stand, if
the count stays below 2^31 and the stale bytes of these lists are zero. -/
def Scans (mem : Bytes) (buf : Nat) {α : Type} (m : Scan α) (bs : Bytes) (a : α)
    (ls : List Bool) : Prop :=
  ∀ (off : Nat) (rest st : Bytes) (more : List Bool), buf + off ≤ mem.length →
    mem.drop (buf + off) = bs ++ rest → off + bs.length < 2 ^ 31 →
    Zeroed (ls ++ more) st →
    ∃ st', (m off).Runs st (.ok (some (a, (off + bs.length : Nat)))) st' ∧
      Zeroed more st'

section Rules

variable {α β γ : Type}

/-- The rules for statements in a row. -/
theorem scans_pure (a : α) : Scans mem buf (pure a : Scan α) [] a [] := by
  intro off rest st more _ _ _ hzero
  exact ⟨st, runs_pure.mpr ⟨rfl, rfl⟩, hzero⟩

/-- What is left behind bytes that were read. -/
theorem drop_next {off : Nat} {bs rest : Bytes} (hle : buf + off ≤ mem.length)
    (h : mem.drop (buf + off) = bs ++ rest) :
    buf + (off + bs.length) ≤ mem.length ∧
      mem.drop (buf + (off + bs.length)) = rest := by
  have hlen := congrArg List.length h
  rw [List.length_drop, List.length_append] at hlen
  refine ⟨by omega, ?_⟩
  rw [← Nat.add_assoc, ← List.drop_drop, h, List.drop_left]

theorem Scans.bind {m : Scan α} {f : α → Scan β} {a : α} {b : β} {bs bs' : Bytes}
    {ls ls' : List Bool} (hm : Scans mem buf m bs a ls)
    (hf : Scans mem buf (f a) bs' b ls') :
    Scans mem buf (m >>= f) (bs ++ bs') b (ls ++ ls') := by
  intro off rest st more hle h hlt hzero
  rw [List.append_assoc] at h hzero
  rw [List.length_append] at hlt
  obtain ⟨st₁, hrun, hzero⟩ := hm off (bs' ++ rest) st _ hle h (by omega) hzero
  obtain ⟨hle', h'⟩ := drop_next hle h
  obtain ⟨st', hrun', hzero⟩ := hf (off + bs.length) rest st₁ more hle' h' (by omega) hzero
  refine ⟨st', hrun.bind_ok ?_, hzero⟩
  rw [List.length_append, ← Nat.add_assoc]
  exact hrun'

theorem Scans.map {m : Scan α} {a : α} {bs : Bytes} {ls : List Bool}
    (hm : Scans mem buf m bs a ls) (f : α → β) :
    Scans mem buf (do pure (f (← m))) bs (f a) ls := by
  have h := hm.bind (f := fun a => pure (f a)) (scans_pure (f a))
  rwa [List.append_nil, List.append_nil] at h

/-- `break` -/
theorem Scans.leave {body : γ → Scan (γ ⊕ γ)} {g g' : γ} {bs : Bytes}
    {ls : List Bool} (hbody : Scans mem buf (body g) bs (.inr g') ls) :
    Scans mem buf (Scan.loop body g) bs g' ls := by
  intro off rest st more hle h hlt hzero
  obtain ⟨st', hrun, hzero⟩ := hbody off rest st more hle h hlt hzero
  exact ⟨st', Runs.leave (hrun.bind_ok (runs_pure.mpr ⟨rfl, rfl⟩)), hzero⟩

/-- One more turn. -/
theorem Scans.again {body : γ → Scan (γ ⊕ γ)} {g g₁ g' : γ} {bs bs' : Bytes}
    {ls ls' : List Bool} (hbody : Scans mem buf (body g) bs (.inl g₁) ls)
    (hloop : Scans mem buf (Scan.loop body g₁) bs' g' ls') :
    Scans mem buf (Scan.loop body g) (bs ++ bs') g' (ls ++ ls') := by
  intro off rest st more hle h hlt hzero
  rw [List.append_assoc] at h hzero
  rw [List.length_append] at hlt
  obtain ⟨st₁, hrun, hzero⟩ := hbody off (bs' ++ rest) st _ hle h (by omega) hzero
  obtain ⟨hle', h'⟩ := drop_next hle h
  obtain ⟨st', hrun', hzero⟩ :=
    hloop (off + bs.length) rest st₁ more hle' h' (by omega) hzero
  rw [List.length_append, ← Nat.add_assoc]
  exact ⟨st', Runs.again (hrun.bind_ok (runs_pure.mpr ⟨rfl, rfl⟩)) hrun', hzero⟩

end Rules

-- =========================================================== statements

section Statements

variable (mem : Bytes) (buf : Nat)

omit buf in
/-- A copy of the bytes at a place. -/
theorem runs_memcpyFrom {pos n : Nat} {bs rest : Bytes} (hn : bs.length = n)
    (hle : pos ≤ mem.length) (h : mem.drop pos = bs ++ rest) (st : Bytes) :
    (memcpyFrom mem pos n).Runs st (.ok ⟨bs, hn⟩) st := by
  subst hn
  have hlen := congrArg List.length h
  rw [List.length_drop, List.length_append] at hlen
  have htake : (mem.drop (pos : Int).toNat).take bs.length = bs := by
    rw [Int.toNat_natCast, h, List.take_left]
  unfold memcpyFrom
  rw [dif_pos ⟨by omega, by omega⟩]
  refine runs_pure.mpr ⟨?_, rfl⟩
  simp only [htake]

/-- Bytes of a given number. -/
theorem scans_bytes {n : Nat} {bs : Bytes} (hn : bs.length = n) :
    Scans mem buf (read_buffer_chk_memcpy_incr_offset mem buf (mem.length - buf) n)
      bs ⟨bs, hn⟩ [] := by
  intro off rest st more hle h hlt hzero
  obtain ⟨hle', -⟩ := drop_next hle h
  have hi : i32 ((off : Int) + n) = (off + bs.length : Nat) := by
    rw [i32_eq (by omega) (by omega)]
    omega
  refine ⟨st, ?_, hzero⟩
  unfold read_buffer_chk_memcpy_incr_offset
  rw [hi, u64_nat (by omega), if_neg (by omega)]
  exact (runs_memcpyFrom mem hn hle h st).bind_ok (runs_pure.mpr ⟨rfl, rfl⟩)

/-- Each base type reads its own bytes. -/
theorem scans_byte (v : BitVec 8) :
    Scans mem buf (deserialize_byte_from_buffer mem buf (mem.length - buf))
      (be 1 v.toNat) v [] := by
  have h := (scans_bytes mem buf (length_be 1 v.toNat)).map
    fun b => BitVec.ofNat 8 (ofImage b.1)
  have hv : BitVec.ofNat 8 (ofImage (be 1 v.toNat)) = v :=
    ofImage_image (k := 1) v rfl
  rw [hv] at h
  exact h

theorem scans_i16 (v : BitVec 16) :
    Scans mem buf (deserialize_i16_from_buffer mem buf (mem.length - buf))
      (be 2 v.toNat) v [] := by
  have h := (scans_bytes mem buf (length_be 2 v.toNat)).map
    fun b => BitVec.ofNat 16 (swap 2 (ofImage b.1))
  rw [swap_be v rfl] at h
  exact h

theorem scans_i32 (v : BitVec 32) :
    Scans mem buf (deserialize_i32_from_buffer mem buf (mem.length - buf))
      (be 4 v.toNat) v [] := by
  have h := (scans_bytes mem buf (length_be 4 v.toNat)).map
    fun b => BitVec.ofNat 32 (swap 4 (ofImage b.1))
  rw [swap_be v rfl] at h
  exact h

theorem scans_i64 (v : BitVec 64) :
    Scans mem buf (deserialize_i64_from_buffer mem buf (mem.length - buf))
      (be 8 v.toNat) v [] := by
  have h := (scans_bytes mem buf (length_be 8 v.toNat)).map
    fun b => BitVec.ofNat 64 (os_get_value64 b.1)
  rw [os_get_value64_eq, ofBe_be_bitVec v rfl, BitVec.ofNat_toNat, BitVec.setWidth_eq]
    at h
  exact h

/-- A string as the reader has it: a null pointer if it is empty. -/
def stringGot (s : Bytes) : Option Bytes := if s = [] then none else some s

theorem scans_string (s : Bytes) :
    Scans mem buf (deserialize_string_from_buffer mem buf (mem.length - buf))
      (be 4 s.length ++ s) (stringGot s) [] := by
  intro off rest st more hle h hlt hzero
  have hlen : s.length < 2 ^ 31 := by
    rw [List.length_append] at hlt
    omega
  have hsize := toNat_ofNat_of_lt (n := s.length) (by omega)
  have hint : (BitVec.ofNat 32 s.length).toInt = s.length := by
    rw [BitVec.toInt_eq_toNat_cond, hsize, if_pos (by omega)]
  have hlength := scans_i32 mem buf (BitVec.ofNat 32 s.length)
  rw [hsize] at hlength
  have hbody : Scans mem buf (if (BitVec.ofNat 32 s.length).toInt > 0 then do
      let bs ← read_buffer_chk_memcpy_incr_offset mem buf (mem.length - buf)
        (BitVec.ofNat 32 s.length).toNat
      pure (some bs.1)
    else pure none) s (stringGot s) [] := by
    rw [hint]
    by_cases hempty : s = []
    · subst hempty
      exact scans_pure none
    · have hpos := List.length_pos_of_ne_nil hempty
      rw [if_pos (by omega), stringGot, if_neg hempty]
      exact (scans_bytes mem buf hsize.symm).map fun bs => some bs.1
  exact hlength.bind hbody off rest st more hle h hlt hzero

theorem scans_ipv4 {bytes : Bytes} (h : bytes.length = 4) :
    Scans mem buf (deserialize_ipaddr_from_buffer mem buf (mem.length - buf))
      (be 1 AF_INET ++ bytes) (.ipv4 bytes h) [] :=
  (scans_byte mem buf (BitVec.ofNat 8 AF_INET)).bind
    ((scans_bytes mem buf h).map fun bs => IpAddr.ipv4 bs.1 bs.2)

theorem scans_ipv6 {bytes : Bytes} (h : bytes.length = 16) :
    Scans mem buf (deserialize_ipaddr_from_buffer mem buf (mem.length - buf))
      (be 1 AF_INET6 ++ bytes) (.ipv6 bytes h) [] :=
  (scans_byte mem buf (BitVec.ofNat 8 AF_INET6)).bind
    ((scans_bytes mem buf h).map fun bs => IpAddr.ipv6 bs.1 bs.2)

end Statements

-- ============================================================== scalars

/-- The values a C program hands to the encoder: a bool is 0 or 1, a string
ends where it says, and an address is of one of the two families. -/
def Scalar.Legal : Scalar → Prop
  | .bool v => v = 0 ∨ v = 1
  | .string (some s) | .xml (some s) => nul ∉ s
  | .ipaddr (.other _) => False
  | _ => True

/-- The value as it is read back. -/
def Scalar.got : Scalar → Scalar
  | .string s => .string (s.bind stringGot)
  | .xml s => .xml (s.bind stringGot)
  | v => v

/-- What is read has the type that was written. -/
theorem Scalar.type_got (v : Scalar) : (Scalar.got v).type = v.type := by
  cases v <;> rfl

/-- The types on the wire tell the base types apart. -/
theorem Base.type_inj {b b' : Base} (h : b.type = b'.type) : b = b' := by
  cases b <;> cases b' <;> first | rfl | exact nomatch h

/-- The value as it comes back. -/
def Base.got (b : Base) (v : b.Val) : b.Val :=
  ⟨Scalar.got v.1, (Scalar.type_got v.1).trans v.2⟩

/-- A bool that is written as one byte. -/
theorem bool_image {v : BitVec 8} (h : v = 0 ∨ v = 1) :
    (if ofImage [if v ≠ 0 then (1 : UInt8) else 0] ≠ 0 then (1 : BitVec 8) else 0) = v := by
  rcases h with rfl | rfl <;> rfl

/-- A base type reads what it writes. -/
theorem Base.scans (mem : Bytes) (buf : Nat) {b : Base} (v : b.Val)
    (hlegal : Scalar.Legal v.1) :
    Scans mem buf (b.deserialize_from_buffer mem buf (mem.length - buf))
      v.1.out.bytes (b.got v) [] := by
  have hstring : ∀ {s : Bytes}, nul ∉ s →
      Scans mem buf (deserialize_string_from_buffer mem buf (mem.length - buf))
        (be 4 (cstr s).length ++ cstr s) (stringGot s) [] := by
    intro s hnul
    rw [cstr_eq hnul]
    exact scans_string mem buf s
  obtain ⟨v, hv⟩ := v
  cases v with
  | bool v =>
      obtain rfl := Base.type_inj (b := .bool) hv
      have hlen : [if v ≠ 0 then (1 : UInt8) else 0].length = 1 := rfl
      have h := (scans_bytes mem buf hlen).map fun b =>
        (⟨.bool (if ofImage b.1 ≠ 0 then 1 else 0), rfl⟩ : Base.bool.Val)
      rw [bool_image hlegal] at h
      exact h
  | byte v =>
      obtain rfl := Base.type_inj (b := .byte) hv
      exact (scans_byte mem buf v).map fun v => (⟨.byte v, rfl⟩ : Base.byte.Val)
  | i16 v =>
      obtain rfl := Base.type_inj (b := .i16) hv
      exact (scans_i16 mem buf v).map fun v => (⟨.i16 v, rfl⟩ : Base.i16.Val)
  | u16 v =>
      obtain rfl := Base.type_inj (b := .u16) hv
      exact (scans_i16 mem buf v).map fun v => (⟨.u16 v, rfl⟩ : Base.u16.Val)
  | i32 v =>
      obtain rfl := Base.type_inj (b := .i32) hv
      exact (scans_i32 mem buf v).map fun v => (⟨.i32 v, rfl⟩ : Base.i32.Val)
  | u32 v =>
      obtain rfl := Base.type_inj (b := .u32) hv
      exact (scans_i32 mem buf v).map fun v => (⟨.u32 v, rfl⟩ : Base.u32.Val)
  | ipv4 v =>
      obtain rfl := Base.type_inj (b := .ipv4) hv
      exact (scans_i32 mem buf v).map fun v => (⟨.ipv4 v, rfl⟩ : Base.ipv4.Val)
  | i64 v =>
      obtain rfl := Base.type_inj (b := .i64) hv
      exact (scans_i64 mem buf v).map fun v => (⟨.i64 v, rfl⟩ : Base.i64.Val)
  | u64 v =>
      obtain rfl := Base.type_inj (b := .u64) hv
      exact (scans_i64 mem buf v).map fun v => (⟨.u64 v, rfl⟩ : Base.u64.Val)
  | ipaddr a =>
      obtain rfl := Base.type_inj (b := .ipaddr) hv
      have hmap : ∀ {bs : Bytes} {a : IpAddr},
          Scans mem buf (deserialize_ipaddr_from_buffer mem buf (mem.length - buf)) bs a []
            → Scans mem buf (Base.ipaddr.deserialize_from_buffer mem buf
              (mem.length - buf)) bs ⟨.ipaddr a, rfl⟩ [] := fun h =>
        h.map fun v => (⟨.ipaddr v, rfl⟩ : Base.ipaddr.Val)
      cases a with
      | ipv4 bytes hlen => exact hmap (scans_ipv4 mem buf hlen)
      | ipv6 bytes hlen => exact hmap (scans_ipv6 mem buf hlen)
      | other iptype => exact absurd hlegal id
  | double v =>
      cases b <;> exact nomatch hv
  | string s =>
      obtain rfl := Base.type_inj (b := .string) hv
      cases s with
      | none =>
          exact (scans_string mem buf []).map fun v => (⟨.string v, rfl⟩ : Base.string.Val)
      | some s =>
          exact (hstring hlegal).map fun v => (⟨.string v, rfl⟩ : Base.string.Val)
  | xml s =>
      obtain rfl := Base.type_inj (b := .xml) hv
      cases s with
      | none => exact (scans_string mem buf []).map fun v => (⟨.xml v, rfl⟩ : Base.xml.Val)
      | some s => exact (hstring hlegal).map fun v => (⟨.xml v, rfl⟩ : Base.xml.Val)
  | uuid bytes hlen =>
      obtain rfl := Base.type_inj (b := .uuid) hv
      exact (scans_bytes mem buf hlen).map fun bs =>
        (⟨.uuid bs.1 bs.2, rfl⟩ : Base.uuid.Val)

end Sandesh.CGen
