/-
What the read functions of the C++ binary protocol take, whatever they read
from.

`Sound f G` is the converse of `Reads`: where `f` stores a value, it has gone
over bytes that the grammar `G` has for this value. The buffer may end
before these bytes do, since `readAll` then makes up the rest; so all that
is known of the buffer is that it agrees with them as far as both go.
-/
import Sandesh.Binary.Proofs.Reads
import Sandesh.Binary.Receive

namespace Sandesh.Binary.Cpp

open Lib C
open Lib.Prog (Runs runs_act runs_pure runs_throw runs_bind)

-- ============================================================ the buffer

/-- The two are the same as far as both go. -/
def Comparable (buf bs : Bytes) : Prop := buf <+: bs ∨ bs <+: buf

/-- Two texts one behind the other, if what is left of the buffer goes with
the second. -/
theorem Comparable.append {buf a b : Bytes} (ha : Comparable buf a)
    (hb : Comparable (buf.drop a.length) b) : Comparable buf (a ++ b) := by
  rcases ha with h | ⟨t, rfl⟩
  · exact .inl (h.trans (List.prefix_append a b))
  · rw [List.drop_left] at hb
    rcases hb with h | h
    · exact .inl ((List.prefix_append_right_inj a).mpr h)
    · exact .inr ((List.prefix_append_right_inj a).mpr h)

/-- The front of a text that goes with the buffer does. -/
theorem Comparable.left {buf a b : Bytes} (h : Comparable buf (a ++ b)) :
    Comparable buf a := by
  rcases h with h | h
  · exact List.prefix_or_prefix_of_prefix h (List.prefix_append a b)
  · exact .inr ((List.prefix_append a b).trans h)

/-- These bytes are gone over, of which the buffer may have only some. -/
def Passes (s : Input) (bs : Bytes) (s' : Input) : Prop :=
  Comparable s.buffer.unread bs ∧
    s'.buffer.unread = s.buffer.unread.drop bs.length

/-- Nothing is passed by doing nothing. -/
theorem Passes.refl (s : Input) : Passes s [] s :=
  ⟨.inr (List.nil_prefix), rfl⟩

/-- One text behind another. -/
theorem Passes.append {s s₁ s₂ : Input} {a b : Bytes} (ha : Passes s a s₁)
    (hb : Passes s₁ b s₂) : Passes s (a ++ b) s₂ := by
  obtain ⟨hcmp, hleft⟩ := ha
  obtain ⟨hcmp₁, hleft₁⟩ := hb
  rw [hleft] at hcmp₁ hleft₁
  refine ⟨hcmp.append hcmp₁, ?_⟩
  rw [hleft₁, List.drop_drop, List.length_append]

/-- Memory has as many bytes as are asked of it. -/
theorem length_draw (n : Nat) (stale : Bytes) : (draw n stale).1.length = n := by
  unfold draw
  rw [List.length_append, List.length_take, List.length_replicate]
  omega

/-- `readAll` passes over as many bytes as it is asked for, and where the
buffer ends it makes up the rest. -/
theorem readAll_passes {n : Nat} {s s' : Input} {bs : Bytes}
    (h : readAll n s = (bs, s')) : bs.length = n ∧ Passes s bs s' := by
  unfold readAll at h
  split at h
  · rename_i hle
    obtain ⟨rfl, rfl⟩ := Prod.mk.inj h
    have hlen : (s.buffer.unread.take n).length = n := List.length_take_of_le hle
    refine ⟨hlen, .inr (List.take_prefix n _), ?_⟩
    rw [hlen]
    exact Buffer.unread_consume _ _ hle
  · -- the buffer is a prefix of what is then in the place read into
    rename_i hlt
    obtain ⟨rfl, rfl⟩ := Prod.mk.inj h
    have hlen := length_draw (n - s.buffer.unread.length) s.stale
    refine ⟨?_, .inl (List.prefix_append _ _), ?_⟩
    · change (draw _ _).1.length = _ at hlen
      change (s.buffer.unread ++ (draw _ _).1).length = n
      rw [List.length_append, hlen]
      omega
    · refine (Buffer.unread_consume _ _ (Nat.le_refl _)).trans ?_
      rw [List.drop_length, List.drop_of_length_le]
      rw [List.length_append]
      exact Nat.le_add_right _ _

-- ============================================================= soundness

section Sound

variable {α β : Type}

/-- What `f` goes over is in the grammar. -/
def Sound (f : Reader Input α) (G : Bytes → α → Prop) : Prop :=
  ∀ s v ret s', f s = (some (v, ret), s') →
    ∃ bs, G bs v ∧ ret = i32 bs.length ∧ Passes s bs s'

/-- The same for code that goes on from a result so far. -/
def SoundFrom (k : Int → Reader Input α) (G : Bytes → α → Prop) : Prop :=
  ∀ (x : Int) s v ret s', k (i32 x) s = (some (v, ret), s') →
    ∃ bs, G bs v ∧ ret = i32 (x + bs.length) ∧ Passes s bs s'

/-- The rules for a read that returns: what it passed over is in the grammar
of its value. -/
theorem Sound.mono {f : Reader Input α} {G H : Bytes → α → Prop} (hf : Sound f G)
    (h : ∀ {bs v}, G bs v → H bs v) : Sound f H := by
  intro s v ret s' hrun
  obtain ⟨bs, hbs, hrest⟩ := hf s v ret s' hrun
  exact ⟨bs, h hbs, hrest⟩

theorem Sound.of_from {k : Int → Reader Input α} {G : Bytes → α → Prop}
    (h : SoundFrom k G) : Sound (k 0) G := by
  intro s v ret s' hrun
  have hzero : i32 0 = 0 := i32_eq (by decide) (by decide)
  obtain ⟨bs, hbs, hret, hpass⟩ := h 0 s v ret s' (by rwa [hzero])
  rw [Int.zero_add] at hret
  exact ⟨bs, hbs, hret, hpass⟩

theorem soundFrom_done (v : α) :
    SoundFrom (done v) fun bs w => bs = [] ∧ w = v := by
  intro x s w ret s' hrun
  unfold done at hrun
  obtain ⟨hv, rfl⟩ := Prod.mk.inj hrun
  obtain ⟨rfl, rfl⟩ := Prod.mk.inj (Option.some.inj hv)
  refine ⟨[], ⟨rfl, rfl⟩, ?_, Passes.refl s⟩
  rw [List.length_nil, Int.natCast_zero, Int.add_zero]

/-- Statements in a row pass over their texts in a row. -/
theorem soundFrom_andThen {f : Reader Input α} {k : α → Int → Reader Input β}
    {A : Bytes → α → Prop} {B : α → Bytes → β → Prop} (hf : Sound f A)
    (hk : ∀ v, SoundFrom (k v) (B v)) :
    SoundFrom (fun xfer => andThen xfer f k)
      fun bs w => ∃ a v b, A a v ∧ B v b w ∧ bs = a ++ b := by
  intro x s w ret s' hrun
  simp only [andThen] at hrun
  split at hrun
  · cases (Prod.mk.inj hrun).1
  · rename_i v n s₁ hread
    obtain ⟨a, ha, hn, hpass⟩ := hf s v n s₁ hread
    rw [hn, i32_add_i32] at hrun
    obtain ⟨b, hb, rfl, hpass₁⟩ := hk v _ s₁ w ret s' hrun
    refine ⟨a ++ b, ⟨a, v, b, ha, hb, rfl⟩, ?_, hpass.append hpass₁⟩
    rw [List.length_append, Int.natCast_add, Int.add_assoc]

/-- Reading and then returning the value. -/
theorem soundFrom_last {f : Reader Input α} {g : α → β} {A : Bytes → α → Prop}
    (hf : Sound f A) :
    SoundFrom (fun xfer => andThen xfer f fun a => done (g a))
      fun bs w => ∃ v, A bs v ∧ w = g v := by
  intro x s w ret s' hrun
  obtain ⟨bs, ⟨a, v, b, ha, ⟨rfl, rfl⟩, rfl⟩, hrest⟩ :=
    soundFrom_andThen hf (fun v => soundFrom_done (g v)) x s w ret s' hrun
  rw [List.append_nil] at hrest
  exact ⟨a, ⟨v, ha, rfl⟩, hrest⟩

/-- A statement that makes something else of a value. -/
theorem sound_map {f : Reader Input α} {A : Bytes → α → Prop} (g : α → β)
    (hf : Sound f A) : Sound (map g f) fun bs w => ∃ v, A bs v ∧ w = g v := by
  intro s w ret s' hrun
  simp only [map] at hrun
  split at hrun
  · cases (Prod.mk.inj hrun).1
  · rename_i v n s₁ hread
    obtain ⟨hw, rfl⟩ := Prod.mk.inj hrun
    obtain ⟨rfl, rfl⟩ := Prod.mk.inj (Option.some.inj hw)
    obtain ⟨bs, hbs, hrest⟩ := hf _ _ _ _ hread
    exact ⟨bs, ⟨v, hbs, rfl⟩, hrest⟩

/-- A fixed number of bytes. -/
theorem sound_fixed {n : Nat} (hn : n < 2 ^ 31) (g : Bytes → α) :
    Sound (readFixed n g) fun bs v => bs.length = n ∧ v = g bs := by
  intro s v ret s' hrun
  unfold readFixed at hrun
  obtain ⟨hv, rfl⟩ := Prod.mk.inj hrun
  obtain ⟨rfl, rfl⟩ := Prod.mk.inj (Option.some.inj hv)
  obtain ⟨hlen, hpass⟩ := readAll_passes (n := n) (s := s) rfl
  refine ⟨_, ⟨hlen, rfl⟩, ?_, hpass⟩
  rw [hlen, i32_eq (by omega) (by omega)]

end Sound

-- ============================================================= the calls

theorem sound_swapped {w k : Nat} (hw : 256 ^ k = 2 ^ w) (hk : k < 2 ^ 31) :
    Sound (readFixed k fun bs => BitVec.ofNat w (swap k (ofImage bs)))
      fun bs v => bs = be k v.toNat := by
  refine (sound_fixed hk _).mono ?_
  rintro bs v ⟨rfl, rfl⟩
  have hlt : ofBe bs < 2 ^ w := hw ▸ ofBe_lt bs
  rw [swap_ofImage, BitVec.toNat_ofNat, Nat.mod_eq_of_lt hlt, be_ofBe]

/-- A byte is the number in it. -/
theorem one_byte {bs : Bytes} (h : bs.length = 1) :
    ofImage bs < 2 ^ 8 ∧ bs = be 1 (ofImage bs) := by
  obtain ⟨b, rfl⟩ := List.length_eq_one_iff.mp h
  exact ⟨ofBe_lt [b], (be_ofBe [b]).symm⟩

/-- The reads of values, each with the bytes that stand for its result. -/
theorem sound_byte : Sound readByte fun bs v => bs = be 1 v.toNat := by
  refine (sound_fixed (by decide) _).mono ?_
  rintro bs v ⟨hlen, rfl⟩
  obtain ⟨hlt, hbs⟩ := one_byte hlen
  rwa [BitVec.toNat_ofNat, Nat.mod_eq_of_lt hlt]

theorem sound_bool : Sound readBool fun bs v =>
    ∃ b : BitVec 8, bs = be 1 b.toNat ∧ v = decide (b ≠ 0) := by
  refine (sound_fixed (by decide) _).mono ?_
  rintro bs v ⟨hlen, rfl⟩
  obtain ⟨hlt, hbs⟩ := one_byte hlen
  have hnat : (BitVec.ofNat 8 (ofImage bs)).toNat = ofImage bs := by
    rw [BitVec.toNat_ofNat, Nat.mod_eq_of_lt hlt]
  refine ⟨BitVec.ofNat 8 (ofImage bs), by rwa [hnat], decide_eq_decide.mpr ?_⟩
  have hinj := BitVec.toNat_inj (x := BitVec.ofNat 8 (ofImage bs)) (y := 0)
  rw [hnat] at hinj
  exact not_congr hinj

theorem sound_i16 : Sound readI16 fun bs v => bs = be 2 v.toNat :=
  sound_swapped rfl (by decide)

theorem sound_i32 : Sound readI32 fun bs v => bs = be 4 v.toNat :=
  sound_swapped rfl (by decide)

theorem sound_i64 : Sound readI64 fun bs v => bs = be 8 v.toNat :=
  sound_swapped rfl (by decide)

/-- The address after its version. -/
theorem sound_address (version : BitVec 8) :
    SoundFrom (fun ret =>
        if version.toNat = AF_INET then
          andThen ret (readFixed 4 id) fun bs => done (AF_INET, bs)
        else if version.toNat = AF_INET6 then
          andThen ret (readFixed 16 id) fun bs => done (AF_INET6, bs)
        else fun s => (none, s))
      fun bs v => ∃ a, (family a).1 = version.toNat ∧ bs = (family a).2 ∧
        v = family a := by
  intro x s v ret s' hrun
  simp only at hrun
  split at hrun
  · rename_i h4
    obtain ⟨bs, ⟨w, ⟨hlen, rfl⟩, rfl⟩, hrest⟩ :=
      soundFrom_last (sound_fixed (by decide) id) x s v ret s' hrun
    exact ⟨w, ⟨.v4 w hlen, h4.symm, rfl, rfl⟩, hrest⟩
  · split at hrun
    · rename_i h6
      obtain ⟨bs, ⟨w, ⟨hlen, rfl⟩, rfl⟩, hrest⟩ :=
        soundFrom_last (sound_fixed (by decide) id) x s v ret s' hrun
      exact ⟨w, ⟨.v6 w hlen, h6.symm, rfl, rfl⟩, hrest⟩
    · cases (Prod.mk.inj hrun).1

/-- An address of any family. -/
theorem sound_ipaddr : Sound readIPADDR fun bs v =>
    ∃ a, bs = be 1 (family a).1 ++ (family a).2 ∧ v = family a := by
  refine (Sound.of_from (soundFrom_andThen sound_byte sound_address)).mono ?_
  rintro bs v ⟨a, version, b, rfl, ⟨addr, hfam, rfl, rfl⟩, rfl⟩
  exact ⟨addr, by rw [hfam], rfl⟩

/-- A size that is not negative. -/
theorem toNat_of_toInt {n : BitVec 32} (h : ¬ n.toInt < 0) :
    n.toNat < 2 ^ 31 ∧ n.toInt = n.toNat := by
  have hlt := n.isLt
  rw [BitVec.toInt_eq_toNat_cond] at h ⊢
  split at h
  · exact ⟨by omega, by rw [if_pos ‹_›]⟩
  · omega

/-- A length that is not negative, and so many bytes. -/
theorem sound_string : Sound readString fun bs v =>
    v.length < 2 ^ 31 ∧ bs = be 4 v.length ++ v := by
  have hbody : ∀ n, Sound (readStringBody n) fun bs v =>
      bs = v ∧ v.length < 2 ^ 31 ∧ n.toNat = v.length := by
    intro n s v ret s' hrun
    unfold readStringBody at hrun
    split at hrun
    · cases (Prod.mk.inj hrun).1
    · rename_i hneg
      obtain ⟨hlt, hint⟩ := toNat_of_toInt hneg
      split at hrun
      · rename_i hzero
        obtain ⟨hv, rfl⟩ := Prod.mk.inj hrun
        obtain ⟨rfl, rfl⟩ := Prod.mk.inj (Option.some.inj hv)
        have hnil : n.toNat = ([] : Bytes).length := by
          rw [List.length_nil]
          omega
        exact ⟨[], ⟨rfl, by decide, hnil⟩, rfl, Passes.refl s⟩
      · obtain ⟨bs, ⟨hlen, hv⟩, hrest⟩ := sound_fixed hlt id s v ret s' hrun
        refine ⟨bs, ⟨hv.symm, ?_, ?_⟩, hrest⟩
        · rw [hv, id, hlen]
          exact hlt
        · rw [hv, id, hlen]
  refine (Sound.of_from (soundFrom_andThen sound_i32
    fun n => soundFrom_last (g := id) (hbody n))).mono ?_
  rintro bs v ⟨a, n, b, rfl, ⟨w, ⟨rfl, hlt, hlen⟩, rfl⟩, rfl⟩
  refine ⟨hlt, ?_⟩
  rw [hlen]

/-- Only the byte 0 is taken for a stop. -/
theorem thriftType_stop : ∀ {type : BitVec 8},
    thriftType type = TType.T_STOP.code → type = 0 := by
  decide +kernel

/-- A stop, or a type and an id. -/
theorem sound_fieldBegin : Sound readFieldBegin fun bs v =>
    (bs = [0] ∧ v = (TType.T_STOP.code, 0)) ∨
      ∃ (type : BitVec 8) (id : BitVec 16), thriftType type ≠ TType.T_STOP.code ∧
        bs = be 1 type.toNat ++ be 2 id.toNat ∧ v = (thriftType type, id) := by
  have hid : ∀ type : BitVec 8, SoundFrom (fun result =>
      if thriftType type = TType.T_STOP.code then done (thriftType type, 0) result
      else andThen result readI16 fun fieldId => done (thriftType type, fieldId))
      fun bs v => (thriftType type = TType.T_STOP.code ∧ bs = [] ∧
          v = (TType.T_STOP.code, 0)) ∨
        ∃ id : BitVec 16, thriftType type ≠ TType.T_STOP.code ∧
          bs = be 2 id.toNat ∧ v = (thriftType type, id) := by
    intro type x s v ret s' hrun
    simp only at hrun
    split at hrun
    · rename_i hstop
      obtain ⟨bs, ⟨rfl, rfl⟩, hrest⟩ := soundFrom_done _ x s v ret s' hrun
      exact ⟨[], .inl ⟨hstop, rfl, by rw [hstop]⟩, hrest⟩
    · rename_i hgo
      obtain ⟨bs, ⟨id, rfl, rfl⟩, hrest⟩ :=
        soundFrom_last sound_i16 x s v ret s' hrun
      exact ⟨_, .inr ⟨id, hgo, rfl, rfl⟩, hrest⟩
  refine (Sound.of_from (soundFrom_andThen sound_byte hid)).mono ?_
  rintro bs v ⟨a, type, b, rfl, ⟨hstop, rfl, rfl⟩ | ⟨id, hgo, rfl, rfl⟩, rfl⟩
  · refine .inl ⟨?_, rfl⟩
    rw [thriftType_stop hstop]
    rfl
  · exact .inr ⟨type, id, hgo, rfl, rfl⟩

/-- A size that is not negative. -/
theorem soundFrom_size {β : Type} (g : Nat → β) :
    SoundFrom (fun xfer => andThen xfer readI32 fun sizei xfer =>
        if sizei.toInt < 0 then fun s => (none, s)
        else done (g sizei.toNat) xfer)
      fun bs v => ∃ n : BitVec 32, n.toNat < 2 ^ 31 ∧ bs = be 4 n.toNat ∧
        v = g n.toNat := by
  have hend : ∀ n : BitVec 32, SoundFrom (fun xfer =>
      if n.toInt < 0 then fun s => (none, s) else done (g n.toNat) xfer)
      fun bs v => n.toNat < 2 ^ 31 ∧ bs = [] ∧ v = g n.toNat := by
    intro n x s v ret s' hrun
    simp only at hrun
    split at hrun
    · cases (Prod.mk.inj hrun).1
    · rename_i hneg
      obtain ⟨bs, ⟨rfl, rfl⟩, hrest⟩ := soundFrom_done _ x s v ret s' hrun
      exact ⟨[], ⟨(toNat_of_toInt hneg).1, rfl, rfl⟩, hrest⟩
  intro x s v ret s' hrun
  obtain ⟨bs, ⟨a, n, b, rfl, ⟨hn, rfl, rfl⟩, rfl⟩, hrest⟩ :=
    soundFrom_andThen sound_i32 hend x s v ret s' hrun
  rw [List.append_nil] at hrest
  exact ⟨_, ⟨n, hn, rfl, rfl⟩, hrest⟩

/-- The begins of containers. That of a set accepts a negative size. -/
theorem sound_listBegin : Sound readListBegin fun bs v =>
    ∃ (type : BitVec 8) (n : BitVec 32), n.toNat < 2 ^ 31 ∧
      bs = be 1 type.toNat ++ be 4 n.toNat ∧ v = (thriftType type, n.toNat) := by
  refine (Sound.of_from (soundFrom_andThen sound_byte fun type =>
    soundFrom_size fun n => (thriftType type, n))).mono ?_
  rintro bs v ⟨a, type, b, rfl, ⟨n, hn, rfl, rfl⟩, rfl⟩
  exact ⟨type, n, hn, rfl, rfl⟩

theorem sound_setBegin : Sound readSetBegin fun bs v =>
    ∃ (type : BitVec 8) (n : BitVec 32),
      bs = be 1 type.toNat ++ be 4 n.toNat ∧ v = (thriftType type, n.toNat) := by
  refine (Sound.of_from (soundFrom_andThen sound_byte fun type =>
    soundFrom_last (g := fun n : BitVec 32 => (thriftType type, n.toNat))
      sound_i32)).mono ?_
  rintro bs v ⟨a, type, b, rfl, ⟨n, rfl, rfl⟩, rfl⟩
  exact ⟨type, n, rfl, rfl⟩

theorem sound_mapBegin : Sound readMapBegin fun bs v =>
    ∃ (key val : BitVec 8) (n : BitVec 32), n.toNat < 2 ^ 31 ∧
      bs = be 1 key.toNat ++ (be 1 val.toNat ++ be 4 n.toNat) ∧
      v = (thriftType key, thriftType val, n.toNat) := by
  refine (Sound.of_from (soundFrom_andThen sound_byte fun key =>
    soundFrom_andThen sound_byte fun val =>
      soundFrom_size fun n => (thriftType key, thriftType val, n))).mono ?_
  rintro bs v ⟨a, key, b, rfl, ⟨c, val, d, rfl, ⟨n, hn, rfl, rfl⟩, rfl⟩, rfl⟩
  exact ⟨key, val, n, hn, rfl, rfl⟩

/-- Where a call stores a value, it has gone over bytes that it takes. -/
theorem Call.sound (c : Call) : Sound c.read c.Takes := by
  cases c with
  | readBool =>
      refine (sound_map Value.bool sound_bool).mono ?_
      rintro bs v ⟨b, ⟨n, hbs, rfl⟩, rfl⟩
      exact ⟨n, hbs, rfl⟩
  | readByte => exact (sound_map number sound_byte).mono fun ⟨n, h⟩ => ⟨n, h⟩
  | readI16 | readU16 => exact (sound_map number sound_i16).mono fun ⟨n, h⟩ => ⟨n, h⟩
  | readI32 | readU32 | readIPV4 =>
      exact (sound_map number sound_i32).mono fun ⟨n, h⟩ => ⟨n, h⟩
  | readI64 | readU64 | readDouble =>
      exact (sound_map number sound_i64).mono fun ⟨n, h⟩ => ⟨n, h⟩
  | readIPADDR =>
      refine (sound_map (fun a => Value.address a.1 a.2) sound_ipaddr).mono ?_
      rintro bs v ⟨a, ⟨addr, hbs, rfl⟩, rfl⟩
      exact ⟨addr, hbs, rfl⟩
  | readString | readXML | readSandeshBegin =>
      refine (sound_map Value.bytes sound_string).mono ?_
      rintro bs v ⟨s, ⟨hlt, hbs⟩, rfl⟩
      exact ⟨s, hlt, hbs, rfl⟩
  | readUUID =>
      refine (sound_map Value.bytes (sound_fixed (by decide) id)).mono ?_
      rintro bs v ⟨w, ⟨hlen, rfl⟩, rfl⟩
      exact ⟨hlen, rfl⟩
  | readFieldBegin =>
      refine (sound_map (fun f => Value.field f.1 f.2) sound_fieldBegin).mono ?_
      rintro bs v ⟨w, ⟨hbs, rfl⟩ | ⟨type, id, ht, hbs, rfl⟩, rfl⟩
      · exact .inl ⟨hbs, rfl⟩
      · exact .inr ⟨type, id, ht, hbs, rfl⟩
  | readListBegin =>
      refine (sound_map (fun l => Value.list l.1 l.2) sound_listBegin).mono ?_
      rintro bs v ⟨w, ⟨type, n, hn, hbs, rfl⟩, rfl⟩
      exact ⟨type, n, hn, hbs, rfl⟩
  | readSetBegin =>
      refine (sound_map (fun l => Value.list l.1 l.2) sound_setBegin).mono ?_
      rintro bs v ⟨w, ⟨type, n, hbs, rfl⟩, rfl⟩
      exact ⟨type, n, hbs, rfl⟩
  | readMapBegin =>
      refine (sound_map (fun m => Value.map m.1 m.2.1 m.2.2) sound_mapBegin).mono ?_
      rintro bs v ⟨w, ⟨key, val, n, hn, hbs, rfl⟩, rfl⟩
      exact ⟨key, val, n, hn, hbs, rfl⟩

/-- Only a string can be longer than an `int32_t` says, and by no more than
its length. -/
theorem Call.Takes.length_lt {c : Call} {bs : Bytes} {v : Value}
    (h : c.Takes bs v) : bs.length < 2 ^ 32 := by
  cases c with
  | readIPADDR =>
      obtain ⟨a, rfl, -⟩ := h
      rw [List.length_append, length_be]
      rcases family_length a with ⟨-, hlen⟩ | ⟨-, hlen⟩ <;> rw [hlen] <;> decide
  | readString | readXML | readSandeshBegin =>
      obtain ⟨s, hlt, rfl, -⟩ := h
      rw [List.length_append, length_be]
      omega
  | readUUID =>
      rw [h.1]
      decide
  | readFieldBegin =>
      rcases h with ⟨rfl, -⟩ | ⟨type, id, -, rfl, -⟩ <;> simp
  | readListBegin =>
      obtain ⟨type, n, -, rfl, -⟩ := h
      simp
  | readMapBegin =>
      obtain ⟨key, val, n, -, rfl, -⟩ := h
      simp
  | readSetBegin =>
      obtain ⟨type, n, rfl, -⟩ := h
      simp
  | _ =>
      obtain ⟨n, rfl, -⟩ := h
      simp

-- ============================================================ a message

/-- The bytes that a generated `Read` goes over after these values, to its
end. -/
inductive Reading (next : Next) : List Value → Bytes → Prop
  | done {vals : List Value} : next vals = none → Reading next vals []
  | call {vals : List Value} {c : Call} {a b : Bytes} {v : Value} :
      next vals = some c → c.Takes a v → a.length < 2 ^ 31 →
      Reading next (vals ++ [v]) b → Reading next vals (a ++ b)

/-- Bytes that are there in full are read as the value. -/
theorem perform_reads {α : Type} {f : Reader Input α} {bs rest : Bytes} {v : α}
    {s : Input} (hf : Reads inputSource f bs v) (hs : inputSource.stream s = bs ++ rest)
    (hlt : bs.length < 2 ^ 31) :
    ∃ s', (perform f).Runs s (.ok (v, (bs.length : Int))) s' ∧
      inputSource.taken s bs s' := by
  obtain ⟨s', hread, ht⟩ := hf s rest hs hlt
  refine ⟨s', runs_act.mpr ?_, ht⟩
  rw [hread]
  exact (if_neg (Int.not_lt.mpr (Int.natCast_nonneg _))).symm

/-- What is left is what follows. -/
theorem stream_rest {s s' : Input} {bs rest : Bytes} (ht : inputSource.taken s bs s')
    (hs : inputSource.stream s = bs ++ rest) : inputSource.stream s' = rest := by
  have h := inputSource.stream_taken ht
  rw [hs] at h
  exact (List.append_cancel_left h).symm

/-- Whatever the bytes come from, they are read, and the result is their
number as an `int32_t`. -/
theorem Reading.runs {next : Next} {vals : List Value} {bs rest : Bytes}
    (h : Reading next vals bs) {x : Int} {s : Input}
    (hs : inputSource.stream s = bs ++ rest) :
    ∃ s', (Prog.loop (readNext next) (vals, i32 x)).Runs s
        (.ok (i32 (x + bs.length))) s' ∧ inputSource.taken s bs s' := by
  induction h generalizing x s with
  | done hend =>
      refine ⟨s, Runs.leave ?_, inputSource.taken_nil s⟩
      simp only [readNext, hend, List.length_nil, Int.natCast_zero, Int.add_zero]
      exact runs_pure.mpr ⟨rfl, rfl⟩
  | @call vals c a b v hnext htakes hlt _ ih =>
      rw [List.append_assoc] at hs
      obtain ⟨s₁, hrun, ht₁⟩ := perform_reads htakes.reads hs hlt
      obtain ⟨s₂, hloop, ht₂⟩ := ih (x := x + a.length) (stream_rest ht₁ hs)
      have hlen : i32 (a.length : Int) = a.length := i32_eq (by omega) (by omega)
      have hturn : (readNext next (vals, i32 x)).Runs s
          (.ok (.inl (vals ++ [v], i32 (x + a.length)))) s₁ := by
        simp only [readNext, hnext]
        refine hrun.bind_ok (runs_pure.mpr ⟨?_, rfl⟩)
        rw [← i32_add_i32, hlen]
      refine ⟨s₂, ?_, inputSource.taken_append ht₁ ht₂⟩
      rw [List.length_append, Int.natCast_add, ← Int.add_assoc]
      exact hturn.again hloop

/-- What is performed has a result that is not negative, or stops the run
with one that is. -/
theorem perform_cases {α : Type} {f : Reader Input α} {s s' : Input}
    {res : Except Int (α × Int)} (h : (perform f).Runs s res s') :
    (∃ v ret, f s = (some (v, ret), s') ∧ 0 ≤ ret ∧ res = .ok (v, ret)) ∨
      ∃ e < 0, res = .error e := by
  have h := runs_act.mp h
  split at h
  · obtain ⟨rfl, -⟩ := Prod.mk.inj h
    exact .inr ⟨-1, by decide, rfl⟩
  · rename_i v ret s₁ hread
    split at h
    · obtain ⟨rfl, -⟩ := Prod.mk.inj h
      exact .inr ⟨ret, ‹ret < 0›, rfl⟩
    · obtain ⟨rfl, rfl⟩ := Prod.mk.inj h
      exact .inl ⟨v, ret, hread, Int.not_lt.mp ‹¬ ret < 0›, rfl⟩

/-- What is performed goes over bytes of its grammar. -/
theorem perform_sound {α : Type} {f : Reader Input α} {G : Bytes → α → Prop}
    (hf : Sound f G) (hlong : ∀ {bs v}, G bs v → bs.length < 2 ^ 32)
    {s s' : Input} {v : α} {ret : Int} (h : (perform f).Runs s (.ok (v, ret)) s') :
    ∃ bs, G bs v ∧ bs.length < 2 ^ 31 ∧ ret = bs.length ∧ Passes s bs s' := by
  rcases perform_cases h with ⟨w, n, hread, hpos, hres⟩ | ⟨e, -, hres⟩
  · obtain ⟨rfl, rfl⟩ := Prod.mk.inj (Except.ok.inj hres)
    obtain ⟨bs, hbs, hret, hpass⟩ := hf s v ret s' hread
    have hlt := hlong hbs
    have hshort : bs.length < 2 ^ 31 := by
      by_contra hge
      rw [i32_high (by omega) (by omega)] at hret
      omega
    rw [i32_eq (by omega) (by omega)] at hret
    exact ⟨bs, hbs, hshort, hret, hpass⟩
  · cases hres

/-- What one turn of a generated `Read` can do. -/
theorem readNext_cases {next : Next} {vals : List Value} {x : Int} {s s' : Input}
    {res : Except Int ((List Value × Int) ⊕ Int)}
    (h : (readNext next (vals, x)).Runs s res s') :
    (next vals = none ∧ res = .ok (.inr x) ∧ s' = s) ∨
      (∃ c a v, next vals = some c ∧ c.Takes a v ∧ a.length < 2 ^ 31 ∧
        res = .ok (.inl (vals ++ [v], i32 (x + a.length))) ∧ Passes s a s') ∨
      ∃ e < 0, res = .error e := by
  unfold readNext at h
  split at h
  · rename_i hnext
    obtain ⟨rfl, rfl⟩ := runs_pure.mp h
    exact .inl ⟨hnext, rfl, rfl⟩
  · rename_i c hnext
    rcases runs_bind.mp h with ⟨⟨v, ret⟩, s₁, hcall, hrest⟩ | ⟨e, hcall, rfl⟩
    · obtain ⟨a, htakes, hlt, rfl, hpass⟩ :=
        perform_sound c.sound Call.Takes.length_lt hcall
      obtain ⟨rfl, rfl⟩ := runs_pure.mp hrest
      exact .inr (.inl ⟨c, a, v, hnext, htakes, hlt, rfl, hpass⟩)
    · rcases perform_cases hcall with ⟨v, ret, -, -, hres⟩ | ⟨e', hneg, hres⟩
      · cases hres
      · obtain rfl := Except.error.inj hres
        exact .inr (.inr ⟨e, hneg, rfl⟩)

/-- A `Read` has gone over bytes of its grammar, or is stopped with a
negative result. -/
theorem read_cases {next : Next} {vals : List Value} {x : Int} {s s' : Input}
    {res : Except Int Int}
    (h : (Prog.loop (readNext next) (vals, i32 x)).Runs s res s') :
    (∃ bs, Reading next vals bs ∧ res = .ok (i32 (x + bs.length)) ∧
        Passes s bs s') ∨ ∃ e < 0, res = .error e := by
  refine Prog.loop_rec (P := fun (t : List Value × Int) s res s' => ∀ x, t.2 = i32 x →
    (∃ bs, Reading next t.1 bs ∧ res = .ok (i32 (x + bs.length)) ∧
      Passes s bs s') ∨ ∃ e < 0, res = .error e) ?_ ?_ ?_ h x rfl
  · intro t s n s' hturn x hx
    rcases readNext_cases hturn with ⟨hend, hres, rfl⟩ | ⟨c, a, v, -, -, -, hres, -⟩ |
      ⟨e, -, hres⟩
    · refine .inl ⟨[], .done hend, ?_, Passes.refl s'⟩
      rw [List.length_nil, Int.natCast_zero, Int.add_zero, ← hx]
      exact congrArg Except.ok (Sum.inr.inj (Except.ok.inj hres))
    · cases hres
    · cases hres
  · intro t s e s' hturn x hx
    rcases readNext_cases hturn with ⟨-, hres, -⟩ | ⟨c, a, v, -, -, -, hres, -⟩ |
      ⟨e', hneg, hres⟩
    · cases hres
    · cases hres
    · obtain rfl := Except.error.inj hres
      exact .inr ⟨e, hneg, rfl⟩
  · intro t s t₁ s₁ res s' hturn ih x hx
    rcases readNext_cases hturn with ⟨-, hres, -⟩ |
      ⟨c, a, v, hnext, htakes, hlt, hres, hpass⟩ | ⟨e, -, hres⟩
    · cases hres
    · obtain rfl := Sum.inl.inj (Except.ok.inj hres)
      have hlen : i32 (a.length : Int) = a.length := i32_eq (by omega) (by omega)
      have hsum : i32 (t.2 + a.length) = i32 (x + a.length) := by
        conv => rhs; rw [← i32_add_i32, hlen, ← hx]
      rcases ih (x + a.length) hsum with ⟨b, hb, rfl, hpass₁⟩ | herror
      · refine .inl ⟨a ++ b, .call hnext htakes hlt hb, ?_, hpass.append hpass₁⟩
        rw [List.length_append, Int.natCast_add, ← Int.add_assoc]
      · exact .inr herror
    · cases hres

end Sandesh.Binary.Cpp
