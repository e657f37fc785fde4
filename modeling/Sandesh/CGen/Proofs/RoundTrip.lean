/-
Encoding and decoding in C are inverse, where the code compiles and the
keys fit in an `int16_t`.

The reader is the writer's own definition (`Fields.same`), so nothing is
skipped. `sandesh_decode` takes the messages one by one: the bytes of the
first are read as a whole, whatever comes behind them.
-/
import Sandesh.Binary.Proofs.SkipExact
import Sandesh.CGen.Proofs.Agree
import Sandesh.CGen.Proofs.Read

namespace Sandesh.CGen

open Lib Binary Binary.C
open Lib.Prog (Runs runs_pure)

-- ======================================================= one definition

mutual

/-- A value as it is read back: empty strings are null pointers. -/
def Ty.seen : (t : Ty) → t.Val → t.Got
  | .base b, v => b.got v
  | .enum _, v => v
  | .struct _ fs, r => fs.seen r
  | .list e, vs => vs.map e.seen

/-- Every field is there. -/
def Fields.seen : (fs : Fields) → fs.Rec → fs.Got
  | .nil, _ => ()
  | .cons _ t fs, r => (some (t.seen r.1), fs.seen r.2)

end

mutual

/-- The reader has the writer's definition. -/
def Ty.same : (t : Ty) → Ty.Sub t t
  | .base b => .base b
  | .enum name => .enum name
  | .struct name fs => .struct name fs.same
  | .list e => .list e.same

/-- A reader of the same definition drops nothing. -/
def Fields.same : (fs : Fields) → Fields.Sub fs fs
  | .nil => .nil
  | .cons key t fs => .keep key t.same fs.same

end

mutual

/-- It has everything in the end. -/
theorem Ty.got_same : (t : Ty) → (v : t.Val) → t.same.got v = t.seen v
  | .base _, _ => rfl
  | .enum _, _ => rfl
  | .struct _ fs, r => fs.got_same r
  | .list e, _ => List.map_congr_left fun v _ => e.got_same v

theorem Fields.got_same : (fs : Fields) → (r : fs.Rec) → fs.same.got r = fs.seen r
  | .nil, _ => rfl
  | .cons _ t fs, r =>
      Prod.ext (congrArg some (t.got_same r.1)) (fs.got_same r.2)

end

mutual

/-- It skips nothing, so nothing is asked of the stale bytes. -/
theorem Ty.skips_same : (t : Ty) → (v : t.Val) → t.same.Skips v ∧ t.same.lists v = []
  | .base _, _ => ⟨trivial, rfl⟩
  | .enum _, _ => ⟨trivial, rfl⟩
  | .struct _ fs, r => fs.skips_same r
  | .list e, _ => ⟨fun v _ => (e.skips_same v).1,
      List.flatMap_eq_nil_iff.mpr fun v _ => (e.skips_same v).2⟩

theorem Fields.skips_same : (fs : Fields) → (r : fs.Rec) →
    fs.same.Skips r ∧ fs.same.lists r = []
  | .nil, _ => ⟨trivial, rfl⟩
  | .cons _ t fs, r => by
      obtain ⟨ht, htl⟩ := t.skips_same r.1
      obtain ⟨hfs, hfsl⟩ := fs.skips_same r.2
      refine ⟨⟨ht, hfs⟩, ?_⟩
      show t.same.lists r.1 ++ fs.same.lists r.2 = []
      rw [htl, hfsl]
      rfl

end

/-- A definition's reader over the bytes of another one that has its
fields. -/
theorem Def.scans {mem : Bytes} (hmem : mem.length < 2 ^ 32) (d w : Def)
    (hsandesh : d.sandesh = w.sandesh) (es : Fields.Sub d.fields w.fields)
    {r : w.fields.Rec} (hkeys : w.fields.KeysFit) (hlegal : w.fields.Legal r)
    (hskips : es.Skips r) (buf : Nat) :
    Scans mem buf (d.read_binary_from_buffer mem buf (mem.length - buf))
      (w.out r).bytes (es.got r) (es.lists r) := by
  have hfields := es.scans hmem r w.distinct hkeys hlegal hskips buf _ id
    fun _ _ _ _ _ _ _ h => h
  unfold Def.read_binary_from_buffer Def.out
  rw [hsandesh]
  cases w.sandesh with
  | false => exact hfields
  | true => exact (scans_string mem buf w.name.text).bind hfields

-- ============================================================= encoding

/-- What the encoder writes for a message. -/
def Message.out (m : Message) : Out := m.sandesh.out m.value

/-- All of its values can be written. -/
def Message.Legal (m : Message) : Prop := m.sandesh.fields.Legal m.value

/-- The bytes of the messages. -/
def wire (ms : List Message) : Bytes := ms.flatMap fun m => m.out.bytes

/-- Such a message is written. -/
theorem Message.ok {m : Message} (h : m.Legal) : m.out.ok = true := by
  have hfields := m.sandesh.fields.ok_of_legal m.value h
  unfold Message.out Def.out
  split
  · exact hfields
  · exact hfields

/-- The name comes first. -/
theorem Message.bytes_eq (m : Message) :
    m.out.bytes = be 4 m.sandesh.name.text.length ++ (m.sandesh.name.text
      ++ (m.sandesh.fields.tree m.value).out.bytes) := by
  unfold Message.out Def.out
  rw [if_pos m.named, Out.good_seq, List.append_assoc]

/-- The messages are written one behind another. -/
theorem encodeEach_runs {ms : List Message} (hlegal : ∀ m ∈ ms, m.Legal)
    (mem : Bytes) (buf buflen : Nat) (hbuflen : buflen < 2 ^ 64)
    (hle : buf + buflen ≤ mem.length) (hroom : (wire ms).length ≤ buflen)
    (hlt : (wire ms).length < 2 ^ 31) :
    (encodeEach ms buf buflen).Runs mem (.ok (wire ms).length)
      (splice mem buf (wire ms)) := by
  induction ms generalizing mem buf buflen with
  | nil =>
      refine runs_pure.mpr ⟨rfl, ?_⟩
      exact splice_nil mem buf
  | cons m ms ih =>
      have hm := hlegal m List.mem_cons_self
      have hms := fun m hm => hlegal m (List.mem_cons_of_mem _ hm)
      have hwire : wire (m :: ms) = m.out.bytes ++ wire ms := List.flatMap_cons
      rw [hwire, List.length_append] at hroom hlt ⊢
      have hfirst := m.sandesh.fills m.value mem buf buflen hbuflen hle
        (show m.out.bytes.length < 2 ^ 31 by omega)
      rw [if_pos ⟨Message.ok hm, show m.out.bytes.length ≤ buflen by omega⟩] at hfirst
      change Runs _ mem (.ok (m.out.bytes.length : Int)) (splice mem buf m.out.bytes)
        at hfirst
      have hlen : (splice mem buf m.out.bytes).length = mem.length :=
        length_splice (by omega)
      have hrest := ih hms (splice mem buf m.out.bytes) (buf + m.out.bytes.length)
        (buflen - m.out.bytes.length) (by omega) (by omega) (by omega) (by omega)
      rw [splice_splice _ _ (by omega)] at hrest
      refine hfirst.bind_ok ?_
      rw [if_neg (Int.not_lt.mpr (Int.natCast_nonneg _)), Int.toNat_natCast]
      refine hrest.bind_ok ?_
      rw [if_neg (Int.not_lt.mpr (Int.natCast_nonneg _))]
      exact runs_pure.mpr ⟨by rw [Int.natCast_add], rfl⟩

-- ============================================================= decoding

/-- A sandesh in the buffer: its name, the bytes behind it, and the call of
a process function. -/
structure Piece where
  name : Ident
  body : Bytes
  call : Processed

/-- A message on the wire, by its name and what follows. -/
def Piece.bytes (p : Piece) : Bytes :=
  be 4 p.name.text.length ++ (p.name.text ++ p.body)

section Decode

variable {mem : Bytes} {sinfo_find_fn : Bytes → Option Def}

/-- The definition that is found for the name reads the bytes. -/
def Piece.IsRead (mem : Bytes) (sinfo_find_fn : Bytes → Option Def) (p : Piece) : Prop :=
  sinfo_find_fn p.name.text = some p.call.sandesh ∧
    ∀ buf : Nat, Scans mem buf
      (p.call.sandesh.read_binary_from_buffer mem buf (mem.length - buf)) p.bytes
      p.call.value []

/-- There are at least the bytes of the name and of its length. -/
theorem Piece.four_le (p : Piece) : 4 + p.name.text.length ≤ p.bytes.length := by
  unfold Piece.bytes
  simp only [List.length_append, length_be]
  omega

/-- One message off the front. -/
theorem decode_one_runs {p : Piece} (hread : p.IsRead mem sinfo_find_fn)
    {pos : Nat} {rest : Bytes} (hle : pos ≤ mem.length) (h : mem.drop pos = p.bytes ++ rest)
    (hlt : p.bytes.length < 2 ^ 31) (st : Bytes) :
    ∃ st', (sandesh_decode_one mem sinfo_find_fn pos (mem.length - pos)).Runs st
      (.ok (p.bytes.length, some p.call)) st' := by
  obtain ⟨hfind, hscan⟩ := hread
  have hlen := congrArg List.length h
  rw [List.length_drop, List.length_append] at hlen
  have hhead := h
  rw [Piece.bytes, List.append_assoc] at hhead
  have hpos := List.length_pos_of_ne_nil p.name.nonempty
  have hsum := p.four_le
  -- the length of the name, and the name
  have hsize := toNat_ofNat_of_lt (n := p.name.text.length) (by omega)
  have hint : (BitVec.ofNat 32 (swap 4 (ofImage (be 4 p.name.text.length)))).toInt
      = p.name.text.length := by
    have hswap := swap_be (k := 4) (BitVec.ofNat 32 p.name.text.length) rfl
    rw [hsize] at hswap
    rw [hswap, BitVec.toInt_eq_toNat_cond, hsize, if_pos (by omega)]
  have hname : mem.drop (pos + 4) = p.name.text ++ (p.body ++ rest) := by
    rw [← List.drop_drop, hhead, List.drop_left' (length_be _ _), List.append_assoc]
  obtain ⟨st', hrun, -⟩ := hscan pos 0 rest st [] hle h (by omega) trivial
  rw [Nat.zero_add] at hrun
  refine ⟨st', ?_⟩
  unfold sandesh_decode_one
  rw [if_neg (by omega)]
  refine (runs_memcpyFrom mem (length_be 4 _) hle hhead st).bind_ok ?_
  simp only [hint]
  have hu : u32 (4 + (p.name.text.length : Int)) = 4 + p.name.text.length :=
    u32_nat (n := 4 + p.name.text.length) (by omega)
  rw [if_pos (by omega), hu, if_neg (by omega)]
  refine (runs_memcpyFrom mem (by rw [hint, Int.toNat_natCast]) (by omega) hname
    st).bind_ok ?_
  simp only [cstr_eq p.name.noNul, hfind]
  refine hrun.bind_ok ?_
  dsimp only
  rw [if_neg (Int.not_lt.mpr (Int.natCast_nonneg _))]
  exact runs_pure.mpr ⟨rfl, rfl⟩

/-- All of them, by induction on the list. -/
theorem decode_runs (hmem : mem.length < 2 ^ 31) {ps : List Piece}
    (hread : ∀ p ∈ ps, p.IsRead mem sinfo_find_fn) {pos : Nat} (hle : pos ≤ mem.length)
    (h : mem.drop pos = ps.flatMap Piece.bytes) (calls : List Processed) (st : Bytes) :
    ∃ st', (Prog.loop (decodeTurn mem sinfo_find_fn mem.length) (pos, calls)).Runs st
      (.ok (mem.length, calls ++ ps.map Piece.call)) st' := by
  induction ps generalizing pos calls st with
  | nil =>
      have hend : pos = mem.length := by
        have hlen := congrArg List.length h
        rw [List.length_drop] at hlen
        change mem.length - pos = 0 at hlen
        omega
      refine ⟨st, Runs.leave ?_⟩
      unfold decodeTurn
      rw [if_neg (by dsimp only; omega), List.map_nil, List.append_nil, hend]
      refine runs_pure.mpr ⟨?_, rfl⟩
      rw [i32_eq (by omega) (by omega)]
  | cons p ps ih =>
      rw [List.flatMap_cons] at h
      have hlen := congrArg List.length h
      rw [List.length_drop, List.length_append] at hlen
      have hne := p.four_le
      obtain ⟨st₁, hone⟩ := decode_one_runs (hread p List.mem_cons_self) hle h (by omega) st
      have hnext : mem.drop (pos + p.bytes.length) = ps.flatMap Piece.bytes := by
        rw [← List.drop_drop, h, List.drop_left]
      obtain ⟨st', hrest⟩ := ih (fun p hp => hread p (List.mem_cons_of_mem _ hp))
        (by omega) hnext (calls ++ [p.call]) st₁
      rw [List.append_assoc] at hrest
      refine ⟨st', Runs.again ?_ hrest⟩
      unfold decodeTurn
      rw [if_pos (by dsimp only; omega)]
      refine hone.bind_ok ?_
      have hu : u32 ((pos : Int) + p.bytes.length) = pos + p.bytes.length :=
        u32_nat (n := pos + p.bytes.length) (by omega)
      dsimp only
      rw [if_neg (Int.not_lt.mpr (Int.natCast_nonneg _)), hu]
      exact runs_pure.mpr ⟨rfl, rfl⟩

end Decode

/-- What is handed over for a message. -/
def Message.processed (m : Message) : Processed :=
  ⟨m.sandesh, m.sandesh.fields.seen m.value⟩

/-- A message as a piece of the buffer. -/
def Message.piece (m : Message) : Piece :=
  ⟨m.sandesh.name, (m.sandesh.fields.tree m.value).out.bytes, m.processed⟩

/-- The emitted reader reads what the emitted writer has written. -/
theorem Message.isRead {m : Message} {mem : Bytes} {sinfo_find_fn : Bytes → Option Def}
    (hmem : mem.length < 2 ^ 32)
    (hfind : sinfo_find_fn m.sandesh.name.text = some m.sandesh) (hlegal : m.Legal)
    (hkeys : m.sandesh.fields.KeysFit) : m.piece.IsRead mem sinfo_find_fn := by
  refine ⟨hfind, fun buf => ?_⟩
  have h := Def.scans hmem m.sandesh m.sandesh rfl m.sandesh.fields.same hkeys hlegal
    (m.sandesh.fields.skips_same m.value).1 buf
  rw [(m.sandesh.fields.skips_same m.value).2, m.sandesh.fields.got_same] at h
  change Scans mem buf _ m.out.bytes _ _ at h
  rw [m.bytes_eq] at h
  exact h

-- =========================================================== round trip

/-- The code compiles, the messages can be encoded one behind the other,
and `sandesh_decode` on their bytes processes each of them once, in order,
and returns the number of bytes. -/
def RoundTrips (ms : List Message) : Prop :=
  Compiles (ms.map Message.sandesh) ∧ ∃ bs : Bytes, bs.length < 2 ^ 32 ∧
    (∀ mem : Bytes, bs.length ≤ mem.length → mem.length < 2 ^ 32 →
      (encodeEach ms 0 mem.length).Runs mem (.ok bs.length) (splice mem 0 bs)) ∧
    ∀ sinfo_find_fn : Bytes → Option Def,
      (∀ m ∈ ms, sinfo_find_fn m.sandesh.name.text = some m.sandesh) →
      ∀ st, ∃ st', (sandesh_decode bs sinfo_find_fn bs.length).Runs st
        (.ok (bs.length, ms.map Message.processed)) st'

/-- Every definition that the C compiler takes makes the round trip. -/
theorem roundTrips_of_compiles {ms : List Message} (hlegal : ∀ m ∈ ms, m.Legal)
    (hkeys : ∀ m ∈ ms, m.sandesh.fields.KeysFit) (hlt : (wire ms).length < 2 ^ 31)
    (h : Compiles (ms.map Message.sandesh)) : RoundTrips ms := by
  refine ⟨h, wire ms, by omega, ?_, ?_⟩
  · intro mem hroom hmem
    exact encodeEach_runs hlegal mem 0 mem.length (by omega) (by omega) hroom hlt
  · intro sinfo_find_fn hfind st
    have hpieces : ∀ p ∈ ms.map Message.piece, p.IsRead (wire ms) sinfo_find_fn := by
      refine List.forall_mem_map.mpr fun m hm => ?_
      exact Message.isRead (by omega) (hfind m hm) (hlegal m hm) (hkeys m hm)
    have hwire : wire ms = (ms.map Message.piece).flatMap Piece.bytes := by
      rw [List.flatMap_map]
      exact List.flatMap_congr fun m _ => m.bytes_eq
    have h := decode_runs hlt hpieces (Nat.zero_le _) (List.drop_zero.trans hwire) [] st
    rw [List.map_map] at h
    exact h

/-- The round trip, for definitions whose keys fit in an `int16_t`: where
the C compiler takes the code, and nowhere else. -/
theorem encode_decode_iff (ms : List Message) (hlegal : ∀ m ∈ ms, m.Legal)
    (hkeys : ∀ m ∈ ms, m.sandesh.fields.KeysFit) (hlt : (wire ms).length < 2 ^ 31) :
    RoundTrips ms ↔ Apart (ms.flatMap fun m => m.sandesh.defs) ∧
      ∀ m ∈ ms, m.sandesh.fields.Plain := by
  have hcompiles : Compiles (ms.map Message.sandesh) ↔
      Apart (ms.flatMap fun m => m.sandesh.defs) ∧
        ∀ m ∈ ms, m.sandesh.fields.Plain := by
    rw [compiles_iff, List.flatMap_map, List.forall_mem_map]
  exact ⟨fun h => hcompiles.mp h.1,
    fun h => roundTrips_of_compiles hlegal hkeys hlt (hcompiles.mpr h)⟩

/-- `sandesh abc` with a number and two bytes, twice. -/
def abcMessage : Message :=
  ⟨abc, ((⟨.i32 7, rfl⟩, ()), [⟨.byte 1, rfl⟩, ⟨.byte 2, rfl⟩], ()), rfl⟩

theorem encode_decode_abc : RoundTrips [abcMessage, abcMessage] := by
  have hboth : ∀ {p : Message → Prop}, p abcMessage →
      ∀ m ∈ [abcMessage, abcMessage], p m := by
    intro p h m hm
    rw [List.mem_pair, or_self] at hm
    exact hm ▸ h
  refine (encode_decode_iff _ (hboth ?_) (hboth ?_) (by decide)).mpr
    ⟨?_, hboth ⟨⟨rfl, trivial, trivial⟩, trivial, trivial⟩⟩
  · refine ⟨⟨trivial, trivial⟩, fun v hv => ?_, trivial⟩
    rcases List.mem_pair.mp hv with rfl | rfl <;> trivial
  · exact ⟨⟨by decide, by decide⟩, ⟨⟨by decide, by decide⟩, trivial, trivial⟩,
      ⟨by decide, by decide⟩, trivial, trivial⟩
  · intro d hd d' hd' heq
    change d ∈ [abc, inner, abc, inner] at hd
    change d' ∈ [abc, inner, abc, inner] at hd'
    simp only [List.mem_cons, List.not_mem_nil, or_false] at hd hd'
    have hd : d = abc ∨ d = inner := by tauto
    have hd' : d' = abc ∨ d' = inner := by tauto
    exact abc_apart d (List.mem_pair.mpr hd) d' (List.mem_pair.mpr hd') heq

/-- The buffer tells texts of one length apart. -/
theorem splice_inj {mem a b : Bytes} (ha : a.length = b.length)
    (h : splice mem 0 a = splice mem 0 b) : a = b := by
  unfold splice at h
  rw [List.take_zero, List.nil_append, List.nil_append] at h
  exact (List.append_inj h ha).1

/-- `sandesh abc { 70000: i32 a }` -/
def abcKey : Def where
  sandesh := true
  name := abc.name
  fields := .cons 70000 (.base .i32) .nil
  distinct := ⟨by decide, trivial, trivial⟩

/-- What the reader makes of it. -/
def abcKeyPiece : Piece :=
  ⟨abcKey.name, be 1 8 ++ be 2 4464 ++ be 4 7 ++ [0], ⟨abcKey, (none, ())⟩⟩

theorem abcKeyPiece_isRead {mem : Bytes} (hmem : mem.length < 2 ^ 32) :
    abcKeyPiece.IsRead mem fun _ => some abcKey := by
  refine ⟨rfl, fun buf => ?_⟩
  have hskip := scans_skip hmem buf (.leaf (.i32 7)) rfl (fun _ h => nomatch h)
  have hkey : (4464 : Int) ∉ abcKey.fields.keys := by decide
  have hcase := scans_default abcKey.fields hkey (none, ()) hskip
  have hfield := scans_field (t := .T_I32) (fun h => nomatch h)
    (by exact ⟨by decide, by decide⟩) hcase
  have hloop := hfield.again (scans_stop _ _).leave
  exact (scans_string mem buf abcKey.name.text).bind hloop

/-- A list of structures does not compile, and a field with the key 70000
is written with the id 4464, which the reader has no case for. -/
theorem encode_decode_lost :
    ¬ RoundTrips [⟨abcList, ([(⟨.i32 7, rfl⟩, ())], ()), rfl⟩] ∧
      ¬ RoundTrips [⟨abcKey, (⟨.i32 7, rfl⟩, ()), rfl⟩] := by
  constructor
  · rintro ⟨⟨-, hcompiles⟩, -⟩
    exact absurd (hcompiles abcList List.mem_cons_self) (by decide)
  · rintro ⟨-, bs, hbs, hencode, hdecode⟩
    -- the bytes are those of the message
    have hlegal : ∀ m ∈ [(⟨abcKey, (⟨.i32 7, rfl⟩, ()), rfl⟩ : Message)], m.Legal :=
      List.forall_mem_singleton.mpr ⟨trivial, trivial⟩
    have hwire : wire [⟨abcKey, (⟨.i32 7, rfl⟩, ()), rfl⟩] = abcKeyPiece.bytes := rfl
    have hlen : abcKeyPiece.bytes.length = 15 := rfl
    obtain ⟨mem, hmem⟩ : ∃ mem : Bytes, mem.length = max bs.length 15 :=
      ⟨List.replicate _ 0, List.length_replicate⟩
    have hruns := encodeEach_runs hlegal mem 0 mem.length (by omega) (by omega)
      (by rw [hwire, hlen]; omega) (by rw [hwire, hlen]; decide)
    have hsame := (hencode mem (by omega) (by omega)).unique hruns
    rw [hwire] at hsame
    obtain ⟨hcount, hbytes⟩ := hsame
    injection hcount with hcount
    have heq := splice_inj (by omega) hbytes
    -- and they are read without the field
    subst heq
    obtain ⟨st, hrun⟩ := hdecode (fun _ => some abcKey)
      (List.forall_mem_singleton.mpr rfl) []
    have hread := decode_runs (by rw [hlen]; decide)
      (List.forall_mem_singleton.mpr (abcKeyPiece_isRead (by rw [hlen]; decide)))
      (Nat.zero_le _) (by rw [List.drop_zero, List.flatMap_singleton]) [] []
    obtain ⟨st', hread⟩ := hread
    have hcalls := (hrun.unique hread).1
    injection hcalls with hcalls
    have hvalue := congrArg Prod.snd hcalls
    injection hvalue with hvalue
    injection hvalue with _ hvalue
    cases hvalue

end Sandesh.CGen

/-
Unknown fields: both skip functions take exactly one value, so that a
reader whose definition lacks some of the writer's fields gets all those it
has.
-/

namespace Sandesh.CGen

open Lib Binary Binary.C
open Lib.Prog (Runs)

/-- A tree is written as its bytes. -/
def IsWritten {k : Kind} (v : Tree k) : Prop :=
  ∀ b : Buffer, v.out.bytes.length ≤ b.room →
    v.write memoryBuffer 0 b = ((v.out.bytes.length : Int), b.append v.out.bytes)

/-- A tree that can be written is written where there is room. -/
theorem isWritten {k : Kind} {v : Tree k} (hok : v.out.ok = true)
    (hlt : v.out.bytes.length < 2 ^ 31) : IsWritten v := by
  intro b hroom
  have h := v.writes_out (A := memoryAppends) 0 b (Int.le_refl 0) (by omega) hroom
  rw [if_pos hok, Int.zero_add] at h
  exact h

/-- The reader, on the writer's bytes and any others behind them, ends up
with the fields it has, and behind the writer's bytes. -/
def Decodes (d w : Def) (es : Fields.Sub d.fields w.fields) (r : w.fields.Rec)
    (st : Bytes) : Prop :=
  ∀ rest : Bytes, ((w.out r).bytes ++ rest).length < 2 ^ 32 →
    ∃ st', (d.read_binary_from_buffer ((w.out r).bytes ++ rest) 0
        ((w.out r).bytes ++ rest).length 0).Runs st
      (.ok (some (es.got r, ((w.out r).bytes.length : Int)))) st'

/-- The reader of an older or a newer version, as a decode. -/
theorem decodes {d w : Def} (hsandesh : d.sandesh = w.sandesh)
    (es : Fields.Sub d.fields w.fields) {r : w.fields.Rec} {st : Bytes}
    (hkeys : w.fields.KeysFit) (hlegal : w.fields.Legal r)
    (hlt : (w.out r).bytes.length < 2 ^ 31) (hskips : es.Skips r)
    (hzero : Zeroed (es.lists r) st) : Decodes d w es r st := by
  intro rest hlen
  rw [← List.append_nil (es.lists r)] at hzero
  obtain ⟨st', hrun, -⟩ := Def.scans hlen d w hsandesh es hkeys hlegal hskips 0 0 rest st []
    (Nat.zero_le _) List.drop_zero (by omega) hzero
  rw [Nat.zero_add] at hrun
  exact ⟨st', hrun⟩

/-- Skipping is exact where no address and no stale byte is met, for values
that are not structures only there; and then unknown fields do no harm. -/
theorem skip_exact {type : Nat} (v : Tree (.value type)) (st : Bytes)
    (hok : v.out.ok = true) (hlt : v.out.bytes.length < 2 ^ 31) :
    (v.NoAddress → Zeroed v.lists st → IsWritten v ∧ SkipsExactly v st) ∧
    (v.NotStruct → ((∀ st, SkipsExactly v st) ↔ v.NoAddress ∧ v.NoElements)) ∧
    ∀ (d w : Def) (es : Fields.Sub d.fields w.fields) (r : w.fields.Rec) (st : Bytes),
      d.sandesh = w.sandesh → w.fields.KeysFit → w.fields.Legal r →
      (w.out r).bytes.length < 2 ^ 31 → es.Skips r → Zeroed (es.lists r) st →
        Decodes d w es r st :=
  ⟨fun hknown hzero =>
      ⟨isWritten hok hlt, skipsExactly_of_zeroed hok hlt hknown hzero⟩,
    skipsExactly_iff hok hlt,
    fun _ _ es _ _ hsandesh hkeys hlegal hlt hskips hzero =>
      decodes hsandesh es hkeys hlegal hlt hskips hzero⟩

/-- `sandesh abc` before it had its list. -/
def abcOld : Def where
  sandesh := true
  name := abc.name
  fields := .cons 1 (.struct inner.name inner.fields) .nil
  distinct := ⟨by decide, inner.distinct, trivial⟩

/-- A structure with a number and a list of bytes is skipped, and the list
is skipped by a reader that does not know it. -/
theorem skip_exact_abc :
    SkipsExactly (.struct (abc.fields.tree abcMessage.value)) [] ∧
      Decodes abcOld abc (.keep 1 (Ty.same _) (.drop 2 _ .nil)) abcMessage.value [] := by
  have hlegal : ∀ v ∈ [(⟨.byte 1, rfl⟩ : Base.byte.Val), ⟨.byte 2, rfl⟩],
      Scalar.Legal v.1 := by
    intro v hv
    rcases List.mem_pair.mp hv with rfl | rfl <;> trivial
  have hbyte : ∀ {v : BitVec 8} a, Scalar.byte v ≠ .ipaddr a := fun _ h => nomatch h
  have hnumber : ∀ {v : BitVec 32} a, Scalar.i32 v ≠ .ipaddr a := fun _ h => nomatch h
  have hkeys : abc.fields.KeysFit := ⟨⟨by decide, by decide⟩,
    ⟨⟨by decide, by decide⟩, trivial, trivial⟩, ⟨by decide, by decide⟩, trivial, trivial⟩
  have hexact := skip_exact (.struct (abc.fields.tree abcMessage.value)) [] rfl (by decide)
  constructor
  · have hzero : Zeroed (Tree.struct (abc.fields.tree abcMessage.value)).lists [] :=
      ⟨fun _ => rfl, trivial⟩
    refine (hexact.1 ?_ hzero).2
    exact ⟨⟨hnumber, trivial⟩, ⟨hbyte, hbyte, trivial⟩, trivial⟩
  · refine hexact.2.2 _ _ _ _ _ rfl hkeys ⟨⟨trivial, trivial⟩, hlegal, trivial⟩
      (by decide) ?_ ⟨fun _ => rfl, trivial⟩
    exact ⟨⟨trivial, trivial⟩, ⟨hbyte, hbyte, trivial⟩, trivial⟩

/-- An address, which there is no case for, and a list with one element,
whose type has a stale byte in it. -/
theorem skip_not_exact :
    ¬ SkipsExactly (.leaf (.ipaddr (.ipv4 [10, 0, 0, 1] rfl))) [] ∧
      ¬ SkipsExactly (.list .T_I32 (.cons (.leaf (.i32 7)) .nil)) [1] :=
  ⟨address_not_exact _ rfl [], list_not_exact rfl (by decide) (by decide)⟩

end Sandesh.CGen
