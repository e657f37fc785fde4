/-
A reader over the bytes of a writer, whose definition has all of the
reader's fields and may have more (`Fields.Sub`).

The reader ends up with the fields it knows (`Fields.Sub.got`), where the
others can be skipped (`Fields.Sub.Skips`): they have no addresses. The
induction goes along the writer's fields. What was read so far is a function
`plug` of what is still to come, and the `switch` on a later key only acts
on that.
-/
import Sandesh.Binary.Proofs.Reads
import Sandesh.CGen.Proofs.Value

namespace Sandesh.CGen

open Lib Binary Binary.C
open Lib.Prog (Runs runs_act runs_pure)

-- ========================================================== definitions

mutual

/-- The reader's type is the writer's, less some fields. -/
inductive Ty.Sub : Ty → Ty → Type
  | base (b : Base) : Ty.Sub (.base b) (.base b)
  | enum (name : Ident) : Ty.Sub (.enum name) (.enum name)
  | struct (name : Ident) {rs ws : Fields} (es : Fields.Sub rs ws) :
      Ty.Sub (.struct name rs) (.struct name ws)
  | list {r w : Ty} (e : Ty.Sub r w) : Ty.Sub (.list r) (.list w)

/-- Some of the fields, each type again less some of its own. -/
inductive Fields.Sub : Fields → Fields → Type
  | nil : Fields.Sub .nil .nil
  | keep (key : Int) {r w : Ty} {rs ws : Fields} (e : Ty.Sub r w)
      (es : Fields.Sub rs ws) : Fields.Sub (.cons key r rs) (.cons key w ws)
  | drop (key : Int) (w : Ty) {rs ws : Fields} (es : Fields.Sub rs ws) :
      Fields.Sub rs (.cons key w ws)

end

mutual

/-- The value as the reader has it. -/
def Ty.Sub.got : {r w : Ty} → Ty.Sub r w → w.Val → r.Got
  | _, _, .base b, v => b.got v
  | _, _, .enum _, v => v
  | _, _, .struct _ es, v => es.got v
  | _, _, .list e, vs => vs.map e.got

/-- What such a reader has in the end. -/
def Fields.Sub.got : {rs ws : Fields} → Fields.Sub rs ws → ws.Rec → rs.Got
  | _, _, .nil, _ => ()
  | _, _, .keep _ e es, r => (some (e.got r.1), es.got r.2)
  | _, _, .drop _ _ es, r => es.got r.2

end

/-- For every element of a list. -/
def Each {α : Type} (p : α → Prop) (vs : List α) : Prop := ∀ v ∈ vs, p v

mutual

/-- Nothing that is skipped has an address in it. -/
def Ty.Sub.Skips : {r w : Ty} → Ty.Sub r w → w.Val → Prop
  | _, _, .base _, _ => True
  | _, _, .enum _, _ => True
  | _, _, .struct _ es, v => es.Skips v
  | _, _, .list e, vs => Each e.Skips vs

/-- A field that is not declared has none at any depth. -/
def Fields.Sub.Skips : {rs ws : Fields} → Fields.Sub rs ws → ws.Rec → Prop
  | _, _, .nil, _ => True
  | _, _, .keep _ e es, r => e.Skips r.1 ∧ es.Skips r.2
  | _, _, .drop _ w es, r => (w.tree r.1).NoAddress ∧ es.Skips r.2

end

mutual

/-- The lists in what is skipped. -/
def Ty.Sub.lists : {r w : Ty} → Ty.Sub r w → w.Val → List Bool
  | _, _, .base _, _ => []
  | _, _, .enum _, _ => []
  | _, _, .struct _ es, v => es.lists v
  | _, _, .list e, vs => vs.flatMap e.lists

/-- A field that is not declared counts with all of its lists. -/
def Fields.Sub.lists : {rs ws : Fields} → Fields.Sub rs ws → ws.Rec → List Bool
  | _, _, .nil, _ => []
  | _, _, .keep _ e es, r => e.lists r.1 ++ es.lists r.2
  | _, _, .drop _ w es, r => (w.tree r.1).lists ++ es.lists r.2

end

mutual

/-- Legal values only. -/
def Ty.Legal : (t : Ty) → t.Val → Prop
  | .base _, v => Scalar.Legal v.1
  | .enum _, _ => True
  | .struct _ fs, r => fs.Legal r
  | .list e, vs => Each e.Legal vs

/-- Every value of a structure can be written. -/
def Fields.Legal : (fs : Fields) → fs.Rec → Prop
  | .nil, _ => True
  | .cons _ t fs, r => t.Legal r.1 ∧ fs.Legal r.2

end

/-- A key that `Xfid`, of type `int16_t`, can have. -/
def KeyFits (key : Int) : Prop := -2 ^ 15 ≤ key ∧ key < 2 ^ 15

mutual

/-- Every id below the type is a 16-bit number. -/
def Ty.KeysFit : Ty → Prop
  | .base _ | .enum _ => True
  | .struct _ fs => fs.KeysFit
  | .list e => e.KeysFit

/-- The same for the fields of a structure. -/
def Fields.KeysFit : Fields → Prop
  | .nil => True
  | .cons key t fs => KeyFits key ∧ t.KeysFit ∧ fs.KeysFit

end

/-- The type on the wire is the same on both sides. -/
theorem Ty.Sub.type_eq {r w : Ty} (e : Ty.Sub r w) : r.type_to_enum = w.type_to_enum := by
  cases e <;> rfl

/-- The reader declares no id that the writer does not. -/
theorem Fields.Sub.keys_subset {rs ws : Fields} (es : Fields.Sub rs ws) :
    ∀ key ∈ rs.keys, key ∈ ws.keys := by
  match es with
  | .nil => exact fun _ h => h
  | .keep key e es =>
      intro key' h
      rcases List.mem_cons.mp h with rfl | h
      · exact List.mem_cons_self
      · exact List.mem_cons_of_mem _ (es.keys_subset key' h)
  | .drop key w es =>
      exact fun key' h => List.mem_cons_of_mem _ (es.keys_subset key' h)

-- =========================================================== statements

section Statements

variable {mem : Bytes} {buf : Nat}

/-- An id that fits comes back from its two bytes. -/
theorem toInt_ofInt_of_fits {key : Int} (h : KeyFits key) :
    (BitVec.ofInt 16 key).toInt = key := by
  rw [BitVec.toInt_ofInt]
  obtain ⟨hlo, hhi⟩ := h
  exact Int.bmod_eq_of_le (by omega) (by omega)

/-- One field of the loop. -/
theorem scans_field {γ : Type} {fields : Int → Nat → γ → Scan γ} {g g' : γ} {t : TType}
    (hne : t ≠ .T_STOP) {key : Int} (hkey : KeyFits key) {bs : Bytes} {ls : List Bool}
    (h : Scans mem buf (fields key t.code g) bs g' ls) :
    Scans mem buf (readField mem buf (mem.length - buf) fields g)
      (be 1 t.code ++ be 2 (BitVec.ofInt 16 key).toNat ++ bs) (.inl g') ls := by
  have htype := scans_byte mem buf (BitVec.ofNat 8 t.code)
  rw [code_toNat] at htype
  have hcode : thriftType (BitVec.ofNat 8 t.code) = t.code := thriftType_code t
  have hid := scans_i16 mem buf (BitVec.ofInt 16 key)
  rw [List.append_assoc]
  show Scans mem buf _ _ _ ([] ++ ls)
  refine htype.bind ?_
  rw [hcode, if_neg (fun h => hne (TType.code_inj h))]
  refine hid.bind ?_
  rw [toInt_ofInt_of_fits hkey]
  exact h.map Sum.inl

/-- The stop ends the loop. -/
theorem scans_stop {γ : Type} (fields : Int → Nat → γ → Scan γ) (g : γ) :
    Scans mem buf (readField mem buf (mem.length - buf) fields g) [0] (.inr g) [] :=
  (scans_byte mem buf 0).bind (scans_pure (Sum.inr g))

variable (hmem : mem.length < 2 ^ 32)

include hmem

/-- A structure is read by a function of its own, on what is left of the
buffer. -/
theorem scans_call {α : Type} {f : Int → Nat → Scan α} {bs : Bytes} {a : α}
    {ls : List Bool}
    (hf : ∀ buf : Nat, Scans mem buf (f buf (mem.length - buf)) bs a ls) :
    Scans mem buf (callFromBuffer buf (mem.length - buf) f) bs a ls := by
  intro off rest st more hle h hlt hzero
  have hleft : u64 (((mem.length - buf : Nat) : Int) - off) = mem.length - (buf + off) := by
    rw [show ((mem.length - buf : Nat) : Int) - off = (mem.length - (buf + off) : Nat) by
      omega, u64_nat (by omega)]
  obtain ⟨st', hrun, hzero⟩ := hf (buf + off) 0 rest st more hle h (by omega) hzero
  refine ⟨st', ?_, hzero⟩
  unfold callFromBuffer
  rw [hleft]
  refine hrun.bind_ok ?_
  simp only [Nat.zero_add]
  rw [if_neg (Int.not_lt.mpr (Int.natCast_nonneg _)), i32_eq (by omega) (by omega)]
  exact runs_pure.mpr ⟨rfl, rfl⟩

/-- A value that is not declared is skipped as a whole. -/
theorem scans_skip (buf : Nat) {type : Nat} (v : Tree (.value type)) (hok : v.out.ok = true)
    (hknown : v.NoAddress) :
    Scans mem buf (skipUnknown mem buf (mem.length - buf) type) v.out.bytes () v.lists := by
  intro off rest st more hle h hlt hzero
  obtain ⟨st', hwhole, hzero⟩ := v.whole hok (by omega) hknown rest hzero
  rw [← h] at hwhole
  have hrun := hwhole.skipped hmem (buf + off) hle rfl
  have hpos : ((buf : Int) + off).toNat = buf + off := by omega
  have hleft : u32 (((mem.length - buf : Nat) : Int) - off) = mem.length - (buf + off) :=
    left_eq buf off hmem hle
  refine ⟨st', ?_, hzero⟩
  unfold skipUnknown
  rw [if_neg (by omega), hpos, hleft]
  refine hrun.bind_ok ?_
  rw [i32_eq (by omega) (by omega),
    if_neg (Int.not_lt.mpr (Int.natCast_nonneg _)), i32_eq (by omega) (by omega)]
  exact runs_pure.mpr ⟨rfl, rfl⟩

end Statements

/-- Elements that can be written make a list that can. -/
theorem elems_ok {α : Type} {type : Nat} {f : α → Tree (.value type)} {vs : List α}
    (h : ∀ v ∈ vs, (f v).out.ok = true) : (elems f vs).out.ok = true := by
  induction vs with
  | nil => rfl
  | cons v vs ih =>
      have hv := h v List.mem_cons_self
      have hvs := ih fun v hv => h v (List.mem_cons_of_mem _ hv)
      show ((f v).out.seq (elems f vs).out).ok = true
      unfold Out.seq
      rw [if_pos hv]
      exact hvs

mutual

/-- Legal values can be written. -/
theorem Ty.ok_of_legal : (t : Ty) → (v : t.Val) → t.Legal v → (t.tree v).out.ok = true
  | .base b, v, h => by
      show (leafAt v.1 v.2).out.ok = true
      rw [out_leafAt]
      obtain ⟨v, hv⟩ := v
      cases v with
      | ipaddr a =>
          cases a with
          | ipv4 | ipv6 => rfl
          | other iptype => exact absurd h id
      | string s | xml s => cases s <;> rfl
      | _ => rfl
  | .enum _, _, _ => rfl
  | .struct _ fs, r, h => fs.ok_of_legal r h
  | .list e, vs, h => by
      have hes : (elems e.tree vs).out.ok = true :=
        elems_ok fun v hv => e.ok_of_legal v (h v hv)
      exact hes

/-- A structure of legal values can be written. -/
theorem Fields.ok_of_legal : (fs : Fields) → (r : fs.Rec) → fs.Legal r →
    (fs.tree r).out.ok = true
  | .nil, _, _ => rfl
  | .cons key t fs, r, h => by
      have ht := t.ok_of_legal r.1 h.1
      have hfs := fs.ok_of_legal r.2 h.2
      show ((t.tree r.1).out.seq (fs.tree r.2).out).ok = true
      unfold Out.seq
      rw [if_pos ht]
      exact hfs

end

/-- The loop over the elements of a list. -/
theorem scans_times {mem : Bytes} {buf : Nat} {α β : Type} {type : Nat} {m : Scan β}
    {f : α → Tree (.value type)} {g : α → β} {ls : α → List Bool} {vs : List α}
    (h : ∀ v ∈ vs, Scans mem buf m (f v).out.bytes (g v) (ls v))
    (hok : (elems f vs).out.ok = true) {n : Nat} (hn : n = vs.length) :
    Scans mem buf (Scan.times m n) (elems f vs).out.bytes (vs.map g)
      (vs.flatMap ls) := by
  subst hn
  induction vs with
  | nil => exact scans_pure []
  | cons v vs ih =>
      have hcons : (Tree.cons (f v) (elems f vs)).out.ok = true := hok
      obtain ⟨-, hvs, hbytes⟩ := Tree.cons_out hcons
      have hv := h v List.mem_cons_self
      have hrest := ih (fun v hv => h v (List.mem_cons_of_mem _ hv)) hvs
      rw [elems, hbytes, List.map_cons, List.flatMap_cons]
      exact hv.bind (hrest.map fun ws => g v :: ws)

/-- The case of a field behind this one. -/
theorem scans_next {mem : Bytes} {buf : Nat} {key : Int} {t : Ty} {fs : Fields}
    {Xfid : Int} {Xftype : Nat} (hne : Xfid ≠ key) (g : (Fields.cons key t fs).Got)
    {g' : fs.Got} {bs : Bytes} {ls : List Bool}
    (h : Scans mem buf (fs.case_from_buffer mem buf (mem.length - buf) Xfid Xftype g.2)
      bs g' ls) :
    Scans mem buf ((Fields.cons key t fs).case_from_buffer mem buf (mem.length - buf)
      Xfid Xftype g) bs (g.1, g') ls := by
  unfold Fields.case_from_buffer
  rw [if_neg hne]
  exact h.map fun rest => (g.1, rest)

/-- The case of a key that the definition does not have. -/
theorem scans_default {mem : Bytes} {buf : Nat} (fs : Fields) {Xfid : Int} {Xftype : Nat}
    (hkey : Xfid ∉ fs.keys) (g : fs.Got) {bs : Bytes} {ls : List Bool}
    (h : Scans mem buf (skipUnknown mem buf (mem.length - buf) Xftype) bs () ls) :
    Scans mem buf (fs.case_from_buffer mem buf (mem.length - buf) Xfid Xftype g) bs g ls := by
  match fs with
  | .nil => exact h.map fun _ => g
  | .cons key t fs =>
      have hkey := List.mem_cons.not.mp hkey
      have hrest := scans_default fs (fun hmem => hkey (.inr hmem)) g.2 h
      exact scans_next (fun heq => hkey (.inl heq)) g hrest

section Read

variable {mem : Bytes} (hmem : mem.length < 2 ^ 32)

include hmem

mutual

/-- A reader of an older or a newer version reads what was written, by
induction on how the two are related. -/
theorem Ty.Sub.scans : {r w : Ty} → (e : Ty.Sub r w) → (v : w.Val) → w.Distinct →
    w.KeysFit → w.Legal v → e.Skips v → (buf : Nat) →
    Scans mem buf (r.deserialize_field_from_buffer mem buf (mem.length - buf))
      (w.tree v).out.bytes (e.got v) (e.lists v)
  | _, _, .base b, v, _, _, hlegal, _, buf => by
      have h := b.scans mem buf v hlegal
      rw [← out_leafAt v.1 v.2] at h
      exact h
  | _, _, .enum _, v, _, _, _, _, buf => scans_i32 mem buf v
  | _, _, .struct _ es, r, hdistinct, hkeys, hlegal, hskips, buf =>
      scans_call hmem fun buf => es.scans r hdistinct hkeys hlegal hskips buf
        _ id fun _ _ _ _ _ _ _ h => h
  | _, _, .list (w := w) e, vs, hdistinct, hkeys, hlegal, hskips, buf => by
      intro off rest st more hle h hlt hzero
      have hok : (Tree.list w.type_to_enum (elems w.tree vs)).out.ok = true :=
        (Ty.list w).ok_of_legal vs hlegal
      obtain ⟨hes, hbytes⟩ := Tree.list_out hok
      have hn : List.length vs ≤ _ := (elems w.tree vs).least_le hes
      have hlt' := hlt
      change off + (Tree.list w.type_to_enum (elems w.tree vs)).out.bytes.length < _
        at hlt'
      rw [hbytes] at hlt'
      simp only [List.length_append, length_be] at hlt'
      have hsize := toNat_ofNat_of_lt (n := List.length vs) (by omega)
      have htimes := scans_times (fun v hv => e.scans v hdistinct hkeys (hlegal v hv)
        (hskips v hv) buf) hes hsize
      have hscan := (scans_byte mem buf (BitVec.ofNat 8 w.type_to_enum.code)).bind
        (f := fun _ => do
          let size ← deserialize_i32_from_buffer mem buf (mem.length - buf)
          Scan.times _ size.toNat)
        ((scans_i32 mem buf (BitVec.ofNat 32 (List.length vs))).bind htimes)
      rw [code_toNat, ← List.append_assoc, ← hbytes] at hscan
      exact hscan off rest st more hle h hlt hzero

/-- The loop over the fields, for a `switch` that has these fields among its
own. -/
theorem Fields.Sub.scans : {rs ws : Fields} → (es : Fields.Sub rs ws) → (r : ws.Rec) →
    ws.Distinct → ws.KeysFit → ws.Legal r → es.Skips r → (buf : Nat) →
    {γ : Type} → (fields : Int → Nat → γ → Scan γ) → (plug : rs.Got → γ) →
    (∀ Xfid ∈ ws.keys, ∀ Xftype g bs g' ls,
      Scans mem buf (rs.case_from_buffer mem buf (mem.length - buf) Xfid Xftype g) bs g' ls →
      Scans mem buf (fields Xfid Xftype (plug g)) bs (plug g') ls) →
    Scans mem buf (Scan.loop (readField mem buf (mem.length - buf) fields)
        (plug rs.os_zalloc))
      (ws.tree r).out.bytes (plug (es.got r)) (es.lists r)
  | _, _, .nil, r, _, _, _, _, buf, _, fields, plug, _ =>
      (scans_stop fields (plug ())).leave
  | _, _, .keep (r := rt) (w := wt) key e es, r, hdistinct, hkeys, hlegal, hskips,
      buf, γ, fields, plug, hplug => by
      obtain ⟨hkey, hdt, hds⟩ := hdistinct
      obtain ⟨hfits, hkt, hks⟩ := hkeys
      obtain ⟨-, -, hbytes⟩ := Tree.field_out ((Fields.cons key wt _).ok_of_legal r hlegal)
      have hvalue := e.scans r.1 hdt hkt hlegal.1 hskips.1 buf
      -- the case of the field itself, and of those behind it
      have hcase := hplug key List.mem_cons_self wt.type_to_enum.code
        (Fields.cons key rt _).os_zalloc _ (some (e.got r.1), Fields.os_zalloc _) _ (by
          unfold Fields.case_from_buffer
          rw [if_pos rfl, if_pos (congrArg TType.code e.type_eq.symm)]
          exact hvalue.map fun v => (some v, _))
      have hrest := es.scans r.2 hds hks hlegal.2 hskips.2 buf fields
        (fun g => plug (some (e.got r.1), g)) (by
          intro Xfid hXfid Xftype g bs g' ls h
          exact hplug Xfid (List.mem_cons_of_mem _ hXfid) Xftype _ bs _ ls
            (scans_next (ne_of_mem_of_not_mem hXfid hkey) (some (e.got r.1), g) h))
      have h := (scans_field wt.type_ne_stop hfits hcase).again hrest
      rw [List.append_assoc, ← hbytes] at h
      exact h
  | _, _, .drop key w es, r, hdistinct, hkeys, hlegal, hskips, buf, γ, fields, plug,
      hplug => by
      obtain ⟨hkey, hdt, hds⟩ := hdistinct
      obtain ⟨hfits, hkt, hks⟩ := hkeys
      obtain ⟨hok, -, hbytes⟩ := Tree.field_out ((Fields.cons key w _).ok_of_legal r hlegal)
      have hskip := scans_skip hmem buf (w.tree r.1) hok hskips.1
      have hcase := hplug key List.mem_cons_self w.type_to_enum.code (Fields.os_zalloc _)
        _ _ _ (scans_default _ (fun hmem => hkey (es.keys_subset key hmem)) _ hskip)
      have hrest := es.scans r.2 hds hks hlegal.2 hskips.2 buf fields plug
        fun Xfid hXfid => hplug Xfid (List.mem_cons_of_mem _ hXfid)
      have h := (scans_field w.type_ne_stop hfits hcase).again hrest
      rw [List.append_assoc, ← hbytes] at h
      exact h

end

end Read

end Sandesh.CGen
