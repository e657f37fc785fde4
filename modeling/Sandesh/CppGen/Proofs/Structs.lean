/-
Reading a struct from its text.

The reader goes from field to field, and what it has of the struct so far
are the fields before, as they were read, with those behind as they were at
the start. The loop is followed along the fields of the definition: `ctx`
puts what belongs to the fields that are still to come into the struct as a
whole.
-/
import Sandesh.CppGen.Proofs.ReadsAs

namespace Sandesh.CppGen

open Lib Xml Header TType
open Lib.Prog (Runs runs_pure)

variable {W : World} {F : Foreign} {junk : Bool}
  {less : (t : Ty) → t.Val F → t.Val F → Bool}

/-- The name of a tag is a plain name. -/
theorem plainName_of_isName {name : Bytes} (h : IsName name) : PlainName name := by
  refine ⟨isWord_of_isName h, not_mem_name h, ?_⟩
  intro hslash
  have hmem : kcXMLSlash ∈ name := hslash.subset List.mem_cons_self
  exact isNameChar_ne (h.2 _ hmem) (by decide) rfl

namespace Req

variable {α : Type}

/-- The value a field is read over. -/
theorem getD_unset (req : Req) (v : α) : (req.get (req.unset v)).getD v = v := by
  cases req <;> rfl

/-- A slot that was put is full. -/
theorem get_put (req : Req) (v : α) : req.get (req.put v) = some v := by
  cases req <;> rfl

/-- An empty slot is not that of a required field. -/
theorem ne_required {req : Req} {s : req.Slot α} (h : req.get s = none) : req ≠ .required := by
  intro heq
  subst heq
  cases h

end Req

/-- A member as it is read back. -/
def Field.ReadsAs (W : World) (junk : Bool) (less : (t : Ty) → t.Val F → t.Val F → Bool)
    (f : Field) (t : Ty) (s s' : f.req.Slot (t.Val F)) : Prop :=
  match f.req.get s with
  | none => s' = f.req.unset (t.zero F)
  | some v => ∃ v', s' = f.req.put v' ∧ t.ReadsAs W junk less v v'

/-- The fields are read as those of another structure. -/
def Fields.ReadsAs (W : World) (junk : Bool) (less : (t : Ty) → t.Val F → t.Val F → Bool) :
    (fs : Fields) → fs.Rec F → fs.Rec F → Prop
  | .nil, _, _ => True
  | .cons f t fs, r, r' => f.ReadsAs W junk less t r.1 r'.1 ∧ fs.ReadsAs W junk less r.2 r'.2

/-- `field` reads the fields of `fs` into the struct as a whole. -/
def Reaches (W : World) (junk : Bool) (less : (t : Ty) → t.Val F → t.Val F → Bool) {ρ : Type}
    (field : BitVec 16 → TType → ρ → Read (Int × List Int × ρ)) (fs : Fields)
    (ctx : fs.Rec F → ρ) : Prop :=
  ∀ ⦃fid : BitVec 16⦄ ⦃ftype : TType⦄ ⦃x y : fs.Rec F⦄ ⦃n : Int⦄ ⦃isset : List Int⦄
    ⦃r r' : LookaheadReader⦄, fid.toInt ∈ fs.keys →
    (fs.deserialize W Reads.code junk less fid ftype x).Runs r (.ok (n, isset, y)) r' →
    (field fid ftype (ctx x)).Runs r (.ok (n, isset, ctx y)) r'

section Turn

variable {f : Field} {t : Ty} {fs : Fields} {ρ : Type}
  {field : BitVec 16 → TType → ρ → Read (Int × List Int × ρ)}
  {ctx : (Fields.cons f t fs).Rec F → ρ}

/-- The field in front is left alone by the others. -/
theorem Reaches.tail (h : Reaches W junk less field (.cons f t fs) ctx) (hkey : f.key ∉ fs.keys)
    (s : f.req.Slot (t.Val F)) : Reaches W junk less field fs fun x => ctx (s, x) := by
  intro fid ftype x y n isset r r' hmem hruns
  have hne : ¬ fid.toInt = f.key := fun heq => hkey (heq ▸ hmem)
  refine h (List.mem_cons_of_mem _ hmem) ?_
  simp only [Fields.deserialize, if_neg hne]
  exact hruns.bind_ok (runs_pure.mpr ⟨rfl, rfl⟩)

variable (hW : Decimals W)

include hW

/-- A field in front is read into its place. -/
theorem readLoop_cons (hf : f.Sound W t.type_to_enum)
    (h : Reaches W junk less field (.cons f t fs) ctx) {v v' : t.Val F}
    (hv : t.ReadsAs W junk less v v') (x : fs.Rec F) (st : Reading ρ)
    (hvalue : st.value = ctx (f.req.unset (t.zero F), x)) {rest : Bytes} {r : LookaheadReader}
    (hr : Fresh (between f.name (attrText W t.type_to_enum (BitVec.ofInt 16 f.key)
      f.annotations) (t.text W v) ++ rest) r) :
    ∃ st₁ r₁, Fresh rest r₁ ∧ st₁.value = ctx (f.req.put v', x)
      ∧ st₁.isset = f.key :: st.isset
      ∧ ∀ {st' r'}, (readLoop W Reads.code field st₁).Runs r₁ (.ok st') r' →
        (readLoop W Reads.code field st).Runs r (.ok st') r' := by
  rw [between, List.append_assoc, List.append_assoc] at hr
  obtain ⟨ra, hbegin, hfresh⟩ := readFieldBegin_field hW.toDecimal hf.tag
    (plainName_of_isName hf.name) t.named hf.harmless hr st.fname st.ftype st.fid
  obtain ⟨⟨n, w⟩, rb, hread, hw, hready⟩ := hv (t.zero F) (.inl rfl) _
    (fun _ => tagged_closeTag f.name rest) ra hfresh.ready
  obtain rfl : w = v' := hw
  obtain ⟨rc, hend, hfresh'⟩ := runs_closeTag hf.name hready.near
  have hfieldEnd : (readFieldEnd Reads.code).Runs rb (.ok ((closeTag f.name).length : Int)) rc :=
    hend.bind_ok (runs_pure.mpr ⟨rfl, rfl⟩)
  have hfield : ((Fields.cons f t fs).deserialize W Reads.code junk less
      (BitVec.ofInt 16 f.key) t.type_to_enum (f.req.unset (t.zero F), x)).Runs ra
      (.ok (n, [f.key], (f.req.put w, x))) rb := by
    simp only [Fields.deserialize, if_pos hf.key, if_pos, Req.getD_unset]
    exact hread.bind_ok (runs_pure.mpr ⟨rfl, rfl⟩)
  have hfield' := h (by rw [hf.key]; exact List.mem_cons_self) hfield
  rw [← hvalue] at hfield'
  refine ⟨⟨st.xfer + (openTag f.name (attrText W t.type_to_enum (BitVec.ofInt 16 f.key)
      f.annotations)).length + n + (closeTag f.name).length, f.name, t.type_to_enum,
      BitVec.ofInt 16 f.key, f.key :: st.isset, ctx (f.req.put w, x)⟩, rc, hfresh', rfl, rfl,
    fun hnext => Runs.again (hbegin.bind_ok ?_) hnext⟩
  simp only [if_neg t.ne_stop]
  exact hfield'.bind_ok (hfieldEnd.bind_ok (runs_pure.mpr ⟨rfl, rfl⟩))

omit hW in
/-- The end tag of the struct ends the loop. -/
theorem readLoop_nil (field : BitVec 16 → TType → ρ → Read (Int × List Int × ρ))
    (st : Reading ρ) {rest : Bytes} {r : LookaheadReader}
    (hr : Fresh (kcXMLTagO :: kcXMLSlash :: rest) r) :
    ∃ st' r', (readLoop W Reads.code field st).Runs r (.ok st') r' ∧ st'.value = st.value
      ∧ st'.isset = st.isset ∧ Near (kcXMLTagO :: kcXMLSlash :: rest) r' := by
  obtain ⟨r', hbegin, hnear⟩ := readFieldBegin_slash (W := W) hr st.fname st.ftype st.fid
  refine ⟨⟨st.xfer + 0, st.fname, T_STOP, st.fid, st.isset, st.value⟩, r',
    Runs.leave (hbegin.bind_ok ?_), rfl, rfl, hnear⟩
  simp only [if_pos]
  exact runs_pure.mpr ⟨rfl, rfl⟩

end Turn

-- ========================================================= all of them

/-- All the fields, and every required one is among those read. -/
theorem readLoop_runs (hW : Decimals W) {ρ : Type}
    {field : BitVec 16 → TType → ρ → Read (Int × List Int × ρ)} :
    (fs : Fields) → fs.Sound W → (x x' : fs.Rec F) → fs.ReadsAs W junk less x x' →
    (ctx : fs.Rec F → ρ) → Reaches W junk less field fs ctx → (st : Reading ρ) →
    st.value = ctx (fs.zero F) → {rest : Bytes} → {r : LookaheadReader} →
    Fresh (fs.text W x ++ kcXMLTagO :: kcXMLSlash :: rest) r →
    ∃ st' r', (readLoop W Reads.code field st).Runs r (.ok st') r' ∧ st'.value = ctx x'
      ∧ (∀ key, key ∈ fs.required ∨ key ∈ st.isset → key ∈ st'.isset)
      ∧ Near (kcXMLTagO :: kcXMLSlash :: rest) r'
  | .nil, _, _, _, _, ctx, _, st, hvalue, rest, r, hr => by
      obtain ⟨st', r', hruns, hvalue', hisset, hnear⟩ := readLoop_nil field st hr
      refine ⟨st', r', hruns, hvalue'.trans hvalue, ?_, hnear⟩
      intro key hkey
      rcases hkey with hkey | hkey
      · cases hkey
      · rwa [hisset]
  | .cons f t fs, hsound, x, x', hreads, ctx, hctx, st, hvalue, rest, r, hr => by
      obtain ⟨hf, hkey, -, hfs⟩ := hsound
      obtain ⟨hslot, hreads⟩ := hreads
      unfold Field.ReadsAs at hslot
      rw [Fields.text] at hr
      cases hget : f.req.get x.1 with
      | none =>
          rw [hget] at hslot hr
          simp only at hslot
          have hctx' := hctx.tail hkey x'.1
          have hvalue' : st.value = ctx (x'.1, fs.zero F) := by
            rw [hvalue, hslot]
            rfl
          obtain ⟨st', r', hruns, hvalue', hisset, hnear⟩ := readLoop_runs hW fs hfs x.2 x'.2
            hreads _ hctx' st hvalue' hr
          refine ⟨st', r', hruns, hvalue', ?_, hnear⟩
          rw [Fields.required, if_neg (Req.ne_required hget)]
          exact hisset
      | some v =>
          rw [hget] at hslot hr
          obtain ⟨v', hput, hv⟩ := hslot
          simp only [List.append_assoc] at hr
          obtain ⟨st₁, r₁, hfresh, hvalue₁, hisset₁, hnext⟩ := readLoop_cons hW hf hctx hv
            (fs.zero F) st hvalue hr
          have hctx' := hctx.tail hkey x'.1
          rw [← hput] at hvalue₁
          obtain ⟨st', r', hruns, hvalue', hisset, hnear⟩ := readLoop_runs hW fs hfs x.2 x'.2
            hreads _ hctx' st₁ hvalue₁ hfresh
          refine ⟨st', r', hnext hruns, hvalue', ?_, hnear⟩
          intro key hmem
          apply hisset
          rw [hisset₁]
          rw [Fields.required] at hmem
          rcases hmem with hmem | hmem
          · split at hmem
            · rcases List.mem_cons.mp hmem with rfl | hmem
              · exact .inr List.mem_cons_self
              · exact .inl hmem
            · exact .inl hmem
          · exact .inr (List.mem_cons_of_mem _ hmem)

/-- How a closing tag begins. -/
theorem closeTag_eq (name rest : Bytes) : closeTag name ++ rest
    = kcXMLTagO :: kcXMLSlash :: (name ++ lit ">" ++ rest) := by
  simp only [closeTag, List.append_assoc]
  rfl

/-- A struct is read field by field. -/
theorem readsAs_struct (hW : Decimals W) {name : Bytes} {fs : Fields}
    (hsound : (Ty.struct name fs).Sound W) {x x' : fs.Rec F}
    (h : fs.ReadsAs W junk less x x') : (Ty.struct name fs).ReadsAs W junk less x x' := by
  intro u hu rest _ r hr
  obtain ⟨hname, hfs⟩ := hsound
  have hzero : u = fs.zero F := by
    rcases hu with hu | hu
    · exact hu
    · exact hu
  have htext : (Ty.struct name fs).text W x ++ rest
      = openTag name [] ++ (fs.text W x ++ (closeTag name ++ rest)) := by
    show between name [] (fs.text W x) ++ rest = _
    rw [between, List.append_assoc, List.append_assoc]
  have hno : kcXMLTagC ∉ name ++ [] := by
    rw [List.append_nil]
    exact not_mem_name hname
  rw [htext] at hr
  obtain ⟨ra, hbegin, hfresh⟩ := runs_openTag hno hr.near
  rw [closeTag_eq] at hfresh
  have hctx : Reaches W junk less (fs.deserialize W Reads.code junk less) fs id :=
    fun _ _ _ _ _ _ _ _ _ hruns => hruns
  obtain ⟨st, rb, hloop, hvalue, hisset, hnear⟩ := readLoop_runs hW fs hfs x x' h id hctx
    ⟨(openTag name []).length, name ++ [], W.junk.ftype, W.junk.fid, [], u⟩ hzero hfresh
  rw [← closeTag_eq] at hnear
  obtain ⟨rc, hend, hfresh'⟩ := runs_closeTag hname hnear
  have hstructEnd : (readStructEnd Reads.code).Runs rb (.ok ((closeTag name).length : Int)) rc :=
    hend.bind_ok (runs_pure.mpr ⟨rfl, rfl⟩)
  have hall : fs.required.all (fun key => st.isset.contains key) = true := by
    rw [List.all_eq_true]
    intro key hkey
    exact List.contains_iff_mem.mpr (hisset key (.inl hkey))
  refine ⟨(st.xfer + (closeTag name).length, st.value), rc,
    hbegin.bind_ok (hloop.bind_ok (hstructEnd.bind_ok ?_)), hvalue, hfresh'.ready⟩
  rw [if_pos hall]
  exact runs_pure.mpr ⟨rfl, rfl⟩

end Sandesh.CppGen

/-
Values that come back: those in which no two base values stand side by side
without a tag between them (`Ty.Spaced`).

All values of a separable type are of this kind, and so is the value that a
variable of any type starts with.
-/

namespace Sandesh.CppGen

open Lib Xml Header

variable {W : World} {F : Foreign} {junk : Bool}
  {less : (t : Ty) → t.Val F → t.Val F → Bool}

mutual

/-- The elements of every container can be told apart. -/
def Ty.Spaced : (t : Ty) → t.Val F → Prop
  | .base _, _ => True
  | .enum, _ => True
  | .typedef t, v => t.Spaced v
  | .struct _ fs, r => fs.Spaced r
  | .list e, vs => (e.undelimited = false ∨ List.length vs ≤ 1) ∧ Every e.Spaced vs
  | .set e, vs => (e.undelimited = false ∨ List.length vs ≤ 1) ∧ Every e.Spaced vs
  | .map k v, es => ((k.undelimited = false ∨ v.undelimited = false) ∨ es = [])
      ∧ Every (fun e => k.Spaced e.1 ∧ v.Spaced e.2) es

/-- The same for every field that is there. -/
def Fields.Spaced : (fs : Fields) → fs.Rec F → Prop
  | .nil, _ => True
  | .cons f t fs, r => (∀ v, f.req.get r.1 = some v → t.Spaced v) ∧ fs.Spaced r.2

end

mutual

/-- The values of a separable type are spaced. -/
theorem Ty.spaced : (t : Ty) → t.Separable → (v : t.Val F) → t.Spaced v
  | .base _, _, _ => trivial
  | .enum, _, _ => trivial
  | .typedef t, h, v => t.spaced h v
  | .struct _ fs, h, r => fs.spaced h r
  | .list e, h, _ => ⟨.inl h.1, fun v _ => e.spaced h.2 v⟩
  | .set e, h, _ => ⟨.inl h.1, fun v _ => e.spaced h.2 v⟩
  | .map k v, h, _ => ⟨.inl h.1, fun e _ => ⟨k.spaced h.2.1 e.1, v.spaced h.2.2 e.2⟩⟩

/-- So are the fields. -/
theorem Fields.spaced : (fs : Fields) → fs.Separable → (r : fs.Rec F) → fs.Spaced r
  | .nil, _, _ => trivial
  | .cons _ t fs, h, r => ⟨fun v _ => t.spaced h.1 v, fs.spaced h.2 r.2⟩

end

/-- A field that is written from the start has the value it starts with. -/
theorem Req.get_unset {α : Type} {req : Req} {u v : α} (h : req.get (req.unset u) = some v) :
    v = u := by
  cases req with
  | optional => cases h
  | required => exact (Option.some.inj h).symm
  | optInReqOut => exact (Option.some.inj h).symm

/-- An empty slot, whatever it was made from. -/
theorem Req.eq_unset {α : Type} {req : Req} {s : req.Slot α} {u : α} (h : req.get s = none) :
    s = req.unset u := by
  cases req with
  | optional => exact h
  | required => cases h
  | optInReqOut => cases h

/-- A full slot is the one made from its value. -/
theorem Req.eq_put {α : Type} {req : Req} {s : req.Slot α} {v : α} (h : req.get s = some v) :
    s = req.put v := by
  cases req with
  | optional => exact h
  | required => exact Option.some.inj h
  | optInReqOut => exact Option.some.inj h

mutual

/-- The value of the constructor is spaced. -/
theorem Ty.zero_spaced : (t : Ty) → t.Spaced (t.zero F)
  | .base _ => trivial
  | .enum => trivial
  | .typedef t => t.zero_spaced
  | .struct _ fs => fs.zero_spaced
  | .list _ => ⟨.inr (Nat.zero_le 1), nofun⟩
  | .set _ => ⟨.inr (Nat.zero_le 1), nofun⟩
  | .map _ _ => ⟨.inr rfl, nofun⟩

/-- So is that of the fields. -/
theorem Fields.zero_spaced : (fs : Fields) → fs.Spaced (fs.zero F)
  | .nil => trivial
  | .cons _ t fs => ⟨fun _ hv => Req.get_unset hv ▸ t.zero_spaced, fs.zero_spaced⟩

end

/-- The zero of a base type is legal. -/
theorem Base.zero_legal (b : Base) : b.Legal (b.zero F) := by
  cases b <;> first | trivial | exact nofun

mutual

/-- The value of the constructor is legal. -/
theorem Ty.zero_legal : (t : Ty) → t.Legal less (t.zero F)
  | .base b => b.zero_legal
  | .enum => trivial
  | .typedef t => t.zero_legal
  | .struct _ fs => fs.zero_legal
  | .list _ => ⟨Nat.two_pow_pos 32, nofun⟩
  | .set _ => ⟨Nat.two_pow_pos 32, .nil, nofun⟩
  | .map _ _ => ⟨Nat.two_pow_pos 32, .nil, nofun⟩

/-- So is that of the fields. -/
theorem Fields.zero_legal : (fs : Fields) → fs.Legal less (fs.zero F)
  | .nil => trivial
  | .cons _ t fs => ⟨fun _ hv => Req.get_unset hv ▸ t.zero_legal, fs.zero_legal⟩

end

/-- A base value, up to the tag behind it. -/
theorem Ty.readsAs_bare (hW : Decimals W) (t : Ty) (ht : t.trueBaseOrEnum = true)
    (hplain : t.Plain) (v : t.Val F) (hv : t.Legal less v) : t.ReadsAs W junk less v v := by
  intro u _ rest hrest
  obtain ⟨tail, rfl⟩ := hrest ht
  have hback := t.back_text hW ht hplain u v hv
  have hreadable := t.text_readable hW ht hplain v hv
  exact (t.takes_bare ht hplain u hreadable tail).imp fun _ hx => hx.trans hback

mutual

/-- A value is read back as itself, by induction on its type. -/
theorem Ty.reads_back (hW : Decimals W) : (t : Ty) → t.Plain → t.Sound W → (v : t.Val F) → t.Legal less v →
    t.Spaced v → t.ReadsAs W junk less v v
  | .base b, hplain, _, v, hv, _ => (Ty.base b).readsAs_bare hW rfl hplain v hv
  | .enum, hplain, _, v, hv, _ => Ty.enum.readsAs_bare hW rfl hplain v hv
  | .typedef t, hplain, hsound, v, hv, hs => t.reads_back hW hplain hsound v hv hs
  | .struct _ fs, hplain, hsound, r, hr, hs =>
      readsAs_struct hW hsound (fs.reads_back hW hplain hsound.2 r hr hs)
  | .list e, hplain, hsound, vs, hv, hs => by
      refine readsAs_list hW (List.forall₂_same.mpr fun v hmem => ?_) hs.1 hv.1
      exact e.reads_back hW hplain hsound v (hv.2 v hmem) (hs.2 v hmem)
  | .set e, hplain, hsound, vs, hv, hs => by
      refine readsAs_set hW (List.forall₂_same.mpr fun v hmem => ?_) hs.1 hv.1 hv.2.1
      exact e.reads_back hW hplain hsound v (hv.2.2 v hmem) (hs.2 v hmem)
  | .map k v, hplain, hsound, es, hv, hs => by
      refine readsAs_map hW (List.forall₂_same.mpr fun e hmem => ?_) hs.1 hv.1 hv.2.1
      obtain ⟨hk, hv⟩ := hv.2.2 e hmem
      obtain ⟨hks, hvs⟩ := hs.2 e hmem
      exact ⟨k.reads_back hW hplain.1 hsound.1 e.1 hk hks,
        v.reads_back hW hplain.2 hsound.2 e.2 hv hvs⟩

/-- So are the fields. -/
theorem Fields.reads_back (hW : Decimals W) : (fs : Fields) → fs.Plain → fs.Sound W → (r : fs.Rec F) →
    fs.Legal less r → fs.Spaced r → fs.ReadsAs W junk less r r
  | .nil, _, _, _, _, _ => trivial
  | .cons f t fs, hplain, hsound, r, hr, hs => by
      refine ⟨?_, fs.reads_back hW hplain.2 hsound.2.2.2 r.2 hr.2 hs.2⟩
      unfold Field.ReadsAs
      cases hget : f.req.get r.1 with
      | none => exact Req.eq_unset hget
      | some v =>
          refine ⟨v, Req.eq_put hget, ?_⟩
          exact t.reads_back hW hplain.1 hsound.2.2.1 v (hr.1 v hget) (hs.1 v hget)

end

end Sandesh.CppGen
