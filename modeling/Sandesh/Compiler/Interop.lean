/-
Two nodes whose types have the same fingerprint.

They may differ in all that a fingerprint leaves out: names, annotations,
the order of the fields, and whether a field that is not optional is
required. Typedefs are left out too, but they do show on the wire, where an
element that is declared by a typedef of a base type has no tags around it;
and the elements of a set and the keys of a map are put in the order of their
type, which for a struct is that of its fields. So `Alike` asks that typedefs
stand at the same places, and that sets and maps are over the same types.

Then what a reader of the writer's own version reads, the other reads too
(`meant_same`); it skips nothing, and nothing that it requires is missing
(`adoptable_same`). And nothing is lost: what it has read it can send back
(`meant_back`), and that is then the value that was sent (`adopt_back`).
Each is an induction over the writer's type, in which the fields of a struct
are looked up by what their shapes say of them (`known_of_mem`).
-/
import Sandesh.Compiler.Members
import Sandesh.CppGen.Proofs.Versions

namespace Sandesh.Compiler

open Lib Xml Header
open CppGen (Base Ty Fields Req Foreign Every Offer)

mutual

/-- The second type is written as the first is, but for the names and the
order of its fields. -/
def Alike : Ty → Ty → Prop
  | .base _, .base _ => True
  | .enum, .enum => True
  | .typedef t, .typedef u => Alike t u
  | .struct _ fs, .struct _ gs => AlikeFields fs gs
  | .list e, .list e' => Alike e e'
  | .set e, .set e' => e = e'
  | .map k v, .map k' v' => k = k' ∧ Alike v v'
  | _, _ => False

/-- Each field that the other structure knows is alike there. -/
def AlikeFields : Fields → Fields → Prop
  | .nil, _ => True
  | .cons f t fs, gs => (∀ u, gs.known f.key t.type_to_enum = some u → Alike t u)
      ∧ AlikeFields fs gs

end

variable {W : World} {F : Foreign} {junk : Bool} {less : (t : Ty) → t.Val F → t.Val F → Bool}

-- ============================================================ the shapes

/-- The keys of the fields are kept in the shapes. -/
theorem shapes_keys (fs : Fields) : (shapes fs).map (·.1) = fs.keys := by
  induction fs using Fields.induct with
  | nil => rfl
  | cons f t fs ih =>
      rw [shapes, List.map_cons, ih]
      rfl

/-- A shape comes from a field with that key. -/
theorem mem_keys {fs : Fields} {m : Int × Bool × Shape} (h : m ∈ shapes fs) : m.1 ∈ fs.keys := by
  rw [← shapes_keys]
  exact List.mem_map_of_mem h

/-- The list of shapes is in the material. -/
theorem ofList_inj {ms ms' : List (Int × Bool × Shape)}
    (h : Shapes.ofList ms = Shapes.ofList ms') : ms = ms' := by
  induction ms generalizing ms' with
  | nil =>
      cases ms' with
      | nil => rfl
      | cons m' ms' => cases h
  | cons m ms ih =>
      cases ms' with
      | nil => cases h
      | cons m' ms' =>
          obtain ⟨key, optional, s⟩ := m
          obtain ⟨key', optional', s'⟩ := m'
          obtain ⟨rfl, rfl, rfl, hrest⟩ := Shapes.cons.inj h
          rw [ih hrest]

/-- Structs of one shape have the same members. -/
theorem mem_shapes_iff {name name' : Bytes} {fs gs : Fields} (hfs : fs.keys.Nodup)
    (hgs : gs.keys.Nodup) (h : shape (.struct name fs) = shape (.struct name' gs))
    (m : Int × Bool × Shape) : m ∈ shapes fs ↔ m ∈ shapes gs := by
  rw [shape, shape] at h
  have horder := ofList_inj (Shape.struct.inj h)
  rw [← shapes_keys] at hfs hgs
  rw [← (inIdOrder_same hfs).2.mem_iff, horder, (inIdOrder_same hgs).2.mem_iff]

/-- A shape says which type is in the tag. -/
def Shape.type_to_enum : Shape → TType
  | .base b => b.type_to_enum
  | .enum => .T_I32
  | .struct _ => .T_STRUCT
  | .list _ => .T_LIST
  | .set _ => .T_SET
  | .map _ _ => .T_MAP

/-- The tag of a type is that of its shape. -/
theorem type_to_enum_shape (t : Ty) : (shape t).type_to_enum = t.type_to_enum := by
  cases t with
  | typedef t => exact type_to_enum_shape t
  | base b => rfl
  | enum => rfl
  | struct name fs => rfl
  | list e => rfl
  | set e => rfl
  | map k v => rfl

/-- Types of one shape have one tag. -/
theorem type_of_shape {t u : Ty} (h : shape t = shape u) : t.type_to_enum = u.type_to_enum := by
  rw [← type_to_enum_shape t, h, type_to_enum_shape u]

-- ================================================= what the fields know

/-- The first field answers to its own key and type. -/
theorem known_head (f : CppGen.Field) (t : Ty) (fs : Fields) :
    (Fields.cons f t fs).known f.key t.type_to_enum = some t := by
  rw [Fields.known, if_pos rfl, if_pos rfl]

/-- What the rest knows, the whole knows, with keys apart. -/
theorem known_tail {f : CppGen.Field} {t : Ty} {fs : Fields} (hkey : f.key ∉ fs.keys) {key : Int}
    {ftype : TType} {u : Ty} (h : fs.known key ftype = some u) :
    (Fields.cons f t fs).known key ftype = some u := by
  have hmem : key ∈ fs.keys := by
    by_contra hnot
    rw [fs.known_of_not_mem hnot] at h
    cases h
  rw [Fields.known, if_neg (ne_of_mem_of_not_mem hmem hkey), h]

/-- A member of the shape is a field that is known. -/
theorem known_of_mem {gs : Fields} (hgs : gs.keys.Nodup) {key : Int} {optional : Bool} {t : Ty}
    (h : (key, optional, shape t) ∈ shapes gs) :
    ∃ u, gs.known key t.type_to_enum = some u ∧ shape t = shape u := by
  induction gs using Fields.induct with
  | nil => cases h
  | cons g u gs ih =>
      obtain ⟨hkey, hgs⟩ := List.nodup_cons.mp hgs
      rw [shapes] at h
      rcases List.mem_cons.mp h with heq | hmem
      · obtain ⟨rfl, hrest⟩ := Prod.mk.inj heq
        have hshape : shape t = shape u := (Prod.mk.inj hrest).2
        refine ⟨u, ?_, hshape⟩
        rw [type_of_shape hshape]
        exact known_head g u gs
      · obtain ⟨u', hknown, hshape⟩ := ih hgs hmem
        exact ⟨u', known_tail hkey hknown, hshape⟩

-- ============================================ it is taken for what it is

mutual

/-- What a reader of the same version takes for what it is, the other does. -/
theorem meant_same : (t u : Ty) → t.Sound W → u.Sound W → shape t = shape u → Alike t u →
    (v : t.Val F) → t.Meant less t v → t.Meant less u v
  | .base b, u, _, _, h, ha, v, hv => by
      cases u with
      | base b' =>
          obtain rfl : b = b' := Shape.base.inj h
          exact hv
      | _ => exact absurd ha id
  | .enum, u, _, _, _, ha, _, _ => by
      cases u with
      | enum => trivial
      | _ => exact absurd ha id
  | .typedef t, u, ht, hu, h, ha, v, hv => by
      cases u with
      | typedef u => exact meant_same t u ht hu h ha v hv
      | _ => exact absurd ha id
  | .struct name fs, u, ht, hu, h, ha, x, hx => by
      cases u with
      | struct name' gs =>
          have hmem := mem_shapes_iff (fs.nodup_keys ht.2) (gs.nodup_keys hu.2) h
          exact meant_same_fields fs gs ht.2 hu.2 (fun m => (hmem m).mp) ha fs
            (fun _ _ _ hknown => hknown) x hx
      | _ => exact absurd ha id
  | .list e, u, ht, hu, h, ha, vs, hvs => by
      cases u with
      | list e' =>
          exact ⟨hvs.1, hvs.2.1, fun v hv =>
            meant_same e e' ht hu (Shape.list.inj h) ha v (hvs.2.2 v hv)⟩
      | _ => exact absurd ha id
  | .set e, u, _, _, _, ha, vs, hvs => by
      cases u with
      | set e' =>
          obtain rfl : e = e' := ha
          exact hvs
      | _ => exact absurd ha id
  | .map k v, u, ht, hu, h, ha, es, hes => by
      cases u with
      | map k' v' =>
          obtain ⟨rfl, ha⟩ : k = k' ∧ Alike v v' := ha
          exact ⟨hes.1, hes.2.1, fun e he => ⟨(hes.2.2.1 e he).1,
            meant_same v v' ht.2 hu.2 (Shape.map.inj h).2 ha e.2 (hes.2.2.1 e he).2⟩, hes.2.2.2⟩
      | _ => exact absurd ha id

/-- The record's fields meant for a reader of the same shapes. -/
theorem meant_same_fields : (fs gs : Fields) → fs.Sound W → gs.Sound W →
    (∀ m ∈ shapes fs, m ∈ shapes gs) → AlikeFields fs gs → (hs : Fields) →
    (∀ key ftype u, fs.known key ftype = some u → hs.known key ftype = some u) →
    (x : fs.Rec F) → fs.Meant less hs x → fs.Meant less gs x
  | .nil, _, _, _, _, _, _, _, _, _ => trivial
  | .cons f t fs, gs, hfs, hgs, hmem, ha, hs, hknown, x, hx => by
      obtain ⟨u, hu, hshape⟩ := known_of_mem (gs.nodup_keys hgs) (hmem _ List.mem_cons_self)
      refine ⟨fun v hget => ⟨fun hnone => ?_, fun u' hu' => ?_⟩, ?_⟩
      · rw [hu] at hnone
        cases hnone
      · obtain rfl : u = u' := Option.some.inj (hu.symm.trans hu')
        exact meant_same t u hfs.2.2.1 (gs.sound_of_known hgs hu) hshape (ha.1 u hu) v
          ((hx.1 v hget).2 t (hknown _ _ t (known_head f t fs)))
      · exact meant_same_fields fs gs hfs.2.2.2 hgs
          (fun m hm => hmem m (List.mem_cons_of_mem _ hm)) ha.2 hs
          (fun key ftype u h => hknown key ftype u (known_tail hfs.2.1 h)) x.2 hx.2

end

-- ============================================== nothing stands in the way

/-- A field that is not optional is written. -/
theorem get_some {req : Req} {α : Type} (h : req ≠ .optional) (s : req.Slot α) :
    ∃ v, req.get s = some v := by
  cases hget : req.get s with
  | none =>
      cases req with
      | optional => exact absurd rfl h
      | required => cases hget
      | optInReqOut => cases hget
  | some v => exact ⟨v, rfl⟩

/-- A field that is not optional is on offer. -/
theorem offer_of_mem {fs : Fields} (hfs : fs.keys.Nodup) {key : Int} {u : Ty}
    (h : (key, false, shape u) ∈ shapes fs) (x : fs.Rec F) :
    (fs.offer less x key u).isSome = true := by
  induction fs using Fields.induct with
  | nil => cases h
  | cons f t fs ih =>
      obtain ⟨hkey, hfs⟩ := List.nodup_cons.mp hfs
      rw [shapes] at h
      rw [Fields.offer]
      rcases List.mem_cons.mp h with heq | hmem
      · obtain ⟨rfl, hrest⟩ := Prod.mk.inj heq
        obtain ⟨hopt, hshape⟩ := Prod.mk.inj hrest
        rw [if_pos rfl, if_pos (type_of_shape hshape.symm)]
        obtain ⟨v, hget⟩ := get_some (of_decide_eq_false hopt.symm) x.1
        rw [hget]
        rfl
      · rw [if_neg (ne_of_mem_of_not_mem (mem_keys hmem) hkey).symm]
        exact ih hfs hmem x.2

/-- Every required field of the reader is supplied. -/
theorem supplied_same {fs gs : Fields} (hfs : fs.keys.Nodup)
    (hmem : ∀ m ∈ shapes gs, m ∈ shapes fs) (x : fs.Rec F) :
    gs.Supplied (fs.offer less x) := by
  induction gs using Fields.induct with
  | nil => trivial
  | cons g u gs ih =>
      refine ⟨fun hreq => ?_, ih fun m hm => hmem m (List.mem_cons_of_mem _ hm)⟩
      have hopt : decide (g.req = .optional) = false := by
        rw [hreq]
        rfl
      have hhead := hmem _ (List.mem_cons_self (l := shapes gs))
      rw [hopt] at hhead
      exact offer_of_mem hfs hhead x

mutual

/-- A type is read as itself, wherever it stands. -/
theorem adoptable_self : (t : Ty) → t.Sound W → (v : t.Val F) → t.Adoptable less W t v
  | .base _, _, _ => trivial
  | .enum, _, _ => trivial
  | .typedef t, ht, v => adoptable_self t ht v
  | .struct _ fs, ht, x => ⟨adoptable_self_fields fs ht.2 fs (fun _ _ _ hknown => hknown) x,
      supplied_same (fs.nodup_keys ht.2) (fun _ hm => hm) x⟩
  | .list e, ht, _ => fun v _ => adoptable_self e ht v
  | .set e, ht, _ => fun v _ => adoptable_self e ht v
  | .map k v, ht, _ => fun e _ => ⟨adoptable_self k ht.1 e.1, adoptable_self v ht.2 e.2⟩

/-- A record can be adopted by its own type. -/
theorem adoptable_self_fields : (fs : Fields) → fs.Sound W → (hs : Fields) →
    (∀ key ftype u, fs.known key ftype = some u → hs.known key ftype = some u) →
    (x : fs.Rec F) → fs.Adoptable less W hs x
  | .nil, _, _, _, _ => trivial
  | .cons f t fs, hfs, hs, hknown, x => by
      have hhead := hknown _ _ t (known_head f t fs)
      refine ⟨fun v _ => ⟨fun hnone => ?_, fun u hu => ?_⟩, ?_⟩
      · rw [hhead] at hnone
        cases hnone
      · obtain rfl : t = u := Option.some.inj (hhead.symm.trans hu)
        exact adoptable_self t hfs.2.2.1 v
      · exact adoptable_self_fields fs hfs.2.2.2 hs
          (fun key ftype u h => hknown key ftype u (known_tail hfs.2.1 h)) x.2

end

mutual

/-- A value can be adopted by a type of the same shape. -/
theorem adoptable_same : (t u : Ty) → t.Sound W → u.Sound W → shape t = shape u → Alike t u →
    (v : t.Val F) → t.Adoptable less W u v
  | .base b, u, _, _, _, ha, v => by
      cases u with
      | base b' => trivial
      | _ => exact absurd ha id
  | .enum, u, _, _, _, ha, _ => by
      cases u with
      | enum => trivial
      | _ => exact absurd ha id
  | .typedef t, u, ht, hu, h, ha, v => by
      cases u with
      | typedef u => exact adoptable_same t u ht hu h ha v
      | _ => exact absurd ha id
  | .struct name fs, u, ht, hu, h, ha, x => by
      cases u with
      | struct name' gs =>
          have hmem := mem_shapes_iff (fs.nodup_keys ht.2) (gs.nodup_keys hu.2) h
          exact ⟨adoptable_same_fields fs gs ht.2 hu.2 (fun m => (hmem m).mp) ha x,
            supplied_same (fs.nodup_keys ht.2) (fun m => (hmem m).mpr) x⟩
      | _ => exact absurd ha id
  | .list e, u, ht, hu, h, ha, vs => by
      cases u with
      | list e' => exact fun v _ => adoptable_same e e' ht hu (Shape.list.inj h) ha v
      | _ => exact absurd ha id
  | .set e, u, ht, _, _, ha, vs => by
      cases u with
      | set e' =>
          obtain rfl : e = e' := ha
          exact fun v _ => adoptable_self e ht v
      | _ => exact absurd ha id
  | .map k v, u, ht, hu, h, ha, es => by
      cases u with
      | map k' v' =>
          obtain ⟨rfl, ha⟩ : k = k' ∧ Alike v v' := ha
          exact fun e _ => ⟨adoptable_self k ht.1 e.1,
            adoptable_same v v' ht.2 hu.2 (Shape.map.inj h).2 ha e.2⟩
      | _ => exact absurd ha id

/-- The same for records. -/
theorem adoptable_same_fields : (fs gs : Fields) → fs.Sound W → gs.Sound W →
    (∀ m ∈ shapes fs, m ∈ shapes gs) → AlikeFields fs gs → (x : fs.Rec F) →
    fs.Adoptable less W gs x
  | .nil, _, _, _, _, _, _ => trivial
  | .cons f t fs, gs, hfs, hgs, hmem, ha, x => by
      obtain ⟨u, hu, hshape⟩ := known_of_mem (gs.nodup_keys hgs) (hmem _ List.mem_cons_self)
      refine ⟨fun v _ => ⟨fun hnone => ?_, fun u' hu' => ?_⟩, ?_⟩
      · rw [hu] at hnone
        cases hnone
      · obtain rfl : u = u' := Option.some.inj (hu.symm.trans hu')
        exact adoptable_same t u hfs.2.2.1 (gs.sound_of_known hgs hu) hshape (ha.1 u hu) v
      · exact adoptable_same_fields fs gs hfs.2.2.2 hgs
          (fun m hm => hmem m (List.mem_cons_of_mem _ hm)) ha.2 x.2

end

-- ====================================================== nothing is lost

/-- What a struct is put together from, it offers again. -/
theorem offer_collect {gs : Fields} (hgs : gs.keys.Nodup) {key : Int} {optional : Bool}
    {t u : Ty} (hmem : (key, optional, shape t) ∈ shapes gs)
    (hu : gs.known key t.type_to_enum = some u) (o : Offer (Ty.Val F))
    (hsome : optional = false → (o key u).isSome = true) :
    gs.offer less (gs.collect o) key t = (o key u).map (u.adopt less t) := by
  induction gs using Fields.induct with
  | nil => cases hu
  | cons g w gs ih =>
      obtain ⟨hkey, hgs⟩ := List.nodup_cons.mp hgs
      rw [shapes] at hmem
      rw [Fields.known] at hu
      rw [Fields.offer]
      rcases List.mem_cons.mp hmem with heq | hmem
      · obtain ⟨rfl, hrest⟩ := Prod.mk.inj heq
        obtain ⟨hopt, hshape⟩ := Prod.mk.inj hrest
        have htype := type_of_shape hshape
        rw [if_pos rfl, if_pos htype] at hu
        obtain rfl : w = u := Option.some.inj hu
        rw [if_pos rfl, if_pos htype.symm]
        cases hoffer : o g.key w with
        | some v =>
            have hslot : ((Fields.cons g w gs).collect o).1 = g.req.put v := by
              rw [Fields.collect, hoffer]
            rw [hslot, CppGen.Req.get_put]
        | none =>
            -- it is not there, so the field is optional
            have hoptional : g.req = .optional := by
              by_contra hne
              have hnone := hsome (hopt.trans (decide_eq_false hne))
              rw [hoffer] at hnone
              cases hnone
            have hslot : ((Fields.cons g w gs).collect o).1 = g.req.unset (w.zero F) := by
              rw [Fields.collect, hoffer]
            rw [hslot, hoptional]
            rfl
      · have hne : key ≠ g.key := ne_of_mem_of_not_mem (mem_keys hmem) hkey
        rw [if_neg hne] at hu
        rw [if_neg hne.symm]
        exact ih hgs hmem hu

/-- A map to a map with the same keys. -/
theorem adopt_map {k v v' : Ty} (hk : k.Sound W) {es : List (k.Val F × v.Val F)}
    (hkeys : ∀ e ∈ es, k.Ordered less e.1)
    (hes : es.Pairwise fun a b => less k a.1 b.1 = true) :
    (Ty.map k v).adopt less (.map k v') es = es.map fun e => (e.1, v.adopt less v' e.2) := by
  have hmap : es.map (fun e => (k.adopt less k e.1, v.adopt less v' e.2))
      = es.map fun e => (e.1, v.adopt less v' e.2) :=
    List.map_congr_left fun e he => by rw [k.adopt_self hk e.1 (hkeys e he)]
  have hfold : (es.map fun e => (e.1, v.adopt less v' e.2)).foldl
        (fun m e => Sorted.assign (less k) e.1 e.2 m) []
      = es.map fun e => (e.1, v.adopt less v' e.2) :=
    Sorted.foldl_assign (m := []) (List.pairwise_map.mpr hes)
  rw [← hmap, List.foldl_map] at hfold
  exact hfold.trans hmap

/-- Elements that come back make a list that comes back. -/
theorem map_back {α β : Type} {f : α → β} {g : β → α} {l : List α}
    (h : ∀ a ∈ l, g (f a) = a) : (l.map f).map g = l := by
  rw [List.map_map]
  exact (List.map_congr_left h).trans (List.map_id' l)

/-- A map whose values come back comes back. -/
theorem adopt_back_map {k v v' : Ty} (hk : k.Sound W) {es : List (k.Val F × v.Val F)}
    (hes : (Ty.map k v).Ordered less es)
    (hback : ∀ e ∈ es, v'.adopt less v (v.adopt less v' e.2) = e.2) :
    (Ty.map k v').adopt less (.map k v) ((Ty.map k v).adopt less (.map k v') es) = es := by
  obtain ⟨hsorted, hordered⟩ := hes
  have hkeys : ∀ e ∈ es, k.Ordered less e.1 := fun e he => (hordered e he).1
  have hkeys' : ∀ e ∈ es.map fun e => (e.1, v.adopt less v' e.2), k.Ordered less e.1 :=
    List.forall_mem_map.mpr hkeys
  have hsorted' : (es.map fun e => (e.1, v.adopt less v' e.2)).Pairwise
      fun a b => less k a.1 b.1 = true := List.pairwise_map.mpr hsorted
  rw [adopt_map hk hkeys hsorted]
  exact (adopt_map hk hkeys' hsorted').trans
    (map_back fun e he => congrArg (e.1, ·) (hback e he))

mutual

/-- What a reader of one makes of a value, a reader of the other makes that
value of. -/
theorem adopt_back : (t u : Ty) → t.Sound W → u.Sound W → shape t = shape u → Alike t u →
    (v : t.Val F) → t.Ordered less v → u.adopt less t (t.adopt less u v) = v
  | .base b, u, _, _, h, ha, v, _ => by
      cases u with
      | base b' =>
          obtain rfl : b = b' := Shape.base.inj h
          have hself : Ty.adopt less (.base b) (.base b) v = v := dif_pos rfl
          rw [hself, hself]
      | _ => exact absurd ha id
  | .enum, u, _, _, _, ha, _, _ => by
      cases u with
      | enum => rfl
      | _ => exact absurd ha id
  | .typedef t, u, ht, hu, h, ha, v, hv => by
      cases u with
      | typedef u => exact adopt_back t u ht hu h ha v hv
      | _ => exact absurd ha id
  | .struct name fs, u, ht, hu, h, ha, x, hx => by
      cases u with
      | struct name' gs =>
          have hmem := mem_shapes_iff (fs.nodup_keys ht.2) (gs.nodup_keys hu.2) h
          exact adopt_back_fields fs gs ht.2 hu.2 (fun m => (hmem m).mp) ha x hx
            (fs.offer less x) fun _ _ _ => rfl
      | _ => exact absurd ha id
  | .list e, u, ht, hu, h, ha, vs, hvs => by
      cases u with
      | list e' =>
          exact map_back fun v hv =>
            adopt_back e e' ht hu (Shape.list.inj h) ha v (hvs v hv)
      | _ => exact absurd ha id
  | .set e, u, ht, _, _, ha, vs, hvs => by
      cases u with
      | set e' =>
          obtain rfl : e = e' := ha
          have hself : (Ty.set e).adopt less (.set e) vs = vs := (Ty.set e).adopt_self ht vs hvs
          rw [hself, hself]
      | _ => exact absurd ha id
  | .map k v, u, ht, hu, h, ha, es, hes => by
      cases u with
      | map k' v' =>
          obtain ⟨rfl, ha⟩ : k = k' ∧ Alike v v' := ha
          exact adopt_back_map ht.1 hes fun e he =>
            adopt_back v v' ht.2 hu.2 (Shape.map.inj h).2 ha e.2 (hes.2 e he).2
      | _ => exact absurd ha id

/-- A record adopted by the other side and adopted back is the one it was.
-/
theorem adopt_back_fields : (fs gs : Fields) → fs.Sound W → gs.Sound W →
    (∀ m ∈ shapes fs, m ∈ shapes gs) → AlikeFields fs gs → (x : fs.Rec F) → fs.Ordered less x →
    (o : Offer (Ty.Val F)) → (∀ key ∈ fs.keys, ∀ u, o key u = fs.offer less x key u) →
    fs.collect (gs.offer less (gs.collect o)) = x
  | .nil, _, _, _, _, _, _, _, _, _ => rfl
  | .cons f t fs, gs, hfs, hgs, hmem, ha, x, hx, o, ho => by
      have hhead := hmem _ List.mem_cons_self
      obtain ⟨u, hu, hshape⟩ := known_of_mem (gs.nodup_keys hgs) hhead
      have hoffered : o f.key u = (f.req.get x.1).map (t.adopt less u) := by
        rw [ho f.key List.mem_cons_self u, Fields.offer, if_pos rfl,
          if_pos (type_of_shape hshape)]
      have hsome : decide (f.req = .optional) = false → (o f.key u).isSome = true := by
        intro hopt
        obtain ⟨v, hget⟩ := get_some (of_decide_eq_false hopt) x.1
        rw [hoffered, hget]
        rfl
      have hback : gs.offer less (gs.collect o) f.key t = f.req.get x.1 := by
        rw [offer_collect (gs.nodup_keys hgs) hhead hu o hsome, hoffered, Option.map_map]
        cases hget : f.req.get x.1 with
        | none => rfl
        | some v =>
            exact congrArg some (adopt_back t u hfs.2.2.1 (gs.sound_of_known hgs hu) hshape
              (ha.1 u hu) v (hx.1 v hget))
      have htail : fs.collect (gs.offer less (gs.collect o)) = x.2 := by
        refine adopt_back_fields fs gs hfs.2.2.2 hgs
          (fun m hm => hmem m (List.mem_cons_of_mem _ hm)) ha.2 x.2 hx.2 o fun key hkey u => ?_
        rw [ho key (List.mem_cons_of_mem _ hkey) u, Fields.offer,
          if_neg (ne_of_mem_of_not_mem hkey hfs.2.1).symm]
      rw [Fields.collect, hback, htail]
      cases hget : f.req.get x.1 with
      | none => exact congrArg (·, x.2) (Req.eq_unset hget).symm
      | some v => exact congrArg (·, x.2) (Req.eq_put hget).symm

end

-- ================================================== what is sent back

/-- What is known is one of the fields. -/
theorem mem_of_known {fs : Fields} {key : Int} {ftype : TType} {t : Ty}
    (h : fs.known key ftype = some t) :
    t.type_to_enum = ftype ∧ ∃ optional, (key, optional, shape t) ∈ shapes fs := by
  induction fs using Fields.induct with
  | nil => cases h
  | cons f u fs ih =>
      rw [Fields.known] at h
      rw [shapes]
      by_cases hkey : key = f.key
      · rw [if_pos hkey] at h
        by_cases htype : ftype = u.type_to_enum
        · rw [if_pos htype] at h
          obtain rfl : u = t := Option.some.inj h
          rw [hkey]
          exact ⟨htype.symm, _, List.mem_cons_self⟩
        · rw [if_neg htype] at h
          cases h
      · rw [if_neg hkey] at h
        obtain ⟨htype, optional, hmem⟩ := ih h
        exact ⟨htype, optional, List.mem_cons_of_mem _ hmem⟩

/-- Of two structs of one shape, each knows the fields of the other. -/
theorem known_other {fs gs : Fields} (hfs : fs.keys.Nodup) (hmem : ∀ m ∈ shapes gs, m ∈ shapes fs)
    {key : Int} {ftype : TType} {u : Ty} (h : gs.known key ftype = some u) :
    ∃ t, fs.known key ftype = some t ∧ shape u = shape t := by
  obtain ⟨rfl, optional, hu⟩ := mem_of_known h
  exact known_of_mem hfs (hmem _ hu)

/-- Fields that are alike wherever both are known. -/
theorem alikeFields_of {fs gs : Fields} (hgs : gs.keys.Nodup)
    (h : ∀ key u t, gs.known key u.type_to_enum = some u → fs.known key u.type_to_enum = some t →
      Alike u t) : AlikeFields gs fs := by
  induction gs using Fields.induct with
  | nil => trivial
  | cons g u gs ih =>
      obtain ⟨hkey, hgs⟩ := List.nodup_cons.mp hgs
      refine ⟨fun t ht => h g.key u t (known_head g u gs) ht, ih hgs fun key u' t hu' ht => ?_⟩
      exact h key u' t (known_tail hkey hu') ht

mutual

/-- Alike goes both ways between types of one shape. -/
theorem alike_symm : (t u : Ty) → t.Sound W → u.Sound W → shape t = shape u → Alike t u →
    Alike u t
  | .base _, u, _, _, _, ha => by
      cases u with
      | base b' => trivial
      | _ => exact absurd ha id
  | .enum, u, _, _, _, ha => by
      cases u with
      | enum => trivial
      | _ => exact absurd ha id
  | .typedef t, u, ht, hu, h, ha => by
      cases u with
      | typedef u => exact alike_symm t u ht hu h ha
      | _ => exact absurd ha id
  | .struct _ fs, u, ht, hu, h, ha => by
      cases u with
      | struct _ gs =>
          have hmem := mem_shapes_iff (fs.nodup_keys ht.2) (gs.nodup_keys hu.2) h
          exact alikeFields_of (gs.nodup_keys hu.2) fun key u t hu' ht' =>
            alike_symm_fields fs gs ht.2 hu.2 (fun m => (hmem m).mp) ha key _ t u ht' hu'
      | _ => exact absurd ha id
  | .list e, u, ht, hu, h, ha => by
      cases u with
      | list e' => exact alike_symm e e' ht hu (Shape.list.inj h) ha
      | _ => exact absurd ha id
  | .set e, u, _, _, _, ha => by
      cases u with
      | set e' => exact Eq.symm ha
      | _ => exact absurd ha id
  | .map k v, u, ht, hu, h, ha => by
      cases u with
      | map k' v' => exact ⟨ha.1.symm, alike_symm v v' ht.2 hu.2 (Shape.map.inj h).2 ha.2⟩
      | _ => exact absurd ha id

/-- The same for the fields known to both. -/
theorem alike_symm_fields : (fs gs : Fields) → fs.Sound W → gs.Sound W →
    (∀ m ∈ shapes fs, m ∈ shapes gs) → AlikeFields fs gs → (key : Int) → (ftype : TType) →
    (t u : Ty) → fs.known key ftype = some t → gs.known key ftype = some u → Alike u t
  | .cons f t' fs, gs, hfs, hgs, hmem, ha, key, ftype, t, u, ht, hu => by
      rw [Fields.known] at ht
      by_cases hkey : key = f.key
      · rw [if_pos hkey] at ht
        by_cases htype : ftype = t'.type_to_enum
        · rw [if_pos htype] at ht
          obtain rfl : t' = t := Option.some.inj ht
          rw [hkey, htype] at hu
          obtain ⟨u', hu', hshape⟩ := known_of_mem (gs.nodup_keys hgs) (hmem _ List.mem_cons_self)
          obtain rfl : u = u' := Option.some.inj (hu.symm.trans hu')
          exact alike_symm t' u hfs.2.2.1 (gs.sound_of_known hgs hu) hshape (ha.1 u hu)
        · rw [if_neg htype] at ht
          cases ht
      · rw [if_neg hkey] at ht
        exact alike_symm_fields fs gs hfs.2.2.2 hgs
          (fun m hm => hmem m (List.mem_cons_of_mem _ hm)) ha.2 key ftype t u ht hu

end

/-- Alike types are both base types or enums, or neither. -/
theorem trueBaseOrEnum_alike : (t u : Ty) → Alike t u → u.trueBaseOrEnum = t.trueBaseOrEnum
  | .typedef t, u, h => by
      cases u with
      | typedef u => exact trueBaseOrEnum_alike t u h
      | _ => exact absurd h id
  | .base _, u, h | .enum, u, h | .struct _ _, u, h | .list _, u, h | .set _, u, h
  | .map _ _, u, h => by
      cases u <;> first | rfl | exact absurd h id

/-- Elements without tags are so on both sides. -/
theorem undelimited_alike {t u : Ty} (h : Alike t u) : u.undelimited = t.undelimited := by
  have hdeclared : u.isBaseOrEnum = t.isBaseOrEnum := by
    cases t <;> cases u <;> first | rfl | exact absurd h id
  rw [CppGen.Ty.undelimited, CppGen.Ty.undelimited, trueBaseOrEnum_alike t u h, hdeclared]

/-- A struct of what was read of another is taken for what it is, if each
value is. -/
theorem meant_collect {fs : Fields} {o : Offer (Ty.Val F)} (gs : Fields) (hgs : gs.keys.Nodup)
    (hknown : ∀ key u, gs.known key u.type_to_enum = some u → ∃ t,
      fs.known key u.type_to_enum = some t ∧ ∀ w, o key u = some w → u.Meant less t w)
    (hsome : ∀ key u, (key, false, shape u) ∈ shapes gs → (o key u).isSome = true) :
    gs.Meant less fs (gs.collect o) := by
  induction gs using Fields.induct with
  | nil => trivial
  | cons g u gs ih =>
      obtain ⟨hkey, hgs⟩ := List.nodup_cons.mp hgs
      refine ⟨fun w hw => ?_, ih hgs (fun key u' hu' => hknown key u' (known_tail hkey hu'))
        fun key u' hu' => hsome key u' (List.mem_cons_of_mem _ hu')⟩
      obtain ⟨t, ht, hmeant⟩ := hknown g.key u (known_head g u gs)
      refine ⟨fun hnone => ?_, fun t' ht' => ?_⟩
      · rw [ht] at hnone
        cases hnone
      · obtain rfl : t = t' := Option.some.inj (ht.symm.trans ht')
        refine hmeant w ?_
        rw [Fields.collect] at hw
        cases hoffer : o g.key u with
        | some v =>
            rw [hoffer] at hw
            rw [← hw, CppGen.Req.get_put]
        | none =>
            -- it is not there, so the field is optional and not set
            rw [hoffer] at hw
            have hoptional : g.req = .optional := by
              by_contra hne
              have hhead : (g.key, false, shape u) ∈ shapes (.cons g u gs) := by
                rw [shapes, decide_eq_false hne]
                exact List.mem_cons_self
              have hthere := hsome g.key u hhead
              rw [hoffer] at hthere
              cases hthere
            rw [hoptional] at hw
            cases hw

mutual

/-- What the other reader has made of a value, a reader on this side takes for what it is. -/
theorem meant_back : (t u : Ty) → t.Sound W → u.Sound W → shape t = shape u → Alike t u →
    (v : t.Val F) → t.Ordered less v → t.Meant less t v → u.Meant less t (t.adopt less u v)
  | .base b, u, _, _, h, ha, v, _, hv => by
      cases u with
      | base b' =>
          obtain rfl : b = b' := Shape.base.inj h
          have hself : Ty.adopt less (.base b) (.base b) v = v := dif_pos rfl
          rw [hself]
          exact hv
      | _ => exact absurd ha id
  | .enum, u, _, _, _, ha, _, _, _ => by
      cases u with
      | enum => trivial
      | _ => exact absurd ha id
  | .typedef t, u, ht, hu, h, ha, v, hv, hmeant => by
      cases u with
      | typedef u => exact meant_back t u ht hu h ha v hv hmeant
      | _ => exact absurd ha id
  | .struct name fs, u, ht, hu, h, ha, x, hx, hmeant => by
      cases u with
      | struct name' gs =>
          have hmem := mem_shapes_iff (fs.nodup_keys ht.2) (gs.nodup_keys hu.2) h
          refine meant_collect gs (gs.nodup_keys hu.2) (fun key u hu' => ?_)
            fun key u hu' => offer_of_mem (fs.nodup_keys ht.2) ((hmem _).mpr hu') x
          obtain ⟨t, ht', -⟩ := known_other (fs.nodup_keys ht.2) (fun m => (hmem m).mpr) hu'
          exact ⟨t, ht', meant_back_fields fs gs ht.2 hu.2 (fun m => (hmem m).mp) ha fs
            (fun _ _ _ hknown => hknown) x hx hmeant key t u ht' hu'⟩
      | _ => exact absurd ha id
  | .list e, u, ht, hu, h, ha, vs, hvs, hmeant => by
      cases u with
      | list e' =>
          obtain ⟨hlen, hsep, hall⟩ := hmeant
          refine ⟨Eq.trans_lt (List.length_map _) hlen, ?_, ?_⟩
          · exact hsep.imp (undelimited_alike (t := e) ha).trans (Eq.trans_le (List.length_map _))
          · exact List.forall_mem_map.mpr fun v hv =>
              meant_back e e' ht hu (Shape.list.inj h) ha v (hvs v hv) (hall v hv)
      | _ => exact absurd ha id
  | .set e, u, ht, _, _, ha, vs, hvs, hmeant => by
      cases u with
      | set e' =>
          obtain rfl : e = e' := ha
          have hself : (Ty.set e).adopt less (.set e) vs = vs := (Ty.set e).adopt_self ht vs hvs
          rw [hself]
          exact hmeant
      | _ => exact absurd ha id
  | .map k v, u, ht, hu, h, ha, es, hes, hmeant => by
      cases u with
      | map k' v' =>
          obtain ⟨rfl, ha⟩ : k = k' ∧ Alike v v' := ha
          obtain ⟨hlen, hsep, hall, hapart⟩ := hmeant
          rw [adopt_map ht.1 (fun e he => (hes.2 e he).1) hes.1]
          refine ⟨Eq.trans_lt (List.length_map _) hlen, ?_, ?_, List.pairwise_map.mpr hapart⟩
          · exact hsep.imp (Or.imp_right (undelimited_alike ha).trans) List.map_eq_nil_iff.mpr
          · exact List.forall_mem_map.mpr fun e he => ⟨(hall e he).1,
              meant_back v v' ht.2 hu.2 (Shape.map.inj h).2 ha e.2 (hes.2 e he).2 (hall e he).2⟩
      | _ => exact absurd ha id

/-- What the other side offers is meant for this one. -/
theorem meant_back_fields : (fs gs : Fields) → fs.Sound W → gs.Sound W →
    (∀ m ∈ shapes fs, m ∈ shapes gs) → AlikeFields fs gs → (hs : Fields) →
    (∀ key ftype u, fs.known key ftype = some u → hs.known key ftype = some u) →
    (x : fs.Rec F) → fs.Ordered less x → fs.Meant less hs x → (key : Int) → (t u : Ty) →
    fs.known key u.type_to_enum = some t → gs.known key u.type_to_enum = some u →
    ∀ w, fs.offer less x key u = some w → u.Meant less t w
  | .cons f t' fs, gs, hfs, hgs, hmem, ha, hs, hknown, x, hx, hmeant, key, t, u, ht, hu, w, hw => by
      rw [Fields.known] at ht
      rw [Fields.offer] at hw
      by_cases hkey : key = f.key
      · subst hkey
        rw [if_pos rfl] at ht hw
        by_cases htype : u.type_to_enum = t'.type_to_enum
        · rw [if_pos htype] at ht
          rw [if_pos htype.symm] at hw
          obtain rfl : t' = t := Option.some.inj ht
          obtain ⟨u', hu', hshape⟩ := known_of_mem (gs.nodup_keys hgs) (hmem _ List.mem_cons_self)
          rw [← htype] at hu'
          obtain rfl : u = u' := Option.some.inj (hu.symm.trans hu')
          obtain ⟨v, hget, rfl⟩ := Option.map_eq_some_iff.mp hw
          rw [htype] at hu
          exact meant_back t' u hfs.2.2.1 (gs.sound_of_known hgs hu) hshape (ha.1 u hu) v
            (hx.1 v hget) ((hmeant.1 v hget).2 t' (hknown _ _ t' (known_head f t' fs)))
        · rw [if_neg htype] at ht
          cases ht
      · rw [if_neg hkey] at ht
        rw [if_neg (Ne.symm hkey)] at hw
        exact meant_back_fields fs gs hfs.2.2.2 hgs
          (fun m hm => hmem m (List.mem_cons_of_mem _ hm)) ha.2 hs
          (fun key ftype u h => hknown key ftype u (known_tail hfs.2.1 h)) x.2 hx.2 hmeant.2
          key t u ht hu w hw

end

-- ====================================================== the same fingerprint

/-- A reader of the second type reads what is written of a value of the
first, makes `w` of it and stops at the tag behind it. -/
def HandsOver (W : World) (junk : Bool) (less : (t : Ty) → t.Val F → t.Val F → Bool) (t u : Ty)
    (v : t.Val F) (w : u.Val F) : Prop :=
  ∀ ⦃tail : Bytes⦄ ⦃r : LookaheadReader⦄,
    Fresh ((t.serialize W v .init).out ++ kcXMLTagO :: tail) r →
    ∃ n r', (u.deserialize W Reads.code junk less (u.zero F)).Runs r (.ok (n, w)) r'
      ∧ Near (kcXMLTagO :: tail) r'

/-- Such a reader reads all that a reader of the same version does. -/
theorem hands_over (hW : CppGen.Decimals W) (hF : F.Texts W) {t u : Ty} (ht : t.Sound W)
    (hu : u.Sound W) (hshape : shape t = shape u) (halike : Alike t u) {v : t.Val F}
    (hmeant : t.Meant less u v) : HandsOver W junk less t u v (t.adopt less u v) := by
  intro tail r hr
  rw [CppGen.out_eq] at hr
  have hsettles : CppGen.Settles (u.deserialize W Reads.code junk less (u.zero F)) (t.text W v)
      (kcXMLTagO :: tail) (t.Adoptable less W u v) (fun x => x.2 = t.adopt less u v) :=
    t.settlesAs hW hF u ht hu v hmeant _ (.inl rfl) _ fun _ => ⟨tail, rfl⟩
  obtain ⟨⟨n, w⟩, r', hruns, rfl, hready⟩ :=
    hsettles.takes (adoptable_same t u ht hu hshape halike v) r hr.ready
  exact ⟨n, r', hruns, hready.near⟩

/-- **Two nodes with one fingerprint.** If typedefs stand at the same places and sets and
maps are over the same types, then each reads what a reader of the other's own version
takes for what it is; and what it has made of it, it can send back, which is then read as
what was sent first. -/
theorem same_fingerprint_read (hW : CppGen.Decimals W) (hF : F.Texts W) (t u : Ty)
    (ht : t.Sound W) (hu : u.Sound W)
    (hsame : get_fingerprint_material t = get_fingerprint_material u) (halike : Alike t u)
    (v : t.Val F) (hordered : t.Ordered less v) (hmeant : t.Meant less t v) :
    HandsOver W junk less t u v (t.adopt less u v)
      ∧ HandsOver W junk less u t (t.adopt less u v) v := by
  have hshape := shape_unique hsame
  have hback : HandsOver W junk less u t (t.adopt less u v) (u.adopt less t (t.adopt less u v)) :=
    hands_over hW hF hu ht hshape.symm (alike_symm t u ht hu hshape halike)
      (meant_back t u ht hu hshape halike v hordered hmeant)
  rw [adopt_back t u ht hu hshape halike v hordered] at hback
  exact ⟨hands_over hW hF ht hu hshape halike (meant_same t u ht hu hshape halike v hmeant), hback⟩

/-- `struct Neighbor { 4: optional i32 tries; 1: bool alive }` -/
def neighborTy : Ty := .struct (lit "Neighbor")
  (.cons ⟨lit "tries", 4, .optional, []⟩ (.base .i32)
    (.cons ⟨lit "alive", 1, .optInReqOut, []⟩ (.base .bool) .nil))

/-- The example's value as a `Peer`. -/
def peerValue : CppGen.newPeerTy.Val .printed :=
  ((true, some 3#32, ()) : Bool × Option (BitVec 32) × Unit)

/-- And as a `Neighbor`. -/
def neighborValue : neighborTy.Val .printed :=
  ((some 3#32, true, ()) : Option (BitVec 32) × Bool × Unit)

/-- A `Peer` to a node that has it as a `Neighbor`, and back. -/
theorem same_fingerprint_read_peer :
    HandsOver CppGen.quads false Ty.operatorLess CppGen.newPeerTy neighborTy peerValue
        neighborValue
      ∧ HandsOver CppGen.quads false Ty.operatorLess neighborTy CppGen.newPeerTy neighborValue
        peerValue := by
  have hpeer : CppGen.newPeerTy.Sound CppGen.quads :=
    ⟨by decide, CppGen.quads_field (by decide) (by decide), by decide, trivial,
      CppGen.quads_field (by decide) (by decide), by decide, trivial, trivial⟩
  have hneighbor : neighborTy.Sound CppGen.quads :=
    ⟨by decide, CppGen.quads_field (by decide) (by decide), by decide, trivial,
      CppGen.quads_field (by decide) (by decide), by decide, trivial, trivial⟩
  have hsame : get_fingerprint_material CppGen.newPeerTy
      = get_fingerprint_material neighborTy := by decide
  have halike : Alike CppGen.newPeerTy neighborTy := by
    refine ⟨fun u hu => ?_, fun u hu => ?_, trivial⟩
    · obtain rfl := Option.some.inj hu
      trivial
    · obtain rfl := Option.some.inj hu
      trivial
  have hordered : CppGen.newPeerTy.Ordered Ty.operatorLess peerValue :=
    ⟨fun _ _ => trivial, fun _ _ => trivial, trivial⟩
  have hmeant : CppGen.newPeerTy.Meant Ty.operatorLess CppGen.newPeerTy peerValue := by
    refine ⟨fun v _ => ⟨fun _ => trivial, fun u hu => ?_⟩,
      fun v _ => ⟨fun _ => trivial, fun u hu => ?_⟩, trivial⟩
    · obtain rfl := Option.some.inj hu
      exact ⟨rfl, trivial⟩
    · obtain rfl := Option.some.inj hu
      exact ⟨rfl, trivial⟩
  exact same_fingerprint_read CppGen.posix_decimals CppGen.printed_texts CppGen.newPeerTy
    neighborTy hpeer hneighbor hsame halike peerValue hordered hmeant

end Sandesh.Compiler
