/-
What the generated code does to one field.

Both loops go over the fields, and the turn of a field touches what the
struct has for that field only, apart from the statistics that are derived
from it. So what becomes of a field is decided in one turn: `LoadUVE_slot`
says so for `LoadUVE`, and `UpdateUVE_hidden` and `UpdateUVE_stat` for the
two structs of `UpdateUVE`.

`Held` says that introspect has a value to show. It is about the field of a
cached struct, whose flags of the statistics are never up.
-/
import Sandesh.Uve.Generated

namespace Sandesh.Uve

open Lib

variable {V σ : Type} {t : UveType V σ} {f g : Field}

-- ========================================================== definitions

/-- Two fields have two names. -/
theorem name_ne {d : UveStruct} (hf : f ∈ d.fields) (hg : g ∈ d.fields)
    (hne : g ≠ f) : g.name ≠ f.name :=
  fun heq => hne (List.inj_on_of_nodup_map d.nodup hg hf heq)

/-- No field is declared twice. -/
theorem nodup_fields (d : UveStruct) : d.fields.Nodup := List.Nodup.of_map _ d.nodup

/-- A hidden field is optional. -/
theorem hidden_optional {d : UveStruct} (hf : f ∈ d.fields) (hhidden : f.hidden = true) :
    f.req = .T_OPTIONAL := by
  by_contra hreq
  have := (d.mandatory f hf hreq).1
  rw [hhidden] at this
  cases this

/-- The raw statistics of a name are fields. -/
theorem mem_rawmap {d : UveStruct} {snm : Bytes} {ds : Field × StatsOf}
    (h : ds ∈ d.rawmap snm) : ds.1 ∈ d.fields ∧ ds.1.stats = some ds.2 := by
  unfold UveStruct.rawmap at h
  obtain ⟨f, hf, hds⟩ := List.mem_filterMap.mp h
  obtain ⟨s, hs, rfl⟩ := Option.map_eq_some_iff.mp hds
  exact ⟨hf, (Option.filter_eq_some_iff.mp hs).1⟩

/-- The category of a hidden statistic. -/
theorem cat_hidden {d : UveStruct} (hhidden : f.hidden = true) (s : StatsOf) :
    d.cat_ f s = .HIDDEN ∨ d.cat_ f s = .HIDDEN_PER := by
  unfold UveStruct.cat_
  rw [hhidden]
  cases d.periodic with
  | true =>
      by_cases hperiod : d.period_ s = 0
      · exact .inl (by simp [hperiod])
      · exact .inr (by simp [hperiod])
  | false => exact .inl rfl

-- =========================================================== UpdateUVE

section Update

variable {mono_usec : UInt64}

/-- The statistics of a raw attribute set no flag of a hidden field. -/
theorem updateStat_hidden (hf : f ∈ t.struct.fields) (hhidden : f.hidden = true)
    {snm : Bytes} {ds : Field × StatsOf} (hds : ds ∈ t.struct.rawmap snm) (raw : V)
    (x : UveType.Updating V σ) :
    (t.updateStat mono_usec raw x ds).data.isset f.name = x.data.isset f.name := by
  obtain ⟨hmem, -⟩ := mem_rawmap hds
  unfold UveType.updateStat
  cases x.tdata.dsobj ds.1.name with
  | none => rfl
  | some obj =>
      by_cases hinline : t.struct.cat_ ds.1 ds.2 = .INLINE
      · have hne : ds.1 ≠ f := by
          rintro rfl
          rcases cat_hidden (d := t.struct) hhidden ds.2 with h | h
          · rw [hinline] at h
            cases h
          · rw [hinline] at h
            cases h
        simp [hinline, Attrs.fill, (name_ne hf hmem hne).symm]
      · simp [hinline]

/-- Copying the attributes leaves the flag of a hidden field alone. -/
theorem copyAttr_hidden (hf : f ∈ t.struct.fields) (hhidden : f.hidden = true)
    (g : Field) (x : UveType.Updating V σ) :
    (t.copyAttr mono_usec g x).data.isset f.name = x.data.isset f.name := by
  unfold UveType.copyAttr
  refine foldl_none (q := fun x : UveType.Updating V σ => x.data.isset f.name)
    (fun ds hds x => ?_) _
  exact updateStat_hidden hf hhidden hds _ x

/-- The flag of a hidden field in the struct that is sent. -/
theorem UpdateUVE_hidden (hf : f ∈ t.struct.fields) (hhidden : f.hidden = true)
    (data tdata : UveData (Attrs V σ)) (level : SandeshLevel) :
    (t.UpdateUVE data tdata mono_usec level).data.isset f.name
      = (f.stats.isSome && data.rest.isset f.name) := by
  have hreq := hidden_optional hf hhidden
  have hother : ∀ g ∈ t.struct.fields, g ≠ f → ∀ x : UveType.Updating V σ,
      (t.updateField mono_usec x g).data.isset f.name = x.data.isset f.name := by
    intro g hg hne x
    have hname : f.name ≠ g.name := (name_ne hf hg hne).symm
    unfold UveType.updateField
    split
    · rfl
    split
    · split
      · rw [copyAttr_hidden hf hhidden]
        split
        · exact Function.update_of_ne hname _ _
        · rfl
      · rfl
    · rw [copyAttr_hidden hf hhidden]
      split
      · rfl
      · rfl
  obtain ⟨x, hx, hlast⟩ := foldl_one
    (q := fun x : UveType.Updating V σ => x.data.isset f.name)
    (nodup_fields t.struct) hf hother
    ⟨data.rest.isset_deleted, data.rest, { tdata.rest with
      isset_deleted := tdata.rest.isset_deleted || data.rest.isset_deleted }⟩
  refine hlast.trans ?_
  rw [← hx]
  unfold UveType.updateField
  cases f.stats with
  | some s => rfl
  | none =>
      -- its own turn takes the flag down
      have hcat : f.cache_attr_info ≠ .INLINE := by
        unfold Field.cache_attr_info
        simp [hreq, hhidden]
      simp only [Option.isSome_none, Bool.false_eq_true, if_false, hreq, if_true,
        hcat, ne_eq, not_false_eq_true, Bool.false_and]
      cases hset : x.data.isset f.name with
      | false => simp only [Bool.false_eq_true, if_false, hset]
      | true =>
          simp only [if_true, copyAttr_hidden hf hhidden]
          exact Function.update_self _ _ _

/-- The flags of the statistics in the cached struct are left alone. -/
theorem UpdateUVE_stat (hf : f ∈ t.struct.fields) (hstat : f.stats.isSome = true)
    (data tdata : UveData (Attrs V σ)) (level : SandeshLevel) :
    (t.UpdateUVE data tdata mono_usec level).tdata.rest.isset f.name
      = tdata.rest.isset f.name := by
  have hcopy : ∀ g ∈ t.struct.fields, g.stats.isSome = false →
      ∀ x : UveType.Updating V σ,
        (t.copyAttr mono_usec g x).tdata.isset f.name = x.tdata.isset f.name := by
    intro g hg hraw x
    have hname : f.name ≠ g.name := by
      refine (name_ne hf hg ?_).symm
      rintro rfl
      rw [hstat] at hraw
      cases hraw
    have hset : (x.tdata.set g (x.data.value g.name)).isset f.name
        = x.tdata.isset f.name := by
      unfold Attrs.set
      split
      · exact Function.update_of_ne hname _ _
      · rfl
    refine (foldl_none (q := fun x : UveType.Updating V σ => x.tdata.isset f.name)
      (fun ds _ x => ?_) _).trans hset
    unfold UveType.updateStat
    split
    · rfl
    split
    · rfl
    · rfl
  refine foldl_none (q := fun x : UveType.Updating V σ => x.tdata.isset f.name)
    (fun g hg x => ?_) _
  unfold UveType.updateField
  cases hraw : g.stats.isSome with
  | true => rfl
  | false =>
      simp only [Bool.false_eq_true, if_false]
      split
      · split
        · rw [hcopy g hg hraw]
          split
          · rfl
          · rfl
        · rfl
      · rw [hcopy g hg hraw]
        split
        · rfl
        · rfl

end Update

-- ============================================================= LoadUVE

/-- What a struct has for a field. -/
def Attrs.slot (a : Attrs V σ) (snm : Bytes) : Bool × V × Option σ :=
  (a.isset snm, a.value snm, a.dsobj snm)

/-- A slot is its flag, its value and its object. -/
theorem slot_eq {a b : Attrs V σ} {snm : Bytes} :
    a.slot snm = b.slot snm ↔ a.isset snm = b.isset snm
      ∧ a.value snm = b.value snm ∧ a.dsobj snm = b.dsobj snm := by
  unfold Attrs.slot
  rw [Prod.mk.injEq, Prod.mk.injEq]

section Load

variable {stype : SendType} {cycle : UInt32}

/-- Another slot is left alone when one is unset. -/
theorem slot_unset_ne {snm snm' : Bytes} (h : snm ≠ snm') (a : Attrs V σ) :
    (a.unset snm').slot snm = a.slot snm := by
  simp [Attrs.slot, Attrs.unset, h]

/-- And when one is filled. -/
theorem slot_fill_ne {snm snm' : Bytes} (h : snm ≠ snm') (D : DerivedStats V σ)
    (obj : σ) (force : Bool) (a : Attrs V σ) :
    (a.fill D obj force snm').slot snm = a.slot snm := by
  simp [Attrs.slot, Attrs.fill, h]

/-- And when one gets its object. -/
theorem slot_setObj_ne {snm snm' : Bytes} (h : snm ≠ snm') (obj : σ)
    (a : Attrs V σ) : (a.setObj snm' obj).slot snm = a.slot snm := by
  simp [Attrs.slot, Attrs.setObj, h]

/-- Loading a statistic touches its own slot only. -/
theorem loadStat_other {snm : Bytes} (hname : snm ≠ g.name) (s : StatsOf) (obj : σ)
    (x : UveType.Loading V σ) :
    (t.loadStat stype cycle g s obj x).data.slot snm = x.data.slot snm := by
  unfold UveType.loadStat
  cases t.struct.cat_ g s with
  | MANDATORY => rfl
  | INLINE =>
      show (if _ then _ else _ : UveType.Loading V σ).data.slot snm = _
      split
      · exact slot_unset_ne hname _
      · exact slot_fill_ne hname _ _ _ _
  | HIDDEN =>
      show (if _ then _ else _ : UveType.Loading V σ).data.slot snm = _
      split
      · exact slot_unset_ne hname _
      · exact slot_fill_ne hname _ _ _ _
  | PERIODIC =>
      cases stype with
      | ST_SYNC => exact slot_unset_ne hname _
      | ST_INTROSPECT => exact slot_fill_ne hname _ _ _ _
      | ST_PERIODIC =>
          show (if _ then _ else _ : UveType.Loading V σ).data.slot snm = _
          split
          · exact (slot_fill_ne hname _ _ _ _).trans (slot_setObj_ne hname _ _)
          · exact slot_unset_ne hname _
  | HIDDEN_PER =>
      cases stype with
      | ST_SYNC => exact slot_unset_ne hname _
      | ST_INTROSPECT => exact slot_fill_ne hname _ _ _ _
      | ST_PERIODIC =>
          show (if _ then _ else _ : UveType.Loading V σ).data.slot snm = _
          split
          · exact (slot_setObj_ne hname _ _).trans (slot_unset_ne hname _)
          · exact slot_unset_ne hname _

/-- Loading a field touches its own slot only. -/
theorem loadField_other {snm : Bytes} (hname : snm ≠ g.name)
    (x : UveType.Loading V σ) :
    (t.loadField stype cycle x g).data.slot snm = x.data.slot snm := by
  unfold UveType.loadField
  cases g.stats with
  | none =>
      cases g.cache_attr_info with
      | HIDDEN =>
          show (if _ then _ else _ : UveType.Loading V σ).data.slot snm = _
          split
          · exact slot_unset_ne hname _
          · rfl
      | INLINE =>
          show (if _ then _ else _ : UveType.Loading V σ).data.slot snm = _
          split
          · exact slot_unset_ne hname _
          · rfl
      | _ => rfl
  | some s =>
      cases x.data.dsobj g.name with
      | none => rfl
      | some obj =>
          show (if _ then _ else _ : UveType.Loading V σ).data.slot snm = _
          split
          · exact loadStat_other hname s obj x
          · rfl

/-- The turn of a field sees of the struct what it has for that field. -/
theorem loadField_own {x y : UveType.Loading V σ}
    (h : x.data.slot f.name = y.data.slot f.name) :
    (t.loadField stype cycle x f).data.slot f.name
      = (t.loadField stype cycle y f).data.slot f.name := by
  obtain ⟨hisset, hvalue, hobj⟩ := slot_eq.mp h
  unfold UveType.loadField
  cases f.stats with
  | none =>
      cases f.cache_attr_info with
      | HIDDEN => cases stype <;> simp [Attrs.slot, Attrs.unset, hisset, hvalue, hobj]
      | INLINE => cases stype <;> simp [Attrs.slot, Attrs.unset, hisset, hvalue, hobj]
      | _ => exact h
  | some s =>
      rw [hobj]
      cases hy : y.data.dsobj f.name with
      | none => exact h
      | some obj =>
          cases hresult : (t.stats f.name).IsResult obj with
          | false => simpa [hresult] using h
          | true =>
              simp only [hresult, if_true]
              unfold UveType.loadStat
              cases t.struct.cat_ f s with
              | MANDATORY => exact h
              | INLINE =>
                  cases stype <;>
                    simp [Attrs.slot, Attrs.unset, Attrs.fill, hvalue, hobj]
              | HIDDEN =>
                  cases stype <;>
                    simp [Attrs.slot, Attrs.unset, Attrs.fill, hvalue, hobj]
              | PERIODIC =>
                  cases stype with
                  | ST_PERIODIC =>
                      by_cases hdue : cycle.toNat % t.struct.period_ s = 0
                      · simp [hdue, Attrs.slot, Attrs.fill, Attrs.setObj, hvalue]
                      · simp [hdue, Attrs.slot, Attrs.unset, hvalue, hobj]
                  | _ => simp [Attrs.slot, Attrs.unset, Attrs.fill, hvalue, hobj]
              | HIDDEN_PER =>
                  cases stype with
                  | ST_PERIODIC =>
                      by_cases hdue : cycle.toNat % t.struct.period_ s = 0
                      · simp [hdue, Attrs.slot, Attrs.unset, Attrs.setObj, hvalue]
                      · simp [hdue, Attrs.slot, Attrs.unset, hvalue, hobj]
                  | _ => simp [Attrs.slot, Attrs.unset, Attrs.fill, hvalue, hobj]

/-- What `LoadUVE` makes of a field, the turn of that field makes of it. -/
theorem LoadUVE_slot (hf : f ∈ t.struct.fields) (data : UveData (Attrs V σ)) :
    (t.LoadUVE stype cycle data).2.slot f.name
      = (t.loadField stype cycle ⟨false, data.rest⟩ f).data.slot f.name := by
  obtain ⟨x, hx, hlast⟩ := foldl_one
    (q := fun x : UveType.Loading V σ => x.data.slot f.name)
    (f := t.loadField stype cycle) (nodup_fields t.struct) hf
    (fun g hg hne x => loadField_other (name_ne hf hg hne).symm x) ⟨false, data.rest⟩
  exact hlast.trans (loadField_own hx)

/-- What decides whether an attribute is shown. -/
def UveType.cat (t : UveType V σ) (f : Field) : CacheAttribute :=
  match f.stats with
  | none => f.cache_attr_info
  | some s => t.struct.cat_ f s

/-- The attribute is not part of a sync. -/
def UveType.isLocal (t : UveType V σ) (f : Field) : Prop :=
  t.cat f ≠ .MANDATORY ∧ t.cat f ≠ .INLINE

/-- Introspect has a value to show: the attribute is set, or its statistics
object has a result and fills it in. -/
def Held (t : UveType V σ) (f : Field) (a : Attrs V σ) : Prop :=
  match f.stats with
  | none => a.isset f.name = true
  | some _ => ∃ obj, a.dsobj f.name = some obj ∧ (t.stats f.name).IsResult obj = true
      ∧ ((t.stats f.name).FillResult obj true (a.value f.name)).2 = true

/-- No flag of a statistic is up. -/
def StatsDown (d : UveStruct) (a : Attrs V σ) : Prop :=
  ∀ f ∈ d.fields, f.stats.isSome = true → a.isset f.name = false

/-- The same for a field of the type. -/
theorem cat_of_hidden (hf : f ∈ t.struct.fields) (hhidden : f.hidden = true) :
    t.cat f = .HIDDEN ∨ t.cat f = .HIDDEN_PER := by
  unfold UveType.cat
  cases f.stats with
  | none =>
      refine .inl ?_
      show f.cache_attr_info = .HIDDEN
      unfold Field.cache_attr_info
      simp [hidden_optional hf hhidden, hhidden]
  | some s => exact cat_hidden hhidden s

/-- A hidden field is local, and not periodic. -/
theorem isLocal_hidden (hf : f ∈ t.struct.fields) (hhidden : f.hidden = true) :
    t.isLocal f ∧ t.cat f ≠ .PERIODIC := by
  unfold UveType.isLocal
  rcases cat_of_hidden hf hhidden with h | h
  · rw [h]
    decide
  · rw [h]
    decide

/-- A field that is not a statistic and not part of a sync is hidden. -/
theorem cache_attr_info_local (h : f.cache_attr_info ≠ .MANDATORY)
    (h' : f.cache_attr_info ≠ .INLINE) : f.cache_attr_info = .HIDDEN := by
  unfold Field.cache_attr_info at *
  split
  · rename_i hreq
    exact absurd (if_pos hreq) h
  · rename_i hreq
    rw [if_neg hreq] at h'
    split
    · rfl
    · rename_i hhidden
      exact absurd (if_neg hhidden) h'

/-- A local field is optional. -/
theorem isLocal_optional (hf : f ∈ t.struct.fields) (hlocal : t.isLocal f) :
    f.req = .T_OPTIONAL := by
  by_contra hreq
  obtain ⟨-, hstats⟩ := t.struct.mandatory f hf hreq
  refine hlocal.1 ?_
  unfold UveType.cat Field.cache_attr_info
  rw [hstats]
  simp [hreq]

/-- What a struct has for a field, in a `LoadUVE`. -/
theorem LoadUVE_isset (hf : f ∈ t.struct.fields) (data : UveData (Attrs V σ)) :
    (t.LoadUVE stype cycle data).2.isset f.name
      = (t.loadField stype cycle ⟨false, data.rest⟩ f).data.isset f.name :=
  (slot_eq.mp (LoadUVE_slot hf data)).1

/-- A sync does not show an attribute that is not part of it; nor does a
periodic sync, unless the attribute is periodic. -/
theorem LoadUVE_off (hf : f ∈ t.struct.fields) (hlocal : t.isLocal f)
    {data : UveData (Attrs V σ)} (hdown : StatsDown t.struct data.rest)
    (hst : stype = .ST_SYNC ∨ stype = .ST_PERIODIC ∧ t.cat f ≠ .PERIODIC) :
    (t.LoadUVE stype cycle data).2.isset f.name = false := by
  rw [LoadUVE_isset hf]
  have hdown := hdown f hf
  unfold UveType.isLocal UveType.cat at *
  unfold UveType.loadField
  cases hstats : f.stats with
  | none =>
      simp only [hstats] at hlocal hst
      have hne : stype ≠ .ST_INTROSPECT := by
        rintro rfl
        simp at hst
      simp [cache_attr_info_local hlocal.1 hlocal.2, hne, Attrs.unset]
  | some s =>
      simp only [hstats] at hlocal hst
      replace hdown : data.rest.isset f.name = false := hdown (by rw [hstats]; rfl)
      cases hobj : data.rest.dsobj f.name with
      | none => exact hdown
      | some obj =>
          cases hresult : (t.stats f.name).IsResult obj with
          | false => simpa [hresult] using hdown
          | true =>
              simp only [hresult, if_true]
              unfold UveType.loadStat
              cases hcat : t.struct.cat_ f s with
              | MANDATORY => exact absurd hcat hlocal.1
              | INLINE => exact absurd hcat hlocal.2
              | HIDDEN =>
                  have hne : stype ≠ .ST_INTROSPECT := by
                    rintro rfl
                    simp at hst
                  simp [hne, Attrs.unset]
              | PERIODIC =>
                  rcases hst with rfl | ⟨-, hno⟩
                  · simp [Attrs.unset]
                  · exact absurd hcat hno
              | HIDDEN_PER =>
                  rcases hst with rfl | ⟨rfl, -⟩
                  · simp [Attrs.unset]
                  · by_cases hdue : cycle.toNat % t.struct.period_ s = 0
                    · simp [hdue, Attrs.unset, Attrs.setObj]
                    · simp [hdue, Attrs.unset]

/-- Introspect shows what is held. -/
theorem LoadUVE_introspect (hf : f ∈ t.struct.fields) (hlocal : t.isLocal f)
    {data : UveData (Attrs V σ)} (hdown : StatsDown t.struct data.rest) :
    (t.LoadUVE .ST_INTROSPECT cycle data).2.isset f.name = true
      ↔ Held t f data.rest := by
  rw [LoadUVE_isset hf]
  have hdown := hdown f hf
  unfold UveType.isLocal UveType.cat at hlocal
  unfold UveType.loadField Held
  cases hstats : f.stats with
  | none =>
      cases f.cache_attr_info with
      | HIDDEN => rfl
      | INLINE => rfl
      | _ => rfl
  | some s =>
      simp only [hstats] at hlocal
      replace hdown : data.rest.isset f.name = false := hdown (by rw [hstats]; rfl)
      cases hobj : data.rest.dsobj f.name with
      | none => simp [hdown]
      | some obj =>
          cases hresult : (t.stats f.name).IsResult obj with
          | false => simp [hresult, hdown]
          | true =>
              simp only [hresult, if_true]
              unfold UveType.loadStat
              cases hcat : t.struct.cat_ f s with
              | MANDATORY => exact absurd hcat hlocal.1
              | INLINE => exact absurd hcat hlocal.2
              | _ => simp [Attrs.fill, hresult]

/-- Every other attribute is in a sync as introspect shows it. -/
theorem LoadUVE_same (hf : f ∈ t.struct.fields) (hshown : ¬ t.isLocal f)
    (data : UveData (Attrs V σ)) :
    (t.LoadUVE .ST_SYNC cycle data).2.slot f.name
      = (t.LoadUVE .ST_INTROSPECT cycle data).2.slot f.name := by
  rw [LoadUVE_slot hf, LoadUVE_slot hf]
  unfold UveType.isLocal UveType.cat at hshown
  unfold UveType.loadField
  cases hstats : f.stats with
  | none =>
      simp only [hstats] at hshown
      cases hcat : f.cache_attr_info with
      | HIDDEN =>
          rw [hcat] at hshown
          exact absurd (by decide) hshown
      | _ => rfl
  | some s =>
      simp only [hstats] at hshown
      cases hobj : data.rest.dsobj f.name with
      | none => rfl
      | some obj =>
          cases hresult : (t.stats f.name).IsResult obj with
          | false => simp [hresult]
          | true =>
              simp only [hresult, if_true]
              unfold UveType.loadStat
              cases hcat : t.struct.cat_ f s with
              | MANDATORY => rfl
              | INLINE => rfl
              | _ =>
                  rw [hcat] at hshown
                  exact absurd (by decide) hshown

/-- A sync writes a field as introspect does if there is nothing to show
that is not part of a sync. -/
theorem LoadUVE_written_iff (hf : f ∈ t.struct.fields)
    {data : UveData (Attrs V σ)} (hdown : StatsDown t.struct data.rest) :
    (t.LoadUVE .ST_SYNC cycle data).2.written f
        = (t.LoadUVE .ST_INTROSPECT cycle data).2.written f
      ↔ (t.isLocal f → ¬ Held t f data.rest) := by
  by_cases hlocal : t.isLocal f
  · have hreq := isLocal_optional hf hlocal
    have hoff : (t.LoadUVE .ST_SYNC cycle data).2.isset f.name = false :=
      LoadUVE_off hf hlocal hdown (.inl rfl)
    have hheld : (t.LoadUVE .ST_INTROSPECT cycle data).2.isset f.name = true
        ↔ Held t f data.rest := LoadUVE_introspect hf hlocal hdown
    rw [imp_iff_right hlocal, ← hheld]
    unfold Attrs.written
    rw [hoff]
    cases hset : (t.LoadUVE .ST_INTROSPECT cycle data).2.isset f.name with
    | true => simp [hreq]
    | false => simp [hreq]
  · have hslot : (t.LoadUVE .ST_SYNC cycle data).2.slot f.name = _ :=
      LoadUVE_same hf hlocal data
    have hsame := slot_eq.mp hslot
    refine iff_of_true ?_ fun h => absurd h hlocal
    unfold Attrs.written
    rw [hsame.1, hsame.2.1]

end Load

end Sandesh.Uve
