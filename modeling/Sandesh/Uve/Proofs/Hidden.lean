/-
Which messages have a hidden attribute.

A message towards the collector has no context. `LoadUVE` takes the hidden
attributes out of a sync and of a periodic sync, and `UpdateUVE` out of the
struct of an update (of a statistic that the caller has set itself it does
not). But `SendUVE` loads the entries for introspect when there is no
context and for a sync when there is one, so `SyncIntrospect`, which passes
none, sends the collector whatever introspect shows. So does a request
that came without a context.

`Quiet` says of a call that there is nothing hidden for it to send. Under
the invariant `Filed`, which every call keeps, such a call sends nothing
hidden (`quiet_step`).
-/
import Sandesh.Uve.Introspect
import Sandesh.Uve.Proofs.Generated
import Sandesh.Uve.Proofs.Group

namespace Sandesh.Uve

open Lib

variable {V σ : Type} {types : Types V σ} {t : UveType V σ}

-- ====================================================== the vocabulary

/-- A hidden attribute is set in the message. -/
def Message.HasHidden (d : UveStruct) (m : Message V) : Prop :=
  ∃ f ∈ d.fields, f.hidden = true ∧ ∃ v, (f.name, some v) ∈ m.attrs

/-- No message without a context has a hidden attribute. -/
def HiddenStaysLocal (types : Types V σ) (out : List (Dispatched V)) : Prop :=
  ∀ x ∈ out, x.2.context = [] → ∀ t, types.lookup x.1 = some t →
    ¬ x.2.HasHidden t.struct

/-- Introspect has no hidden attribute of the entry to show. -/
def NothingHidden (t : UveType V σ) (e : UVEMapEntry (Attrs V σ)) : Prop :=
  ∀ f ∈ t.struct.fields, f.hidden = true → ¬ Held t f e.data.rest

/-- The call finds nothing hidden that it would send without a context. -/
def Quiet (types : Types V σ) (s : TypeMaps V σ) : TypeCall V σ → Prop
  | .Send tname call => ∀ t, types.lookup tname = some t → ∀ f ∈ t.struct.fields,
      f.hidden = true → f.stats.isSome = true → call.data.rest.isset f.name = false
  | .SyncAllMaps _ _ _ _ => True
  | .SyncIntrospect _ tname table key => ∀ t, types.lookup tname = some t →
      ∀ k e, (s.group tname).find t.sandesh k = some e → k.name = key →
        table = [] ∨ k.table = table → NothingHidden t e
  | .HandleRequest _ tname key context => context = [] →
      ∀ t, types.lookup tname = some t →
        ∀ k e, (s.group tname).find t.sandesh k = some e →
          (∀ name, key = some name → k.name = name) → NothingHidden t e

/-- Every entry is under its own name, and no flag of a statistic is up. -/
def FiledMap (t : UveType V σ) (m : PerTypeMap (Attrs V σ)) : Prop :=
  ∀ name table e, m.find name table = some e →
    e.data.name = name ∧ StatsDown t.struct e.data.rest

/-- Every map of the group has its entries under their own names. -/
def FiledGroup (t : UveType V σ) (g : Group (Attrs V σ)) : Prop :=
  ∀ cell, FiledMap t (g.get t.sandesh cell)

/-- The same for every type. -/
def Filed (types : Types V σ) (s : TypeMaps V σ) : Prop :=
  ∀ tname t, types.lookup tname = some t → FiledGroup t (s.group tname)

-- ======================================================== one message

/-- A message of these attributes. -/
theorem hasHidden_iff {d : UveStruct} {a : Attrs V σ} {m : Message V}
    (hm : m.attrs = d.attrs a) :
    m.HasHidden d ↔ ∃ f ∈ d.fields, f.hidden = true ∧ a.isset f.name = true := by
  unfold Message.HasHidden
  refine exists_congr fun f => and_congr_right fun hf => and_congr_right fun hhidden => ?_
  have hreq := hidden_optional hf hhidden
  rw [hm]
  unfold UveStruct.attrs
  constructor
  · rintro ⟨v, hv⟩
    obtain ⟨g, hg, heq⟩ := List.mem_map.mp hv
    injection heq with hname hwritten
    obtain rfl : g = f := by
      by_contra hne
      exact name_ne hf hg hne hname
    by_contra hset
    simp [Attrs.written, hreq, hset] at hwritten
  · intro hset
    refine ⟨a.value f.name, List.mem_map.mpr ⟨f, hf, ?_⟩⟩
    simp [Attrs.written, hset]

/-- What `T::Send` dispatches. -/
theorem attrs_Send {x : Sent (Attrs V σ)} {m : Message V} (h : t.Send x = some m) :
    m.attrs = t.struct.attrs (t.LoadUVE x.st x.cycle x.data).2
      ∧ m.context = x.ctx := by
  unfold UveType.Send at h
  split at h
  · injection h with h
    rw [← h]
    exact ⟨rfl, rfl⟩
  · cases h

/-- A struct that is loaded for a sync. -/
theorem notHidden_sync {x : Sent (Attrs V σ)} {m : Message V} (h : t.Send x = some m)
    (hst : x.st ≠ .ST_INTROSPECT) (hdown : StatsDown t.struct x.data.rest) :
    ¬ m.HasHidden t.struct := by
  rw [hasHidden_iff (attrs_Send h).1]
  rintro ⟨f, hf, hhidden, hset⟩
  obtain ⟨hlocal, hperiodic⟩ := isLocal_hidden hf hhidden
  refine Bool.false_ne_true (Eq.trans (Eq.symm ?_) hset)
  refine LoadUVE_off hf hlocal hdown ?_
  cases hst' : x.st with
  | ST_SYNC => exact .inl rfl
  | ST_PERIODIC => exact .inr ⟨rfl, hperiodic⟩
  | ST_INTROSPECT => exact absurd hst' hst

/-- An entry of which introspect has nothing hidden to show. -/
theorem notHidden_introspect {x : Sent (Attrs V σ)} {m : Message V}
    (h : t.Send x = some m) (hst : x.st = .ST_INTROSPECT)
    (hdown : StatsDown t.struct x.data.rest)
    (hnone : ∀ f ∈ t.struct.fields, f.hidden = true → ¬ Held t f x.data.rest) :
    ¬ m.HasHidden t.struct := by
  rw [hasHidden_iff (attrs_Send h).1, hst]
  rintro ⟨f, hf, hhidden, hset⟩
  exact hnone f hf hhidden
    ((LoadUVE_introspect hf (isLocal_hidden hf hhidden).1 hdown).mp hset)

-- ======================================================== the invariant

/-- The entry that an update leaves. -/
theorem filed_stored {u : Update (Attrs V σ)} {m : PerTypeMap (Attrs V σ)}
    (hm : FiledMap t m) :
    (stored t.TM t.sandesh u m).data.name = u.data.name
      ∧ StatsDown t.struct (stored t.TM t.sandesh u m).data.rest := by
  refine ⟨rfl, fun f hf hstat => ?_⟩
  refine (UpdateUVE_stat hf hstat u.data _ u.level).trans ?_
  unfold entryFor
  cases hfind : m.find u.data.name u.data.table_ with
  | none => rfl
  | some e =>
      show (if t.TM ≠ 0 then _ else _ : UveData (Attrs V σ)).rest.isset f.name = false
      split
      · exact (hm _ _ e hfind).2 f hf hstat
      · exact (hm _ _ e hfind).2 f hf hstat

theorem filed_UpdateUVE {u : Update (Attrs V σ)} {m : PerTypeMap (Attrs V σ)}
    {r : Updated (Attrs V σ)} (h : Uve.UpdateUVE t.TM t.sandesh u m = some r)
    (hm : FiledMap t m) : FiledMap t r.map := by
  intro name table e he
  rw [find_UpdateUVE h] at he
  split at he
  · rename_i hpair
    split at he
    · cases he
    · obtain rfl := Option.some.inj he
      rw [hpair.1]
      exact filed_stored hm
  · exact hm name table e he

theorem filed_SyncUVE {names tables : Order Bytes} {c : SyncCall}
    {m : PerTypeMap (Attrs V σ)}
    (hend : (Uve.SyncUVE t.TM names tables c m).stuck = false) (hm : FiledMap t m) :
    FiledMap t (Uve.SyncUVE t.TM names tables c m).map := by
  intro name table e' he'
  rw [find_SyncUVE hend] at he'
  obtain ⟨e, he, hafter⟩ := Option.bind_eq_some_iff.mp he'
  have hsame : e'.data.name = e.data.name ∧ e'.data.rest = e.data.rest := by
    unfold after aged at hafter
    split at hafter
    · split at hafter
      · split at hafter
        · cases hafter
        · obtain rfl := Option.some.inj hafter
          exact ⟨rfl, rfl⟩
      · obtain rfl := Option.some.inj hafter
        exact ⟨rfl, rfl⟩
    · obtain rfl := Option.some.inj hafter
      exact ⟨rfl, rfl⟩
  rw [hsame.1, hsame.2]
  exact hm name table e he

/-- The entries after their statistics were flushed. -/
theorem find_settleMap {names tables : Order Bytes} {c : SyncCall}
    {m : PerTypeMap (Attrs V σ)} (name table : Bytes) :
    (settleMap t names tables c m).find name table
      = (m.find name table).map (settleEntry t c) := by
  unfold settleMap PerTypeMap.find
  rw [Map.lookup_walk (Map.stuck_walk.mpr fun _ _ _ => rfl)]
  cases m.cmap_.lookup name with
  | none => rfl
  | some ts =>
      show (Map.walk tables _ ts).map.lookup table = (ts.lookup table).map _
      rw [Map.lookup_walk (Map.stuck_walk.mpr fun _ _ _ => rfl)]
      cases ts.lookup table with
      | none => rfl
      | some e => rfl

theorem filed_settleMap {names tables : Order Bytes} {c : SyncCall}
    {m : PerTypeMap (Attrs V σ)} (hm : FiledMap t m) :
    FiledMap t (settleMap t names tables c m) := by
  intro name table e' he'
  rw [find_settleMap] at he'
  obtain ⟨e, he, rfl⟩ := Option.map_eq_some_iff.mp he'
  unfold settleEntry
  split
  · exact hm name table e he
  · exact hm name table e he

-- ============================================================= the group

theorem filed_put {g : Group (Attrs V σ)} {cell : Cell} {m : PerTypeMap (Attrs V σ)}
    (hg : FiledGroup t g) (hm : FiledMap t m) :
    FiledGroup t (g.put t.sandesh cell m) := by
  intro cell'
  by_cases heq : cell' = cell
  · rw [heq, get_put]
    exact hm
  · rw [get_put_ne heq]
    exact hg cell'

theorem filed_syncCells {o : Orders} {c : SyncCall} (cells : List Cell) :
    ∀ {g : Group (Attrs V σ)}, FiledGroup t g →
      (syncCells t.TM t.sandesh o c cells g).stuck = false →
      FiledGroup t (syncCells t.TM t.sandesh o c cells g).group := by
  induction cells with
  | nil =>
      intro g hg _
      exact hg
  | cons cell cells ih =>
      intro g hg hends
      cases hstuck : (syncAt t.TM t.sandesh o c g cell).stuck with
      | true =>
          rw [syncCells_stays cells hstuck] at hends
          cases hends
      | false =>
          rw [syncCells_moves cells hstuck] at hends ⊢
          exact ih (filed_put hg (filed_SyncUVE hstuck (hg cell))) hends

theorem filed_settleGroup {o : Orders} {c : SyncCall} {g : Group (Attrs V σ)}
    (hg : FiledGroup t g) : FiledGroup t (settleGroup t o c g) := by
  refine List.foldlRecOn (motive := FiledGroup t) _ _ hg fun g hg cell _ => ?_
  exact filed_put hg (filed_settleMap (hg cell))

-- ============================================================= one call

theorem filed_new (types : Types V σ) : Filed types (TypeMaps.new types) := by
  intro tname t ht cell name table e he
  cases cell with
  | native => cases he
  | proxy p i => cases he

theorem filed_setGroup {s : TypeMaps V σ} (hs : Filed types s) {tname : Bytes}
    (ht : types.lookup tname = some t) {g : Group (Attrs V σ)} (hg : FiledGroup t g) :
    Filed types (s.setGroup tname g) := by
  intro tname' t' ht'
  by_cases heq : tname' = tname
  · subst heq
    obtain rfl := Option.some.inj (ht.symm.trans ht')
    show FiledGroup t (Function.update s.group tname' g tname')
    rw [Function.update_self]
    exact hg
  · show FiledGroup t' (Function.update s.group tname g tname')
    rw [Function.update_of_ne heq]
    exact hs tname' t' ht'

/-- What a sync of a type that returns has done. -/
theorem sync_returns {o : Orders} {c : SyncCall} {g : Group (Attrs V σ)}
    {r : SyncResult V σ} (h : t.SyncUVE o c g = some r) :
    let synced := g.SyncUVE t.TM t.sandesh o c
    synced.stuck = false ∧ r = ⟨settleGroup t o c synced.group,
      synced.sent.filterMap t.Send, synced.count⟩ := by
  unfold UveType.SyncUVE at h
  cases hstuck : (g.SyncUVE t.TM t.sandesh o c).stuck with
  | true =>
      simp only [hstuck, if_true] at h
      cases h
  | false =>
      simp only [hstuck, Bool.false_eq_true, if_false] at h
      injection h with h
      exact ⟨hstuck, h.symm⟩

/-- A message of a sync comes from an entry. -/
theorem mem_sync {o : Orders} {c : SyncCall} {g : Group (Attrs V σ)}
    {r : SyncResult V σ} (h : t.SyncUVE o c g = some r) {m : Message V}
    (hm : m ∈ r.messages) :
    ∃ k e, g.find t.sandesh k = some e
      ∧ t.Send (c.message k.name k.table e) = some m := by
  obtain ⟨hends, rfl⟩ := sync_returns h
  obtain ⟨x, hx, hsend⟩ := List.mem_filterMap.mp hm
  obtain ⟨k, e, he, rfl⟩ := exists_of_mem_sent_group hends hx
  exact ⟨k, e, he, hsend⟩

theorem filed_sync {o : Orders} {c : SyncCall} {g : Group (Attrs V σ)}
    {r : SyncResult V σ} (h : t.SyncUVE o c g = some r) (hg : FiledGroup t g) :
    FiledGroup t r.group := by
  obtain ⟨hends, rfl⟩ := sync_returns h
  exact filed_settleGroup (filed_syncCells _ hg hends)

/-- A message of `SendUVE` comes from an entry of the name. -/
theorem mem_sendUVE {o : Orders} {g : Group (Attrs V σ)} {table name ctx : Bytes}
    {m : Message V} (hm : m ∈ (t.SendUVE o table name ctx g).1) :
    ∃ k e, g.find t.sandesh k = some e ∧ k.name = name
      ∧ (table = [] ∨ k.table = table)
      ∧ t.Send ⟨name, k.table, e.data, e.level,
          if ctx = [] then .ST_INTROSPECT else .ST_SYNC, e.seqno, 0, ctx⟩ = some m := by
  unfold UveType.SendUVE Group.SendUVE at hm
  obtain ⟨x, hx, hsend⟩ := List.mem_filterMap.mp hm
  obtain ⟨part, hpart, hx⟩ := List.mem_flatMap.mp hx
  obtain ⟨cell, -, rfl⟩ := List.mem_map.mp hpart
  unfold Uve.SendUVE at hx
  cases hts : (g.get t.sandesh cell).cmap_.lookup name with
  | none =>
      rw [hts] at hx
      cases hx
  | some second =>
      rw [hts] at hx
      obtain ⟨uve_entry, -, hx⟩ := List.mem_filterMap.mp hx
      split at hx
      · cases hx
      rename_i hskip
      obtain ⟨e, he, rfl⟩ := Option.map_eq_some_iff.mp hx
      refine ⟨⟨cell, name, uve_entry⟩, e, find_eq_some.mpr ⟨second, hts, he⟩, rfl, ?_,
        hsend⟩
      rwa [not_and_or, not_not, not_not] at hskip

theorem quiet_Send {s s' : TypeMaps V σ} {tname : Bytes}
    {call : SendCall (Attrs V σ)} {out : List (Dispatched V)} (hs : Filed types s)
    (h : s.Send types tname call = some (s', out)) :
    Filed types s' ∧ (Quiet types s (.Send tname call) → HiddenStaysLocal types out) := by
  unfold TypeMaps.Send at h
  obtain ⟨t, ht, h⟩ := Option.bind_eq_some_iff.mp h
  obtain ⟨⟨send, cdata, g⟩, hupdate, h⟩ := Option.bind_eq_some_iff.mp h
  injection h with h
  injection h with hs' hout
  unfold Group.UpdateUVE at hupdate
  obtain ⟨cell, -, hupdate⟩ := Option.bind_eq_some_iff.mp hupdate
  obtain ⟨r, hr, hupdate⟩ := Option.bind_eq_some_iff.mp hupdate
  injection hupdate with hupdate
  injection hupdate with hsend hupdate
  injection hupdate with hdata hg
  refine ⟨?_, fun hquiet => ?_⟩
  · rw [← hs', ← hg]
    exact filed_setGroup hs ht (filed_put (hs tname t ht)
      (filed_UpdateUVE hr (hs tname t ht cell)))
  · intro x hx _ t' ht'
    rw [← hout] at hx
    split at hx
    · obtain rfl := List.mem_singleton.mp hx
      obtain rfl := Option.some.inj (ht.symm.trans ht')
      rw [hasHidden_iff (a := cdata.rest) rfl]
      rintro ⟨f, hf, hhidden, hset⟩
      rw [← hdata, (merged_UpdateUVE hr).2] at hset
      replace hset := (UpdateUVE_hidden hf hhidden _ _ call.Xlevel).symm.trans hset
      rw [Bool.and_eq_true] at hset
      refine Bool.false_ne_true (Eq.trans (Eq.symm ?_) hset.2)
      exact hquiet t ht f hf hhidden hset.1
    · cases hx

/-- The messages of syncs that are not for introspect. -/
theorem quiet_sync {o : Orders} {c : SyncCall} {g : Group (Attrs V σ)}
    {r : SyncResult V σ} {tname : Bytes} (ht : types.lookup tname = some t)
    (hg : FiledGroup t g) (hst : c.st ≠ .ST_INTROSPECT)
    (h : t.SyncUVE o c g = some r) :
    HiddenStaysLocal types (r.messages.map fun m => (tname, m)) := by
  intro x hx _ t' ht'
  obtain ⟨m, hm, rfl⟩ := List.mem_map.mp hx
  obtain rfl := Option.some.inj (ht.symm.trans ht')
  obtain ⟨k, e, he, hsend⟩ := mem_sync h hm
  exact notHidden_sync hsend hst (hg k.cell k.name k.table e he).2

theorem quiet_SyncAllMaps {s s' : TypeMaps V σ} {names : Order Bytes}
    {o : Bytes → Orders} {inpMap : Map Bytes UInt32} {periodic : Bool}
    {out : List (Dispatched V)} (hs : Filed types s)
    (h : s.SyncAllMaps types names o inpMap periodic = some (s', out)) :
    Filed types s' ∧ HiddenStaysLocal types out := by
  unfold TypeMaps.SyncAllMaps at h
  refine foldlM_keeps (P := fun x : TypeMaps V σ × List (Dispatched V) =>
    Filed types x.1 ∧ HiddenStaysLocal types x.2) ?_ ⟨?_, ?_⟩ h
  · intro tname _ x x' hx hturn
    unfold TypeMaps.syncTurn at hturn
    cases ht : types.lookup tname with
    | none =>
        rw [ht] at hturn
        obtain rfl := Option.some.inj hturn
        exact hx
    | some t =>
        rw [ht] at hturn
        have hsync : ∀ (stype : SendType) (cycle : UInt32), stype ≠ .ST_INTROSPECT →
            (do
              let r ← t.SyncUVE (o tname)
                ⟨[], stype, (inpMap.lookup tname).getD 0, cycle, []⟩ (x.1.group tname)
              return (x.1.setGroup tname r.group,
                x.2 ++ r.messages.map fun m => (tname, m))) = some x' →
            Filed types x'.1 ∧ HiddenStaysLocal types x'.2 := by
          intro stype cycle hst hturn
          obtain ⟨r, hr, hturn⟩ := Option.bind_eq_some_iff.mp hturn
          obtain rfl := Option.some.inj hturn
          have hg := hx.1 tname t ht
          refine ⟨filed_setGroup hx.1 ht (filed_sync hr hg), fun y hy => ?_⟩
          rcases List.mem_append.mp hy with hy | hy
          · exact hx.2 y hy
          · exact quiet_sync ht hg hst hr y hy
        cases periodic with
        | false => exact hsync .ST_SYNC 0 (by decide) hturn
        | true =>
            simp only [if_true] at hturn
            split at hturn
            · obtain rfl := Option.some.inj hturn
              exact hx
            · split at hturn
              · exact hsync .ST_PERIODIC _ (by decide) hturn
              · cases hturn
  · split
    · exact hs
    · exact hs
  · exact nofun

/-- The messages of `SendUVE` without a context. -/
theorem quiet_SendUVE {o : Orders} {g : Group (Attrs V σ)} {tname table name : Bytes}
    (ht : types.lookup tname = some t) (hg : FiledGroup t g)
    (hquiet : ∀ k e, g.find t.sandesh k = some e → k.name = name →
      table = [] ∨ k.table = table → NothingHidden t e) :
    HiddenStaysLocal types ((t.SendUVE o table name [] g).1.map fun m => (tname, m)) := by
  intro x hx _ t' ht'
  obtain ⟨m, hm, rfl⟩ := List.mem_map.mp hx
  obtain rfl := Option.some.inj (ht.symm.trans ht')
  obtain ⟨k, e, he, hname, htable, hsend⟩ := mem_sendUVE hm
  exact notHidden_introspect hsend rfl (hg k.cell k.name k.table e he).2
    (hquiet k e he hname htable)

theorem quiet_HandleRequest {s s' : TypeMaps V σ} {o : Orders} {tname : Bytes}
    {key : Option Bytes} {context : Bytes} {out : List (Dispatched V)}
    {resp : CacheResp} (hs : Filed types s)
    (h : s.HandleRequest types o tname key context = some (s', out, resp)) :
    Filed types s'
      ∧ (Quiet types s (.HandleRequest o tname key context) →
        HiddenStaysLocal types out) := by
  unfold TypeMaps.HandleRequest at h
  cases ht : types.lookup tname with
  | none =>
      rw [ht] at h
      injection h with h
      injection h with hs' h
      injection h with hout _
      rw [← hs', ← hout]
      exact ⟨hs, fun _ => nofun⟩
  | some t =>
      have hg := hs tname t ht
      rw [ht] at h
      cases key with
      | some key =>
          injection h with h
          injection h with hs' h
          injection h with hout _
          rw [← hs', ← hout]
          refine ⟨hs, fun hquiet => ?_⟩
          by_cases hcontext : context = []
          · subst hcontext
            refine quiet_SendUVE ht hg fun k e he hname _ => ?_
            refine hquiet rfl t ht k e he fun name hkey => ?_
            exact hname.trans (Option.some.inj hkey)
          · -- the answers have the context of the request
            intro x hx hnone
            obtain ⟨m, hm, rfl⟩ := List.mem_map.mp hx
            obtain ⟨k, e, -, -, -, hsend⟩ := mem_sendUVE hm
            exact absurd ((attrs_Send hsend).2.symm.trans hnone) hcontext
      | none =>
          obtain ⟨r, hr, h⟩ := Option.bind_eq_some_iff.mp h
          injection h with h
          injection h with hs' h
          injection h with hout _
          rw [← hs', ← hout]
          refine ⟨filed_setGroup hs ht (filed_sync hr hg), fun hquiet => ?_⟩
          intro x hx hnone t' ht'
          obtain ⟨m, hm, rfl⟩ := List.mem_map.mp hx
          obtain rfl := Option.some.inj (ht.symm.trans ht')
          obtain ⟨k, e, he, hsend⟩ := mem_sync hr hm
          have hcontext : context = [] := (attrs_Send hsend).2.symm.trans hnone
          refine notHidden_introspect hsend rfl (hg k.cell k.name k.table e he).2 ?_
          exact hquiet hcontext t ht k e he nofun

/-- A call that finds nothing hidden to send sends nothing hidden. -/
theorem quiet_step {s s' : TypeMaps V σ} {call : TypeCall V σ}
    {out : List (Dispatched V)} (hs : Filed types s)
    (h : s.exec types call = some (s', out)) :
    Filed types s' ∧ (Quiet types s call → HiddenStaysLocal types out) := by
  cases call with
  | Send tname call => exact quiet_Send hs h
  | SyncAllMaps names o inpMap periodic =>
      obtain ⟨hs', hout⟩ := quiet_SyncAllMaps hs h
      exact ⟨hs', fun _ => hout⟩
  | SyncIntrospect o tname table key =>
      obtain ⟨out', hout, heq⟩ := Option.map_eq_some_iff.mp h
      injection heq with hs' hout'
      unfold TypeMaps.SyncIntrospect at hout
      obtain ⟨t, ht, hout⟩ := Option.bind_eq_some_iff.mp hout
      obtain rfl := Option.some.inj hout
      rw [← hs', ← hout']
      exact ⟨hs, fun hquiet => quiet_SendUVE ht (hs tname t ht) (hquiet t ht)⟩
  | HandleRequest o tname key context =>
      obtain ⟨⟨s₁, out₁, resp⟩, hr, heq⟩ := Option.map_eq_some_iff.mp h
      injection heq with hs' hout
      rw [← hs', ← hout]
      exact quiet_HandleRequest hs hr

end Sandesh.Uve
