/-
Introspect with a key and without one.

Without a key, `HandleRequest` syncs all entries for introspect and
reports the count. With a key it goes through `SendUVE`, which loads the
entries of that name for a sync, since there is a context, and says only
whether there were any. So the answer with the key has the attributes of
the other one if none of them is kept out of a sync, and the count is
right if the name is there once.

`entries` are the entries of a name in the order in which both visit them.
-/
import Sandesh.Uve.Proofs.Hidden
import Sandesh.Uve.Proofs.Partial

namespace Sandesh.Uve

open Lib

-- ========================================================== the entries

section Entries

variable {β : Type} {TM : Nat} {T : UveSandesh β} {m : PerTypeMap β}

/-- The entries of a name in one map, in the order of the tables. -/
def mapEntries (tables : Order Bytes) (m : PerTypeMap β) (name : Bytes) :
    List (Bytes × UVEMapEntry β) :=
  match m.cmap_.lookup name with
  | none => []
  | some second => (tables.list second.keys).filterMap fun table =>
      (second.lookup table).map fun e => (table, e)

theorem mem_mapEntries {tables : Order Bytes} {name : Bytes}
    {x : Bytes × UVEMapEntry β} :
    x ∈ mapEntries tables m name ↔ m.find name x.1 = some x.2 := by
  unfold mapEntries PerTypeMap.find
  cases m.cmap_.lookup name with
  | none => exact iff_of_false List.not_mem_nil nofun
  | some second =>
      rw [List.mem_filterMap]
      constructor
      · rintro ⟨table, -, h⟩
        obtain ⟨e, he, rfl⟩ := Option.map_eq_some_iff.mp h
        exact he
      · intro h
        exact ⟨x.1, Map.mem_list_keys.mpr ⟨x.2, h⟩, Option.map_eq_some_iff.mpr ⟨x.2, h, rfl⟩⟩

theorem nodup_mapEntries (tables : Order Bytes) (m : PerTypeMap β) (name : Bytes) :
    ((mapEntries tables m name).map Prod.fst).Nodup := by
  unfold mapEntries
  cases m.cmap_.lookup name with
  | none => exact List.nodup_nil
  | some second =>
      show (((tables.list second.keys).filterMap _).map Prod.fst).Nodup
      have hfst : ((tables.list second.keys).filterMap fun table =>
          (second.lookup table).map fun e => (table, e)).map Prod.fst
          = tables.list second.keys := by
        rw [List.map_filterMap]
        refine (List.filterMap_congr fun table htable => ?_).trans List.filterMap_some
        obtain ⟨e, he⟩ := Map.mem_list_keys.mp htable
        rw [he]
        rfl
      rw [hfst]
      exact tables.nodup _

/-- `SendUVE` of all tables. -/
theorem SendUVE_entries (tables : Order Bytes) (name ctx : Bytes) (m : PerTypeMap β) :
    SendUVE tables [] name ctx m
      = ((mapEntries tables m name).map fun x =>
          ⟨name, x.1, x.2.data, x.2.level,
            if ctx = [] then .ST_INTROSPECT else .ST_SYNC, x.2.seqno, 0, ctx⟩,
        !(mapEntries tables m name).isEmpty) := by
  unfold SendUVE mapEntries
  cases m.cmap_.lookup name with
  | none => rfl
  | some second =>
      have hsent : ((tables.list second.keys).filterMap fun uve_entry =>
          if ([] : Bytes) ≠ [] ∧ uve_entry ≠ [] then none
          else (second.lookup uve_entry).map fun e =>
            (⟨name, uve_entry, e.data, e.level,
              if ctx = [] then .ST_INTROSPECT else .ST_SYNC, e.seqno, 0, ctx⟩ : Sent β))
          = ((tables.list second.keys).filterMap fun table =>
              (second.lookup table).map fun e => (table, e)).map fun x =>
            ⟨name, x.1, x.2.data, x.2.level,
              if ctx = [] then .ST_INTROSPECT else .ST_SYNC, x.2.seqno, 0, ctx⟩ := by
        rw [List.map_filterMap]
        refine List.filterMap_congr fun table _ => ?_
        rw [if_neg fun h => h.1 rfl, Option.map_map]
        rfl
      simp only [hsent, List.isEmpty_map]

/-- A sync of everything, as far as a name goes. -/
theorem SyncUVE_entries (names tables : Order Bytes) (c : SyncCall)
    (htable : c.table = []) (hseqno : c.seqno = 0) (name : Bytes) (m : PerTypeMap β) :
    (SyncUVE TM names tables c m).sent.filter (fun x => decide (x.name = name))
      = (mapEntries tables m name).map fun x => c.message name x.1 x.2 := by
  have hcovers : ∀ table, c.covers table := fun table => .inl htable
  have hwants : ∀ e : UVEMapEntry β, c.wants e.seqno := fun e => .inr hseqno
  have hend : (SyncUVE TM names tables c m).stuck = false :=
    SyncUVE_stuck.mpr fun _ table _ _ => hcovers table
  have hname : ∀ n (ts : UveTableMap β), ∀ x ∈ (syncName TM tables c n ts).sent,
      x.name = n := by
    intro n ts x hx
    obtain ⟨table, e, -, hsent, -⟩ := Map.mem_sent_walk hx
    obtain ⟨-, rfl, -⟩ := mem_sent_syncEntry hsent
    rfl
  show (Map.walk names (syncName TM tables c) m.cmap_).sent.filter _ = _
  rw [Map.filter_sent_walk (k := name) hend]
  · unfold mapEntries
    cases m.cmap_.lookup name with
    | none => rfl
    | some second =>
        show (syncName TM tables c name second).sent.filter _ = _
        rw [List.filter_eq_self.mpr fun x hx => decide_eq_true (hname name second x hx)]
        show (Map.walk tables (syncEntry TM c name) second).sent = _
        rw [Map.sent_walk (syncName_stuck.mpr fun table _ _ => hcovers table),
          List.map_filterMap, List.filterMap_eq_flatMap_toList]
        refine List.flatMap_congr fun table _ => ?_
        cases second.lookup table with
        | none => rfl
        | some e =>
            show (syncEntry TM c name table e).sent = [_]
            rw [syncEntry_covered (hcovers table), if_pos (hwants e)]
  · intro n ts hne
    refine List.filter_eq_nil_iff.mpr fun x hx heq => ?_
    exact hne ((hname n ts x hx).symm.trans (of_decide_eq_true heq))

/-- The entries of a name in the maps of a group. -/
def Group.entries (T : UveSandesh β) (o : Orders) (g : Group β) (name : Bytes) :
    List (Key × UVEMapEntry β) :=
  (g.cells o.proxies).flatMap fun cell =>
    (mapEntries (o.tables cell) (g.get T cell) name).map fun x =>
      (⟨cell, name, x.1⟩, x.2)

variable {g : Group β} {o : Orders}

theorem mem_entries {name : Bytes} {x : Key × UVEMapEntry β} :
    x ∈ g.entries T o name ↔ g.find T x.1 = some x.2 ∧ x.1.name = name := by
  unfold Group.entries
  rw [List.mem_flatMap]
  constructor
  · rintro ⟨cell, -, hx⟩
    obtain ⟨y, hy, rfl⟩ := List.mem_map.mp hx
    exact ⟨mem_mapEntries.mp hy, rfl⟩
  · rintro ⟨hfind, rfl⟩
    refine ⟨x.1.cell, mem_cells_of_find hfind _, List.mem_map.mpr ⟨(x.1.table, x.2), ?_, rfl⟩⟩
    exact mem_mapEntries.mpr hfind

theorem nodup_entries (o : Orders) (g : Group β) (name : Bytes) :
    ((g.entries T o name).map Prod.fst).Nodup := by
  unfold Group.entries
  rw [List.map_flatMap, List.nodup_flatMap]
  refine ⟨fun cell _ => ?_, ?_⟩
  · rw [List.map_map]
    have hkeys := (nodup_mapEntries (o.tables cell) (g.get T cell) name).map
      (f := fun table => (⟨cell, name, table⟩ : Key)) (fun _ _ h => by injection h)
    rwa [List.map_map] at hkeys
  · refine (nodup_cells o.proxies g).imp fun {cell cell'} hne k hk hk' => ?_
    obtain ⟨x, hx, rfl⟩ := List.mem_map.mp hk
    obtain ⟨x', hx', heq⟩ := List.mem_map.mp hk'
    obtain ⟨y, -, rfl⟩ := List.mem_map.mp hx
    obtain ⟨y', -, rfl⟩ := List.mem_map.mp hx'
    injection heq with hcell
    exact hne hcell.symm

/-- There is at most one entry if any two are the same. -/
theorem length_entries_le_one {name : Bytes} :
    (g.entries T o name).length ≤ 1
      ↔ ∀ k k' e e', g.find T k = some e → g.find T k' = some e' →
        k.name = name → k'.name = name → k = k' := by
  rw [← List.length_map Prod.fst]
  constructor
  · intro hle k k' e e' he he' hk hk'
    have hmem : k ∈ (g.entries T o name).map Prod.fst :=
      List.mem_map.mpr ⟨(k, e), mem_entries.mpr ⟨he, hk⟩, rfl⟩
    have hmem' : k' ∈ (g.entries T o name).map Prod.fst :=
      List.mem_map.mpr ⟨(k', e'), mem_entries.mpr ⟨he', hk'⟩, rfl⟩
    match (g.entries T o name).map Prod.fst, hle, hmem, hmem' with
    | [x], _, hmem, hmem' =>
        exact (List.mem_singleton.mp hmem).trans (List.mem_singleton.mp hmem').symm
  · intro hsame
    have hall : ∀ k ∈ (g.entries T o name).map Prod.fst,
        ∀ k' ∈ (g.entries T o name).map Prod.fst, k = k' := by
      intro k hk k' hk'
      obtain ⟨x, hx, rfl⟩ := List.mem_map.mp hk
      obtain ⟨x', hx', rfl⟩ := List.mem_map.mp hk'
      obtain ⟨hfind, hname⟩ := mem_entries.mp hx
      obtain ⟨hfind', hname'⟩ := mem_entries.mp hx'
      exact hsame _ _ _ _ hfind hfind' hname hname'
    have hnodup := nodup_entries (T := T) o g name
    match (g.entries T o name).map Prod.fst, hall, hnodup with
    | [], _, _ => exact Nat.zero_le 1
    | [x], _, _ => exact Nat.le_refl 1
    | x :: y :: l, hall, hnodup =>
        refine absurd (hall x List.mem_cons_self y
          (List.mem_cons_of_mem x List.mem_cons_self)) ?_
        rintro rfl
        exact (List.nodup_cons.mp hnodup).1 List.mem_cons_self

/-- `SendUVE` of all maps. -/
theorem Group.SendUVE_entries (name ctx : Bytes) :
    g.SendUVE T o [] name ctx
      = ((g.entries T o name).map fun x =>
          ⟨name, x.1.table, x.2.data, x.2.level,
            if ctx = [] then .ST_INTROSPECT else .ST_SYNC, x.2.seqno, 0, ctx⟩,
        !(g.entries T o name).isEmpty) := by
  unfold Group.SendUVE Group.entries
  refine Prod.ext ?_ ?_
  · dsimp only
    rw [List.flatMap_map, List.map_flatMap]
    refine List.flatMap_congr fun cell _ => ?_
    rw [Uve.SendUVE_entries, List.map_map]
    rfl
  · dsimp only
    rw [List.any_map]
    induction g.cells o.proxies with
    | nil => rfl
    | cons cell cells ih =>
        rw [List.any_cons, ih, List.flatMap_cons]
        show ((Uve.SendUVE _ _ _ _ _).2 || _) = _
        rw [Uve.SendUVE_entries]
        cases mapEntries (o.tables cell) (g.get T cell) name with
        | nil => rfl
        | cons x l => rfl

/-- A sync of everything, as far as a name goes. -/
theorem Group.SyncUVE_entries (c : SyncCall) (htable : c.table = [])
    (hseqno : c.seqno = 0) (name : Bytes) :
    (g.SyncUVE TM T o c).stuck = false
      ∧ (g.SyncUVE TM T o c).sent.filter (fun x => decide (x.name = name))
        = (g.entries T o name).map fun x => c.message name x.1.table x.2 := by
  have hends : (g.SyncUVE TM T o c).stuck = false := by
    refine (syncCells_stuck _ (nodup_cells _ g)).mpr fun cell _ => ?_
    exact SyncUVE_stuck.mpr fun _ table _ _ => .inl htable
  refine ⟨hends, ?_⟩
  unfold Group.SyncUVE Group.entries at *
  rw [syncCells_sent _ (nodup_cells _ g) hends, List.filter_flatMap, List.map_flatMap]
  refine List.flatMap_congr fun cell _ => ?_
  unfold syncAt
  rw [Uve.SyncUVE_entries _ _ c htable hseqno, List.map_map]
  rfl

end Entries

-- ========================================================== the queries

variable {V σ : Type} {types : Types V σ} {t : UveType V σ}

/-- The messages that are answered over http. -/
def answered (out : List (Dispatched V)) : List (Dispatched V) :=
  out.filter fun x => x.2.Dispatch = .http

/-- A message without the hint that says what it was loaded for. -/
def content (x : Dispatched V) : Dispatched V := (x.1, { x.2 with sync := false })

/-- A request with the key is answered with those messages of the request
without one that have its name, and with their number. -/
def QueriesAgree (types : Types V σ) (s : TypeMaps V σ) (o : Orders)
    (tname key context : Bytes) : Prop :=
  ∃ s₁ out₁ resp₁ s₂ out₂ resp₂,
    s.HandleRequest types o tname (some key) context = some (s₁, out₁, resp₁)
      ∧ s.HandleRequest types o tname none context = some (s₂, out₂, resp₂)
      ∧ (answered out₁).map content
        = ((answered out₂).filter fun x => x.2.name = key).map content
      ∧ resp₁.returned.toNat = (answered out₁).length

/-- No entry of the name has an attribute to show that is not part of a
sync, and there is at most one. -/
def PlainKey (types : Types V σ) (s : TypeMaps V σ) (tname key : Bytes) : Prop :=
  ∀ t, types.lookup tname = some t →
    (∀ k e, (s.group tname).find t.sandesh k = some e → k.name = key →
      ∀ f ∈ t.struct.fields, t.isLocal f → ¬ Held t f e.data.rest)
    ∧ ∀ k k' e e', (s.group tname).find t.sandesh k = some e →
      (s.group tname).find t.sandesh k' = some e' →
      k.name = key → k'.name = key → k = k'

theorem Send_of_not_periodic {x : Sent (Attrs V σ)} (h : x.st ≠ .ST_PERIODIC) :
    t.Send x = some (t.cached_message x) := by
  unfold UveType.Send UveType.LoadUVE
  simp [h]

theorem isHttp_ne_nil {context : Bytes} (h : isHttp context = true) : context ≠ [] := by
  rintro rfl
  revert h
  decide

theorem answered_eq_self {out : List (Dispatched V)} {context : Bytes}
    (hhttp : isHttp context = true) (h : ∀ x ∈ out, x.2.context = context) :
    answered out = out := by
  refine List.filter_eq_self.mpr fun x hx => decide_eq_true ?_
  unfold Message.Dispatch
  rw [h x hx, if_pos hhttp]

/-- The two messages of an entry. -/
theorem content_eq_iff {tname : Bytes} {e : UVEMapEntry (Attrs V σ)}
    (hdown : StatsDown t.struct e.data.rest) (name table context : Bytes) :
    content (tname, t.cached_message
        ⟨name, table, e.data, e.level, .ST_SYNC, e.seqno, 0, context⟩)
      = content (tname, t.cached_message
        ⟨name, table, e.data, e.level, .ST_INTROSPECT, e.seqno, 0, context⟩)
      ↔ ∀ f ∈ t.struct.fields, t.isLocal f → ¬ Held t f e.data.rest := by
  have hattrs : t.struct.attrs (t.LoadUVE .ST_SYNC 0 e.data).2
        = t.struct.attrs (t.LoadUVE .ST_INTROSPECT 0 e.data).2
      ↔ ∀ f ∈ t.struct.fields, t.isLocal f → ¬ Held t f e.data.rest := by
    unfold UveStruct.attrs
    rw [List.map_inj_left]
    refine forall₂_congr fun f hf => ?_
    rw [Prod.mk.injEq, and_iff_right rfl]
    exact LoadUVE_written_iff hf hdown
  rw [← hattrs]
  unfold content UveType.cached_message
  simp

theorem filterMap_Send {l : List (Sent (Attrs V σ))}
    (h : ∀ x ∈ l, x.st ≠ .ST_PERIODIC) :
    l.filterMap t.Send = l.map t.cached_message := by
  rw [← List.filterMap_eq_map]
  exact List.filterMap_congr fun x hx => Send_of_not_periodic (h x hx)

/-- The answer of a request for an entry that was loaded this way. -/
def answer (t : UveType V σ) (tname key context : Bytes) (st : SendType)
    (x : Key × UVEMapEntry (Attrs V σ)) : Dispatched V :=
  (tname, t.cached_message
    ⟨key, x.1.table, x.2.data, x.2.level, st, x.2.seqno, 0, context⟩)

theorem answered_answers {tname key context : Bytes} {st : SendType}
    (hhttp : isHttp context = true) (l : List (Key × UVEMapEntry (Attrs V σ))) :
    answered (l.map (answer t tname key context st))
      = l.map (answer t tname key context st) := by
  refine answered_eq_self hhttp fun x hx => ?_
  obtain ⟨y, -, rfl⟩ := List.mem_map.mp hx
  rfl

/-- The request with a key. -/
theorem keyed_answer (s : TypeMaps V σ) {tname : Bytes}
    (ht : types.lookup tname = some t) {context : Bytes} (hctx : context ≠ [])
    (o : Orders) (key : Bytes) :
    s.HandleRequest types o tname (some key) context
      = some (s, ((s.group tname).entries t.sandesh o key).map
          (answer t tname key context .ST_SYNC),
        ⟨if ((s.group tname).entries t.sandesh o key).isEmpty then 0 else 1,
          some t.P⟩) := by
  unfold TypeMaps.HandleRequest UveType.SendUVE
  simp only [ht, Group.SendUVE_entries, if_neg hctx]
  rw [filterMap_Send, List.map_map, List.map_map]
  · cases ((s.group tname).entries t.sandesh o key) with
    | nil => rfl
    | cons x l => rfl
  · intro x hx
    obtain ⟨y, -, rfl⟩ := List.mem_map.mp hx
    exact nofun

/-- The request without a key, as far as a name goes. -/
theorem unkeyed_answer {s : TypeMaps V σ} (hs : Filed types s) {tname : Bytes}
    (ht : types.lookup tname = some t) {context : Bytes}
    (hhttp : isHttp context = true) (o : Orders) (key : Bytes) :
    ∃ s' out resp, s.HandleRequest types o tname none context = some (s', out, resp)
      ∧ (answered out).filter (fun x => x.2.name = key)
        = ((s.group tname).entries t.sandesh o key).map
            (answer t tname key context .ST_INTROSPECT) := by
  obtain ⟨hends, hsent⟩ : ((s.group tname).SyncUVE t.TM t.sandesh o
      ⟨[], .ST_INTROSPECT, 0, 0, context⟩).stuck = false ∧ _ :=
    Group.SyncUVE_entries ⟨[], .ST_INTROSPECT, 0, 0, context⟩ rfl rfl key
  have hentry := fun x => exists_of_mem_sent_group (x := x) hends
  have hsync : ∃ r, t.SyncUVE o ⟨[], .ST_INTROSPECT, 0, 0, context⟩ (s.group tname)
      = some r := by
    unfold UveType.SyncUVE
    simp only [hends, Bool.false_eq_true, if_false]
    exact ⟨_, rfl⟩
  obtain ⟨r, hr⟩ := hsync
  refine ⟨s.setGroup tname r.group, r.messages.map fun m => (tname, m),
    ⟨r.count, some t.P⟩, ?_, ?_⟩
  · unfold TypeMaps.HandleRequest
    simp only [ht, hr]
    rfl
  have hmessages : r.messages = ((s.group tname).SyncUVE t.TM t.sandesh o
      ⟨[], .ST_INTROSPECT, 0, 0, context⟩).sent.map t.cached_message := by
    obtain ⟨-, rfl⟩ := sync_returns hr
    refine filterMap_Send fun x hx => ?_
    obtain ⟨k, e, -, rfl⟩ := hentry x hx
    exact nofun
  rw [answered_eq_self hhttp, hmessages, List.map_map, List.filter_map]
  · -- a message has the name that its entry is filed under
    have hfilter : ((s.group tname).SyncUVE t.TM t.sandesh o
          ⟨[], .ST_INTROSPECT, 0, 0, context⟩).sent.filter
          ((fun x : Dispatched V => decide (x.2.name = key))
            ∘ (fun m => (tname, m)) ∘ t.cached_message)
        = _ := (List.filter_congr fun x hx => by
          obtain ⟨k, e, he, rfl⟩ := hentry x hx
          exact congrArg (fun n => decide (n = key))
            (hs tname t ht k.cell k.name k.table e he).1).trans hsent
    rw [hfilter, List.map_map]
    rfl
  · intro x hx
    obtain ⟨m, hm, rfl⟩ := List.mem_map.mp hx
    rw [hmessages] at hm
    obtain ⟨y, hy, rfl⟩ := List.mem_map.mp hm
    obtain ⟨k, e, -, rfl⟩ := hentry y hy
    rfl

/-- The count is a `bool`. -/
theorem returned_eq_length {α : Type} (l : List α) :
    (if l.isEmpty then (0 : UInt32) else 1).toNat = l.length ↔ l.length ≤ 1 := by
  match l with
  | [] => exact iff_of_true rfl (Nat.zero_le 1)
  | [x] => exact iff_of_true rfl (Nat.le_refl 1)
  | x :: y :: l =>
      refine iff_of_false ?_ ?_
      · show (1 : UInt32).toNat ≠ l.length + 1 + 1
        simp
      · show ¬ l.length + 1 + 1 ≤ 1
        omega

theorem queriesAgree_iff {s : TypeMaps V σ} (hs : Filed types s) {context : Bytes}
    (hhttp : isHttp context = true) (o : Orders) (tname key : Bytes) :
    QueriesAgree types s o tname key context ↔ PlainKey types s tname key := by
  cases ht : types.lookup tname with
  | none =>
      have hnone : ∀ key, s.HandleRequest types o tname key context
          = some (s, [], ⟨0, none⟩) := by
        intro key
        unfold TypeMaps.HandleRequest
        rw [ht]
      refine iff_of_true ⟨_, _, _, _, _, _, hnone _, hnone _, rfl, rfl⟩ ?_
      intro t ht'
      rw [ht] at ht'
      cases ht'
  | some t =>
      have hkeyed := keyed_answer s ht (isHttp_ne_nil hhttp) o key
      obtain ⟨s₂, out₂, resp₂, hunkeyed, hout₂⟩ := unkeyed_answer hs ht hhttp o key
      have hcontent : ((((s.group tname).entries t.sandesh o key).map
            (answer t tname key context .ST_SYNC)).map content
          = (((s.group tname).entries t.sandesh o key).map
            (answer t tname key context .ST_INTROSPECT)).map content)
        ↔ ∀ k e, (s.group tname).find t.sandesh k = some e → k.name = key →
            ∀ f ∈ t.struct.fields, t.isLocal f → ¬ Held t f e.data.rest := by
        rw [List.map_map, List.map_map, List.map_inj_left]
        constructor
        · intro h k e he hname
          exact (content_eq_iff (hs tname t ht k.cell k.name k.table e he).2 key k.table
            context).mp (h (k, e) (mem_entries.mpr ⟨he, hname⟩))
        · intro h x hx
          obtain ⟨he, hname⟩ := mem_entries.mp hx
          exact (content_eq_iff (hs tname t ht _ _ _ x.2 he).2 key x.1.table
            context).mpr (h x.1 x.2 he hname)
      have hcount : (if ((s.group tname).entries t.sandesh o key).isEmpty
            then (0 : UInt32) else 1).toNat
          = (((s.group tname).entries t.sandesh o key).map
            (answer t tname key context .ST_SYNC)).length
        ↔ ∀ k k' e e', (s.group tname).find t.sandesh k = some e →
            (s.group tname).find t.sandesh k' = some e' →
            k.name = key → k'.name = key → k = k' := by
        rw [List.length_map, returned_eq_length, length_entries_le_one]
      constructor
      · rintro ⟨s₁, out₁, resp₁, s₂', out₂', resp₂', h₁, h₂, hsame, hreturned⟩ t' ht'
        obtain rfl := Option.some.inj (ht.symm.trans ht')
        obtain ⟨-, h₁⟩ := Prod.ext_iff.mp (Option.some.inj (hkeyed.symm.trans h₁))
        obtain ⟨rfl, rfl⟩ := Prod.ext_iff.mp h₁
        obtain ⟨-, h₂⟩ := Prod.ext_iff.mp (Option.some.inj (hunkeyed.symm.trans h₂))
        obtain ⟨rfl, -⟩ := Prod.ext_iff.mp h₂
        rw [answered_answers hhttp] at hsame hreturned
        rw [hout₂] at hsame
        exact ⟨hcontent.mp hsame, hcount.mp hreturned⟩
      · intro hplain
        obtain ⟨hlocal, hone⟩ := hplain t ht
        refine ⟨_, _, _, s₂, out₂, resp₂, hkeyed, hunkeyed, ?_, ?_⟩
        · rw [answered_answers hhttp, hout₂]
          exact hcontent.mpr hlocal
        · rw [answered_answers hhttp]
          exact hcount.mpr hone

/-- What introspect shows of an entry that has a hidden attribute,
`SyncIntrospect` sends without a context. -/
theorem introspect_sends_hidden {s : TypeMaps V σ} (hs : Filed types s)
    {tname key : Bytes} (ht : types.lookup tname = some t) {k : Key}
    {e : UVEMapEntry (Attrs V σ)} (he : (s.group tname).find t.sandesh k = some e)
    (hname : k.name = key) (hheld : ¬ NothingHidden t e) (o : Orders) :
    ∃ out, s.SyncIntrospect types o tname [] key = some out
      ∧ ¬ HiddenStaysLocal types out := by
  unfold TypeMaps.SyncIntrospect UveType.SendUVE
  simp only [ht, Group.SendUVE_entries]
  refine ⟨_, rfl, fun hquiet => hheld fun f hf hhidden hheld => ?_⟩
  rw [filterMap_Send, List.map_map, List.map_map] at hquiet
  · refine hquiet _ (List.mem_map.mpr ⟨(k, e), mem_entries.mpr ⟨he, hname⟩, rfl⟩) rfl t ht ?_
    refine (hasHidden_iff rfl).mpr ⟨f, hf, hhidden, ?_⟩
    exact (LoadUVE_introspect hf (isLocal_hidden hf hhidden).1
      (hs tname t ht k.cell k.name k.table e he).2).mpr hheld
  · intro x hx
    obtain ⟨y, -, rfl⟩ := List.mem_map.mp hx
    exact nofun

theorem filed_run (types : Types V σ) (calls : List (TypeCall V σ)) {s : TypeMaps V σ}
    (hrun : (typeMaps types).run (TypeMaps.new types) calls = some s) :
    Filed types s := by
  refine Machine.run_keeps (I := Filed types) ?_ calls (filed_new types) hrun
  intro s call s' hs hstep
  obtain ⟨⟨s₁, out⟩, hexec, rfl⟩ := Option.map_eq_some_iff.mp hstep
  exact (quiet_step hs hexec).1

/-- In every run of calls that find nothing hidden to send, no message
without a context has a hidden attribute. In every state, introspect with
and without a key agree exactly on the names that are there at most once
and have no attribute to show that is not part of a sync. -/
theorem hidden_and_queries (types : Types V σ) (calls : List (TypeCall V σ)) :
    ((typeMaps types).Each (fun s call _ => Quiet types s call) (TypeMaps.new types)
        calls →
      (typeMaps types).Each (fun s call _ => ∀ s' out,
        s.exec types call = some (s', out) → HiddenStaysLocal types out)
        (TypeMaps.new types) calls)
    ∧ ∀ s, (typeMaps types).run (TypeMaps.new types) calls = some s →
      ∀ o tname key context, isHttp context = true →
        (QueriesAgree types s o tname key context ↔ PlainKey types s tname key) := by
  refine ⟨?_, fun s hrun o tname key context hhttp => ?_⟩
  · refine Machine.each_of (I := Filed types) ?_ calls (filed_new types)
    intro s call s' hs hstep hquiet
    obtain ⟨⟨s₁, out⟩, hexec, rfl⟩ := Option.map_eq_some_iff.mp hstep
    refine ⟨(quiet_step hs hexec).1, fun s₂ out₂ hexec₂ => ?_⟩
    exact (quiet_step hs hexec₂).2 hquiet
  · exact queriesAgree_iff (filed_run types calls hrun) hhttp o tname key

-- ============================================================ an example

/-- A table with the sample alone. -/
def sampleTypes : Types Nat Unit := (∅ : Types Nat Unit).insert (lit "Sample") sampleType

/-- A call that sets one optional field of the sample. -/
def sampleSend (snm : Bytes) : TypeCall Nat Unit :=
  .Send (lit "Sample")
    { data := (sampleUpdate 1 snm 5).data
      Xlevel := .SYS_NOTICE
      table := []
      mono_usec := 1
      partition := -1
      clock := 0 }

theorem sample_lookup : sampleTypes.lookup (lit "Sample") = some sampleType :=
  Finmap.lookup_insert _

/-- Any order of iteration. -/
noncomputable def anyOrders : Orders := ⟨.any, fun _ => .any, fun _ => .any⟩

/-- A call that sets a field which is not hidden. -/
theorem hidden_and_queries_sample :
    (typeMaps sampleTypes).Each (fun s call _ => ∀ s' out,
        s.exec sampleTypes call = some (s', out) → HiddenStaysLocal sampleTypes out)
        (TypeMaps.new sampleTypes) [sampleSend (lit "x")]
      ∧ ∃ s, (typeMaps sampleTypes).run (TypeMaps.new sampleTypes)
          [sampleSend (lit "x")] = some s
        ∧ (QueriesAgree sampleTypes s anyOrders (lit "Sample") (lit "one") (lit "http%1")
          ↔ PlainKey sampleTypes s (lit "Sample") (lit "one")) := by
  refine ⟨(hidden_and_queries sampleTypes _).1 ?_, _, rfl,
    (hidden_and_queries sampleTypes [sampleSend (lit "x")]).2 _ rfl anyOrders
      (lit "Sample") (lit "one") (lit "http%1") (by decide)⟩
  intro s' _
  refine ⟨fun t ht f hf _ hstat => ?_, trivial⟩
  obtain rfl := Option.some.inj (sample_lookup.symm.trans ht)
  rw [sample_noStats f hf] at hstat
  cases hstat

/-- A call that sets the hidden field, and then `SyncIntrospect`: the field
goes to the collector. -/
theorem hidden_sent_to_collector :
    ∃ s out, (typeMaps sampleTypes).run (TypeMaps.new sampleTypes)
        [sampleSend (lit "h")] = some s
      ∧ s.exec sampleTypes (.SyncIntrospect anyOrders (lit "Sample") [] (lit "one"))
        = some (s, out)
      ∧ ¬ HiddenStaysLocal sampleTypes out := by
  have hrun : ∃ s e, (typeMaps sampleTypes).run (TypeMaps.new sampleTypes)
        [sampleSend (lit "h")] = some s
      ∧ (s.group (lit "Sample")).find sampleType.sandesh
        ⟨.native, lit "one", lit "ObjectSample"⟩ = some e
      ∧ e.data.rest.isset (lit "h") = true := ⟨_, _, rfl, rfl, rfl⟩
  obtain ⟨s, e, hrun, he, hset⟩ := hrun
  have hheld : ¬ NothingHidden sampleType e := by
    intro hnone
    exact hnone ⟨lit "h", .T_OPTIONAL, true, none⟩
      (List.mem_cons_of_mem _ (List.mem_cons_of_mem _ List.mem_cons_self)) rfl hset
  obtain ⟨out, hout, hleak⟩ := introspect_sends_hidden (filed_run sampleTypes _ hrun)
    sample_lookup he rfl hheld anyOrders
  refine ⟨s, out, hrun, ?_, hleak⟩
  simp only [TypeMaps.exec, hout, Option.map_some]

end Sandesh.Uve
