/-
A collector that has missed some updates, and the sync that is to make up
for them.

The collector knows the pairs that are live. It has the messages of the
first updates (`received`), none of the others (`lost`), and then those of
a sync from the last sequence number it has seen. A sync sends entries of
the cache, and the cache has no entry for a pair that was deleted: what was
updated in the meantime arrives, what was deleted does not. So the collector
ends with the pairs of the cache exactly when no pair it had as live was
deleted last among the lost updates (`NoneWithdrawn`).
-/
import Sandesh.Uve.Proofs.Cache
import Sandesh.Uve.Proofs.Expiry

namespace Sandesh.Uve

open Lib

variable {β : Type} {T : UveSandesh β}

-- ======================================================= the two parties

/-- Updates one after the other, with the messages they are sent in. -/
def updateAll (T : UveSandesh β) :
    PerTypeMap β → List (Update β) → Option (PerTypeMap β × List (UveData β))
  | m, [] => some (m, [])
  | m, u :: us => do
      let r ← UpdateUVE 0 T u m
      let (m', sent) ← updateAll T r.map us
      pure (m', if r.send then r.data :: sent else sent)

/-- The pairs a collector has as live. -/
abbrev Live := Finset (Bytes × Bytes)

/-- What a receiver has behind a message. -/
def Live.receive (live : Live) (data : UveData β) : Live :=
  if data.deleted then live.erase (data.name, data.table_)
  else insert (data.name, data.table_) live

/-- The sequence number of the last update in a list. -/
def lastSeqno (us : List (Update β)) : UInt32 := (us.getLast?.map Update.seqnum).getD 0

/-- `SyncUVE("", ST_SYNC, n, 0, "")`. -/
def syncFrom (names tables : Order Bytes) (n : UInt32) (m : PerTypeMap β) :
    List (UveData β) :=
  (SyncUVE 0 names tables ⟨[], .ST_SYNC, n, 0, []⟩ m).sent.map Sent.data

/-- What the generated `UpdateUVE` does to the members the cache reads: it
copies the name, leaves the table alone, and sends. -/
structure UveSandesh.Generated (T : UveSandesh β) : Prop where
  name : ∀ data tdata mono_usec level,
    (T.UpdateUVE data tdata mono_usec level).tdata.name = data.name
  table : ∀ data tdata mono_usec level,
    (T.UpdateUVE data tdata mono_usec level).tdata.table_ = tdata.table_
  deleted : T.CopiesDeleted
  send : ∀ data tdata mono_usec level, (T.UpdateUVE data tdata mono_usec level).send = true

/-- The last update of each pair in a list. -/
def lasts (us : List (Update β)) : Last β :=
  us.foldl (fun last u => last.next (.update u)) fun _ _ => none

/-- Of the pairs whose last received update was not a deletion, none has a
deletion as its last lost one. -/
def NoneWithdrawn (received lost : List (Update β)) : Prop :=
  ∀ name table u v, lasts received name table = some u → u.data.deleted = false →
    lasts lost name table = some v → v.data.deleted = false

-- ========================================================= last updates

theorem foldl_next (us : List (Update β)) : ∀ (last : Last β) (name table : Bytes),
    us.foldl (fun last u => last.next (.update u)) last name table
      = (lasts us name table).or (last name table) := by
  induction us using List.reverseRecOn with
  | nil =>
      intro last name table
      rfl
  | append_singleton us u ih =>
      intro last name table
      rw [lasts, List.foldl_concat, List.foldl_concat, next_update, next_update]
      split
      · rfl
      · exact ih last name table

theorem lasts_append (us vs : List (Update β)) (name table : Bytes) :
    lasts (us ++ vs) name table = (lasts vs name table).or (lasts us name table) := by
  rw [lasts, List.foldl_append]
  exact foldl_next vs (lasts us) name table

theorem lasts_concat (us : List (Update β)) (u : Update β) :
    lasts (us ++ [u]) = (lasts us).next (.update u) :=
  List.foldl_concat _ _ _ _

theorem mem_of_lasts {us : List (Update β)} {name table : Bytes} {u : Update β}
    (h : lasts us name table = some u) : u ∈ us := by
  induction us using List.reverseRecOn with
  | nil => cases h
  | append_singleton us v ih =>
      rw [lasts_concat, next_update] at h
      split at h
      · injection h with h
        exact List.mem_append_right us (h ▸ List.mem_singleton_self v)
      · exact List.mem_append_left [v] (ih h)

/-- The last update of the pair was not a deletion. -/
def Last.Alive (last : Last β) (name table : Bytes) : Prop :=
  ∃ u, last name table = some u ∧ u.data.deleted = false

theorem alive_next {last : Last β} {u : Update β} {name table : Bytes} :
    (last.next (.update u)).Alive name table
      ↔ if name = u.data.name ∧ table = u.data.table_ then u.data.deleted = false
        else last.Alive name table := by
  unfold Last.Alive
  rw [next_update]
  split
  · simp
  · rfl

-- ============================================================ the cache

/-- The cache has the pairs whose last update was not a deletion, under the
sequence number of that update, and its data can be told from the key. -/
structure Tracks (last : Last β) (m : PerTypeMap β) : Prop where
  present : ∀ name table, (m.find name table).isSome ↔ last.Alive name table
  seqno : ∀ {name table e u}, m.find name table = some e →
    last name table = some u → e.seqno = u.seqnum
  data : ∀ {name table e}, m.find name table = some e →
    e.data.name = name ∧ e.data.table_ = table ∧ e.data.deleted = false

theorem tracks_new : Tracks (fun _ _ => none) (PerTypeMap.new T) where
  present := by
    intro name table
    refine ⟨nofun, ?_⟩
    intro h
    obtain ⟨u, hu, -⟩ := h
    cases hu
  seqno := nofun
  data := nofun

/-- A collector that has received nothing. -/
theorem nothing_alive (name table : Bytes) :
    (name, table) ∈ (∅ : Live) ↔ Last.Alive (β := β) (fun _ _ => none) name table := by
  refine ⟨nofun, ?_⟩
  intro h
  obtain ⟨u, hu, -⟩ := h
  cases hu

/-- The data `T::UpdateUVE` is given. -/
theorem entryFor_data {last : Last β} {m : PerTypeMap β} (hm : Tracks last m) (u : Update β) :
    (entryFor 0 T u m.dsconf_ (m.find u.data.name u.data.table_)).data.table_ = u.data.table_
      ∧ (entryFor 0 T u m.dsconf_ (m.find u.data.name u.data.table_)).data.deleted
        = false := by
  cases hfind : m.find u.data.name u.data.table_ with
  | none => exact ⟨rfl, rfl⟩
  | some e => exact (hm.data hfind).2

theorem tracks_update (hT : T.Generated) {last : Last β} {m : PerTypeMap β} {u : Update β}
    {r : Updated β} (hm : Tracks last m) (h : UpdateUVE 0 T u m = some r) :
    Tracks (last.next (.update u)) r.map where
  present := fun name table => present_update h (hm.present name table)
  seqno := by
    intro name table e v he hv
    rcases found_update h he hv with ⟨rfl, -, rfl⟩ | ⟨he, hv⟩
    · exact stored_seqno
    · exact hm.seqno he hv
  data := by
    intro name table e he
    rw [find_UpdateUVE h] at he
    by_cases hpair : name = u.data.name ∧ table = u.data.table_
    · rw [if_pos hpair] at he
      obtain ⟨rfl, rfl⟩ := hpair
      cases hdel : u.data.deleted with
      | true =>
          rw [hdel] at he
          cases he
      | false =>
          rw [hdel] at he
          injection he with he
          obtain ⟨htable, hdeleted⟩ := entryFor_data (T := T) hm u
          rw [← he]
          exact ⟨hT.name _ _ _ _, (hT.table _ _ _ _).trans htable,
            hT.deleted _ _ _ _ hdel hdeleted⟩
    · rw [if_neg hpair] at he
      exact hm.data he

-- ======================================================== the collector

theorem mem_receive {live : Live} {data : UveData β} {name table : Bytes} :
    (name, table) ∈ live.receive data
      ↔ if name = data.name ∧ table = data.table_ then data.deleted = false
        else (name, table) ∈ live := by
  unfold Live.receive
  cases hdel : data.deleted with
  | true =>
      rw [if_pos rfl, Finset.mem_erase, ne_eq, Prod.mk.injEq]
      split
      · rename_i hpair
        exact ⟨fun h => absurd hpair h.1, nofun⟩
      · rename_i hpair
        exact ⟨fun h => h.2, fun h => ⟨hpair, h⟩⟩
  | false =>
      rw [if_neg Bool.false_ne_true, Finset.mem_insert, Prod.mk.injEq]
      split
      · rename_i hpair
        exact ⟨fun _ => rfl, fun _ => .inl hpair⟩
      · rename_i hpair
        exact ⟨fun h => h.resolve_left hpair, .inr⟩

/-- What is sent for an update. -/
theorem sent_UpdateUVE (hT : T.Generated) {u : Update β} {m : PerTypeMap β} {r : Updated β}
    (h : UpdateUVE 0 T u m = some r) :
    r.send = true ∧ r.data.name = u.data.name ∧ r.data.table_ = u.data.table_
      ∧ r.data.deleted = u.data.deleted := by
  unfold UpdateUVE at h
  by_cases htable : u.data.table_ = []
  · rw [if_pos htable] at h
    cases h
  · rw [if_neg htable] at h
    injection h with h
    rw [← h]
    exact ⟨hT.send _ _ _ _, rfl, rfl, rfl⟩

/-- The collector has the live pairs as long as nothing is lost, and the
cache has them anyway. -/
theorem updateAll_tracks (hT : T.Generated) (us : List (Update β)) :
    ∀ {last : Last β} {live : Live} {m m' : PerTypeMap β} {sent : List (UveData β)},
      Tracks last m → (∀ name table, (name, table) ∈ live ↔ last.Alive name table) →
      updateAll T m us = some (m', sent) →
      Tracks (us.foldl (fun last u => last.next (.update u)) last) m'
        ∧ ∀ name table, (name, table) ∈ sent.foldl Live.receive live
          ↔ (us.foldl (fun last u => last.next (.update u)) last).Alive name table := by
  induction us with
  | nil =>
      intro last live m m' sent hm hlive h
      injection h with h
      injection h with hm' hsent
      subst hm' hsent
      exact ⟨hm, hlive⟩
  | cons u us ih =>
      intro last live m m' sent hm hlive h
      obtain ⟨r, hr, h⟩ := Option.bind_eq_some_iff.mp h
      obtain ⟨⟨m₁, sent₁⟩, hrest, h⟩ := Option.bind_eq_some_iff.mp h
      obtain ⟨hsend, hname, htable, hdeleted⟩ := sent_UpdateUVE hT hr
      obtain ⟨rfl, rfl⟩ : m₁ = m' ∧ r.data :: sent₁ = sent := by
        simpa [hsend] using h
      have hlive' : ∀ name table, (name, table) ∈ live.receive r.data
          ↔ (last.next (.update u)).Alive name table := by
        intro name table
        rw [mem_receive, hname, htable, hdeleted, alive_next, hlive]
      have hend := ih (tracks_update hT hm hr) hlive' hrest
      exact hend

/-- Messages that delete nothing only add pairs. -/
theorem mem_receive_all {name table : Bytes} (sent : List (UveData β)) :
    ∀ {live : Live}, (∀ data ∈ sent, data.deleted = false) →
      ((name, table) ∈ sent.foldl Live.receive live
        ↔ (name, table) ∈ live
          ∨ ∃ data ∈ sent, name = data.name ∧ table = data.table_) := by
  induction sent with
  | nil =>
      intro live _
      simp
  | cons data sent ih =>
      intro live hdel
      rw [List.foldl_cons, ih fun d hd => hdel d (List.mem_cons_of_mem data hd), mem_receive,
        List.exists_mem_cons_iff]
      have hdata := hdel data List.mem_cons_self
      split
      · rename_i hpair
        exact ⟨fun _ => .inr (.inl hpair), fun _ => .inl hdata⟩
      · rename_i hpair
        simp [hpair]

-- ============================================================= the sync

/-- What a sync sends comes from the entries it wants. -/
theorem mem_syncFrom {last : Last β} {m : PerTypeMap β} (hm : Tracks last m)
    {names tables : Order Bytes} {n : UInt32} {data : UveData β} :
    data ∈ syncFrom names tables n m
      ↔ ∃ e, m.find data.name data.table_ = some e ∧ (n < e.seqno ∨ n = 0)
        ∧ e.data = data := by
  have hend : (SyncUVE 0 names tables ⟨[], .ST_SYNC, n, 0, []⟩ m).stuck = false :=
    SyncUVE_stuck.mpr fun _ _ _ _ => .inl rfl
  constructor
  · intro h
    obtain ⟨x, hx, rfl⟩ := List.mem_map.mp h
    obtain ⟨e, he, hwants, hsent, -⟩ := mem_sent_SyncUVE hx
    have hdata : x.data = e.data := congrArg Sent.data hsent
    obtain ⟨hname, htable, -⟩ := hm.data he
    rw [hdata, hname, htable]
    exact ⟨e, he, hwants, rfl⟩
  · intro h
    obtain ⟨e, he, hwants, rfl⟩ := h
    have hfilter := sent_SyncUVE hend e.data.name e.data.table_
    have hwants' : SyncCall.wants ⟨[], .ST_SYNC, n, 0, []⟩ e.seqno := hwants
    rw [he, Option.map_some, Option.getD_some, if_pos hwants'] at hfilter
    have hmem := (List.mem_filter.mp (hfilter ▸ List.mem_singleton_self _)).1
    exact List.mem_map.mpr ⟨_, hmem, rfl⟩

/-- What was updated after the received updates is wanted. -/
theorem lastSeqno_lt {received lost : List (Update β)}
    (hinc : (received ++ lost).Pairwise fun u v => u.seqnum < v.seqnum) {v : Update β}
    (hv : v ∈ lost) : lastSeqno received < v.seqnum ∨ lastSeqno received = 0 := by
  rw [List.pairwise_append] at hinc
  cases hlast : received.getLast? with
  | none =>
      rw [lastSeqno, hlast]
      exact .inr rfl
  | some u =>
      rw [lastSeqno, hlast]
      exact .inl (hinc.2.2 u (List.mem_of_getLast? hlast) v hv)

/-- What the collector ends with. -/
theorem mem_resynced {last last₁ : Last β} {m : PerTypeMap β} (hm : Tracks last m)
    {live : Live} (hlive : ∀ name table, (name, table) ∈ live ↔ last₁.Alive name table)
    (names tables : Order Bytes) (n : UInt32) (name table : Bytes) :
    (name, table) ∈ (syncFrom names tables n m).foldl Live.receive live
      ↔ last₁.Alive name table
        ∨ ∃ e, m.find name table = some e ∧ (n < e.seqno ∨ n = 0) := by
  have hdeleted : ∀ data ∈ syncFrom names tables n m, data.deleted = false := by
    intro data hdata
    obtain ⟨e, he, -, rfl⟩ := (mem_syncFrom hm).mp hdata
    exact (hm.data he).2.2
  rw [mem_receive_all _ hdeleted, hlive]
  refine or_congr_right ?_
  constructor
  · intro h
    obtain ⟨data, hdata, rfl, rfl⟩ := h
    obtain ⟨e, he, hwants, -⟩ := (mem_syncFrom hm).mp hdata
    exact ⟨e, he, hwants⟩
  · intro h
    obtain ⟨e, he, hwants⟩ := h
    obtain ⟨hname, htable, -⟩ := hm.data he
    refine ⟨e.data, (mem_syncFrom hm).mpr ⟨e, ?_, hwants, rfl⟩, hname.symm, htable.symm⟩
    rw [hname, htable, he]

/-- **What a reconnect makes up for.** After the messages of the received
updates and of the sync the collector has the pairs of the cache, if and
only if no pair it had as live was deleted last among the lost updates. -/
theorem resync_exact_iff (hT : T.Generated) (received lost : List (Update β))
    (hinc : (received ++ lost).Pairwise fun u v => u.seqnum < v.seqnum)
    {m₁ m : PerTypeMap β} {sent missed : List (UveData β)}
    (hreceived : updateAll T (.new T) received = some (m₁, sent))
    (hlost : updateAll T m₁ lost = some (m, missed)) (names tables : Order Bytes) :
    (∀ name table, (name, table)
          ∈ (sent ++ syncFrom names tables (lastSeqno received) m).foldl Live.receive ∅
        ↔ (m.find name table).isSome)
      ↔ NoneWithdrawn received lost := by
  obtain ⟨hm₁, hlive⟩ := updateAll_tracks hT received tracks_new nothing_alive hreceived
  obtain ⟨hm, -⟩ := updateAll_tracks hT lost hm₁ hlive hlost
  rw [← List.foldl_append] at hm
  have hend := mem_resynced hm hlive names tables (lastSeqno received)
  simp only [List.foldl_append, hend]
  change Tracks (lasts (received ++ lost)) m at hm
  constructor
  · intro h name table u v hu hudel hv
    obtain ⟨w, hw, hwdel⟩ := (hm.present name table).mp ((h name table).mp (.inl ⟨u, hu, hudel⟩))
    rw [lasts_append, hv, Option.some_or] at hw
    injection hw with hw
    rw [hw]
    exact hwdel
  · intro h name table
    rw [hm.present]
    constructor
    · intro hor
      rcases hor with ⟨u, hu, hudel⟩ | ⟨e, he, -⟩
      · cases hv : lasts lost name table with
        | none =>
            refine ⟨u, ?_, hudel⟩
            rw [lasts_append, hv, Option.none_or]
            exact hu
        | some v =>
            refine ⟨v, ?_, h name table u v hu hudel hv⟩
            rw [lasts_append, hv, Option.some_or]
      · exact (hm.present name table).mp (he ▸ rfl)
    · intro halive
      obtain ⟨e, he⟩ := Option.isSome_iff_exists.mp ((hm.present name table).mpr halive)
      obtain ⟨w, hw, hwdel⟩ := halive
      have hseqno := hm.seqno he hw
      rw [lasts_append] at hw
      cases hv : lasts lost name table with
      | none =>
          rw [hv, Option.none_or] at hw
          exact .inl ⟨w, hw, hwdel⟩
      | some v =>
          rw [hv, Option.some_or] at hw
          injection hw with hw
          subst hw
          refine .inr ⟨e, he, ?_⟩
          rw [hseqno]
          exact lastSeqno_lt hinc (mem_of_lasts hv)

/-- The same update, as a deletion. -/
def generatorGone (seqnum : UInt32) : Update Unit :=
  ⟨⟨lit "ObjectGeneratorInfo", lit "uve1", true, ()⟩, seqnum, 1, .SYS_NOTICE, 1⟩

/-- A sandesh that copies the name and the flag. -/
def merging : UveSandesh Unit where
  fresh := ()
  DSConf := ∅
  InitDerivedStats := fun _ _ => ()
  UpdateUVE := fun data tdata _ _ =>
    ⟨true, (), { tdata with name := data.name, deleted := data.deleted }⟩

theorem merging_generated : merging.Generated where
  name := fun _ _ _ _ => rfl
  table := fun _ _ _ _ => rfl
  deleted := fun _ _ _ _ h _ => h
  send := fun _ _ _ _ => rfl

/-- An update that is lost and made up for. -/
theorem resync_exact_updated :
    ∃ m₁ m sent missed,
      updateAll merging (.new merging) [generatorInfo 1 .SYS_NOTICE] = some (m₁, sent)
        ∧ updateAll merging m₁ [generatorInfo 2 .SYS_NOTICE] = some (m, missed)
        ∧ ∀ names tables name table,
          (name, table) ∈ (sent ++ syncFrom names tables 1 m).foldl Live.receive ∅
            ↔ (m.find name table).isSome := by
  refine ⟨_, _, _, _, rfl, rfl, fun names tables => ?_⟩
  refine (resync_exact_iff merging_generated [generatorInfo 1 .SYS_NOTICE]
    [generatorInfo 2 .SYS_NOTICE] ?_ rfl rfl names tables).mpr ?_
  · simp [generatorInfo]
  · intro name table u v _ _ hv
    obtain rfl := List.mem_singleton.mp (mem_of_lasts hv)
    rfl

/-- A deletion that is lost for good. -/
theorem resync_keeps_deleted :
    ∃ m₁ m sent missed,
      updateAll merging (.new merging) [generatorInfo 1 .SYS_NOTICE] = some (m₁, sent)
        ∧ updateAll merging m₁ [generatorGone 2] = some (m, missed)
        ∧ m.find (lit "uve1") (lit "ObjectGeneratorInfo") = none
        ∧ ∀ names tables, (lit "uve1", lit "ObjectGeneratorInfo")
          ∈ (sent ++ syncFrom names tables 1 m).foldl Live.receive ∅ := by
  refine ⟨_, _, _, _, rfl, rfl, rfl, fun names tables => ?_⟩
  obtain ⟨hm₁, hlive⟩ := updateAll_tracks merging_generated [generatorInfo 1 .SYS_NOTICE]
    tracks_new nothing_alive rfl
  obtain ⟨hm, -⟩ := updateAll_tracks merging_generated [generatorGone 2] hm₁ hlive rfl
  rw [List.foldl_append]
  exact (mem_resynced hm hlive names tables 1 _ _).mpr
    (.inl ⟨generatorInfo 1 .SYS_NOTICE, rfl, rfl⟩)

end Sandesh.Uve
