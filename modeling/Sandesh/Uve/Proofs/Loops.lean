/-
When `SyncUVE` ends.

Turn by turn, the loops do what one pass over the maps does, for as long
as they move. A turn at an entry of another table than the one asked for
changes nothing, not even the iterator, so it is taken for ever. A call
ends exactly if there is no such entry, and has then sent the entries that
are newer than what was asked for, each of them once (`SendsMatching`).
-/
import Sandesh.Lib.Pass
import Sandesh.Uve.Group
import Sandesh.Uve.Proofs.Group

namespace Sandesh.Uve.Loops

open Lib

variable {β : Type} {TM : Nat} {c : SyncCall}

/-- `count++`, once for each. -/
def counted (sent : List (Sent β)) : UInt32 := sent.foldl (fun n _ => n + 1) 0

-- ====================================================== the inner loop

section Tables

variable {name : Bytes}

/-- The entries of some tables. -/
def entriesOf (second : UveTableMap β) (ts : List Bytes) :
    List (Bytes × UVEMapEntry β) :=
  ts.filterMap fun table => (second.lookup table).map fun e => (table, e)

/-- The variables of the inner loop. -/
def tableIter (ts : List Bytes) (second : UveTableMap β) (sent : List (Sent β)) :
    TableIter β :=
  ⟨entriesOf second ts, second, sent, counted sent⟩

theorem entriesOf_cons {second : UveTableMap β} {first : Bytes}
    {e : UVEMapEntry β} (h : second.lookup first = some e) (ts : List Bytes) :
    entriesOf second (first :: ts) = (first, e) :: entriesOf second ts := by
  unfold entriesOf
  rw [List.filterMap_cons_some (b := (first, e)) (by rw [h]; rfl)]

/-- The entries ahead are not touched by a turn. -/
theorem entriesOf_set {second : UveTableMap β} {first : Bytes} {ts : List Bytes}
    (h : first ∉ ts) (v : Option (UVEMapEntry β)) :
    entriesOf (Map.set second first v) ts = entriesOf second ts := by
  unfold entriesOf
  refine List.filterMap_congr fun table htable => ?_
  rw [Map.lookup_set_ne _ _ (ne_of_mem_of_not_mem htable h)]

theorem set_same {second : UveTableMap β} {first : Bytes} {e : UVEMapEntry β}
    (h : second.lookup first = some e) : Map.set second first (some e) = second := by
  refine Finmap.ext_lookup fun k => ?_
  by_cases hk : k = first
  · rw [hk, Map.lookup_set, h]
  · rw [Map.lookup_set_ne _ _ hk]

theorem tableTurn_moves {ts : List Bytes} {second : UveTableMap β} {first : Bytes}
    {e : UVEMapEntry β} {sent : List (Sent β)} (hfirst : first ∉ ts)
    (he : second.lookup first = some e) (hcovers : c.covers first) :
    tableTurn TM c name (tableIter (first :: ts) second sent)
      = .inl (tableIter ts (Map.set second first (syncEntry TM c name first e).left)
          (sent ++ (syncEntry TM c name first e).sent)) := by
  have hskip : ¬ (c.table ≠ [] ∧ first ≠ c.table) := by
    rw [not_and_or, not_not, not_not]
    exact hcovers
  unfold tableTurn tableIter syncEntry
  simp only [entriesOf_cons he, entriesOf_set hfirst, if_neg hskip]
  by_cases hwants : c.wants e.seqno
  · rw [if_pos hwants, if_pos hwants]
    unfold counted
    rw [List.foldl_append]
    rfl
  · rw [if_neg hwants, if_neg hwants]
    simp only [set_same he, List.append_nil]

theorem tableTurn_stays {ts : List Bytes} {second : UveTableMap β} {first : Bytes}
    {e : UVEMapEntry β} {sent : List (Sent β)}
    (he : second.lookup first = some e) (hother : ¬ c.covers first) :
    tableTurn TM c name (tableIter (first :: ts) second sent)
      = .inl (tableIter (first :: ts) second sent) := by
  have hskip : c.table ≠ [] ∧ first ≠ c.table := by
    rw [SyncCall.covers, not_or] at hother
    exact hother
  unfold tableTurn tableIter
  simp only [entriesOf_cons he, if_pos hskip]

theorem walks_tables :
    Map.Walks (syncEntry TM c name) (tableIter (β := β))
      fun i => .pure (tableTurn TM c name i) where
  done := fun second sent r => Comp.ends_pure
  moves := by
    intro first ts second e hfirst he hmoves sent r
    rw [tableTurn_moves hfirst he (syncEntry_stuck.mp hmoves)]
    exact Comp.ends_pure
  stays := by
    intro first ts second e he hstuck sent
    apply Comp.not_ends_loop
    rw [tableTurn_stays he fun hcovers => ?_]
    · exact Comp.ends_pure.mpr rfl
    · rw [syncEntry_stuck.mpr hcovers] at hstuck
      cases hstuck

/-- The inner loop, from the first table on. -/
theorem ends_tableLoop {tables : Order Bytes} {second : UveTableMap β}
    {sent : List (Sent β)} {j : TableIter β} :
    (tableLoop TM c name ⟨entries tables second, second, sent, counted sent⟩).Ends j
      ↔ (Map.walk tables (syncEntry TM c name) second).stuck = false
        ∧ j = tableIter [] (Map.walk tables (syncEntry TM c name) second).map
            (sent ++ (Map.walk tables (syncEntry TM c name) second).sent) :=
  Map.ends_loop_walk walks_tables tables second sent j

end Tables

-- ====================================================== the outer loop

section Names

variable {tables : Order Bytes}

/-- The variables of the outer loop, by the names that are left. -/
def nameIter (ns : List Bytes) (cmap : Map Bytes (UveTableMap β))
    (sent : List (Sent β)) : NameIter β :=
  ⟨ns, cmap, sent, counted sent⟩

/-- A turn of the outer loop ends if the inner loop does. -/
theorem ends_nameTurn {name : Bytes} {ns : List Bytes}
    {cmap : Map Bytes (UveTableMap β)} {second : UveTableMap β}
    (h : cmap.lookup name = some second) (sent : List (Sent β))
    (r : NameIter β ⊕ NameIter β) :
    (nameTurn TM tables c (nameIter (name :: ns) cmap sent)).Ends r
      ↔ (syncName TM tables c name second).stuck = false
        ∧ r = .inl (nameIter ns
            (Map.set cmap name (syncName TM tables c name second).left)
            (sent ++ (syncName TM tables c name second).sent)) := by
  unfold nameTurn nameIter
  simp only [h]
  rw [Comp.ends_bind]
  simp only [ends_tableLoop, Comp.ends_pure]
  unfold syncName
  constructor
  · rintro ⟨j, ⟨hends, rfl⟩, rfl⟩
    refine ⟨hends, ?_⟩
    simp only [hends, Bool.false_eq_true, if_false]
    rfl
  · rintro ⟨hends, rfl⟩
    have hends : (Map.walk tables (syncEntry TM c name) second).stuck = false := hends
    refine ⟨_, ⟨hends, rfl⟩, ?_⟩
    simp only [hends, Bool.false_eq_true, if_false]
    rfl

theorem walks_names :
    Map.Walks (syncName TM tables c) (nameIter (β := β)) (nameTurn TM tables c) where
  done := fun cmap sent r => Comp.ends_pure
  moves := by
    intro name ns cmap second _ hsecond hmoves sent r
    rw [ends_nameTurn hsecond]
    exact and_iff_right hmoves
  stays := by
    intro name ns cmap second hsecond hstuck sent r hends
    have hturn : ∀ r, ¬ (nameTurn TM tables c (nameIter (name :: ns) cmap sent)).Ends r := by
      intro r hends
      rw [((ends_nameTurn hsecond sent r).mp hends).1] at hstuck
      cases hstuck
    rcases Comp.ends_loop.mp hends with hleave | hagain
    · exact hturn _ hleave
    · obtain ⟨i, hturns, -⟩ := hagain
      exact hturn _ hturns

end Names

-- =========================================================== the calls

variable {T : UveSandesh β}

/-- A call ends exactly if it is not stuck, with what it does. -/
theorem ends_SyncUVE {names tables : Order Bytes} {m : PerTypeMap β}
    {r : PerTypeMap β × List (Sent β) × UInt32} :
    (SyncUVE TM names tables c m).Ends r
      ↔ (Uve.SyncUVE TM names tables c m).stuck = false
        ∧ r = ((Uve.SyncUVE TM names tables c m).map,
            (Uve.SyncUVE TM names tables c m).sent,
            (Uve.SyncUVE TM names tables c m).count) := by
  have hloop : ∀ i, (nameLoop TM tables c
      ⟨names.list m.cmap_.keys, m.cmap_, [], 0⟩).Ends i ↔ _ :=
    Map.ends_loop_walk walks_names names m.cmap_ []
  unfold SyncUVE
  rw [Comp.ends_bind]
  simp only [hloop, Comp.ends_pure]
  constructor
  · rintro ⟨i, ⟨hends, rfl⟩, rfl⟩
    exact ⟨hends, rfl⟩
  · rintro ⟨hends, rfl⟩
    exact ⟨_, ⟨hends, rfl⟩, rfl⟩

theorem ends_syncCells {o : Orders} (cells : List Cell) :
    ∀ {g : Group β} {r : Group β × List (Sent β) × UInt32},
      (syncCells TM T o c cells g).Ends r
        ↔ (Uve.syncCells TM T o c cells g).stuck = false
          ∧ r = ((Uve.syncCells TM T o c cells g).group,
              (Uve.syncCells TM T o c cells g).sent,
              (Uve.syncCells TM T o c cells g).count) := by
  induction cells with
  | nil =>
      intro g r
      exact Comp.ends_pure.trans (and_iff_right rfl).symm
  | cons cell cells ih =>
      intro g r
      unfold syncCells
      simp only [Comp.ends_bind, ends_SyncUVE, ih, Comp.ends_pure]
      cases hstuck : (syncAt TM T o c g cell).stuck with
      | true =>
          rw [syncCells_stays cells hstuck]
          refine iff_of_false ?_ fun h => Bool.noConfusion h.1
          rintro ⟨_, ⟨hends, -⟩, -⟩
          exact Bool.noConfusion (hstuck.symm.trans hends)
      | false =>
          rw [syncCells_moves cells hstuck]
          constructor
          · rintro ⟨_, ⟨-, rfl⟩, _, ⟨hrest, rfl⟩, rfl⟩
            exact ⟨hrest, rfl⟩
          · rintro ⟨hrest, rfl⟩
            exact ⟨_, ⟨hstuck, rfl⟩, _, ⟨hrest, rfl⟩, rfl⟩

-- ========================================================= the results

instance (c : SyncCall) (table : Bytes) : Decidable (c.covers table) :=
  inferInstanceAs (Decidable (_ ∨ _))

/-- Every matching entry was sent, once and as it is, and nothing else. -/
def SendsMatching (c : SyncCall) (m : PerTypeMap β) (sent : List (Sent β)) : Prop :=
  ∀ name table, sent.filter (Sent.isFor name table)
    = ((m.find name table).map fun e =>
        if c.covers table ∧ c.wants e.seqno then [c.message name table e]
        else []).getD []

/-- Every entry is in the table asked for, if one is. -/
def AllCovered (c : SyncCall) (m : PerTypeMap β) : Prop :=
  ∀ name table e, m.find name table = some e → c.covers table

theorem sendsMatching {names tables : Order Bytes} {m : PerTypeMap β}
    (h : (Uve.SyncUVE TM names tables c m).stuck = false) :
    SendsMatching c m (Uve.SyncUVE TM names tables c m).sent := by
  intro name table
  rw [sent_SyncUVE h]
  cases hfind : m.find name table with
  | none => rfl
  | some e =>
      have hcovers := SyncUVE_stuck.mp h name table e hfind
      simp only [Option.map_some, and_iff_right hcovers]

/-- For every content of a cache and every call: the loops end, with the
matching entries sent, exactly if there is no entry of another table than
the one asked for. The same holds of a group with all its maps. -/
theorem sync_ends_iff (TM : Nat) (T : UveSandesh β) (c : SyncCall) :
    (∀ (names tables : Order Bytes) (m : PerTypeMap β),
      (∃ r, (SyncUVE TM names tables c m).Ends r ∧ SendsMatching c m r.2.1)
        ↔ AllCovered c m)
    ∧ ∀ (o : Orders) (g : Group β),
      (∃ r, (groupSyncUVE TM T o c g).Ends r
        ∧ ∃ part : Cell → List (Sent β), r.2.1 = (g.cells o.proxies).flatMap part
          ∧ ∀ cell ∈ g.cells o.proxies, SendsMatching c (g.get T cell) (part cell))
        ↔ ∀ cell ∈ g.cells o.proxies, AllCovered c (g.get T cell) := by
  refine ⟨fun names tables m => ?_, fun o g => ?_⟩
  · constructor
    · rintro ⟨r, hends, -⟩
      exact SyncUVE_stuck.mp (ends_SyncUVE.mp hends).1
    · intro hcovered
      have hends : (Uve.SyncUVE TM names tables c m).stuck = false :=
        SyncUVE_stuck.mpr hcovered
      exact ⟨_, ends_SyncUVE.mpr ⟨hends, rfl⟩, sendsMatching hends⟩
  · have hnodup := nodup_cells o.proxies g
    have hcells : (Uve.syncCells TM T o c (g.cells o.proxies) g).stuck = false
        ↔ ∀ cell ∈ g.cells o.proxies, AllCovered c (g.get T cell) :=
      (syncCells_stuck _ hnodup).trans (forall₂_congr fun _ _ => SyncUVE_stuck)
    constructor
    · rintro ⟨r, hends, -⟩
      exact hcells.mp ((ends_syncCells _).mp hends).1
    · intro hcovered
      have hends := hcells.mpr hcovered
      refine ⟨_, (ends_syncCells _).mpr ⟨hends, rfl⟩,
        fun cell => (syncAt TM T o c g cell).sent, syncCells_sent _ hnodup hends, ?_⟩
      intro cell hcell
      exact sendsMatching ((syncCells_stuck _ hnodup).mp hends cell hcell)

/-- A cache with `uve1` in `ObjectGeneratorInfo`. -/
def oneEntry : PerTypeMap Unit :=
  ⟨Finmap.singleton (lit "uve1")
    (Finmap.singleton (lit "ObjectGeneratorInfo")
      ⟨(generatorInfo 1 .SYS_NOTICE).data, 1, .SYS_NOTICE⟩), ∅⟩

theorem find_oneEntry :
    oneEntry.find (lit "uve1") (lit "ObjectGeneratorInfo")
      = some ⟨(generatorInfo 1 .SYS_NOTICE).data, 1, .SYS_NOTICE⟩ := by
  unfold PerTypeMap.find oneEntry
  rw [Finmap.lookup_singleton_eq, Option.bind_some, Finmap.lookup_singleton_eq]

/-- Asked for another table, the call never returns. -/
theorem sync_ends_other_table :
    ¬ ∃ names tables r,
      (SyncUVE 0 names tables ⟨lit "ObjectVRouter", .ST_SYNC, 0, 0, []⟩ oneEntry).Ends r := by
  intro hex
  obtain ⟨names, tables, r, hends⟩ := hex
  have hcovers := SyncUVE_stuck.mp (ends_SyncUVE.mp hends).1 _ _ _ find_oneEntry
  exact absurd hcovers (by decide)

end Sandesh.Uve.Loops
