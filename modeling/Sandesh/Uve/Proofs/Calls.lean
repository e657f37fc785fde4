/-
What one call does to the entries of the cache.

Each entry is looked up by its name and its table (`find`), and each call
is described once, at an arbitrary pair: `find_UpdateUVE` and
`find_SyncUVE` say what is there afterwards, `sent_SyncUVE` which
messages a sync sends for the pair. Whatever is proved about runs of calls
uses these and never opens the two nested loops again.
-/
import Sandesh.Uve.Basic

namespace Sandesh.Uve

open Lib

variable {β : Type} {TM : Nat} {T : UveSandesh β} {m : PerTypeMap β}

-- ============================================================= updates

/-- The entry an update leaves. -/
def stored (TM : Nat) (T : UveSandesh β) (u : Update β) (m : PerTypeMap β) :
    UVEMapEntry β :=
  let ume := entryFor TM T u m.dsconf_ (m.find u.data.name u.data.table_)
  { ume with data := (T.UpdateUVE u.data ume.data u.time u.level).tdata }

variable {u : Update β} {r : Updated β} {name table : Bytes}

theorem lookup_tables (m : PerTypeMap β) (name table : Bytes) :
    ((m.cmap_.lookup name).getD ∅).lookup table = m.find name table := by
  unfold PerTypeMap.find
  cases m.cmap_.lookup name with
  | none => rfl
  | some tables => rfl

/-- Dropping a name without tables is not seen by a lookup. -/
theorem lookup_kept (tables : UveTableMap β) (table : Bytes) :
    ((kept tables).bind fun tables => tables.lookup table)
      = tables.lookup table := by
  unfold kept
  by_cases hempty : tables.keys = ∅
  · rw [if_pos hempty]
    have hmem : table ∉ tables := by
      rw [← Finmap.mem_keys, hempty]
      exact Finset.notMem_empty table
    exact (Finmap.lookup_eq_none.mpr hmem).symm
  · rw [if_neg hempty]
    rfl

/-- What becomes of the tables of the updated name. -/
theorem cmap_UpdateUVE (h : UpdateUVE TM T u m = some r) :
    r.map.cmap_
      = Map.set m.cmap_ u.data.name
          (kept (Map.set ((m.cmap_.lookup u.data.name).getD ∅) u.data.table_
            (if u.data.deleted then none else some (stored TM T u m)))) := by
  unfold UpdateUVE at h
  by_cases htable : u.data.table_ = []
  · rw [if_pos htable] at h
    cases h
  rw [if_neg htable] at h
  injection h with h
  rw [← h]
  cases hdel : u.data.deleted with
  | true =>
      simp only [if_true]
      congr 2
      refine Finmap.ext_lookup fun t => ?_
      by_cases ht : t = u.data.table_
      · rw [ht, Finmap.lookup_erase, Map.lookup_set]
      · rw [Finmap.lookup_erase_ne ht, Map.lookup_set_ne _ _ ht,
          Finmap.lookup_insert_of_ne _ ht]
  | false =>
      have hne : (Map.set ((m.cmap_.lookup u.data.name).getD ∅) u.data.table_
          (some (stored TM T u m))).keys ≠ ∅ := by
        refine Finset.ne_empty_of_mem (a := u.data.table_) ?_
        rw [Finmap.mem_keys]
        exact (Finmap.mem_insert).mpr (.inl rfl)
      simp only [Bool.false_eq_true, if_false]
      unfold kept
      rw [if_neg hne]
      unfold stored
      rw [← lookup_tables]
      rfl

theorem UpdateUVE_returns (TM : Nat) (T : UveSandesh β) (m : PerTypeMap β)
    (htable : u.data.table_ ≠ []) : ∃ r, UpdateUVE TM T u m = some r := by
  unfold UpdateUVE
  rw [if_neg htable]
  exact ⟨_, rfl⟩

/-- What `Send` gets back: what the generated code says and leaves of the
update. -/
theorem merged_UpdateUVE (h : UpdateUVE TM T u m = some r) :
    let ume := entryFor TM T u m.dsconf_ (m.find u.data.name u.data.table_)
    let merged := T.UpdateUVE u.data ume.data u.time u.level
    r.send = merged.send ∧ r.data = { u.data with rest := merged.data } := by
  unfold UpdateUVE at h
  by_cases htable : u.data.table_ = []
  · rw [if_pos htable] at h
    cases h
  · rw [if_neg htable, ← lookup_tables] at *
    injection h with h
    rw [← h]
    exact ⟨rfl, rfl⟩

/-- The update is sent under its own name and table. -/
theorem data_UpdateUVE (h : UpdateUVE TM T u m = some r) :
    r.data.name = u.data.name ∧ r.data.table_ = u.data.table_ := by
  obtain ⟨-, hdata⟩ := merged_UpdateUVE h
  rw [hdata]
  exact ⟨rfl, rfl⟩

/-- What an update leaves at each pair. -/
theorem find_UpdateUVE (h : UpdateUVE TM T u m = some r) (name table : Bytes) :
    r.map.find name table
      = if name = u.data.name ∧ table = u.data.table_ then
          if u.data.deleted then none else some (stored TM T u m)
        else m.find name table := by
  unfold PerTypeMap.find
  rw [cmap_UpdateUVE h]
  by_cases hname : name = u.data.name
  · rw [hname, Map.lookup_set, lookup_kept]
    by_cases htable : table = u.data.table_
    · rw [htable, Map.lookup_set]
      simp only [and_self, if_true]
    · rw [Map.lookup_set_ne _ _ htable, lookup_tables,
        if_neg fun hand => htable hand.2]
      rfl
  · rw [Map.lookup_set_ne _ _ hname, if_neg fun hand => hname hand.1]

theorem noEmpty_kept {tables tables' : UveTableMap β}
    (h : kept tables = some tables') : tables'.keys ≠ ∅ := by
  unfold kept at h
  by_cases hempty : tables.keys = ∅
  · rw [if_pos hempty] at h
    cases h
  · rw [if_neg hempty] at h
    injection h with h
    rw [← h]
    exact hempty

theorem noEmpty_UpdateUVE (h : UpdateUVE TM T u m = some r)
    (hm : m.NoEmpty) : r.map.NoEmpty := by
  intro name tables hlookup
  rw [cmap_UpdateUVE h] at hlookup
  by_cases hname : name = u.data.name
  · rw [hname, Map.lookup_set] at hlookup
    exact noEmpty_kept hlookup
  · rw [Map.lookup_set_ne _ _ hname] at hlookup
    exact hm name tables hlookup

-- ================================================================ sync

/-- What a sync leaves of an entry. -/
def after (TM : Nat) (c : SyncCall) (e : UVEMapEntry β) :
    Option (UVEMapEntry β) :=
  if c.wants e.seqno then aged TM c e else some e

/-- The message is for this pair. -/
def Sent.isFor (name table : Bytes) (x : Sent β) : Bool :=
  x.name = name ∧ x.table = table

section Sync

variable {names tables : Order Bytes} {c : SyncCall} {e : UVEMapEntry β}

/-- A sync that asks for no table, or for the only one, returns. -/
def SyncCall.covers (c : SyncCall) (table : Bytes) : Prop :=
  c.table = [] ∨ table = c.table

theorem syncEntry_stuck :
    (syncEntry TM c name table e).stuck = false ↔ c.covers table := by
  unfold syncEntry SyncCall.covers
  by_cases hskip : c.table ≠ [] ∧ table ≠ c.table
  · rw [if_pos hskip]
    simp only [Bool.true_eq_false, false_iff, not_or]
    exact hskip
  · rw [if_neg hskip]
    have hor : c.table = [] ∨ table = c.table := by
      rwa [not_and_or, not_not, not_not] at hskip
    split
    · exact iff_of_true rfl hor
    · exact iff_of_true rfl hor

theorem syncEntry_covered (h : c.covers table) :
    syncEntry TM c name table e
      = ⟨after TM c e,
          if c.wants e.seqno then [c.message name table e] else [], false⟩ := by
  have hskip : ¬ (c.table ≠ [] ∧ table ≠ c.table) := by
    rw [not_and_or, not_not, not_not]
    exact h
  unfold syncEntry after
  rw [if_neg hskip]
  by_cases hwants : c.wants e.seqno
  · rw [if_pos hwants, if_pos hwants, if_pos hwants]
  · rw [if_neg hwants, if_neg hwants, if_neg hwants]

/-- A message comes from an entry the sync wants. -/
theorem mem_sent_syncEntry {x : Sent β}
    (hx : x ∈ (syncEntry TM c name table e).sent) :
    c.wants e.seqno ∧ x = c.message name table e
      ∧ (syncEntry TM c name table e).left = aged TM c e := by
  unfold syncEntry at hx ⊢
  by_cases hskip : c.table ≠ [] ∧ table ≠ c.table
  · rw [if_pos hskip] at hx
    exact absurd hx List.not_mem_nil
  · rw [if_neg hskip] at hx ⊢
    by_cases hwants : c.wants e.seqno
    · rw [if_pos hwants] at hx ⊢
      exact ⟨hwants, List.mem_singleton.mp hx, rfl⟩
    · rw [if_neg hwants] at hx
      exact absurd hx List.not_mem_nil

theorem find_eq_some :
    m.find name table = some e
      ↔ ∃ ts, m.cmap_.lookup name = some ts ∧ ts.lookup table = some e :=
  Option.bind_eq_some_iff

/-- The turn of a name ends if it ends at each of its tables. -/
theorem syncName_stuck {ts : UveTableMap β} :
    (syncName TM tables c name ts).stuck = false
      ↔ ∀ table e, ts.lookup table = some e → c.covers table := by
  show (Map.walk tables (syncEntry TM c name) ts).stuck = false ↔ _
  rw [Map.stuck_walk]
  refine forall₃_congr fun table e _ => ?_
  exact syncEntry_stuck

/-- A sync returns if no entry is in another table than the one asked
for. -/
theorem SyncUVE_stuck :
    (SyncUVE TM names tables c m).stuck = false
      ↔ ∀ name table e, m.find name table = some e → c.covers table := by
  show (Map.walk names (syncName TM tables c) m.cmap_).stuck = false ↔ _
  rw [Map.stuck_walk]
  constructor
  · intro h name table e he
    obtain ⟨ts, hts, hlookup⟩ := find_eq_some.mp he
    exact syncName_stuck.mp (h name ts hts) table e hlookup
  · intro h name ts hts
    refine syncName_stuck.mpr fun table e hlookup => ?_
    exact h name table e (find_eq_some.mpr ⟨ts, hts, hlookup⟩)

/-- Whether the name itself is dropped is not seen by a lookup. -/
theorem bind_syncName {ts : UveTableMap β} (table : Bytes) :
    ((syncName TM tables c name ts).left.bind fun ts => ts.lookup table)
      = (Map.walk tables (syncEntry TM c name) ts).map.lookup table := by
  unfold syncName
  cases hstuck : (Map.walk tables (syncEntry TM c name) ts).stuck with
  | true => simp only [hstuck, if_true, Option.bind_some]
  | false => simp only [hstuck, Bool.false_eq_true, if_false, lookup_kept]

/-- What is left of the tables of a name. -/
theorem lookup_syncName {ts : UveTableMap β}
    (hend : (syncName TM tables c name ts).stuck = false) (table : Bytes) :
    ((syncName TM tables c name ts).left.bind fun ts => ts.lookup table)
      = (ts.lookup table).bind (after TM c) := by
  have hcovers := syncName_stuck.mp hend
  have hinner : (Map.walk tables (syncEntry TM c name) ts).stuck = false := hend
  rw [bind_syncName, Map.lookup_walk hinner]
  cases hlookup : ts.lookup table with
  | none => rfl
  | some e =>
      show (syncEntry TM c name table e).left = after TM c e
      rw [syncEntry_covered (hcovers table e hlookup)]

/-- What a sync leaves at each pair. -/
theorem find_SyncUVE (hend : (SyncUVE TM names tables c m).stuck = false)
    (name table : Bytes) :
    (SyncUVE TM names tables c m).map.find name table
      = (m.find name table).bind (after TM c) := by
  have hnames := Map.stuck_walk.mp hend
  show ((Map.walk names (syncName TM tables c) m.cmap_).map.lookup name).bind _ = _
  rw [Map.lookup_walk hend]
  unfold PerTypeMap.find
  cases hts : m.cmap_.lookup name with
  | none => rfl
  | some ts => exact lookup_syncName (hnames name ts hts) table

/-- The messages a sync sends for each pair. -/
theorem sent_SyncUVE (hend : (SyncUVE TM names tables c m).stuck = false)
    (name table : Bytes) :
    (SyncUVE TM names tables c m).sent.filter (Sent.isFor name table)
      = ((m.find name table).map fun e =>
          if c.wants e.seqno then [c.message name table e] else []).getD [] := by
  have hnames := Map.stuck_walk.mp hend
  have hmessage : ∀ {n t} {e : UVEMapEntry β},
      (c.message n t e).isFor name table = true ↔ n = name ∧ t = table := by
    intro n t e
    exact decide_eq_true_iff
  have hother : ∀ n (ts : UveTableMap β), n ≠ name →
      (syncName TM tables c n ts).sent.filter (Sent.isFor name table) = [] := by
    intro n ts hne
    refine List.filter_eq_nil_iff.mpr fun x hx hfor => ?_
    obtain ⟨t, e, -, hsent, -⟩ := Map.mem_sent_walk hx
    obtain ⟨-, rfl, -⟩ := mem_sent_syncEntry hsent
    exact hne (hmessage.mp hfor).1
  show (Map.walk names (syncName TM tables c) m.cmap_).sent.filter _ = _
  rw [Map.filter_sent_walk hend hother]
  unfold PerTypeMap.find
  cases hts : m.cmap_.lookup name with
  | none => rfl
  | some ts =>
      have hinner := hnames name ts hts
      show (Map.walk tables (syncEntry TM c name) ts).sent.filter _ = _
      rw [Map.filter_sent_walk (k := table) hinner]
      · show _ = ((ts.lookup table).map _).getD []
        cases hlookup : ts.lookup table with
        | none => rfl
        | some e =>
            show (syncEntry TM c name table e).sent.filter _ = if _ then _ else _
            rw [syncEntry_covered (syncName_stuck.mp hinner table e hlookup)]
            by_cases hwants : c.wants e.seqno
            · simp only [if_pos hwants]
              exact List.filter_cons_of_pos (hmessage.mpr ⟨rfl, rfl⟩)
            · simp only [if_neg hwants]
              rfl
      · intro t e hne
        refine List.filter_eq_nil_iff.mpr fun x hx hfor => ?_
        obtain ⟨-, rfl, -⟩ := mem_sent_syncEntry hx
        exact hne (hmessage.mp hfor).2

/-- Where a message comes from, and what is left there; also of a sync
that does not return. -/
theorem mem_sent_SyncUVE {x : Sent β}
    (hx : x ∈ (SyncUVE TM names tables c m).sent) :
    ∃ e, m.find x.name x.table = some e ∧ c.wants e.seqno
      ∧ x = c.message x.name x.table e
      ∧ (SyncUVE TM names tables c m).map.find x.name x.table
          = aged TM c e := by
  obtain ⟨name, ts, hts, hsent, hleft⟩ := Map.mem_sent_walk hx
  obtain ⟨table, e, hlookup, hsent', hleft'⟩ := Map.mem_sent_walk hsent
  obtain ⟨hwants, rfl, haged⟩ := mem_sent_syncEntry hsent'
  refine ⟨e, find_eq_some.mpr ⟨ts, hts, hlookup⟩, hwants, rfl, ?_⟩
  show ((Map.walk names (syncName TM tables c) m.cmap_).map.lookup name).bind _ = _
  rw [hleft]
  exact (bind_syncName table).trans (hleft'.trans haged)

/-- A sync that changes no entry changes nothing. -/
theorem SyncUVE_same (hend : (SyncUVE TM names tables c m).stuck = false)
    (hm : m.NoEmpty)
    (hsame : ∀ name table e, m.find name table = some e → after TM c e = some e) :
    (SyncUVE TM names tables c m).map = m := by
  have hnames := Map.stuck_walk.mp hend
  have hcmap : (Map.walk names (syncName TM tables c) m.cmap_).map = m.cmap_ := by
    refine Finmap.ext_lookup fun name => ?_
    rw [Map.lookup_walk hend]
    cases hts : m.cmap_.lookup name with
    | none => rfl
    | some ts =>
        have hinner : (Map.walk tables (syncEntry TM c name) ts).stuck = false :=
          hnames name ts hts
        have hmap : (Map.walk tables (syncEntry TM c name) ts).map = ts := by
          refine Finmap.ext_lookup fun table => ?_
          rw [← bind_syncName, lookup_syncName hinner]
          cases hlookup : ts.lookup table with
          | none => rfl
          | some e => exact hsame name table e (find_eq_some.mpr ⟨ts, hts, hlookup⟩)
        show (syncName TM tables c name ts).left = some ts
        unfold syncName kept
        simp only [hinner, hmap, hm name ts hts, Bool.false_eq_true, if_false]
  show { m with cmap_ := (Map.walk names (syncName TM tables c) m.cmap_).map } = m
  rw [hcmap]

theorem noEmpty_SyncUVE (hend : (SyncUVE TM names tables c m).stuck = false) :
    (SyncUVE TM names tables c m).map.NoEmpty := by
  have hnames := Map.stuck_walk.mp hend
  intro name ts' hlookup
  rw [show (SyncUVE TM names tables c m).map.cmap_.lookup name = _
    from Map.lookup_walk hend name] at hlookup
  obtain ⟨ts, hts, hleft⟩ := Option.bind_eq_some_iff.mp hlookup
  have hinner : (Map.walk tables (syncEntry TM c name) ts).stuck = false :=
    hnames name ts hts
  unfold syncName at hleft
  simp only [hinner, Bool.false_eq_true, if_false] at hleft
  exact noEmpty_kept hleft

/-- `count` is the number of messages. -/
theorem count_SyncUVE :
    (SyncUVE TM names tables c m).count
      = UInt32.ofNat (SyncUVE TM names tables c m).sent.length := by
  have hfold : ∀ (l : List (Sent β)) (n : Nat),
      l.foldl (fun n _ => n + 1) (UInt32.ofNat n) = UInt32.ofNat (n + l.length) := by
    intro l
    induction l with
    | nil =>
        intro n
        rfl
    | cons x l ih =>
        intro n
        have hsucc : UInt32.ofNat n + 1 = UInt32.ofNat (n + 1) :=
          (UInt32.ofNat_add n 1).symm
        rw [List.foldl_cons, hsucc, ih, List.length_cons]
        congr 1
        omega
  have h := hfold (SyncUVE TM names tables c m).sent 0
  rw [Nat.zero_add] at h
  exact h

end Sync

-- ========================================================= one UVE type

/-- A sandesh whose `UpdateUVE` copies the whole update. -/
def copying : UveSandesh Unit where
  fresh := ()
  DSConf := ∅
  InitDerivedStats := fun _ _ => ()
  UpdateUVE := fun data _ _ _ => ⟨true, (), data⟩

/-- An update of `uve1` in `ObjectGeneratorInfo`. -/
def generatorInfo (seqnum : UInt32) (level : SandeshLevel) : Update Unit :=
  ⟨⟨lit "ObjectGeneratorInfo", lit "uve1", false, ()⟩, seqnum, 1, level, 1⟩

end Sandesh.Uve
