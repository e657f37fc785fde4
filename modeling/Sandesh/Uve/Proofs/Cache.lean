/-
What the cache holds, and what a sync sends, for a type without a
timeout.

The last update of each pair is remembered beside the cache (`last`). A
cache `Reflects` it if it holds exactly the pairs whose last update was
not a deletion, with that update's sequence number and level, and if a
sync for all tables sends each wanted entry once and changes nothing.

Of these the level is the one that can fail: `UpdateUVE` records it in a
new entry and never again, while it refreshes `seqno` on every update. So
a run reflects its updates exactly as far as each update of an entry
carries the level the entry already has (`SameLevel`).
-/
import Sandesh.Uve.Proofs.Calls

namespace Sandesh.Uve

open Lib

variable {β : Type} {T : UveSandesh β}

/-- The last update of each pair. -/
abbrev Last (β : Type) := Bytes → Bytes → Option (Update β)

/-- The last update of each entry, behind a step. -/
def Last.next (last : Last β) : Act β → Last β
  | .update u => fun name table =>
      if name = u.data.name ∧ table = u.data.table_ then some u
      else last name table
  | .sync _ _ _ => last

/-- The calls on a cache, with the last update of each pair. -/
def cacheLast (TM : Nat) (T : UveSandesh β) :
    Machine (PerTypeMap β × Last β) (Act β) :=
  (cache TM T).watch fun last _ a => last.next a

/-- What `SyncUVE("", st, n, cycle, ctx)` does. -/
structure SyncsAll (m : PerTypeMap β) (st : SendType) (n cycle : UInt32)
    (ctx : Bytes) (r : Synced β) : Prop where
  returns : r.stuck = false
  sent : ∀ name table, r.sent.filter (Sent.isFor name table)
    = match m.find name table with
      | none => []
      | some e =>
          if n = 0 ∨ n < e.seqno then
            [⟨name, table, e.data, e.level, st, e.seqno, cycle, ctx⟩]
          else []
  count : r.count = UInt32.ofNat r.sent.length
  unchanged : r.map = m

/-- The cache has an entry where the last update was no deletion, with that
update's data. -/
structure Reflects (last : Last β) (m : PerTypeMap β) : Prop where
  present : ∀ name table, (m.find name table).isSome
    ↔ ∃ u, last name table = some u ∧ u.data.deleted = false
  noEmpty : m.NoEmpty
  seqno : ∀ {name table e u}, m.find name table = some e →
    last name table = some u → e.seqno = u.seqnum
  level : ∀ {name table e u}, m.find name table = some e →
    last name table = some u → e.level = u.level
  sync : ∀ names tables st n cycle ctx, SyncsAll m st n cycle ctx
    (SyncUVE 0 names tables ⟨[], st, n, cycle, ctx⟩ m)

/-- An update of an entry carries the level the entry has. -/
def SameLevel (m : PerTypeMap β) (a : Act β) : Prop :=
  ∀ u, a = .update u → u.data.deleted = false →
    ∀ e, m.find u.data.name u.data.table_ = some e → e.level = u.level

-- =========================================================== one call

/-- Without a timeout a sync leaves every entry as it is. -/
theorem after_zero (c : SyncCall) (e : UVEMapEntry β) :
    after 0 c e = some e := by
  unfold after aged SyncCall.expires
  simp only [ne_eq, not_true_eq_false, false_and, if_false, ite_self]

theorem syncsAll {m : PerTypeMap β} (hm : m.NoEmpty) (names tables : Order Bytes)
    (st : SendType) (n cycle : UInt32) (ctx : Bytes) :
    SyncsAll m st n cycle ctx
      (SyncUVE 0 names tables ⟨[], st, n, cycle, ctx⟩ m) := by
  have hend : (SyncUVE 0 names tables ⟨[], st, n, cycle, ctx⟩ m).stuck = false :=
    SyncUVE_stuck.mpr fun _ _ _ _ => .inl rfl
  refine ⟨hend, ?_, count_SyncUVE, ?_⟩
  · intro name table
    rw [sent_SyncUVE hend]
    cases m.find name table with
    | none => rfl
    | some e =>
        show (if n < e.seqno ∨ n = 0 then _ else _) = _
        simp only [or_comm]
        rfl
  · exact SyncUVE_same hend hm fun _ _ e _ => after_zero _ e

/-- The level of the entry an update leaves. -/
theorem stored_level {TM : Nat} {u : Update β} {m : PerTypeMap β} :
    (stored TM T u m).level
      = ((m.find u.data.name u.data.table_).map fun e => e.level).getD u.level := by
  unfold stored
  cases m.find u.data.name u.data.table_ with
  | none => rfl
  | some e => rfl

theorem stored_seqno {TM : Nat} {u : Update β} {m : PerTypeMap β} :
    (stored TM T u m).seqno = u.seqnum := by
  unfold stored
  cases m.find u.data.name u.data.table_ with
  | none => rfl
  | some e => rfl

theorem next_update (last : Last β) (u : Update β) (name table : Bytes) :
    last.next (.update u) name table
      = if name = u.data.name ∧ table = u.data.table_ then some u
        else last name table := rfl

/-- An entry found after an update is the one it stored, or was there
before. -/
theorem found_update {TM : Nat} {m : PerTypeMap β} {last : Last β}
    {u v : Update β} {r : Updated β} {name table : Bytes} {e : UVEMapEntry β}
    (h : UpdateUVE TM T u m = some r) (he : r.map.find name table = some e)
    (hv : last.next (.update u) name table = some v) :
    (v = u ∧ u.data.deleted = false ∧ e = stored TM T u m)
      ∨ (m.find name table = some e ∧ last name table = some v) := by
  rw [find_UpdateUVE h] at he
  rw [next_update] at hv
  by_cases hpair : name = u.data.name ∧ table = u.data.table_
  · rw [if_pos hpair] at he hv
    injection hv with hv
    cases hdel : u.data.deleted with
    | true =>
        rw [hdel] at he
        cases he
    | false =>
        rw [hdel] at he
        injection he with he
        exact .inl ⟨hv.symm, rfl, he.symm⟩
  · rw [if_neg hpair] at he hv
    exact .inr ⟨he, hv⟩

/-- Whether an update leaves an entry. -/
theorem present_update {TM : Nat} {m : PerTypeMap β} {last : Last β}
    {u : Update β} {r : Updated β} (h : UpdateUVE TM T u m = some r)
    {name table : Bytes}
    (hm : (m.find name table).isSome
      ↔ ∃ v, last name table = some v ∧ v.data.deleted = false) :
    (r.map.find name table).isSome
      ↔ ∃ v, last.next (.update u) name table = some v
        ∧ v.data.deleted = false := by
  rw [find_UpdateUVE h, next_update]
  by_cases hpair : name = u.data.name ∧ table = u.data.table_
  · simp only [if_pos hpair, Option.some.injEq, exists_eq_left']
    cases u.data.deleted with
    | true => simp
    | false => simp
  · simp only [if_neg hpair]
    exact hm

/-- An update that carries the level of its entry is reflected, and no
other is. -/
theorem reflects_update {m : PerTypeMap β} {last : Last β} {u : Update β}
    {r : Updated β} (hm : Reflects last m) (h : UpdateUVE 0 T u m = some r) :
    Reflects (last.next (.update u)) r.map ↔ SameLevel m (.update u) := by
  constructor
  · intro hr v hv hdel e he
    injection hv with hv
    subst hv
    have hself := find_UpdateUVE h u.data.name u.data.table_
    simp only [and_self, if_true, hdel, Bool.false_eq_true, if_false] at hself
    have hlevel := hr.level (u := u) hself (if_pos ⟨rfl, rfl⟩)
    rw [stored_level, he] at hlevel
    exact hlevel
  · intro hsame
    have hempty := noEmpty_UpdateUVE h hm.noEmpty
    refine ⟨fun name table => present_update h (hm.present name table), hempty,
      ?_, ?_, syncsAll hempty⟩
    · intro name table e v he hv
      rcases found_update h he hv with ⟨rfl, -, rfl⟩ | ⟨he, hv⟩
      · exact stored_seqno
      · exact hm.seqno he hv
    · intro name table e v he hv
      rcases found_update h he hv with ⟨rfl, hdel, rfl⟩ | ⟨he, hv⟩
      · rw [stored_level]
        cases hold : m.find v.data.name v.data.table_ with
        | none => rfl
        | some e₀ => exact hsame v rfl hdel e₀ hold
      · exact hm.level he hv

-- =============================================================== runs

theorem reflects_new : Reflects (fun _ _ => none) (PerTypeMap.new T) := by
  have hempty : (PerTypeMap.new T).NoEmpty := by
    intro name tables hlookup
    cases hlookup
  refine ⟨?_, hempty, ?_, ?_, syncsAll hempty⟩
  · intro name table
    constructor
    · intro h
      cases h
    · intro h
      obtain ⟨u, hu, -⟩ := h
      cases hu
  · intro name table e u he
    cases he
  · intro name table e u he
    cases he

/-- In every run, the cache reflects the updates after every call exactly
as far as the updates of an entry keep to its level. -/
theorem cache_reflects_iff (T : UveSandesh β) (as : List (Act β)) :
    (cacheLast 0 T).Each (fun _ _ s' => Reflects s'.2 s'.1)
        (PerTypeMap.new T, fun _ _ => none) as
      ↔ (cacheLast 0 T).Each (fun s a _ => SameLevel s.1 a)
        (PerTypeMap.new T, fun _ _ => none) as := by
  refine Machine.each_iff (M := cacheLast 0 T) (I := fun s => Reflects s.2 s.1) ?_
    (fun _ _ hr => hr) as reflects_new
  intro s a s' hs hstep
  obtain ⟨hcall, hlast⟩ := Machine.watch_step.mp hstep
  rw [hlast]
  cases a with
  | update u =>
      obtain ⟨r, hr, hmap⟩ := Option.map_eq_some_iff.mp hcall
      rw [← hmap]
      exact reflects_update hs hr
  | sync names tables c =>
      have hsame : s'.1 = s.1 := by
        change (if _ then none else some _) = some s'.1 at hcall
        cases hend : (SyncUVE 0 names tables c s.1).stuck with
        | true =>
            rw [hend] at hcall
            cases hcall
        | false =>
            rw [hend] at hcall
            injection hcall with hcall
            rw [← hcall]
            exact SyncUVE_same hend hs.noEmpty fun _ _ e _ => after_zero c e
      rw [hsame]
      refine iff_of_true hs ?_
      intro u hu
      cases hu

/-- The second update raises the level, and the entry keeps the first. -/
theorem cache_keeps_first_level :
    ¬ ∀ as : List (Act Unit), (cacheLast 0 copying).Each
      (fun _ _ s' => Reflects s'.2 s'.1)
      (PerTypeMap.new copying, fun _ _ => none) as := by
  intro h
  have hr := Machine.each_last [Act.update (generatorInfo 1 .SYS_NOTICE)]
    (h [.update (generatorInfo 1 .SYS_NOTICE), .update (generatorInfo 2 .SYS_ERR)])
    rfl rfl
  have hlevel := @Reflects.level _ _ _ hr (lit "uve1")
    (lit "ObjectGeneratorInfo") _ _ rfl rfl
  cases hlevel

end Sandesh.Uve
