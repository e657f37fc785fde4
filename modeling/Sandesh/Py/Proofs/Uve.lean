/-
What the Python cache holds after any sequence of updates, and what a
resync sends.

The history of a pair is the list of its updates. `foldData` merges them:
an update that does not delete starts afresh where the data is marked
deleted, every other goes through `update_uve`. A delete of data that is
marked already is a repeated delete; the cache ignores it altogether, so
its data and its sequence number are those of the history without them
(`withoutRepeated`).
-/
import Sandesh.Py.Uve

namespace Sandesh.Py.Uve

open Lib

variable {β : Type} {T : UveType β}

/-- The update is for this table and name. -/
def UveSandesh.isFor (table name : Bytes) (u : UveSandesh β) : Bool :=
  u.data._table = some table ∧ table ≠ [] ∧ u.data.name = name

/-- The message is about this entry. -/
def Sent.isFor (table name : Bytes) (x : Sent β) : Bool :=
  x.table = table ∧ x.name = name

/-- The cache after a sequence of updates. -/
def updates (T : UveType β) (us : List (UveSandesh β)) : UveMap β :=
  us.foldl (fun m u => (update_uve T m u).2) ∅

-- ============================================================ histories

/-- One more update of the data. -/
def merge (T : UveType β) : Option (UveData β) → UveSandesh β →
    Option (UveData β)
  | none, u => some (newEntry T u).data
  | some d, u =>
      if d.deleted = some true ∧ u.data.deleted ≠ some true then
        some (newEntry T u).data
      else some (T.update_uve u.data d).tdata

/-- The data after a history. -/
def foldData (T : UveType β) (us : List (UveSandesh β)) :
    Option (UveData β) :=
  us.foldl (merge T) none

/-- The update deletes what is marked as deleted. -/
def isRepeated (T : UveType β) (us : List (UveSandesh β))
    (u : UveSandesh β) : Prop :=
  u.data.deleted = some true
    ∧ ∃ d ∈ foldData T us, d.deleted = some true

instance (T : UveType β) (us : List (UveSandesh β)) (u : UveSandesh β) :
    Decidable (isRepeated T us u) :=
  inferInstanceAs (Decidable (_ ∧ _))

/-- A history without its repeated deletes. -/
def withoutRepeated (T : UveType β) (us : List (UveSandesh β)) :
    List (UveSandesh β) :=
  us.foldl (fun kept u => if isRepeated T kept u then kept else kept ++ [u]) []

theorem foldData_concat (us : List (UveSandesh β)) (u : UveSandesh β) :
    foldData T (us ++ [u]) = merge T (foldData T us) u := by
  unfold foldData
  rw [List.foldl_append]
  rfl

theorem withoutRepeated_concat (us : List (UveSandesh β)) (u : UveSandesh β) :
    withoutRepeated T (us ++ [u])
      = if isRepeated T (withoutRepeated T us) u then withoutRepeated T us
        else withoutRepeated T us ++ [u] := by
  unfold withoutRepeated
  rw [List.foldl_append]
  rfl

theorem withoutRepeated_sublist (us : List (UveSandesh β)) :
    List.Sublist (withoutRepeated T us) us := by
  induction us using List.reverseRecOn with
  | nil => exact List.Sublist.refl []
  | append_singleton us u ih =>
      rw [withoutRepeated_concat]
      split
      · exact ih.trans (List.sublist_append_left us [u])
      · exact ih.append (List.Sublist.refl [u])

-- ============================================================== updates

theorem find_update_uve (m : UveMap β) (u : UveSandesh β) (table name : Bytes) :
    find (update_uve T m u).2 table name
      = if u.isFor table name then some (updated T u (find m table name))
        else find m table name := by
  have hnames : ∀ t, ((m.lookup t).getD ∅).lookup name = find m t name := by
    intro t
    unfold find
    cases m.lookup t with
    | none => rfl
    | some names => rfl
  have hfor : u.isFor table name = true
      ↔ u.data._table = some table ∧ table ≠ [] ∧ u.data.name = name :=
    decide_eq_true_iff
  rw [if_congr hfor rfl rfl]
  unfold update_uve
  cases htable : u.data._table with
  | none => simp
  | some t =>
      by_cases hempty : t = []
      · simp only [if_pos hempty, Option.some.injEq]
        rw [if_neg]
        intro hand
        exact hand.2.1 (hand.1 ▸ hempty)
      · simp only [if_neg hempty, Option.some.injEq]
        by_cases ht : table = t
        · subst ht
          rw [← hnames]
          show ((m.insert table _).lookup table).bind _ = _
          rw [Finmap.lookup_insert, Option.bind_some]
          by_cases hname : name = u.data.name
          · rw [hname, Finmap.lookup_insert, if_pos ⟨rfl, hempty, rfl⟩]
          · rw [Finmap.lookup_insert_of_ne _ hname, if_neg]
            intro hand
            exact hname hand.2.2.symm
        · rw [if_neg fun hand => ht hand.1.symm]
          show ((m.insert t _).lookup table).bind _ = _
          rw [Finmap.lookup_insert_of_ne _ ht]
          rfl

/-- The entry is what the kept updates of its history make of it. -/
def Follows (T : UveType β) (kept : List (UveSandesh β))
    (e : Option (UVEMapEntry β)) : Prop :=
  (e.map fun e => e.data) = foldData T kept
    ∧ (e.map fun e => e.seqno) = kept.getLast?.map fun u => u.seqnum

/-- An update that goes into the data and the sequence number. -/
theorem follows_concat {kept : List (UveSandesh β)} {u : UveSandesh β}
    {e : UVEMapEntry β} (hdata : merge T (foldData T kept) u = some e.data)
    (hseqno : e.seqno = u.seqnum) : Follows T (kept ++ [u]) (some e) := by
  unfold Follows
  rw [foldData_concat, hdata, List.getLast?_concat]
  exact ⟨rfl, congrArg some hseqno⟩

theorem follows_updated {kept : List (UveSandesh β)} {u : UveSandesh β}
    {e : Option (UVEMapEntry β)} (h : Follows T kept e) :
    Follows T (if isRepeated T kept u then kept else kept ++ [u])
      (some (updated T u e)) := by
  have hrep : isRepeated T kept u ↔ u.data.deleted = some true
      ∧ ∃ d ∈ e, d.data.deleted = some true := by
    unfold isRepeated
    rw [← h.1]
    cases e with
    | none => simp
    | some e => simp
  cases e with
  | none =>
      have hfirst : ¬ isRepeated T kept u := by
        rw [hrep]
        simp
      rw [if_neg hfirst]
      refine follows_concat ?_ rfl
      rw [← h.1]
      rfl
  | some e =>
      have hdata : foldData T kept = some e.data := h.1.symm
      by_cases hmarked : e.data.deleted = some true
      · by_cases hdelete : u.data.deleted = some true
        · have hsame : updated T u (some e) = e := by
            simp only [updated, if_pos hmarked, ne_eq, hdelete,
              not_true_eq_false, if_false]
          rw [if_pos (hrep.mpr ⟨hdelete, e, rfl, hmarked⟩), hsame]
          exact h
        · have hnew : updated T u (some e) = newEntry T u := by
            simp only [updated, if_pos hmarked, ne_eq, hdelete,
              not_false_eq_true, if_true]
          rw [if_neg fun hr => hdelete (hrep.mp hr).1, hnew]
          refine follows_concat ?_ rfl
          rw [hdata]
          exact if_pos ⟨hmarked, hdelete⟩
      · have hnot : ¬ isRepeated T kept u := by
          rw [hrep]
          simp [hmarked]
        rw [if_neg hnot]
        refine follows_concat ?_ ?_
        · rw [hdata]
          simp only [merge, updated, hmarked, false_and, if_false]
        · simp only [updated, if_neg hmarked]

/-- The cache at one pair follows its history. -/
theorem find_updates (us : List (UveSandesh β)) (table name : Bytes) :
    Follows T (withoutRepeated T (us.filter (UveSandesh.isFor table name)))
      (find (updates T us) table name) := by
  induction us using List.reverseRecOn with
  | nil => exact ⟨rfl, rfl⟩
  | append_singleton us u ih =>
      have hconcat : updates T (us ++ [u]) = (update_uve T (updates T us) u).2 := by
        unfold updates
        rw [List.foldl_append]
        rfl
      rw [hconcat, find_update_uve, List.filter_append]
      by_cases hfor : u.isFor table name = true
      · rw [if_pos hfor, List.filter_cons_of_pos hfor, List.filter_nil,
          withoutRepeated_concat]
        exact follows_updated ih
      · rw [if_neg hfor, List.filter_cons_of_neg hfor, List.filter_nil,
          List.append_nil]
        exact ih

/-- A history is not all repeated deletes. -/
theorem withoutRepeated_eq_nil {us : List (UveSandesh β)} :
    withoutRepeated T us = [] ↔ us = [] := by
  constructor
  · intro h
    induction us using List.reverseRecOn with
    | nil => rfl
    | append_singleton us u ih =>
        rw [withoutRepeated_concat] at h
        by_cases hrep : isRepeated T (withoutRepeated T us) u
        · rw [if_pos hrep] at h
          obtain ⟨d, hd, -⟩ := hrep.2
          rw [h] at hd
          cases hd
        · rw [if_neg hrep] at h
          exact absurd h
            (List.append_ne_nil_of_right_ne_nil _ (List.cons_ne_nil _ _))
  · intro h
    rw [h]
    rfl

section Found

variable {us : List (UveSandesh β)} {table name : Bytes}

/-- An entry is the kept history: its data and its last number. -/
theorem found_updates {e : UVEMapEntry β}
    (he : find (updates T us) table name = some e) :
    foldData T (withoutRepeated T (us.filter (UveSandesh.isFor table name)))
        = some e.data
      ∧ ∃ u, (withoutRepeated T
          (us.filter (UveSandesh.isFor table name))).getLast? = some u
        ∧ e.seqno = u.seqnum := by
  obtain ⟨hdata, hseqno⟩ := find_updates (T := T) us table name
  rw [he] at hdata hseqno
  obtain ⟨u, hu, hnum⟩ := Option.map_eq_some_iff.mp hseqno.symm
  exact ⟨hdata.symm, u, hu, hnum.symm⟩

theorem find_eq_none : find (updates T us) table name = none
    ↔ withoutRepeated T (us.filter (UveSandesh.isFor table name)) = [] := by
  rw [← List.getLast?_eq_none_iff, ← Option.map_eq_none_iff,
    (find_updates us table name).2, Option.map_eq_none_iff]

/-- A pair has an entry once it has been updated. -/
theorem isSome_updates : (find (updates T us) table name).isSome
    ↔ ∃ u ∈ us, u.isFor table name = true := by
  rw [Option.isSome_iff_ne_none, ne_eq, find_eq_none, withoutRepeated_eq_nil,
    List.filter_eq_nil_iff]
  simp only [not_forall, not_not, exists_prop]

end Found

-- ================================================================= sync

section Sync

variable {tables names : Order Bytes} {c : SyncCall} {m : UveMap β}
  {table name : Bytes}

/-- What one turn sends is for the pair it is at. -/
theorem isFor_syncName {t n : Bytes} {e : UVEMapEntry β} {x : Sent β}
    (hx : x ∈ (syncName c t n e).sent) (hfor : x.isFor table name = true) :
    t = table ∧ n = name := by
  unfold syncName at hx
  split at hx
  · obtain rfl := List.mem_singleton.mp hx
    exact of_decide_eq_true hfor
  · exact absurd hx List.not_mem_nil

/-- One turn at the pair sends its entry when the collector has not seen it. -/
theorem filter_syncName {e : UVEMapEntry β} :
    (syncName c table name e).sent.filter (Sent.isFor table name)
      = if c.seqno = 0 ∨ c.seqno < e.seqno then
          [⟨table, name, e.data, e.seqno, c.ctx, c.more⟩]
        else [] := by
  unfold syncName
  by_cases hwants : c.seqno = 0 ∨ c.seqno < e.seqno
  · simp only [if_pos hwants]
    exact List.filter_cons_of_pos (decide_eq_true ⟨rfl, rfl⟩)
  · simp only [if_neg hwants]
    rfl

theorem sent_syncTable {t : Bytes} {ns : Map Bytes (UVEMapEntry β)}
    (hc : c.table = none) :
    (syncTable names c t ns).sent = (Map.walk names (syncName c t) ns).sent := by
  unfold syncTable
  rw [if_neg fun hand => hand.1 hc]

/-- The messages for one pair of a sync of its table. -/
theorem filter_syncTable {ns : Map Bytes (UVEMapEntry β)}
    (hc : c.table = none) :
    (syncTable names c table ns).sent.filter (Sent.isFor table name)
      = match ns.lookup name with
        | none => []
        | some e =>
            if c.seqno = 0 ∨ c.seqno < e.seqno then
              [⟨table, name, e.data, e.seqno, c.ctx, c.more⟩]
            else [] := by
  rw [sent_syncTable hc, Map.filter_sent_walk (k := name)
    (Map.stuck_walk.mpr fun _ _ _ => rfl)]
  · show ((ns.lookup name).map _).getD [] = _
    cases ns.lookup name with
    | none => rfl
    | some e => exact filter_syncName
  · intro n e hne
    refine List.filter_eq_nil_iff.mpr fun x hx hfor => ?_
    exact hne (isFor_syncName hx hfor).2

/-- The messages for one pair of a sync of all tables. -/
theorem sent_sync_uve (hc : c.table = none) :
    (sync_uve tables names c m).1.filter (Sent.isFor table name)
      = match find m table name with
        | none => []
        | some e =>
            if c.seqno = 0 ∨ c.seqno < e.seqno then
              [⟨table, name, e.data, e.seqno, c.ctx, c.more⟩]
            else [] := by
  have hother : ∀ t (ns : Map Bytes (UVEMapEntry β)), t ≠ table →
      (syncTable names c t ns).sent.filter (Sent.isFor table name) = [] := by
    intro t ns hne
    refine List.filter_eq_nil_iff.mpr fun x hx hfor => ?_
    rw [sent_syncTable hc] at hx
    obtain ⟨n, e, -, hsent, -⟩ := Map.mem_sent_walk hx
    exact hne (isFor_syncName hsent hfor).1
  have hends : (Map.walk tables (syncTable names c) m).stuck = false := by
    refine Map.stuck_walk.mpr fun t ns _ => ?_
    unfold syncTable
    split
    · rfl
    · rfl
  show (Map.walk tables (syncTable names c) m).sent.filter _ = _
  rw [Map.filter_sent_walk hends hother]
  unfold find
  cases m.lookup table with
  | none => rfl
  | some ns => exact filter_syncTable hc

theorem count_sync_uve :
    (sync_uve tables names c m).2 = (sync_uve tables names c m).1.length := by
  unfold sync_uve
  simp only [List.foldl_add_const, Nat.zero_add, Nat.one_mul]

end Sync

-- ========================================================== the property

/-- In a list with increasing sequence numbers the last is the largest. -/
theorem seqnum_le_last {us : List (UveSandesh β)} {u last : UveSandesh β}
    (hinc : us.Pairwise fun u v => u.seqnum < v.seqnum) (hu : u ∈ us)
    (hlast : us.getLast? = some last) : u.seqnum ≤ last.seqnum := by
  obtain ⟨init, rfl⟩ := List.getLast?_eq_some_iff.mp hlast
  rcases List.mem_append.mp hu with hu | hu
  · have hlt := (List.pairwise_append.mp hinc).2.2 u hu last List.mem_cons_self
    exact Nat.le_of_lt hlt
  · obtain rfl := List.mem_singleton.mp hu
    exact Nat.le_refl _

/-- After every sequence of updates each updated pair has an entry, which
is its history without the repeated deletes; and a resync sends every
entry the collector has not seen, so every change that is newer than what
it has. -/
theorem uve_map_resync (T : UveType β) (us : List (UveSandesh β))
    (hinc : us.Pairwise fun u v => u.seqnum < v.seqnum) (table name : Bytes) :
    let m := updates T us
    let kept := withoutRepeated T (us.filter (UveSandesh.isFor table name))
    ((find m table name).isSome ↔ ∃ u ∈ us, u.isFor table name = true)
    ∧ (∀ e, find m table name = some e →
        foldData T kept = some e.data
        ∧ ∃ u, kept.getLast? = some u ∧ e.seqno = u.seqnum)
    ∧ ∀ tables names n ctx more,
        let r := sync_uve tables names ⟨none, n, ctx, more⟩ m
        r.1.filter (Sent.isFor table name)
            = (match find m table name with
              | none => []
              | some e =>
                  if n = 0 ∨ n < e.seqno then
                    [⟨table, name, e.data, e.seqno, ctx, more⟩]
                  else [])
        ∧ r.2 = r.1.length
        ∧ ∀ u ∈ kept, n < u.seqnum →
            ∃ x ∈ r.1, x.table = table ∧ x.name = name ∧ u.seqnum ≤ x.seqno := by
  intro m kept
  refine ⟨isSome_updates, fun e => found_updates, ?_⟩
  intro tables names n ctx more r
  have hsent : r.1.filter (Sent.isFor table name) = _ :=
    sent_sync_uve (c := ⟨none, n, ctx, more⟩) rfl
  refine ⟨hsent, count_sync_uve, ?_⟩
  intro u hu hnew
  have hkept : kept.Pairwise fun u v => u.seqnum < v.seqnum :=
    (hinc.sublist List.filter_sublist).sublist (withoutRepeated_sublist _)
  have hfound : find m table name ≠ none :=
    fun hnone => List.ne_nil_of_mem hu (find_eq_none.mp hnone)
  obtain ⟨e, he⟩ := Option.ne_none_iff_exists'.mp hfound
  obtain ⟨-, last, hlast, hnum⟩ := found_updates he
  have hle : u.seqnum ≤ e.seqno := by
    rw [hnum]
    exact seqnum_le_last hkept hu hlast
  have hmem : (⟨table, name, e.data, e.seqno, ctx, more⟩ : Sent β) ∈ r.1 := by
    refine List.mem_of_mem_filter (p := Sent.isFor table name) ?_
    rw [hsent, he]
    show _ ∈ (if n = 0 ∨ n < e.seqno then _ else _)
    rw [if_pos (.inr (Nat.lt_of_lt_of_le hnew hle))]
    exact List.mem_cons_self
  exact ⟨_, hmem, rfl, rfl, hle⟩

/-- An update of `uve1` in `ObjectGeneratorInfo`, a UVE with one more
attribute. -/
def generatorInfo (seqnum : Nat) (deleted : Option Bool) (x : Option Nat) :
    UveSandesh (List (Option Nat)) :=
  ⟨⟨lit "uve1", some (lit "ObjectGeneratorInfo"), deleted, [x]⟩, seqnum⟩

/-- A UVE that is added and deleted: its deletion is sent again. -/
theorem uve_map_resync_deleted :
    ∃ x ∈ (sync_uve .any .any ⟨none, 1, [], false⟩ (updates (generated Nat)
        [generatorInfo 1 none (some 7), generatorInfo 2 (some true) none])).1,
      x.table = lit "ObjectGeneratorInfo" ∧ x.name = lit "uve1" ∧ 2 ≤ x.seqno := by
  have h := uve_map_resync (generated Nat)
    [generatorInfo 1 none (some 7), generatorInfo 2 (some true) none]
    (by simp [generatorInfo]) (lit "ObjectGeneratorInfo") (lit "uve1")
  refine (h.2.2 .any .any 1 [] false).2.2 (generatorInfo 2 (some true) none) ?_
    (by decide)
  rw [show withoutRepeated (generated Nat) _
    = [generatorInfo 1 none (some 7), generatorInfo 2 (some true) none] from rfl]
  exact List.mem_cons_of_mem _ List.mem_cons_self

/-- A repeated delete that carries an attribute is not merged. -/
theorem repeated_delete_ignored :
    ¬ ∀ us : List (UveSandesh (List (Option Nat))),
      (us.Pairwise fun u v => u.seqnum < v.seqnum) →
      ∀ table name e, find (updates (generated Nat) us) table name = some e →
        foldData (generated Nat) (us.filter (UveSandesh.isFor table name))
          = some e.data := by
  intro h
  have hfold := h
    [generatorInfo 1 (some true) none, generatorInfo 2 (some true) (some 7)]
    (by simp [generatorInfo]) (lit "ObjectGeneratorInfo") (lit "uve1")
    (newEntry (generated Nat) (generatorInfo 1 (some true) none)) rfl
  have hrest := congrArg (Option.map UveData.rest) hfold
  exact absurd hrest (by decide)

end Sandesh.Py.Uve
