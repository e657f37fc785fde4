/-
What a call on a group does to each of its maps.

The maps are visited one after the other and a visit touches its own map
only, so a call on the group is the calls on its maps, each as it was.
-/
import Sandesh.Uve.Group
import Sandesh.Uve.Proofs.Calls

namespace Sandesh.Uve

open Lib

variable {β : Type} {TM : Nat} {T : UveSandesh β} {o : Orders} {c : SyncCall}
  {g : Group β}

theorem get_put_ne {cell cell' : Cell} (h : cell' ≠ cell) (m : PerTypeMap β) :
    (g.put T cell m).get T cell' = g.get T cell' := by
  cases cell with
  | native =>
      cases cell' with
      | native => exact absurd rfl h
      | proxy p i => rfl
  | proxy p i =>
      cases cell' with
      | native => rfl
      | proxy p' i' =>
          show ((g.group_map_.insert p _).lookup p').getD _ i' = _
          by_cases hp : p' = p
          · subst hp
            have hi : i' ≠ i := fun heq => h (heq ▸ rfl)
            rw [Finmap.lookup_insert, Option.getD_some, Function.update_of_ne hi]
            rfl
          · rw [Finmap.lookup_insert_of_ne _ hp]
            rfl

theorem get_put (cell : Cell) (m : PerTypeMap β) : (g.put T cell m).get T cell = m := by
  cases cell with
  | native => rfl
  | proxy p i =>
      show ((g.group_map_.insert p _).lookup p).getD _ i = _
      rw [Finmap.lookup_insert, Option.getD_some, Function.update_self]

/-- An entry: the map, the name and the table. -/
structure Key where
  cell : Cell
  name : Bytes
  table : Bytes
  deriving DecidableEq

/-- The entry under a key, in the map of its cell. -/
def Group.find (T : UveSandesh β) (g : Group β) (k : Key) : Option (UVEMapEntry β) :=
  (g.get T k.cell).find k.name k.table

theorem find_put_ne {g : Group β} {k : Key} {cell : Cell} (h : k.cell ≠ cell)
    (m : PerTypeMap β) : (g.put T cell m).find T k = g.find T k := by
  unfold Group.find
  rw [get_put_ne h]

theorem nodup_cells (proxies : Order Bytes) (g : Group β) :
    (g.cells proxies).Nodup := by
  unfold Group.cells
  refine List.nodup_cons.mpr ⟨?_, ?_⟩
  · rw [List.mem_flatMap]
    rintro ⟨p, -, hmem⟩
    obtain ⟨i, -, heq⟩ := List.mem_map.mp hmem
    cases heq
  · refine List.nodup_flatMap.mpr ⟨fun p _ => ?_, ?_⟩
    · refine List.Nodup.map ?_ (List.nodup_finRange _)
      intro i i' heq
      injection heq
    · refine (proxies.nodup _).imp ?_
      intro p p' hne
      show List.Disjoint _ _
      intro cell hcell hcell'
      obtain ⟨i, -, rfl⟩ := List.mem_map.mp hcell
      obtain ⟨i', -, heq⟩ := List.mem_map.mp hcell'
      injection heq with hp _
      exact hne hp.symm

/-- A map that has an entry is one of those that a sync goes through. -/
theorem mem_cells_of_find {g : Group β} {k : Key} {e : UVEMapEntry β}
    (h : g.find T k = some e) (proxies : Order Bytes) : k.cell ∈ g.cells proxies := by
  obtain ⟨cell, name, table⟩ := k
  cases cell with
  | native => exact List.mem_cons_self
  | proxy p i =>
      refine List.mem_cons_of_mem _ (List.mem_flatMap.mpr
        ⟨p, ?_, List.mem_map.mpr ⟨i, List.mem_finRange i, rfl⟩⟩)
      cases hp : g.group_map_.lookup p with
      | some maps => exact Map.mem_list_keys.mpr ⟨maps, hp⟩
      | none =>
          have hnew : g.get T (.proxy p i) = .new T := by
            show (g.group_map_.lookup p).getD _ i = _
            rw [hp]
            rfl
          unfold Group.find at h
          rw [hnew] at h
          cases h

/-- The call of one map. -/
def syncAt (TM : Nat) (T : UveSandesh β) (o : Orders) (c : SyncCall) (g : Group β)
    (cell : Cell) : Synced β :=
  SyncUVE TM (o.names cell) (o.tables cell) c (g.get T cell)

theorem syncAt_put_ne {cell cell' : Cell} (h : cell' ≠ cell) (m : PerTypeMap β) :
    syncAt TM T o c (g.put T cell m) cell' = syncAt TM T o c g cell' := by
  unfold syncAt
  rw [get_put_ne h]

theorem syncCells_stays {cell : Cell} (cells : List Cell)
    (h : (syncAt TM T o c g cell).stuck = true) :
    (syncCells TM T o c (cell :: cells) g).stuck = true := by
  have heq : syncCells TM T o c (cell :: cells) g = ⟨_, _, _, true⟩ := if_pos h
  rw [heq]

theorem syncCells_moves {cell : Cell} (cells : List Cell)
    (h : (syncAt TM T o c g cell).stuck = false) :
    let rest := syncCells TM T o c cells (g.put T cell (syncAt TM T o c g cell).map)
    syncCells TM T o c (cell :: cells) g
      = ⟨rest.group, (syncAt TM T o c g cell).sent ++ rest.sent,
          (syncAt TM T o c g cell).count + rest.count, rest.stuck⟩ :=
  if_neg (ne_true_of_eq_false h)

theorem syncCells_stuck (cells : List Cell) :
    ∀ {g : Group β}, cells.Nodup →
      ((syncCells TM T o c cells g).stuck = false
        ↔ ∀ cell ∈ cells, (syncAt TM T o c g cell).stuck = false) := by
  induction cells with
  | nil =>
      intro g _
      exact iff_of_true rfl nofun
  | cons cell cells ih =>
      intro g hnodup
      obtain ⟨hcell, hcells⟩ := List.nodup_cons.mp hnodup
      rw [List.forall_mem_cons]
      cases hstuck : (syncAt TM T o c g cell).stuck with
      | true =>
          rw [syncCells_stays cells hstuck]
          exact iff_of_false Bool.noConfusion fun h => Bool.noConfusion h.1
      | false =>
          rw [syncCells_moves cells hstuck, and_iff_right rfl]
          refine (ih hcells).trans (forall₂_congr fun cell' hcell' => ?_)
          rw [syncAt_put_ne (ne_of_mem_of_not_mem hcell' hcell)]

/-- What a call on the group sends is what the calls on its maps send. -/
theorem syncCells_sent (cells : List Cell) :
    ∀ {g : Group β}, cells.Nodup → (syncCells TM T o c cells g).stuck = false →
      (syncCells TM T o c cells g).sent
        = cells.flatMap fun cell => (syncAt TM T o c g cell).sent := by
  induction cells with
  | nil =>
      intro g _ _
      rfl
  | cons cell cells ih =>
      intro g hnodup hends
      obtain ⟨hcell, hcells⟩ := List.nodup_cons.mp hnodup
      have hfirst : (syncAt TM T o c g cell).stuck = false :=
        (syncCells_stuck (cell :: cells) hnodup).mp hends cell List.mem_cons_self
      rw [syncCells_moves cells hfirst] at hends ⊢
      show (syncAt TM T o c g cell).sent ++ (syncCells TM T o c cells _).sent = _
      rw [ih hcells hends, List.flatMap_cons]
      refine congrArg _ (List.flatMap_congr fun cell' hcell' => ?_)
      rw [syncAt_put_ne (ne_of_mem_of_not_mem hcell' hcell)]

/-- A message of a call on the group comes from an entry. -/
theorem exists_of_mem_sent_group (hends : (g.SyncUVE TM T o c).stuck = false) {x : Sent β}
    (hx : x ∈ (g.SyncUVE TM T o c).sent) :
    ∃ k e, g.find T k = some e ∧ x = c.message k.name k.table e := by
  unfold Group.SyncUVE at hx hends
  rw [syncCells_sent _ (nodup_cells _ g) hends] at hx
  obtain ⟨cell, -, hx⟩ := List.mem_flatMap.mp hx
  obtain ⟨e, he, -, heq, -⟩ := mem_sent_SyncUVE hx
  exact ⟨⟨cell, x.name, x.table⟩, e, he, heq⟩

end Sandesh.Uve
