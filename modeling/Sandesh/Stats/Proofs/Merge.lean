/-
What `DerivedStatsAgg` and `DerivedStatsMerge` do to each key, and what
`FillResult` reports for it.

Both are loops over keys that touch the entry of the key alone, so what
becomes of an entry is what its own turn makes of it.
-/
import Mathlib.Data.BitVec
import Sandesh.Stats.Basic

namespace Sandesh.Stats

open Lib

variable {K E R : Type} [DecidableEq K] {o : Order K}
  {raw agg diff agg' : Map K E} {del : Map K Bool} {mono_usec : U64} {k : K}

-- ====================================================== DerivedStatsAgg

/-- One turn of the loop. -/
theorem aggTurn_spec [AddCommGroup E] {s s' : Map K E × Map K E}
    (h : aggTurn raw del s k = some s') :
    ∃ r gone, raw.lookup k = some r ∧ del.lookup k = some gone
      ∧ s'.1 = s.1.insert k (r - (s.2.lookup k).getD 0)
      ∧ s'.2.lookup k = (if gone then none else some r)
      ∧ ∀ k', k' ≠ k → s'.2.lookup k' = s.2.lookup k' := by
  unfold aggTurn at h
  obtain ⟨r, hr, h⟩ := Option.bind_eq_some_iff.mp h
  obtain ⟨gone, hgone, h⟩ := Option.bind_eq_some_iff.mp h
  refine ⟨r, gone, hr, hgone, ?_⟩
  cases hagg : s.2.lookup k with
  | some ait =>
      rw [hagg] at h
      injection h with h
      subst h
      refine ⟨rfl, ?_⟩
      cases gone with
      | true =>
          exact ⟨Finmap.lookup_erase k s.2,
            fun k' hne => Finmap.lookup_erase_ne hne⟩
      | false =>
          refine ⟨?_, fun k' hne => Finmap.lookup_insert_of_ne s.2 hne⟩
          show (s.2.insert k (ait + (r - ait))).lookup k = some r
          rw [Finmap.lookup_insert, add_sub_cancel]
  | none =>
      rw [hagg] at h
      injection h with h
      subst h
      refine ⟨?_, ?_⟩
      · show s.1.insert k r = s.1.insert k (r - 0)
        rw [sub_zero]
      cases gone with
      | true => exact ⟨hagg, fun k' _ => rfl⟩
      | false =>
          exact ⟨Finmap.lookup_insert s.2,
            fun k' hne => Finmap.lookup_insert_of_ne s.2 hne⟩

theorem aggTurn_own [AddCommGroup E] {s s' : Map K E × Map K E} {k' : K}
    (h : aggTurn raw del s k = some s') (hne : k' ≠ k) :
    (s'.1.lookup k', s'.2.lookup k') = (s.1.lookup k', s.2.lookup k') := by
  obtain ⟨r, gone, -, -, hdiff, -, hother⟩ := aggTurn_spec h
  rw [hdiff, Finmap.lookup_insert_of_ne s.1 hne, hother k' hne]

/-- The difference to the aggregate, and the aggregate after it. -/
theorem agg_spec [AddCommGroup E]
    (h : DerivedStatsAgg o raw agg del = some (diff, agg')) (k : K) :
    (raw.lookup k = none → diff.lookup k = none ∧ agg'.lookup k = agg.lookup k)
    ∧ ∀ r, raw.lookup k = some r → ∃ gone, del.lookup k = some gone
      ∧ diff.lookup k = some (r - (agg.lookup k).getD 0)
      ∧ agg'.lookup k = if gone then none else some r := by
  obtain ⟨hother, hown⟩ := foldlM_own
    (g := fun k (s : Map K E × Map K E) => (s.1.lookup k, s.2.lookup k))
    aggTurn_own (o.nodup _) h
  refine ⟨fun hnone => ?_, fun r hr => ?_⟩
  · have hk : k ∉ o.list raw.keys := by
      rw [Map.mem_list_keys, hnone]
      exact nofun
    obtain ⟨hdiff, hagg⟩ := Prod.mk.inj (hother k hk)
    exact ⟨hdiff.trans (Finmap.lookup_empty k), hagg⟩
  · obtain ⟨s₀, s₁, hget, hturn, hlast⟩ :=
      hown k (Map.mem_list_keys.mpr ⟨r, hr⟩)
    obtain ⟨-, hagg₀⟩ := Prod.mk.inj hget
    obtain ⟨hdiff, hagg⟩ := Prod.mk.inj hlast
    obtain ⟨r', gone, hr', hgone, hdiff₁, hagg₁, -⟩ := aggTurn_spec hturn
    obtain rfl := Option.some.inj (hr.symm.trans hr')
    refine ⟨gone, hgone, ?_, hagg.trans hagg₁⟩
    rw [hdiff, hdiff₁, Finmap.lookup_insert, hagg₀]

/-- `del.at` throws for a key that `del` does not have only. -/
theorem agg_total [AddCommGroup E]
    (hdel : ∀ k r, raw.lookup k = some r → ∃ gone, del.lookup k = some gone)
    (agg : Map K E) : ∃ r, DerivedStatsAgg o raw agg del = some r := by
  refine foldlM_total
    (g := fun k (s : Map K E × Map K E) => (s.1.lookup k, s.2.lookup k))
    aggTurn_own (o.nodup _) fun k hk s₀ _ => ?_
  obtain ⟨r, hr⟩ := Map.mem_list_keys.mp hk
  obtain ⟨gone, hgone⟩ := hdel k r hr
  unfold aggTurn
  rw [hr, hgone]
  cases s₀.2.lookup k with
  | none => exact ⟨_, rfl⟩
  | some ait => exact ⟨_, rfl⟩

-- ==================================================== DerivedStatsMerge

variable {D : DSTT E R} {dsm dsm' : Map K D.Obj}

theorem addTurn_spec {seen : List K}
    (h : addTurn D raw del mono_usec seen dsm k = some dsm') :
    (k ∈ seen ∧ dsm' = dsm)
    ∨ ∃ r gone, k ∉ seen ∧ raw.lookup k = some r ∧ del.lookup k = some gone
      ∧ dsm'
        = if gone then dsm else dsm.insert k (D.Update D.make r mono_usec) := by
  unfold addTurn at h
  by_cases hseen : k ∈ seen
  · rw [if_pos hseen] at h
    injection h with h
    exact .inl ⟨hseen, h.symm⟩
  · rw [if_neg hseen] at h
    obtain ⟨r, hr, h⟩ := Option.bind_eq_some_iff.mp h
    obtain ⟨gone, hgone, h⟩ := Option.bind_eq_some_iff.mp h
    refine .inr ⟨r, gone, hseen, hr, hgone, ?_⟩
    cases gone with
    | true =>
        injection h with h
        exact h.symm
    | false =>
        simp only [Bool.false_eq_true, if_false] at h ⊢
        split at h
        · cases h
        · injection h with h
          exact h.symm

theorem addTurn_own {seen : List K} {k' : K}
    (h : addTurn D raw del mono_usec seen dsm k = some dsm') (hne : k' ≠ k) :
    dsm'.lookup k' = dsm.lookup k' := by
  rcases addTurn_spec h with hseen | hadded
  · rw [hseen.2]
  · obtain ⟨r, gone, -, -, -, heq⟩ := hadded
    rw [heq]
    cases gone with
    | true => rfl
    | false => exact Finmap.lookup_insert_of_ne dsm hne

theorem mergeTurn_none (ds : D.Obj) (h : raw.lookup k = none) :
    mergeTurn D raw del mono_usec k ds = ⟨some ds, [], false⟩ := by
  unfold mergeTurn
  rw [h]

theorem mergeTurn_some (ds : D.Obj) {r : E} {gone : Bool}
    (h : raw.lookup k = some r) (hgone : del.lookup k = some gone) :
    mergeTurn D raw del mono_usec k ds
      = ⟨if gone then none else some (D.Update ds r mono_usec), [k], false⟩ := by
  unfold mergeTurn
  rw [h, hgone]
  cases gone with
  | true => rfl
  | false => rfl

theorem mergeTurn_stuck (ds : D.Obj) {r : E}
    (h : raw.lookup k = some r) (hgone : del.lookup k = none) :
    (mergeTurn D raw del mono_usec k ds).stuck = true := by
  unfold mergeTurn
  rw [h, hgone]

/-- The loop over the objects has seen a key of `raw` if it had an
object, and then knows whether it is to be deleted. -/
theorem sent_merge
    (hends : (dsm.walk o (mergeTurn D raw del mono_usec)).stuck = false) {r : E}
    (hr : raw.lookup k = some r) :
    (dsm.lookup k = none
      ∧ k ∉ (dsm.walk o (mergeTurn D raw del mono_usec)).sent)
    ∨ ∃ ds gone, dsm.lookup k = some ds ∧ del.lookup k = some gone
      ∧ k ∈ (dsm.walk o (mergeTurn D raw del mono_usec)).sent := by
  cases hds : dsm.lookup k with
  | some ds =>
      have hmoves := Map.stuck_walk.mp hends k ds hds
      cases hgone : del.lookup k with
      | none =>
          rw [mergeTurn_stuck ds hr hgone] at hmoves
          cases hmoves
      | some gone =>
          refine .inr ⟨ds, gone, rfl, rfl, Map.mem_sent_walk_of hends hds ?_⟩
          rw [mergeTurn_some ds hr hgone]
          exact List.mem_cons_self
  | none =>
      refine .inl ⟨rfl, fun hsent => ?_⟩
      obtain ⟨k', ds, hds', hmem, -⟩ := Map.mem_sent_walk hsent
      unfold mergeTurn at hmem
      split at hmem
      · cases hmem
      · split at hmem
        · cases hmem
        · rw [← List.mem_singleton.mp hmem, hds] at hds'
          cases hds'
        · rw [← List.mem_singleton.mp hmem, hds] at hds'
          cases hds'

/-- What becomes of each key, if there are any. -/
theorem merge_spec (hne : raw.keys ≠ ∅)
    (h : DerivedStatsMerge D o raw dsm del mono_usec = some dsm') (k : K) :
    (raw.lookup k = none → dsm'.lookup k = dsm.lookup k)
    ∧ ∀ r, raw.lookup k = some r → ∃ gone, del.lookup k = some gone
      ∧ dsm'.lookup k
        = if gone then none
          else some (D.Update ((dsm.lookup k).getD D.make) r mono_usec) := by
  unfold DerivedStatsMerge at h
  simp only [] at h
  rw [if_neg hne] at h
  cases hends : (dsm.walk o (mergeTurn D raw del mono_usec)).stuck with
  | true =>
      rw [hends] at h
      cases h
  | false =>
      rw [hends] at h
      simp only [Bool.false_eq_true, if_false] at h
      obtain ⟨hother, hown⟩ := foldlM_own
        (g := fun k (dsm : Map K D.Obj) => dsm.lookup k) addTurn_own (o.nodup _) h
      have hwalk := Map.lookup_walk hends k
      refine ⟨fun hnone => ?_, fun r hr => ?_⟩
      · have hk : k ∉ o.list raw.keys := by
          rw [Map.mem_list_keys, hnone]
          exact nofun
        rw [hother k hk, hwalk]
        simp only [mergeTurn_none _ hnone]
        exact Option.bind_fun_some _
      · obtain ⟨s₀, s₁, hget, hturn, hlast⟩ :=
          hown k (Map.mem_list_keys.mpr ⟨r, hr⟩)
        rw [hlast]
        rcases sent_merge hends hr with hnew | hold
        · obtain ⟨hds, hnotsent⟩ := hnew
          rw [hds] at hwalk
          rcases addTurn_spec hturn with hseen | hadded
          · exact absurd hseen.1 hnotsent
          · obtain ⟨r', gone, -, hr', hgone, heq⟩ := hadded
            obtain rfl := Option.some.inj (hr.symm.trans hr')
            refine ⟨gone, hgone, ?_⟩
            rw [heq, hds]
            cases gone with
            | true => exact hget.trans hwalk
            | false => exact Finmap.lookup_insert s₀
        · obtain ⟨ds, gone, hds, hgone, hsent⟩ := hold
          rw [hds] at hwalk
          rcases addTurn_spec hturn with hseen | hadded
          · refine ⟨gone, hgone, ?_⟩
            rw [hseen.2, hget, hwalk, Option.bind_some,
              mergeTurn_some ds hr hgone, hds]
            rfl
          · obtain ⟨r', gone', hnotsent, -⟩ := hadded
            exact absurd hsent hnotsent

/-- No assertion fails if `del` has every key. -/
theorem merge_total
    (hdel : ∀ k r, raw.lookup k = some r → ∃ gone, del.lookup k = some gone)
    (dsm : Map K D.Obj) (mono_usec : U64) :
    ∃ dsm', DerivedStatsMerge D o raw dsm del mono_usec = some dsm' := by
  unfold DerivedStatsMerge
  by_cases hne : raw.keys = ∅
  · rw [if_pos hne]
    exact ⟨∅, rfl⟩
  have hends : (dsm.walk o (mergeTurn D raw del mono_usec)).stuck = false := by
    refine Map.stuck_walk.mpr fun k ds _ => ?_
    cases hr : raw.lookup k with
    | none => rw [mergeTurn_none ds hr]
    | some r =>
        obtain ⟨gone, hgone⟩ := hdel k r hr
        rw [mergeTurn_some ds hr hgone]
  simp only []
  rw [if_neg hne, hends, if_neg Bool.false_ne_true]
  refine foldlM_total (g := fun k (dsm : Map K D.Obj) => dsm.lookup k)
    addTurn_own (o.nodup _) fun k hk s₀ hs₀ => ?_
  obtain ⟨r, hr⟩ := Map.mem_list_keys.mp hk
  obtain ⟨gone, hgone⟩ := hdel k r hr
  unfold addTurn
  rcases sent_merge hends hr with hnew | hold
  · obtain ⟨hds, hnotsent⟩ := hnew
    have hnone : s₀.lookup k = none := by
      refine hs₀.trans ?_
      rw [Map.lookup_walk hends, hds]
      rfl
    rw [if_neg hnotsent, hr, hgone]
    cases gone with
    | true => exact ⟨_, rfl⟩
    | false =>
        refine ⟨_, if_neg ?_⟩
        rw [hnone]
        exact Bool.false_ne_true
  · obtain ⟨ds, gone', -, -, hsent⟩ := hold
    rw [if_pos hsent]
    exact ⟨_, rfl⟩

/-- Without any, there is nothing left. -/
theorem merge_empty (h : raw.keys = ∅) :
    DerivedStatsMerge D o raw dsm del mono_usec = some ∅ := by
  unfold DerivedStatsMerge
  exact if_pos h

/-- For every map of objects and every `raw` whose keys `del` has, the call
comes to its end. Every key is treated once: what `raw` does not have
stays as it was, a deleted key is gone, and any other has its object, or a
new one, with one update. -/
theorem merge_treats_each_key (D : DSTT E R) (o : Order K) (raw : Map K E)
    (dsm : Map K D.Obj) (del : Map K Bool) (mono_usec : U64)
    (hdel : ∀ k r, raw.lookup k = some r → ∃ gone, del.lookup k = some gone) :
    ∃ dsm', DerivedStatsMerge D o raw dsm del mono_usec = some dsm'
      ∧ (raw = ∅ → dsm' = ∅)
      ∧ (raw ≠ ∅ → ∀ k,
          (raw.lookup k = none → dsm'.lookup k = dsm.lookup k)
          ∧ ∀ r, raw.lookup k = some r →
            (del.lookup k = some true → dsm'.lookup k = none)
            ∧ (del.lookup k = some false → dsm'.lookup k
                = some (D.Update ((dsm.lookup k).getD D.make) r mono_usec))) := by
  obtain ⟨dsm', hmerge⟩ := merge_total (o := o) hdel dsm mono_usec
  refine ⟨dsm', hmerge, fun hempty => ?_, fun hne k => ?_⟩
  · rw [merge_empty (by rw [hempty, Finmap.keys_empty])] at hmerge
    exact (Option.some.inj hmerge).symm
  have hkeys : raw.keys ≠ ∅ := by
    intro hnone
    apply hne
    apply Finmap.ext_lookup
    intro k
    rw [Finmap.lookup_empty, Finmap.lookup_eq_none, ← Finmap.mem_keys, hnone]
    exact Finset.notMem_empty k
  obtain ⟨hother, hown⟩ := merge_spec hkeys hmerge k
  refine ⟨hother, fun r hr => ?_⟩
  obtain ⟨gone, hgone, hleft⟩ := hown r hr
  refine ⟨fun htrue => ?_, fun hfalse => ?_⟩
  · obtain rfl := Option.some.inj (hgone.symm.trans htrue)
    exact hleft
  · obtain rfl := Option.some.inj (hgone.symm.trans hfalse)
    exact hleft

/-- A first update of the key `"a"`. -/
theorem merge_treats_each_key_new :
    ∃ dsm', DerivedStatsMerge
        (DSSum.kind Order.any (DSSum.build (0 : BitVec 32) 0 0)) Order.any
        (Finmap.singleton "a" 5) ∅ (Finmap.singleton "a" false) 0 = some dsm'
      ∧ dsm'.lookup "a"
        = some (DSSum.Update Order.any (DSSum.build (0 : BitVec 32) 0 0) 5 0) := by
  have hdel : ∀ (k : String) (r : BitVec 32),
      (Finmap.singleton "a" 5 : Map String (BitVec 32)).lookup k = some r →
      ∃ gone, (Finmap.singleton "a" false : Map String Bool).lookup k
        = some gone := by
    intro k r hr
    have hk : k ∈ Finmap.singleton (β := fun _ => BitVec 32) "a" 5 :=
      Finmap.mem_iff.mpr ⟨r, hr⟩
    rw [(Finmap.mem_singleton _ _ _).mp hk]
    exact ⟨false, Finmap.lookup_singleton_eq⟩
  have hne : Finmap.singleton (β := fun _ => BitVec 32) "a" 5 ≠ ∅ := by
    intro hempty
    have hnone := Finmap.lookup_empty (β := fun _ : String => BitVec 32) "a"
    rw [← hempty, Finmap.lookup_singleton_eq] at hnone
    cases hnone
  obtain ⟨dsm', hmerge, -, hkeys⟩ := merge_treats_each_key
    (DSSum.kind Order.any (DSSum.build (0 : BitVec 32) 0 0)) Order.any
    (Finmap.singleton "a" 5) ∅ (Finmap.singleton "a" false) 0 hdel
  refine ⟨dsm', hmerge, ?_⟩
  have hleft := ((hkeys hne "a").2 5 Finmap.lookup_singleton_eq).2
    Finmap.lookup_singleton_eq
  rw [Finmap.lookup_empty] at hleft
  exact hleft

-- =========================================================== FillResult

theorem fillTurn_own {force : Bool} {mres : Map K R} {k' : K} (hne : k' ≠ k) :
    (fillTurn D force dsm mres k).lookup k' = mres.lookup k' := by
  unfold fillTurn
  cases dsm.lookup k with
  | none => rfl
  | some ds =>
      simp only []
      split
      · exact Finmap.lookup_insert_of_ne mres hne
      · rfl

/-- A key without an object reports nothing. -/
theorem lookup_fillResult_none {s : DerivedStatsIf K D}
    (h : (s.dsm_.getD ∅).lookup k = none) :
    (s.FillResult o false).1.lookup k = none := by
  unfold DerivedStatsIf.FillResult
  cases hdsm : s.dsm_ with
  | none => exact Finmap.lookup_empty k
  | some dsm =>
      rw [hdsm, Option.getD_some] at h
      have hk : k ∉ o.list dsm.keys := by
        rw [Map.mem_list_keys, h]
        exact nofun
      refine (foldl_notMem (g := fun k (mres : Map K R) => mres.lookup k)
        (fun hne => fillTurn_own hne) hk).trans ?_
      exact Finmap.lookup_empty k

/-- An object reports what its own `FillResult` finds. -/
theorem lookup_fillResult {s : DerivedStatsIf K D} {ds : D.Obj}
    (hdsm : s.dsm_ = some dsm) (hds : dsm.lookup k = some ds) :
    (s.FillResult o false).1.lookup k
      = if (D.FillResult ds).1 = .DSR_OK then some (D.FillResult ds).2
        else none := by
  unfold DerivedStatsIf.FillResult
  rw [hdsm]
  simp only []
  obtain ⟨mres, hget, hlast⟩ := foldl_own
    (g := fun k (mres : Map K R) => mres.lookup k) (s := ∅)
    (fun hne => fillTurn_own hne) (o.nodup _)
    (Map.mem_list_keys.mpr ⟨ds, hds⟩)
  refine hlast.trans ?_
  unfold fillTurn
  rw [hds]
  simp only [Bool.false_and, Bool.false_or, Bool.not_false, Bool.true_and,
    beq_iff_eq]
  by_cases hok : (D.FillResult ds).1 = .DSR_OK
  · rw [if_pos hok, if_pos hok]
    exact Finmap.lookup_insert mres
  · rw [if_neg hok, if_neg hok]
    exact hget.trans (Finmap.lookup_empty k)

end Sandesh.Stats
