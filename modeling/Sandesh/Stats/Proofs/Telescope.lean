/-
Aggregate counters telescope.

With `is_agg_` the objects are fed the differences of the raw values they
receive, so that without a window the sum of an object is the last raw
value again. The differences are taken to `aggm_`, and an update with an
empty map clears the objects but not `aggm_`: a key that comes back then
gets a new object and only the difference to its old value. `StaysFresh`
says that this does not happen, or that the old value was 0, and that the
counter of samples does not come round to 0.
-/
import Mathlib.Data.BitVec
import Sandesh.Stats.Proofs.Merge

namespace Sandesh.Stats

open Lib DSSum

variable {K E : Type} [DecidableEq K] [AddCommGroup E] {o : Order K}
  {p : Order U64} {value : E}

/-- An update of a map of statistics. -/
structure MapUpdate (K E : Type) where
  raw : Map K E
  del : Map K Bool
  mono_usec : U64

/-- `DSSum` with an empty annotation. -/
abbrev wholeSum (p : Order U64) (value : E) : DSTT E E :=
  DSSum.kind p ((DSSum.new value none).get rfl)

/-- The updates of a map, with the last raw value received for each key. -/
def received (o : Order K) (p : Order U64) (value : E) :
    Machine (DerivedStatsIf K (wholeSum p value) × (K → Option E))
      (MapUpdate K E) :=
  Machine.watch
    ⟨fun s a => s.Update o a.raw a.del a.mono_usec⟩
    fun last _ a k => (a.raw.lookup k).or (last k)

/-- The object under a key. -/
def live (s : DerivedStatsIf K (wholeSum p value)) (k : K) : Option (DSSum E) :=
  (s.dsm_.getD ∅).lookup k

/-- Every key that has an object reports its last raw value. -/
def Telescopes (o : Order K)
    (s : DerivedStatsIf K (wholeSum p value) × (K → Option E)) : Prop :=
  ∀ k ds, live s.1 k = some ds →
    ∃ r, s.2 k = some r ∧ (s.1.FillResult o false).1.lookup k = some r

/-- A key that gets a new object has no old value but 0, and a key that has
one can count the update. -/
def StaysFresh (s : DerivedStatsIf K (wholeSum p value)) (a : MapUpdate K E) :
    Prop :=
  ∀ k r, a.raw.lookup k = some r → a.del.lookup k = some false →
    match live s k with
    | none => ∀ old, s.aggm_.lookup k = some old → old = 0
    | some ds => ds.samples_ + 1 ≠ 0

-- ============================================================ one object

theorem update_whole {d : DSSum E} (h : d.range_usecs_ = 0) (raw : E) (t : U64) :
    d.Update p raw t
      = { d with
          value_ := if d.samples_ = 0 then raw else d.value_ + raw
          samples_ := d.samples_ + 1 } := by
  unfold DSSum.Update
  simp only []
  rw [if_pos h]

theorem fillResult_whole {d : DSSum E} (h : d.range_usecs_ = 0) :
    d.FillResult
      = if d.samples_ = 0 then (.DSR_INVALID, 0) else (.DSR_OK, d.value_) := by
  unfold DSSum.FillResult
  simp only [h, ne_eq, not_true, false_and, if_false]

/-- The objects have the last raw values, and so does `aggm_`. -/
structure StatsInv (s : DerivedStatsIf K (wholeSum p value) × (K → Option E)) :
    Prop where
  agg : s.1.is_agg_ = true
  sums : ∀ k ds, live s.1 k = some ds →
    ∃ r, s.2 k = some r ∧ s.1.aggm_.lookup k = some r ∧ ds.value_ = r
      ∧ ds.samples_ ≠ 0 ∧ ds.range_usecs_ = 0

variable {s s' : DerivedStatsIf K (wholeSum p value) × (K → Option E)}
  {a : MapUpdate K E} {k : K}

-- ============================================================ one update

theorem stats_update {s s' : DerivedStatsIf K (wholeSum p value)}
    (hagg : s.is_agg_ = true)
    (h : s.Update o a.raw a.del a.mono_usec = some s') :
    ∃ diff agg' dsm', DerivedStatsAgg o a.raw s.aggm_ a.del = some (diff, agg')
      ∧ DerivedStatsMerge (wholeSum p value) o diff (s.dsm_.getD ∅) a.del
          a.mono_usec = some dsm'
      ∧ s' = { s with dsm_ := some dsm', aggm_ := agg' } := by
  unfold DerivedStatsIf.Update at h
  rw [if_pos hagg] at h
  obtain ⟨r, hagg', h⟩ := Option.bind_eq_some_iff.mp h
  obtain ⟨dsm', hmerge, h⟩ := Option.bind_eq_some_iff.mp h
  injection h with h
  exact ⟨r.1, r.2, dsm', hagg', hmerge, h.symm⟩

/-- There are differences if there are raw values. -/
theorem diff_keys {raw agg diff agg' : Map K E} {del : Map K Bool}
    (h : DerivedStatsAgg o raw agg del = some (diff, agg')) :
    diff.keys = ∅ ↔ raw.keys = ∅ := by
  rw [Map.keys_eq_empty, Map.keys_eq_empty]
  refine forall_congr' fun k => ?_
  obtain ⟨hother, hown⟩ := agg_spec h k
  cases hraw : raw.lookup k with
  | none => exact iff_of_true (hother hraw).1 rfl
  | some r =>
      obtain ⟨gone, -, hdiff, -⟩ := hown r hraw
      rw [hdiff]
      exact iff_of_false nofun nofun

/-- What an update does to a key. -/
theorem stats_key {s s' : DerivedStatsIf K (wholeSum p value)}
    (hagg : s.is_agg_ = true)
    (h : s.Update o a.raw a.del a.mono_usec = some s') (k : K) :
    (a.raw.lookup k = none →
      s'.aggm_.lookup k = s.aggm_.lookup k
      ∧ live s' k = if a.raw.keys = ∅ then none else live s k)
    ∧ ∀ r, a.raw.lookup k = some r → ∃ gone, a.del.lookup k = some gone
      ∧ s'.aggm_.lookup k = (if gone then none else some r)
      ∧ live s' k
        = if gone then none
          else some (((live s k).getD ((DSSum.new value none).get rfl)).Update p
            (r - (s.aggm_.lookup k).getD 0) a.mono_usec) := by
  obtain ⟨diff, agg', dsm', hdiff, hmerge, rfl⟩ := stats_update hagg h
  obtain ⟨hother, hown⟩ := agg_spec hdiff k
  have hkeys := diff_keys hdiff
  by_cases hempty : diff.keys = ∅
  · rw [merge_empty hempty] at hmerge
    injection hmerge with hmerge
    subst hmerge
    refine ⟨fun hnone => ⟨(hother hnone).2, ?_⟩, fun r hr => ?_⟩
    · rw [if_pos (hkeys.mp hempty)]
      exact Finmap.lookup_empty k
    · obtain ⟨gone, -, hsome, -⟩ := hown r hr
      rw [Map.keys_eq_empty.mp hempty k] at hsome
      cases hsome
  · obtain ⟨hkept, hmerged⟩ := merge_spec hempty hmerge k
    refine ⟨fun hnone => ?_, fun r hr => ?_⟩
    · obtain ⟨hdiffk, haggk⟩ := hother hnone
      rw [if_neg fun hraw => hempty (hkeys.mpr hraw)]
      exact ⟨haggk, hkept hdiffk⟩
    · obtain ⟨gone, hgone, hdiffk, haggk⟩ := hown r hr
      obtain ⟨gone', hgone', hlive⟩ := hmerged _ hdiffk
      obtain rfl := Option.some.inj (hgone.symm.trans hgone')
      exact ⟨gone, hgone, haggk, hlive⟩

/-- The object of a key after an update has its raw value if the update
was fresh. -/
theorem sums_update (hinv : StatsInv s) (k : K) (r : E) (t : U64) :
    let ds := ((live s.1 k).getD ((DSSum.new value none).get rfl)).Update p
      (r - (s.1.aggm_.lookup k).getD 0) t
    ds.range_usecs_ = 0
    ∧ (ds.samples_ ≠ 0 ∧ ds.value_ = r
      ↔ match live s.1 k with
        | none => ∀ old, s.1.aggm_.lookup k = some old → old = 0
        | some ds => ds.samples_ + 1 ≠ 0) := by
  simp only []
  cases hlive : live s.1 k with
  | none =>
      rw [Option.getD_none, update_whole rfl]
      refine ⟨rfl, ?_⟩
      have hvalue : ((1 : U64) ≠ 0 ∧ r - (s.1.aggm_.lookup k).getD 0 = r)
          ↔ ∀ old, s.1.aggm_.lookup k = some old → old = 0 := by
        rw [sub_eq_self]
        cases s.1.aggm_.lookup k with
        | none => exact iff_of_true ⟨by decide, rfl⟩ nofun
        | some old =>
            refine ⟨fun h old' heq => ?_, fun h => ⟨by decide, h old rfl⟩⟩
            injection heq with heq
            rw [← heq]
            exact h.2
      exact hvalue
  | some ds =>
      obtain ⟨old, -, hagg, hvalue, hsamples, hrange⟩ := hinv.sums k ds hlive
      rw [Option.getD_some, update_whole hrange, hagg]
      refine ⟨hrange, ?_⟩
      simp only [if_neg hsamples, Option.getD_some, hvalue, add_sub_cancel,
        and_true]

/-- What a live object reports. -/
theorem reports_iff {s : DerivedStatsIf K (wholeSum p value)} {ds : DSSum E}
    {r : E} (hlive : live s k = some ds) (hrange : ds.range_usecs_ = 0) :
    (s.FillResult o false).1.lookup k = some r
      ↔ ds.samples_ ≠ 0 ∧ ds.value_ = r := by
  unfold live at hlive
  cases hdsm : s.dsm_ with
  | none =>
      rw [hdsm] at hlive
      cases (Finmap.lookup_empty k).symm.trans hlive
  | some dsm =>
      rw [hdsm] at hlive
      rw [lookup_fillResult hdsm hlive]
      show (if ds.FillResult.1 = .DSR_OK then some ds.FillResult.2 else none)
        = some r ↔ _
      rw [fillResult_whole hrange]
      by_cases hzero : ds.samples_ = 0
      · rw [if_pos hzero]
        simp only [reduceCtorEq, if_false, hzero, ne_eq, not_true, false_and]
      · rw [if_neg hzero]
        simp only [if_true, Option.some.injEq, ne_eq, hzero, not_false_eq_true,
          true_and]

theorem received_step (h : (received o p value).step s a = some s') :
    s.1.Update o a.raw a.del a.mono_usec = some s'.1
    ∧ ∀ k, s'.2 k = (a.raw.lookup k).or (s.2 k) := by
  obtain ⟨hupdate, hlast⟩ := Machine.watch_step.mp h
  exact ⟨hupdate, fun k => congrFun hlast k⟩

theorem statsInv_start :
    StatsInv
      (DerivedStatsIf.new (K := K) (wholeSum p value) true, fun _ => none) := by
  refine ⟨rfl, fun k ds hlive => ?_⟩
  cases (Finmap.lookup_empty k).symm.trans hlive

theorem statsInv_step (hinv : StatsInv s)
    (hstep : (received o p value).step s a = some s')
    (hfresh : StaysFresh s.1 a) : StatsInv s' := by
  obtain ⟨hupdate, hlast⟩ := received_step hstep
  refine ⟨?_, fun k ds hlive => ?_⟩
  · obtain ⟨diff, agg', dsm', -, -, heq⟩ := stats_update hinv.agg hupdate
    rw [heq]
    exact hinv.agg
  obtain ⟨hother, hown⟩ := stats_key hinv.agg hupdate k
  rw [hlast]
  cases hraw : a.raw.lookup k with
  | none =>
      obtain ⟨hagg, hsame⟩ := hother hraw
      rw [hsame] at hlive
      rw [hagg]
      split at hlive
      · cases hlive
      · exact hinv.sums k ds hlive
  | some r =>
      obtain ⟨gone, hgone, hagg, hnew⟩ := hown r hraw
      cases gone with
      | true =>
          rw [hnew] at hlive
          cases hlive
      | false =>
          obtain ⟨hrange, hiff⟩ := sums_update hinv k r a.mono_usec
          obtain ⟨hsamples, hvalue⟩ := hiff.mpr (hfresh k r hraw hgone)
          obtain rfl := Option.some.inj (hnew.symm.trans hlive)
          exact ⟨r, rfl, hagg, hvalue, hsamples, hrange⟩

theorem telescopes_of_inv (hinv : StatsInv s) : Telescopes o s := by
  intro k ds hlive
  obtain ⟨r, hlast, -, hvalue, hsamples, hrange⟩ := hinv.sums k ds hlive
  exact ⟨r, hlast, (reports_iff hlive hrange).mpr ⟨hsamples, hvalue⟩⟩

/-- A key whose sum is its raw value was updated afresh. -/
theorem fresh_of_telescopes (hinv : StatsInv s)
    (hstep : (received o p value).step s a = some s') (h : Telescopes o s') :
    StaysFresh s.1 a := by
  obtain ⟨hupdate, hlast⟩ := received_step hstep
  intro k r hraw hkept
  obtain ⟨gone, hgone, -, hnew⟩ := (stats_key hinv.agg hupdate k).2 r hraw
  rw [hkept] at hgone
  obtain rfl := Option.some.inj hgone
  obtain ⟨hrange, hiff⟩ := sums_update hinv k r a.mono_usec
  obtain ⟨r', hr', hreport⟩ := h k _ hnew
  rw [hlast, hraw] at hr'
  obtain rfl := Option.some.inj hr'
  exact hiff.mp ((reports_iff hnew hrange).mp hreport)

-- ============================================================== the runs

/-- In every run of updates, with empty and partial maps and deletions,
every live object reports the last raw value exactly as far as the updates
are fresh. -/
theorem aggregate_telescopes_iff (o : Order K) (p : Order U64) (value : E)
    (as : List (MapUpdate K E)) :
    (received o p value).Each (fun _ _ s' => Telescopes o s')
        (DerivedStatsIf.new _ true, fun _ => none) as
      ↔ (received o p value).Each (fun s a _ => StaysFresh s.1 a)
          (DerivedStatsIf.new _ true, fun _ => none) as := by
  refine Machine.each_iff (M := received o p value) (I := StatsInv) ?_ ?_ as
    statsInv_start
  · intro s a s' hinv hstep
    exact ⟨fresh_of_telescopes hinv hstep,
      fun hfresh => telescopes_of_inv (statsInv_step hinv hstep hfresh)⟩
  · intro s a s' hinv hstep h
    exact statsInv_step hinv hstep (fresh_of_telescopes hinv hstep h)

/-- An update has a result if `del` has every key. -/
theorem received_total (hinv : StatsInv s)
    (hdel : ∀ k r, a.raw.lookup k = some r → ∃ gone, a.del.lookup k = some gone) :
    ∃ s', (received o p value).step s a = some s' := by
  obtain ⟨⟨diff, agg'⟩, hdiff⟩ := agg_total (o := o) hdel s.1.aggm_
  have hdel' : ∀ k r, diff.lookup k = some r →
      ∃ gone, a.del.lookup k = some gone := by
    intro k r hr
    obtain ⟨hother, -⟩ := agg_spec hdiff k
    cases hraw : a.raw.lookup k with
    | none =>
        rw [(hother hraw).1] at hr
        cases hr
    | some r' => exact hdel k r' hraw
  obtain ⟨dsm', hmerge⟩ := merge_total (D := wholeSum p value) (o := o) hdel'
    (s.1.dsm_.getD ∅) a.mono_usec
  refine ⟨({ s.1 with dsm_ := some dsm', aggm_ := agg' }, _),
    Machine.watch_step.mpr ⟨?_, rfl⟩⟩
  show s.1.Update o a.raw a.del a.mono_usec = _
  unfold DerivedStatsIf.Update
  rw [if_pos hinv.agg, hdiff]
  simp only [Option.bind_eq_bind, Option.bind_some, hmerge]
  rfl

/-- An update of the key `"a"` alone. -/
def onlyA (raw : BitVec 32) : MapUpdate String (BitVec 32) :=
  ⟨Finmap.singleton "a" raw, Finmap.singleton "a" false, 0⟩

theorem onlyA_raw (raw : BitVec 32) : (onlyA raw).raw.lookup "a" = some raw :=
  Finmap.lookup_singleton_eq

theorem onlyA_del {raw : BitVec 32} {k : String} {r : BitVec 32}
    (h : (onlyA raw).raw.lookup k = some r) :
    (onlyA raw).del.lookup k = some false := by
  have hk : k ∈ Finmap.singleton (β := fun _ => BitVec 32) "a" raw :=
    Finmap.mem_iff.mpr ⟨r, h⟩
  rw [(Finmap.mem_singleton _ _ _).mp hk]
  exact Finmap.lookup_singleton_eq

/-- A key reaches 5, an empty map clears its object, and it comes back at
7: the new object reports 2. -/
theorem aggregate_stale_after_empty :
    ¬ (received Order.any Order.any (0 : BitVec 32)).Each
      (fun _ _ s' => Telescopes Order.any s')
      (DerivedStatsIf.new (K := String) _ true, fun _ => none)
      [onlyA 5, ⟨∅, ∅, 0⟩, onlyA 7] := by
  intro h
  have hinv₀ : StatsInv
      (DerivedStatsIf.new (K := String) (wholeSum Order.any (0 : BitVec 32)) true,
        fun _ => none) := statsInv_start
  obtain ⟨s₁, hstep₁⟩ := received_total (o := Order.any) (a := onlyA 5) hinv₀
    fun k r hr => ⟨_, onlyA_del hr⟩
  obtain ⟨htele₁, h⟩ := h s₁ hstep₁
  have hinv₁ := statsInv_step hinv₀ hstep₁
    (fresh_of_telescopes hinv₀ hstep₁ htele₁)
  obtain ⟨s₂, hstep₂⟩ := received_total (o := Order.any) (a := ⟨∅, ∅, 0⟩) hinv₁
    fun k r hr => absurd hr (by simp)
  obtain ⟨htele₂, h⟩ := h s₂ hstep₂
  have hinv₂ := statsInv_step hinv₁ hstep₂
    (fresh_of_telescopes hinv₁ hstep₂ htele₂)
  obtain ⟨s₃, hstep₃⟩ := received_total (o := Order.any) (a := onlyA 7) hinv₂
    fun k r hr => ⟨_, onlyA_del hr⟩
  have hfresh := fresh_of_telescopes hinv₂ hstep₃ (h s₃ hstep₃).1 "a" 7
    (onlyA_raw 7) (onlyA_del (onlyA_raw 7))
  obtain ⟨gone, hgone, hagg₁, -⟩ :=
    (stats_key hinv₀.agg (received_step hstep₁).1 "a").2 5 (onlyA_raw 5)
  rw [onlyA_del (onlyA_raw 5)] at hgone
  obtain rfl := Option.some.inj hgone
  obtain ⟨hagg₂, hlive₂⟩ := (stats_key hinv₁.agg (received_step hstep₂).1 "a").1
    (Finmap.lookup_empty "a")
  rw [hlive₂] at hfresh
  exact absurd (hfresh 5 (hagg₂.trans hagg₁)) (by decide)

end Sandesh.Stats
