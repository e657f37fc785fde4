/-
What the anomaly detector is fed.

A value passes through four layers: the difference to `aggm_`, the sum of
an interval in a `DSSum` object of `dsm_`, the cache that a flush makes of
these objects, and the zeros for the keys that are not in it. `Interval`
is the account of it that the runs keep beside the code: the values of
each key since the last flush. `Fed` ties the layers to it, and a flush
then feeds the sum of the account.

The objects count their samples in 64 bits and take a count of 0 for no
sample at all, so the account of one interval stays below 2⁶⁴ values.
-/
import Sandesh.Stats.Periodic
import Sandesh.Stats.Proofs.Telescope

namespace Sandesh.Stats

open Lib DerivedStatsPeriodicAnomalyIf

variable {K E R : Type} [DecidableEq K] [AddCommGroup E] {o : Order K}
  {P : DSTT E E} {D : DSTT E R} {k : K}

/-- The object of a key, if there is a map at all. -/
def object {X : Type} (dsm : Option (Map K X)) (k : K) : Option X :=
  (dsm.getD ∅).lookup k

-- ================================================= the layers of a flush

/-- The value an object reports for its interval. -/
def reported (P : DSTT E E) (ds : P.Obj) : Option E :=
  if (P.FillResult ds).1 ≠ .DSR_INVALID then some (P.FillResult ds).2 else none

/-- A turn leaves the other keys of the cache alone. -/
theorem cacheTurn_own {dsm : Map K P.Obj} {cache : Map K (DSPeriodic E)} {k' : K}
    (hne : k' ≠ k) : (cacheTurn P dsm cache k).lookup k' = cache.lookup k' := by
  unfold cacheTurn
  cases dsm.lookup k with
  | none => rfl
  | some ds =>
      simp only []
      split
      · exact Finmap.lookup_insert_of_ne cache hne
      · rfl

/-- What a turn does to its own key: what the object reports goes in. -/
theorem cacheTurn_self {dsm : Map K P.Obj} {cache : Map K (DSPeriodic E)} :
    (cacheTurn P dsm cache k).lookup k
      = (((dsm.lookup k).bind (reported P)).map fun value =>
          { DSPeriodic.new with value := value, __isset := ⟨true, false⟩ }).or
        (cache.lookup k) := by
  unfold cacheTurn reported
  cases dsm.lookup k with
  | none => rfl
  | some ds =>
      simp only [Option.bind_some]
      split
      · exact Finmap.lookup_insert cache
      · rfl

/-- The cache has what the objects report. -/
theorem lookup_cache (dsm : Map K P.Obj) (k : K) :
    (((o.list dsm.keys).foldl (cacheTurn P dsm) ∅).lookup k).map DSPeriodic.value
      = (dsm.lookup k).bind (reported P) := by
  have hfold := foldl_each (s := ∅) (f := cacheTurn P dsm)
    (g := fun k (cache : Map K (DSPeriodic E)) => cache.lookup k)
    cacheTurn_own cacheTurn_self (o.nodup dsm.keys) k
  rw [hfold, Finmap.lookup_empty, Option.or_none]
  split
  · rw [Option.map_map]
    exact Option.map_id'
  · next hk =>
    rw [Map.lookup_of_notMem hk]
    rfl

/-- A turn over the cache leaves the other keys alone. -/
theorem previousTurn_own {cache mres : Map K (DSPeriodic E)} {k' : K}
    (hne : k' ≠ k) : (previousTurn cache mres k).lookup k' = mres.lookup k' := by
  unfold previousTurn
  cases cache.lookup k with
  | none => rfl
  | some previous => exact Finmap.lookup_insert_of_ne mres hne

/-- The value of the cache goes in as the previous one. -/
theorem previousTurn_self {cache mres : Map K (DSPeriodic E)} :
    (previousTurn cache mres k).lookup k
      = ((cache.lookup k).map fun previous =>
          { DSPeriodic.new with
            value := previous.value, __isset := ⟨true, false⟩ }).or
        (mres.lookup k) := by
  unfold previousTurn
  cases cache.lookup k with
  | none => rfl
  | some previous => exact Finmap.lookup_insert mres

/-- Right after a flush the results are those of the cache. -/
theorem lookup_previous {s : DerivedStatsPeriodicIf K P}
    {cache : Map K (DSPeriodic E)} (hcache : s.dsm_cache_ = some cache)
    (hdsm : s.dsm_ = none) (k : K) :
    ((s.FillResult o false).1.lookup k).map DSPeriodic.value
      = (cache.lookup k).map DSPeriodic.value := by
  unfold DerivedStatsPeriodicIf.FillResult
  rw [hcache, hdsm]
  have hfold := foldl_each (s := ∅) (f := previousTurn cache)
    (g := fun k (mres : Map K (DSPeriodic E)) => mres.lookup k)
    previousTurn_own previousTurn_self (o.nodup cache.keys) k
  simp only []
  rw [hfold, Finmap.lookup_empty, Option.or_none]
  split
  · rw [Option.map_map]
    rfl
  · next hk => rw [Map.lookup_of_notMem hk]

/-- What `Flush` of the anomaly detector reads off the periodic statistic:
the values reported since the last flush. -/
theorem lookup_flushed (s : DerivedStatsPeriodicIf K P) (k : K) :
    let r := s.Flush o
    ((if r.1 then (r.2.FillResult o false).1 else ∅).lookup k).map
        DSPeriodic.value
      = (object s.dsm_ k).bind (reported P) := by
  unfold DerivedStatsPeriodicIf.Flush object
  cases hdsm : s.dsm_ with
  | none =>
      simp only [Bool.false_eq_true, if_false, Option.getD_none]
      rw [Finmap.lookup_empty, Finmap.lookup_empty]
      rfl
  | some dsm =>
      simp only [Option.getD_some]
      rw [← lookup_cache (o := o) dsm k]
      by_cases hempty : ((o.list dsm.keys).foldl (cacheTurn P dsm) ∅).keys = ∅
      · rw [if_pos hempty, Map.keys_eq_empty.mp hempty k]
        simp only [Option.isSome_none, Bool.false_eq_true, if_false]
        rw [Finmap.lookup_empty]
      · rw [if_neg hempty]
        simp only [Option.isSome_some, if_true]
        exact lookup_previous rfl rfl k

/-- `Flush` drops the objects and keeps the aggregate. -/
theorem flush_frame (s : DerivedStatsPeriodicIf K P) :
    (s.Flush o).2.dsm_ = none ∧ (s.Flush o).2.is_agg_ = s.is_agg_
      ∧ (s.Flush o).2.aggm_ = s.aggm_ := by
  unfold DerivedStatsPeriodicIf.Flush
  cases hdsm : s.dsm_ with
  | none => exact ⟨rfl, rfl, rfl⟩
  | some dsm => exact ⟨rfl, rfl, rfl⟩

-- ======================================================= what is fed

omit [AddCommGroup E] in
/-- A turn over the values leaves the other keys alone. -/
theorem valueTurn_own {smres : Map K (DSPeriodic E)} {x : Map K E × Map K Bool}
    {k' : K} (hne : k' ≠ k) :
    ((valueTurn smres x k).1.lookup k', (valueTurn smres x k).2.lookup k')
      = (x.1.lookup k', x.2.lookup k') := by
  unfold valueTurn
  cases smres.lookup k with
  | none => rfl
  | some res =>
      simp only []
      rw [Finmap.lookup_insert_of_ne _ hne, Finmap.lookup_insert_of_ne _ hne]

omit [AddCommGroup E] in
/-- A value is written as not deleted. -/
theorem valueTurn_self {smres : Map K (DSPeriodic E)} {x : Map K E × Map K Bool} :
    ((valueTurn smres x k).1.lookup k, (valueTurn smres x k).2.lookup k)
      = match smres.lookup k with
        | none => (x.1.lookup k, x.2.lookup k)
        | some res => (some res.value, some false) := by
  unfold valueTurn
  cases smres.lookup k with
  | none => rfl
  | some res =>
      simp only []
      rw [Finmap.lookup_insert, Finmap.lookup_insert]

/-- A turn over the zeros leaves the other keys alone. -/
theorem zeroTurn_own {x : Map K E × Map K Bool} {k' : K} (hne : k' ≠ k) :
    ((zeroTurn x k).1.lookup k', (zeroTurn x k).2.lookup k')
      = (x.1.lookup k', x.2.lookup k') := by
  unfold zeroTurn
  cases x.1.lookup k with
  | some _ => rfl
  | none =>
      simp only []
      rw [Finmap.lookup_insert_of_ne _ hne, Finmap.lookup_insert_of_ne _ hne]

/-- A key without a value gets a zero. -/
theorem zeroTurn_self {x : Map K E × Map K Bool} :
    ((zeroTurn x k).1.lookup k, (zeroTurn x k).2.lookup k)
      = match x.1.lookup k with
        | some v => (some v, x.2.lookup k)
        | none => (some 0, some false) := by
  unfold zeroTurn
  cases hx : x.1.lookup k with
  | some v => simp only [hx]
  | none =>
      simp only []
      rw [Finmap.lookup_insert, Finmap.lookup_insert]

omit [AddCommGroup E] in
/-- All turns over the values, key by key. -/
theorem lookup_values (smres : Map K (DSPeriodic E)) (k : K) :
    let x := (o.list smres.keys).foldl (valueTurn smres) (∅, ∅)
    x.1.lookup k = (smres.lookup k).map DSPeriodic.value
    ∧ x.2.lookup k = (smres.lookup k).map fun _ => false := by
  have hfold := foldl_each (s := (∅, ∅)) (f := valueTurn smres)
    (g := fun k (x : Map K E × Map K Bool) => (x.1.lookup k, x.2.lookup k))
    (t := fun k x => match smres.lookup k with
      | none => x
      | some res => (some res.value, some false))
    valueTurn_own valueTurn_self (o.nodup smres.keys) k
  rw [← Prod.mk.injEq, hfold]
  cases hres : smres.lookup k with
  | none =>
      simp only [Finmap.lookup_empty, ite_self]
      rfl
  | some res =>
      rw [if_pos (Map.mem_list_keys.mpr ⟨res, hres⟩)]
      rfl

/-- The values of the interval, and 0 for the other keys that have an
object; none is marked for deletion. -/
theorem lookup_inputs (smres : Map K (DSPeriodic E))
    (dsm : Option (Map K D.Obj)) (k : K) :
    (inputs o smres dsm).1.lookup k
        = ((smres.lookup k).map DSPeriodic.value).or
          ((object dsm k).map fun _ => 0)
    ∧ (inputs o smres dsm).2.lookup k
        = ((inputs o smres dsm).1.lookup k).map fun _ => false := by
  obtain ⟨hval, hdmap⟩ := lookup_values (o := o) smres k
  unfold inputs object
  cases dsm with
  | none =>
      simp only [Option.getD_none]
      rw [hval, hdmap, Finmap.lookup_empty, Option.map_none, Option.or_none,
        Option.map_map]
      exact ⟨rfl, rfl⟩
  | some dsm =>
      have hfold := foldl_each (f := zeroTurn)
        (s := (o.list smres.keys).foldl (valueTurn smres) (∅, ∅))
        (g := fun k (x : Map K E × Map K Bool) => (x.1.lookup k, x.2.lookup k))
        (t := fun _ x => match x.1 with
          | some v => (some v, x.2)
          | none => (some 0, some false))
        zeroTurn_own zeroTurn_self (o.nodup dsm.keys) k
      simp only [hval, hdmap] at hfold
      have hends : ∀ x : Option E × Option Bool, x.2 = x.1.map (fun _ => false) →
          ∀ a b, (a, b) = x → a = x.1 ∧ b = a.map fun _ => false := by
        intro x hx a b hab
        subst hab
        exact ⟨rfl, hx⟩
      simp only [Option.getD_some]
      cases hres : smres.lookup k with
      | some res =>
          rw [hres] at hfold
          simp only [Option.map_some, ite_self] at hfold
          exact hends _ rfl _ _ hfold
      | none =>
          rw [hres] at hfold
          simp only [Option.map_none] at hfold
          cases hds : dsm.lookup k with
          | some ds =>
              rw [if_pos (Map.mem_list_keys.mpr ⟨ds, hds⟩)] at hfold
              exact hends _ rfl _ _ hfold
          | none =>
              have hk : k ∉ o.list dsm.keys := by
                rw [Map.mem_list_keys, hds]
                exact nofun
              rw [if_neg hk] at hfold
              exact hends _ rfl _ _ hfold

/-- What a flush feeds the object of a key. -/
def fed (s : DerivedStatsPeriodicAnomalyIf K P D) (k : K) : Option E :=
  ((object s.periodic_.dsm_ k).bind (reported P)).or
    ((object s.anomaly_.dsm_ k).map fun _ => 0)

omit [AddCommGroup E] in
/-- A merge of some values, none of them for a deletion. -/
theorem merge_some {raw : Map K E} {del : Map K Bool} (dsm : Map K D.Obj)
    (hne : raw.keys ≠ ∅)
    (hdel : ∀ k r, raw.lookup k = some r → del.lookup k = some false)
    (mono_usec : U64) :
    ∃ dsm', DerivedStatsMerge D o raw dsm del mono_usec = some dsm'
      ∧ ∀ k, dsm'.lookup k
        = match raw.lookup k with
          | none => dsm.lookup k
          | some r => some (D.Update ((dsm.lookup k).getD D.make) r mono_usec) := by
  obtain ⟨dsm', hmerge⟩ := merge_total (D := D) (o := o)
    (fun k r hr => ⟨false, hdel k r hr⟩) dsm mono_usec
  refine ⟨dsm', hmerge, fun k => ?_⟩
  obtain ⟨hkept, hmerged⟩ := merge_spec hne hmerge k
  cases hraw : raw.lookup k with
  | none => exact hkept hraw
  | some r =>
      obtain ⟨gone, hgone, hnew⟩ := hmerged r hraw
      rw [hdel k r hraw] at hgone
      obtain rfl := Option.some.inj hgone
      exact hnew

omit [AddCommGroup E] in
/-- A merge of a value for every object, none of them for a deletion. -/
theorem merge_whole {raw : Map K E} {del : Map K Bool} {dsm : Map K D.Obj}
    (hdel : ∀ k, del.lookup k = (raw.lookup k).map fun _ => false)
    (hfill : ∀ k, raw.lookup k = none → dsm.lookup k = none) (mono_usec : U64) :
    ∃ dsm', DerivedStatsMerge D o raw dsm del mono_usec = some dsm'
      ∧ ∀ k, dsm'.lookup k = (raw.lookup k).map fun r =>
          D.Update ((dsm.lookup k).getD D.make) r mono_usec := by
  by_cases hempty : raw.keys = ∅
  · refine ⟨∅, merge_empty hempty, fun k => ?_⟩
    rw [Map.keys_eq_empty.mp hempty k]
    exact Finmap.lookup_empty k
  · have hkept : ∀ k r, raw.lookup k = some r → del.lookup k = some false := by
      intro k r hr
      rw [hdel, hr]
      rfl
    obtain ⟨dsm', hmerge, hnew⟩ := merge_some (D := D) (o := o) dsm hempty hkept
      mono_usec
    refine ⟨dsm', hmerge, fun k => ?_⟩
    rw [hnew]
    cases hraw : raw.lookup k with
    | none => exact hfill k hraw
    | some r => rfl

/-- Every key that has a value for the interval or an object is fed once. -/
theorem flush_spec {s : DerivedStatsPeriodicAnomalyIf K P D}
    (hinit : s.init_ = true) (hagg : s.anomaly_.is_agg_ = false) :
    ∃ s', s.Flush o = some (true, s')
      ∧ s'.init_ = true ∧ s'.anomaly_.is_agg_ = false
      ∧ s'.periodic_.dsm_ = none ∧ s'.periodic_.is_agg_ = s.periodic_.is_agg_
      ∧ s'.periodic_.aggm_ = s.periodic_.aggm_
      ∧ ∀ k, object s'.anomaly_.dsm_ k = (fed s k).map fun v =>
          D.Update ((object s.anomaly_.dsm_ k).getD D.make) v 0 := by
  let r := s.periodic_.Flush o
  let smres := if r.1 then (r.2.FillResult o false).1 else ∅
  have hval : ∀ k, (inputs o smres s.anomaly_.dsm_).1.lookup k = fed s k := by
    intro k
    rw [(lookup_inputs smres s.anomaly_.dsm_ k).1,
      lookup_flushed s.periodic_ k]
    rfl
  have hfill : ∀ k, (inputs o smres s.anomaly_.dsm_).1.lookup k = none →
      (s.anomaly_.dsm_.getD ∅).lookup k = none := by
    intro k hnone
    rw [hval] at hnone
    exact Option.map_eq_none_iff.mp (Option.or_eq_none_iff.mp hnone).2
  obtain ⟨dsm', hmerge, hnew⟩ := merge_whole (D := D) (o := o)
    (fun k => (lookup_inputs smres s.anomaly_.dsm_ k).2) hfill 0
  refine ⟨⟨r.2, { s.anomaly_ with dsm_ := some dsm' }, s.init_⟩, ?_, hinit, hagg,
    ?_, ?_, ?_, fun k => ?_⟩
  · unfold DerivedStatsPeriodicAnomalyIf.Flush DerivedStatsIf.Update
    rw [hagg]
    simp only [hinit, Bool.not_true, Bool.false_eq_true, if_false]
    show Option.bind (Option.bind
      (DerivedStatsMerge D o _ (s.anomaly_.dsm_.getD ∅) _ 0) _) _ = _
    rw [hmerge, hagg]
    rfl
  · exact (flush_frame s.periodic_).1
  · exact (flush_frame s.periodic_).2.1
  · exact (flush_frame s.periodic_).2.2
  · rw [← hval]
    exact hnew k

-- ============================================================ an update

/-- The value an update adds to the account of its key. -/
def added (is_agg : Bool) (last : Option E) (raw : E) : E :=
  if is_agg then raw - last.getD 0 else raw

/-- One `Update` of a raw map, key by key. -/
theorem periodic_update (s : DerivedStatsPeriodicIf K P) {a : MapUpdate K E}
    (hne : a.raw.keys ≠ ∅)
    (hdel : ∀ k r, a.raw.lookup k = some r → a.del.lookup k = some false) :
    ∃ s', s.Update o a.raw a.del a.mono_usec = some s'
      ∧ s'.is_agg_ = s.is_agg_
      ∧ ∀ k, (s.is_agg_ = true →
          s'.aggm_.lookup k = (a.raw.lookup k).or (s.aggm_.lookup k))
        ∧ object s'.dsm_ k
          = match a.raw.lookup k with
            | none => object s.dsm_ k
            | some r => some (P.Update ((object s.dsm_ k).getD P.make)
                (added s.is_agg_ (s.aggm_.lookup k) r) a.mono_usec) := by
  unfold DerivedStatsPeriodicIf.Update
  cases hagg : s.is_agg_ with
  | false =>
      obtain ⟨dsm', hmerge, hnew⟩ := merge_some (D := P) (o := o)
        (s.dsm_.getD ∅) hne hdel a.mono_usec
      refine ⟨{ s with dsm_ := some dsm', init_ := true }, ?_, hagg,
        fun k => ⟨nofun, hnew k⟩⟩
      simp only [Bool.false_eq_true, if_false, hmerge, hagg]
      rfl
  | true =>
      obtain ⟨⟨diff, agg'⟩, hdiff⟩ := agg_total (o := o)
        (fun k r hr => ⟨false, hdel k r hr⟩) s.aggm_
      have hkeys : diff.keys ≠ ∅ := fun h => hne ((diff_keys hdiff).mp h)
      have hdel' : ∀ k r, diff.lookup k = some r → a.del.lookup k = some false := by
        intro k r hr
        cases hraw : a.raw.lookup k with
        | none =>
            rw [((agg_spec hdiff k).1 hraw).1] at hr
            cases hr
        | some r' => exact hdel k r' hraw
      obtain ⟨dsm', hmerge, hnew⟩ := merge_some (D := P) (o := o)
        (s.dsm_.getD ∅) hkeys hdel' a.mono_usec
      refine ⟨{ s with dsm_ := some dsm', aggm_ := agg', init_ := true }, ?_,
        hagg, fun k => ?_⟩
      · simp only [if_true, hdiff, Option.bind_eq_bind, Option.bind_some, hmerge,
          hagg]
        rfl
      obtain ⟨hother, hown⟩ := agg_spec hdiff k
      refine ⟨fun _ => ?_, ?_⟩
      · cases hraw : a.raw.lookup k with
        | none => exact (hother hraw).2
        | some r =>
            obtain ⟨gone, hgone, -, haggk⟩ := hown r hraw
            rw [hdel k r hraw] at hgone
            obtain rfl := Option.some.inj hgone
            exact haggk
      · have hk := hnew k
        cases hraw : a.raw.lookup k with
        | none =>
            rw [(hother hraw).1] at hk
            exact hk
        | some r =>
            obtain ⟨gone, -, hdiffk, -⟩ := hown r hraw
            rw [hdiffk] at hk
            exact hk

-- =========================================================== the account

/-- The last raw value of each key, and the values that its interval has
taken so far. -/
structure Interval (K E : Type) where
  last : K → Option E
  since : K → List E

/-- An update of the map, or the end of a period. -/
inductive PeriodicAct (K E : Type)
  | update (a : MapUpdate K E)
  | flush

/-- What has been seen in the period. -/
def Interval.note (is_agg : Bool) (w : Interval K E) :
    PeriodicAct K E → Interval K E
  | .update a =>
      { last := fun k => (a.raw.lookup k).or (w.last k)
        since := fun k => match a.raw.lookup k with
          | none => w.since k
          | some r => w.since k ++ [added is_agg (w.last k) r] }
  | .flush => { w with since := fun _ => [] }

variable (o) in
/-- Updates and flushes, with the account beside them. -/
def periodic (p : Order U64) (value : E) (D : DSTT E R) (is_agg : Bool) :
    Machine (DerivedStatsPeriodicAnomalyIf K (wholeSum p value) D × Interval K E)
      (PeriodicAct K E) :=
  Machine.watch
    ⟨fun s a => match a with
      | .update a => s.Update o a.raw a.del a.mono_usec
      | .flush => (s.Flush o).map Prod.snd⟩
    fun w _ a => w.note is_agg a

/-- The constructor's object, with nothing seen. -/
def periodicStart (p : Order U64) (value : E) (D : DSTT E R) (is_agg : Bool) :
    DerivedStatsPeriodicAnomalyIf K (wholeSum p value) D × Interval K E :=
  (.new _ D is_agg, ⟨fun _ => none, fun _ => []⟩)

/-- An update leaves the detector alone. A flush feeds the object of every
key that has ever been updated one value, the sum of its interval, and
there are no other objects. -/
def FeedsOnce {P : DSTT E E}
    (s : DerivedStatsPeriodicAnomalyIf K P D × Interval K E)
    (a : PeriodicAct K E)
    (s' : DerivedStatsPeriodicAnomalyIf K P D × Interval K E) : Prop :=
  match a with
  | .update _ => s'.1.anomaly_ = s.1.anomaly_
  | .flush => ∀ k, object s'.1.anomaly_.dsm_ k
      = if (s.2.last k).isSome then
          some (D.Update ((object s.1.anomaly_.dsm_ k).getD D.make)
            (s.2.since k).sum 0)
        else none

/-- A map of values, none of them for a deletion. -/
def PeriodicAct.Plain : PeriodicAct K E → Prop
  | .update a => a.raw.keys ≠ ∅
      ∧ ∀ k r, a.raw.lookup k = some r → a.del.lookup k = some false
  | .flush => True

/-- The interval of no key reaches 2⁶⁴ values. -/
def Interval.Counts (w : Interval K E) : PeriodicAct K E → Prop
  | .update a => ∀ k r, a.raw.lookup k = some r →
      (w.since k).length + 1 < 2 ^ 64
  | .flush => True

/-- The object of an interval has the number and the sum of its values. -/
def Sums (d : Option (DSSum E)) (vs : List E) : Prop :=
  match d with
  | none => vs = []
  | some ds => vs ≠ [] ∧ vs.length < 2 ^ 64 ∧ ds.range_usecs_ = 0
      ∧ ds.samples_ = BitVec.ofNat 64 vs.length ∧ ds.value_ = vs.sum

/-- What the objects hold is what has been seen. -/
structure Fed {p : Order U64} {value : E} (is_agg : Bool)
    (s : DerivedStatsPeriodicAnomalyIf K (wholeSum p value) D × Interval K E) :
    Prop where
  plain : s.1.anomaly_.is_agg_ = false
  agg : s.1.periodic_.is_agg_ = is_agg
  last : is_agg = true → ∀ k, s.1.periodic_.aggm_.lookup k = s.2.last k
  sums : ∀ k, Sums (object s.1.periodic_.dsm_ k) (s.2.since k)
  known : ∀ k, (s.2.last k).isSome
    ↔ s.2.since k ≠ [] ∨ (object s.1.anomaly_.dsm_ k).isSome
  init : s.1.init_ = false → ∀ k, s.2.last k = none

section Steps

variable {p : Order U64} {value : E} {is_agg : Bool}

omit [DecidableEq K] in
/-- An object that exists has had a sample. -/
theorem Sums.samples_ne {ds : DSSum E} {vs : List E} (h : Sums (some ds) vs) :
    ds.samples_ ≠ 0 := by
  obtain ⟨hvs, hlt, -, hsamples, -⟩ := h
  rw [hsamples]
  intro hzero
  have htoNat := congrArg BitVec.toNat hzero
  rw [BitVec.toNat_ofNat, Nat.mod_eq_of_lt hlt] at htoNat
  exact hvs (List.eq_nil_of_length_eq_zero htoNat)

/-- One more sample, below `2^64` of them. -/
theorem sums_added {d : Option (DSSum E)} {vs : List E} (h : Sums d vs)
    (hlen : vs.length + 1 < 2 ^ 64) (v : E) (t : U64) :
    Sums (some ((d.getD ((DSSum.new value none).get rfl)).Update p v t))
      (vs ++ [v]) := by
  have hne : vs ++ [v] ≠ [] := List.append_ne_nil_of_right_ne_nil _ nofun
  have hcount : (vs ++ [v]).length = vs.length + 1 := List.length_append
  cases d with
  | none =>
      obtain rfl : vs = [] := h
      rw [Option.getD_none, update_whole rfl]
      exact ⟨hne, by rw [hcount]; exact hlen, rfl, rfl, (List.sum_singleton).symm⟩
  | some ds =>
      have hsome := h.samples_ne
      obtain ⟨hvs, hlt, hrange, hsamples, hvalue⟩ := h
      rw [Option.getD_some, update_whole hrange]
      refine ⟨hne, by rw [hcount]; exact hlen, hrange, ?_, ?_⟩
      · show ds.samples_ + 1 = _
        rw [hsamples, hcount, BitVec.ofNat_add]
        rfl
      · show (if ds.samples_ = 0 then v else ds.value_ + v) = _
        rw [if_neg hsome, hvalue, List.sum_append, List.sum_singleton]

/-- What the object of an interval reports. -/
theorem reported_sums {d : Option (DSSum E)} {vs : List E} (h : Sums d vs) :
    d.bind (reported (wholeSum p value)) = if vs = [] then none else some vs.sum := by
  cases d with
  | none =>
      obtain rfl : vs = [] := h
      rfl
  | some ds =>
      have hsome := h.samples_ne
      obtain ⟨hvs, -, hrange, -, hvalue⟩ := h
      rw [if_neg hvs, Option.bind_some]
      unfold reported
      show (if ds.FillResult.1 ≠ .DSR_INVALID then some ds.FillResult.2 else none)
        = _
      rw [fillResult_whole hrange, if_neg hsome, ← hvalue]
      rfl

/-- A new statistic has been given nothing. -/
theorem fed_start :
    Fed is_agg (periodicStart (K := K) p value D is_agg) := by
  refine ⟨rfl, rfl, fun _ k => Finmap.lookup_empty k, fun k => ?_, fun k => ?_,
    fun _ _ => rfl⟩
  · have hnone : object (K := K) (X := DSSum E) none k = none :=
      Finmap.lookup_empty k
    show Sums (object none k) []
    rw [hnone]
    rfl
  · have hnone : object (K := K) (X := D.Obj) none k = none :=
      Finmap.lookup_empty k
    show (none : Option E).isSome ↔ ([] : List E) ≠ [] ∨ (object none k).isSome
    rw [hnone]
    simp

variable {s : DerivedStatsPeriodicAnomalyIf K (wholeSum p value) D × Interval K E}

/-- An update feeds each key of its map once. -/
theorem fed_update (h : Fed is_agg s) {a : MapUpdate K E}
    (hplain : PeriodicAct.Plain (.update a)) (hcounts : s.2.Counts (.update a)) :
    ∃ s', (periodic o p value D is_agg).step s (.update a) = some s'
      ∧ Fed is_agg s' ∧ FeedsOnce s (.update a) s' := by
  obtain ⟨hne, hdel⟩ := hplain
  obtain ⟨q, hupdate, hagg, hkey⟩ := periodic_update (o := o) s.1.periodic_ hne
    hdel
  refine ⟨({ s.1 with init_ := true, periodic_ := q },
      s.2.note is_agg (.update a)),
    Machine.watch_step.mpr ⟨?_, rfl⟩, ?_, rfl⟩
  · show s.1.Update o a.raw a.del a.mono_usec = _
    unfold DerivedStatsPeriodicAnomalyIf.Update
    rw [hupdate]
    rfl
  refine ⟨h.plain, hagg.trans h.agg, fun hisagg k => ?_, fun k => ?_, fun k => ?_,
    nofun⟩
  · rw [(hkey k).1 (h.agg.trans hisagg), h.last hisagg]
    rfl
  · show Sums (object q.dsm_ k) (match a.raw.lookup k with
      | none => s.2.since k
      | some r => s.2.since k ++ [added is_agg (s.2.last k) r])
    rw [(hkey k).2]
    cases hraw : a.raw.lookup k with
    | none => exact h.sums k
    | some r =>
        have hadded : added s.1.periodic_.is_agg_ (s.1.periodic_.aggm_.lookup k) r
            = added is_agg (s.2.last k) r := by
          rw [h.agg]
          cases hisagg : is_agg with
          | false => rfl
          | true => rw [h.last hisagg]
        simp only [hadded]
        exact sums_added (h.sums k) (hcounts k r hraw) _ _
  · show ((a.raw.lookup k).or (s.2.last k)).isSome ↔ (match a.raw.lookup k with
      | none => s.2.since k
      | some r => s.2.since k ++ [added is_agg (s.2.last k) r]) ≠ [] ∨ _
    cases a.raw.lookup k with
    | none => exact h.known k
    | some r => simp

/-- A key that was never updated has no object in either map. -/
theorem Fed.unknown (h : Fed is_agg s) (hlast : s.2.last k = none) :
    s.2.since k = [] ∧ object s.1.anomaly_.dsm_ k = none := by
  have hnone := mt (h.known k).mpr (by rw [hlast]; exact Bool.false_ne_true)
  rw [not_or, not_not, Bool.not_eq_true, Option.isSome_eq_false_iff,
    Option.isNone_iff_eq_none] at hnone
  exact hnone

/-- The sum of the interval, for every key that was ever updated. -/
theorem Fed.fed_eq (h : Fed is_agg s) (k : K) :
    fed s.1 k = if (s.2.last k).isSome then some (s.2.since k).sum else none := by
  unfold fed
  rw [reported_sums (h.sums k)]
  cases hlast : s.2.last k with
  | none =>
      obtain ⟨hsince, hnone⟩ := h.unknown hlast
      rw [if_pos hsince, hnone]
      rfl
  | some r =>
      have hknown := (h.known k).mp (by rw [hlast]; rfl)
      by_cases hsince : s.2.since k = []
      · obtain ⟨ds, hds⟩ := Option.isSome_iff_exists.mp
          (hknown.resolve_left (absurd hsince))
        rw [if_pos hsince, hsince, hds]
        rfl
      · rw [if_neg hsince]
        rfl

/-- A flush hands over the interval and starts the next. -/
theorem fed_flush (h : Fed is_agg s) :
    ∃ s', (periodic o p value D is_agg).step s .flush = some s'
      ∧ Fed is_agg s' ∧ FeedsOnce s .flush s' := by
  cases hinit : s.1.init_ with
  | false =>
      have hlast := h.init hinit
      refine ⟨(s.1, s.2.note is_agg .flush), Machine.watch_step.mpr ⟨?_, rfl⟩, ?_,
        fun k => ?_⟩
      · show (s.1.Flush o).map Prod.snd = _
        unfold DerivedStatsPeriodicAnomalyIf.Flush
        rw [hinit]
        rfl
      · refine ⟨h.plain, h.agg, h.last, fun k => ?_, fun k => ?_, fun _ => hlast⟩
        · have hsums := h.sums k
          rw [(h.unknown (hlast k)).1] at hsums
          exact hsums
        · have hknown := h.known k
          rw [(h.unknown (hlast k)).1] at hknown
          exact hknown
      · rw [hlast k]
        exact (h.unknown (hlast k)).2
  | true =>
      obtain ⟨s', hflush, hinit', hplain, hdsm, hagg, haggm, hobject⟩ :=
        flush_spec (o := o) hinit h.plain
      refine ⟨(s', s.2.note is_agg .flush), Machine.watch_step.mpr ⟨?_, rfl⟩, ?_,
        fun k => ?_⟩
      · show (s.1.Flush o).map Prod.snd = _
        rw [hflush]
        rfl
      · refine ⟨hplain, hagg.trans h.agg, fun hisagg k => ?_, fun k => ?_,
          fun k => ?_, fun hfalse => ?_⟩
        · rw [haggm]
          exact h.last hisagg k
        · show Sums (object s'.periodic_.dsm_ k) []
          rw [hdsm]
          have hnone : object (K := K) (X := DSSum E) none k = none :=
            Finmap.lookup_empty k
          rw [hnone]
          rfl
        · show (s.2.last k).isSome ↔ ([] : List E) ≠ [] ∨ _
          rw [hobject, h.fed_eq]
          cases s.2.last k with
          | none => simp
          | some r => simp
        · exact absurd hinit' (by rw [hfalse]; exact Bool.false_ne_true)
      · rw [hobject, h.fed_eq]
        cases s.2.last k with
        | none => rfl
        | some r => rfl

end Steps

-- ============================================================== the runs

/-- In every run of updates and flushes with less than 2⁶⁴ values of a key
in an interval, every flush feeds the object of every key that was ever
updated one value: the sum of what its interval received, 0 if that is
nothing. -/
theorem anomaly_input (o : Order K) (p : Order U64) (value : E) (D : DSTT E R)
    (is_agg : Bool) (as : List (PeriodicAct K E))
    (h : (periodic o p value D is_agg).Meets
      (fun s a => a.Plain ∧ s.2.Counts a) (periodicStart p value D is_agg) as) :
    (∃ s', (periodic o p value D is_agg).run (periodicStart p value D is_agg) as
      = some s')
    ∧ (periodic o p value D is_agg).Each FeedsOnce
        (periodicStart p value D is_agg) as := by
  have hruns := Machine.run_of_meets (M := periodic o p value D is_agg)
    (I := Fed is_agg) (R := FeedsOnce) (s := periodicStart p value D is_agg)
    (C := fun s a => a.Plain ∧ s.2.Counts a) (fun {s a} hfed ha => ?_) as
    fed_start h
  · obtain ⟨⟨s', hrun, -⟩, heach⟩ := hruns
    exact ⟨⟨s', hrun⟩, heach⟩
  · cases a with
    | update a => exact fed_update hfed ha.1 ha.2
    | flush => exact fed_flush hfed

/-- The one update of the counterexample deletes nothing. -/
theorem onlyA_plain (raw : BitVec 32) : PeriodicAct.Plain (.update (onlyA raw)) := by
  refine ⟨fun hempty => ?_, fun k r hr => onlyA_del hr⟩
  have hnone := Map.keys_eq_empty.mp hempty "a"
  rw [onlyA_raw] at hnone
  cases hnone

/-- Two updates of a key and a flush, then a flush of an idle interval. -/
theorem anomaly_input_idle :
    (periodic Order.any Order.any (0 : BitVec 32)
        (wholeSum Order.any (0 : BitVec 32)) true).Each FeedsOnce
      (periodicStart Order.any 0 _ true)
      [.update (onlyA 5), .update (onlyA 7), .flush, .flush] := by
  refine (anomaly_input Order.any Order.any 0 _ true _ ?_).2
  refine ⟨⟨onlyA_plain 5, fun k r hr => ?_⟩, fun s₁ h₁ =>
    ⟨⟨onlyA_plain 7, fun k r hr => ?_⟩, fun s₂ _ => ⟨⟨trivial, trivial⟩,
      fun s₃ _ => ⟨⟨trivial, trivial⟩, fun s₄ _ => trivial⟩⟩⟩⟩
  · show ([] : List (BitVec 32)).length + 1 < 2 ^ 64
    decide
  · rw [(Machine.watch_step.mp h₁).2]
    unfold Interval.note
    simp only []
    split
    · exact (by decide : 1 < 2 ^ 64)
    · exact (by decide : 2 < 2 ^ 64)

-- ============================================================ the counter

/-- An object that has counted `n` samples, modulo 2⁶⁴. -/
def Samples (n : Nat) (d : Option (DSSum E)) : Prop :=
  match d with
  | none => n = 0
  | some ds => ds.range_usecs_ = 0 ∧ ds.samples_ = BitVec.ofNat 64 n

/-- One more update, one more sample, modulo `2^64`. -/
theorem samples_added {p : Order U64} {value : E} {n : Nat}
    {d : Option (DSSum E)} (h : Samples n d) (v : E) (t : U64) :
    Samples (n + 1)
      (some ((d.getD ((DSSum.new value none).get rfl)).Update p v t)) := by
  cases d with
  | none =>
      obtain rfl : n = 0 := h
      rw [Option.getD_none, update_whole rfl]
      exact ⟨rfl, rfl⟩
  | some ds =>
      obtain ⟨hrange, hsamples⟩ := h
      rw [Option.getD_some, update_whole hrange]
      refine ⟨hrange, ?_⟩
      show ds.samples_ + 1 = _
      rw [hsamples, BitVec.ofNat_add]
      rfl

/-- The detector of a sum of 32 bits, itself a sum. -/
abbrev counting (o : Order String) (p : Order U64) :
    Machine (DerivedStatsPeriodicAnomalyIf String
        (wholeSum p (0 : BitVec 32)) (wholeSum p (0 : BitVec 32))
      × Interval String (BitVec 32)) (PeriodicAct String (BitVec 32)) :=
  periodic o p 0 _ false

section Counting

variable {o : Order String} {p : Order U64} {n : Nat}
  {s : DerivedStatsPeriodicAnomalyIf String
        (wholeSum p (0 : BitVec 32)) (wholeSum p (0 : BitVec 32))
      × Interval String (BitVec 32)}

/-- The key `"a"` was updated `n` times, and nothing flushed. -/
structure Counted (n : Nat)
    (s : DerivedStatsPeriodicAnomalyIf String
        (wholeSum p (0 : BitVec 32)) (wholeSum p (0 : BitVec 32))
      × Interval String (BitVec 32)) : Prop where
  anomaly : s.1.anomaly_ = .new _ false
  agg : s.1.periodic_.is_agg_ = false
  samples : Samples n (object s.1.periodic_.dsm_ "a")
  init : 0 < n → s.1.init_ = true ∧ (s.2.last "a").isSome = true

/-- No samples yet. -/
theorem counted_start : Counted (p := p) 0 (periodicStart p 0 _ false) := by
  refine ⟨rfl, rfl, ?_, nofun⟩
  have hnone : object (K := String) (X := DSSum (BitVec 32)) none "a" = none :=
    Finmap.lookup_empty "a"
  show Samples 0 (object none "a")
  rw [hnone]
  rfl

/-- One update counts one. -/
theorem counted_step (h : Counted n s) :
    ∃ s', (counting o p).step s (.update (onlyA 1)) = some s'
      ∧ Counted (n + 1) s' := by
  obtain ⟨q, hupdate, hagg, hkey⟩ := periodic_update (o := o) s.1.periodic_
    (onlyA_plain 1).1 (onlyA_plain 1).2
  refine ⟨(⟨q, s.1.anomaly_, true⟩, s.2.note false (.update (onlyA 1))),
    Machine.watch_step.mpr ⟨?_, rfl⟩, h.anomaly, hagg.trans h.agg, ?_,
    fun _ => ⟨rfl, ?_⟩⟩
  · show s.1.Update _ _ _ _ = _
    unfold DerivedStatsPeriodicAnomalyIf.Update
    rw [hupdate]
    rfl
  · rw [(hkey "a").2, onlyA_raw]
    exact samples_added h.samples _ _
  · show (((onlyA 1).raw.lookup "a").or (s.2.last "a")).isSome = true
    rw [onlyA_raw]
    rfl

/-- `n` updates count `n`. -/
theorem counted_run (n : Nat) :
    ∃ s, (counting o p).run (periodicStart p 0 _ false)
        (List.replicate n (.update (onlyA 1))) = some s ∧ Counted n s := by
  induction n with
  | zero => exact ⟨_, rfl, counted_start⟩
  | succ n ih =>
      obtain ⟨s, hrun, hcounted⟩ := ih
      obtain ⟨s', hstep, hcounted'⟩ := counted_step (o := o) hcounted
      refine ⟨s', ?_, hcounted'⟩
      rw [List.replicate_succ']
      exact (Machine.run_concat _ _).mpr ⟨s, hrun, hstep⟩

/-- A count that has come round to 0 feeds nothing. -/
theorem counted_wraps (h : Counted n s) (hn : 0 < n) (hround : n % 2 ^ 64 = 0) :
    ∃ s', (counting o p).step s .flush = some s' ∧ ¬ FeedsOnce s .flush s' := by
  obtain ⟨hinit, hlast⟩ := h.init hn
  obtain ⟨s', hflush, -, -, -, -, -, hobject⟩ := flush_spec (o := o) hinit
    (by rw [h.anomaly]; rfl)
  refine ⟨(s', s.2.note false .flush), Machine.watch_step.mpr ⟨?_, rfl⟩, ?_⟩
  · show (s.1.Flush o).map Prod.snd = _
    rw [hflush]
    rfl
  · intro hfeeds
    have hsome := hfeeds "a"
    have hfed : fed s.1 "a" = none := by
      have hnone : object (K := String) (X := DSSum (BitVec 32)) none "a" = none :=
        Finmap.lookup_empty "a"
      have hsamples := h.samples
      unfold fed
      rw [h.anomaly, show (DerivedStatsIf.new (K := String) (wholeSum p
        (0 : BitVec 32)) false).dsm_ = none from rfl, hnone, Option.map_none,
        Option.or_none]
      cases hds : object s.1.periodic_.dsm_ "a" with
      | none => rfl
      | some ds =>
          rw [hds] at hsamples
          obtain ⟨hrange, hcount⟩ := hsamples
          have hzero : ds.samples_ = 0 := by
            rw [hcount]
            exact BitVec.eq_of_toNat_eq (by rw [BitVec.toNat_ofNat, hround]; rfl)
          rw [Option.bind_some]
          unfold reported
          show (if ds.FillResult.1 ≠ .DSR_INVALID then _ else _) = _
          rw [fillResult_whole hrange, if_pos hzero]
          rfl
    rw [hlast, if_pos rfl, hobject, hfed] at hsome
    cases hsome

end Counting

/-- 2⁶⁴ updates in one interval: the object counts none, and the flush feeds
nothing. -/
theorem anomaly_input_wraps :
    ∃ as : List (PeriodicAct String (BitVec 32)), (∀ a ∈ as, a.Plain)
      ∧ ¬ (counting Order.any Order.any).Each FeedsOnce
          (periodicStart Order.any 0 _ false) as := by
  refine ⟨List.replicate (2 ^ 64) (.update (onlyA 1)) ++ [.flush], ?_, ?_⟩
  · intro a ha
    rcases List.mem_append.mp ha with ha | ha
    · rw [List.eq_of_mem_replicate ha]
      exact onlyA_plain 1
    · rw [List.mem_singleton.mp ha]
      trivial
  · intro h
    obtain ⟨s, hrun, hcounted⟩ := counted_run (o := Order.any) (p := Order.any)
      (2 ^ 64)
    obtain ⟨s', hstep, hnot⟩ := counted_wraps (o := Order.any) hcounted
      (Nat.two_pow_pos 64) (Nat.mod_self _)
    exact hnot (Machine.each_last _ h hrun hstep)

end Sandesh.Stats
