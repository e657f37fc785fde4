/-
Periodic statistics over maps (library/cpp/derived_stats.h):
`DerivedStatsPeriodicIf`, which keeps a statistic for each interval between
two flushes, and `DerivedStatsPeriodicAnomalyIf`, which feeds the value of
each interval to an anomaly detector.

`dsm_` and `dsm_cache_` are shared pointers: `none` is a null one. The
static `zelem` is a number without an initializer, so it is 0.
-/
import Sandesh.Stats.Basic

namespace Sandesh.Stats

open Lib

/-- Which of the two values are set. -/
structure DSPeriodicIsSet where
  value : Bool
  staging : Bool
  deriving DecidableEq

/-- The value of the last period and that of the running one. -/
structure DSPeriodic (E : Type) where
  value : E
  staging : E
  __isset : DSPeriodicIsSet
  deriving DecidableEq

/-- Nothing counted. -/
def DSPeriodic.new {E : Type} [AddCommGroup E] : DSPeriodic E where
  value := 0
  staging := 0
  __isset := ⟨false, false⟩

-- =============================================== DerivedStatsPeriodicIf

/-- The members of the interface: the objects of this period, and the
results kept. -/
structure DerivedStatsPeriodicIf (K : Type) {E : Type} (P : DSTT E E) where
  dsm_ : Option (Map K P.Obj)
  dsm_cache_ : Option (Map K (DSPeriodic E))
  is_agg_ : Bool
  init_ : Bool
  aggm_ : Map K E

section Periodic

variable {K E : Type} [DecidableEq K] [AddCommGroup E] {P : DSTT E E}

/-- The constructor. -/
def DerivedStatsPeriodicIf.new (P : DSTT E E) (is_agg : Bool) :
    DerivedStatsPeriodicIf K P where
  dsm_ := none
  dsm_cache_ := none
  is_agg_ := is_agg
  init_ := false
  aggm_ := ∅

/-- Updates go to the objects of the running period. -/
def DerivedStatsPeriodicIf.Update (o : Order K) (s : DerivedStatsPeriodicIf K P)
    (raw : Map K E) (del : Map K Bool) (mono_usec : U64) :
    Option (DerivedStatsPeriodicIf K P) := do
  let dsm := s.dsm_.getD ∅
  if s.is_agg_ then
    let (diffm, aggm) ← DerivedStatsAgg o raw s.aggm_ del
    let dsm ← DerivedStatsMerge P o diffm dsm del mono_usec
    return { s with dsm_ := some dsm, aggm_ := aggm, init_ := true }
  else
    let dsm ← DerivedStatsMerge P o raw dsm del mono_usec
    return { s with dsm_ := some dsm, init_ := true }

/-- One turn of the loop of `Flush`. -/
def cacheTurn (P : DSTT E E) (dsm : Map K P.Obj)
    (cache : Map K (DSPeriodic E)) (k : K) : Map K (DSPeriodic E) :=
  match dsm.lookup k with
  | none => cache
  | some ds =>
      let (rt, value) := P.FillResult ds
      if rt ≠ .DSR_INVALID then
        cache.insert k
          { DSPeriodic.new with value := value, __isset := ⟨true, false⟩ }
      else cache

/-- Whether there is anything in the cache, and the object after it. -/
def DerivedStatsPeriodicIf.Flush (o : Order K)
    (s : DerivedStatsPeriodicIf K P) : Bool × DerivedStatsPeriodicIf K P :=
  match s.dsm_ with
  | none => (false, { s with dsm_cache_ := none })
  | some dsm =>
      let cache := (o.list dsm.keys).foldl (cacheTurn P dsm) ∅
      let cache := if cache.keys = ∅ then none else some cache
      (cache.isSome, { s with dsm_cache_ := cache, dsm_ := none })

/-- One turn of the loop over the cache. -/
def previousTurn (cache mres : Map K (DSPeriodic E)) (k : K) :
    Map K (DSPeriodic E) :=
  match cache.lookup k with
  | none => mres
  | some previous =>
      mres.insert k
        { DSPeriodic.new with
          value := previous.value, __isset := ⟨true, false⟩ }

/-- One turn of the loop over the current objects. -/
def stagingTurn (P : DSTT E E) (force : Bool) (dsm : Map K P.Obj)
    (mres : Map K (DSPeriodic E)) (k : K) : Map K (DSPeriodic E) :=
  match dsm.lookup k with
  | none => mres
  | some ds =>
      let (rt, staging) := P.FillResult ds
      let isset := (force && rt != .DSR_INVALID) || (!force && rt == .DSR_OK)
      match mres.lookup k with
      | some wit =>
          mres.insert k
            { wit with
              staging := staging
              __isset.staging := isset || wit.__isset.staging }
      | none =>
          if isset then
            mres.insert k
              { DSPeriodic.new with
                staging := staging, __isset := ⟨false, true⟩ }
          else mres

/-- Both values of every key. -/
def DerivedStatsPeriodicIf.FillResult (o : Order K)
    (s : DerivedStatsPeriodicIf K P) (force : Bool) :
    Map K (DSPeriodic E) × Bool :=
  let mres := match s.dsm_cache_ with
    | none => ∅
    | some cache => (o.list cache.keys).foldl (previousTurn cache) ∅
  let mres := match s.dsm_ with
    | none => mres
    | some dsm => (o.list dsm.keys).foldl (stagingTurn P force dsm) mres
  (mres, decide (mres.keys ≠ ∅))

end Periodic

-- ======================================== DerivedStatsPeriodicAnomalyIf

/-- A periodic statistic, and an anomaly that is fed with its results. -/
structure DerivedStatsPeriodicAnomalyIf (K : Type) {E R : Type} (P : DSTT E E)
    (D : DSTT E R) where
  periodic_ : DerivedStatsPeriodicIf K P
  anomaly_ : DerivedStatsIf K D
  init_ : Bool

namespace DerivedStatsPeriodicAnomalyIf

variable {K E R : Type} [DecidableEq K] [AddCommGroup E] {P : DSTT E E}
  {D : DSTT E R}

/-- The constructor. -/
def new (P : DSTT E E) (D : DSTT E R) (is_agg : Bool) :
    DerivedStatsPeriodicAnomalyIf K P D where
  periodic_ := .new P is_agg
  anomaly_ := .new D false
  init_ := false

/-- Only the periodic statistic gets the update. -/
def Update (o : Order K) (s : DerivedStatsPeriodicAnomalyIf K P D)
    (raw : Map K E) (del : Map K Bool) (mono_usec : U64) :
    Option (DerivedStatsPeriodicAnomalyIf K P D) := do
  let periodic ← s.periodic_.Update o raw del mono_usec
  return { s with init_ := true, periodic_ := periodic }

/-- One turn of the loop that extracts the reportable values, over `val`
and `dmap`. -/
def valueTurn (smres : Map K (DSPeriodic E)) (x : Map K E × Map K Bool) (k : K) :
    Map K E × Map K Bool :=
  match smres.lookup k with
  | none => x
  | some res => (x.1.insert k res.value, x.2.insert k false)

/-- One turn of the loop that assumes 0 where there is no sample. -/
def zeroTurn (x : Map K E × Map K Bool) (k : K) : Map K E × Map K Bool :=
  match x.1.lookup k with
  | some _ => x
  | none => (x.1.insert k 0, x.2.insert k false)

/-- What a flush passes to the anomaly detector. -/
def inputs (o : Order K) (smres : Map K (DSPeriodic E))
    (dsm : Option (Map K D.Obj)) : Map K E × Map K Bool :=
  let x := (o.list smres.keys).foldl (valueTurn smres) (∅, ∅)
  match dsm with
  | none => x
  | some dsm => (o.list dsm.keys).foldl zeroTurn x

/-- At the end of a period the results go to the anomaly. -/
def Flush (o : Order K) (s : DerivedStatsPeriodicAnomalyIf K P D) :
    Option (Bool × DerivedStatsPeriodicAnomalyIf K P D) := do
  if !s.init_ then return (false, s)
  let (flushed, periodic) := s.periodic_.Flush o
  let smres := if flushed then (periodic.FillResult o false).1 else ∅
  let (val, dmap) := inputs o smres s.anomaly_.dsm_
  let anomaly ← s.anomaly_.Update o val dmap 0
  return (true, { s with periodic_ := periodic, anomaly_ := anomaly })

end DerivedStatsPeriodicAnomalyIf

end Sandesh.Stats
