/-
Derived statistics (library/cpp/derived_stats_algo.h and
derived_stats.h): `DSSum` and `DSAvg`, and the maps of derived-stat
objects that `DerivedStatsIf` keeps.

# Numbers

Element types are integers with arithmetic modulo their width, so a sum
lives in an additive group. Times, ranges and the counters of samples are
`uint64_t`. `value_` has no initial value: it is a parameter of the
constructor.

The constructor compares the range with `(uint64_t)(1 << (shifter_ + 8))`,
where 1 is an `int` of 32 bits: at `shifter_ = 23` the shift gives a
negative number, which the cast extends to a very large one, and at 24 it
is undefined. A range that needs a shift of 24 has no object.

# Maps

`std::map` is a `Finmap`, visited in an order that is a parameter. An
exception of `del.at` and a failed assertion end the call without a
result.
-/
import Mathlib.Algebra.Group.Basic
import Sandesh.Lib.Machine
import Sandesh.Lib.Pass

namespace Sandesh.Stats

open Lib

/-- `uint64_t`. -/
abbrev U64 := BitVec 64

/-- What `FillResult` makes of an object: nothing yet, nothing new, or a
value. -/
inductive DSReturnType
  | DSR_INVALID
  | DSR_SKIP
  | DSR_OK
  deriving DecidableEq

-- =============================================================== DSSum

/-- The members of `DSSum`. -/
structure DSSum (E : Type) where
  samples_ : U64
  value_ : E
  history_buf_ : Map U64 (U64 × E)
  range_usecs_ : U64
  shifter_ : Nat
  start_tbin_ : U64
  last_tbin_ : U64

namespace DSSum

/-- `(uint64_t)(1 << (shifter_ + 8))`, while the shift is defined. -/
def bound (shifter : Nat) : U64 := (1#32 <<< (shifter + 8)).signExtend 64

/-- The loop of the constructor, with the shifts that are left. -/
def choose (range_usecs : U64) : Nat → Nat → Option Nat
  | 0, _ => none
  | shifts + 1, shifter =>
      if bound shifter < range_usecs then
        choose range_usecs shifts (shifter + 1)
      else some shifter

variable {E : Type}

/-- The object, once `shifter_` is known; `value` is what memory held. -/
def build (value : E) (range_usecs : U64) (shifter : Nat) : DSSum E where
  samples_ := 0
  value_ := value
  history_buf_ := ∅
  range_usecs_ := range_usecs
  shifter_ := shifter
  start_tbin_ := 0
  last_tbin_ := 0

/-- The shift is undefined from 24 on, so the loop has no more turns. -/
def ofRange (value : E) (range_usecs : U64) : Option (DSSum E) :=
  (choose range_usecs 24 0).map (build value range_usecs)

/-- `DSSum(annotation)`: the number `strtoul` reads, none if the
annotation is empty. -/
def new (value : E) ( annotation : Option U64) : Option (DSSum E) :=
  match annotation with
  | none => some (build value 0 0)
  | some seconds => ofRange value (seconds * 1000000)

/-- `(usecs >> shifter_) << shifter_`. -/
def bin (d : DSSum E) (usecs : U64) : U64 := (usecs >>> d.shifter_) <<< d.shifter_

variable [AddCommGroup E] (o : Order U64)

/-- With a range there is no result before a whole range has gone by. -/
def FillResult (d : DSSum E) : DSReturnType × E :=
  if d.samples_ = 0 then (.DSR_INVALID, 0)
  else if d.range_usecs_ ≠ 0
      ∧ d.bin (d.start_tbin_ + d.range_usecs_) > d.last_tbin_ then
    (.DSR_INVALID, 0)
  else (.DSR_OK, d.value_)

/-- What the loop of `Purge` does with a bucket: keep it, or erase it and
hand over what it held. -/
def purgeTurn (d : DSSum E) (mono_usec : U64) (first : U64) (second : U64 × E) :
    Turn (U64 × E) (U64 × E) :=
  if d.bin (first + d.range_usecs_) ≤ mono_usec then ⟨none, [second], false⟩
  else ⟨some second, [], false⟩

/-- The buckets that lie behind the range, in the order of the map; what
they held is taken off. -/
def Purge (d : DSSum E) (mono_usec : U64) : DSSum E :=
  let r := d.history_buf_.walk o (d.purgeTurn mono_usec)
  { d with
    history_buf_ := r.map
    value_ := r.sent.foldl (fun value_ gone => value_ - gone.2) d.value_
    samples_ := r.sent.foldl (fun samples_ gone => samples_ - gone.1) d.samples_ }

/-- The new update in its bucket. -/
def record (d : DSSum E) (tbin : U64) (raw : E) : DSSum E :=
  { d with
    history_buf_ := match d.history_buf_.lookup tbin with
      | none => d.history_buf_.insert tbin (1, raw)
      | some (count, sum) => d.history_buf_.insert tbin (count + 1, sum + raw) }

/-- One update: the sum, and its bucket if there is a range. -/
def Update (d : DSSum E) (raw : E) (mono_usec : U64) : DSSum E :=
  let d := { d with value_ := if d.samples_ = 0 then raw else d.value_ + raw }
  let d :=
    if d.range_usecs_ = 0 then d
    else
      let tbin := d.bin mono_usec
      let d := { d with
        start_tbin_ := if d.start_tbin_ = 0 then tbin else d.start_tbin_
        last_tbin_ := tbin }
      (d.Purge o tbin).record tbin raw
  { d with samples_ := d.samples_ + 1 }

end DSSum

/-- `DSAvg::FillResult`, where `res` is what the caller passed. There is no
result where it divides by zero. -/
def DSAvg.FillResult {E : Type} [AddCommGroup E] (quot : E → U64 → E)
    (d : DSSum E) (res : E) : Option (DSReturnType × E) :=
  match d.FillResult with
  | (.DSR_OK, sres) =>
      if d.samples_ = 0 then none else some (.DSR_OK, quot sres d.samples_)
  | _ => some (.DSR_INVALID, res)

-- ======================================================= DerivedStatsIf

/-- A kind of derived statistic, with its annotation. -/
structure DSTT (E R : Type) where
  Obj : Type
  make : Obj
  Update : Obj → E → U64 → Obj
  FillResult : Obj → DSReturnType × R

/-- `DSSum` objects that start as `d`. -/
abbrev DSSum.kind {E : Type} [AddCommGroup E] (o : Order U64) (d : DSSum E) :
    DSTT E E where
  Obj := DSSum E
  make := d
  Update := DSSum.Update o
  FillResult := DSSum.FillResult

section Maps

variable {K E R : Type} [DecidableEq K]

/-- One turn of the loop of `DerivedStatsAgg`; `del.at` may throw. -/
def aggTurn [AddCommGroup E] (raw : Map K E) (del : Map K Bool)
    (s : Map K E × Map K E) (k : K) : Option (Map K E × Map K E) := do
  let rit ← raw.lookup k
  let gone ← del.lookup k
  match s.2.lookup k with
  | some ait =>
      let diff := rit - ait
      return (s.1.insert k diff,
        if gone then s.2.erase k else s.2.insert k (ait + diff))
  | none => return (s.1.insert k rit, if gone then s.2 else s.2.insert k rit)

/-- The differences, and the aggregate after them. -/
def DerivedStatsAgg [AddCommGroup E] (o : Order K) (raw agg : Map K E)
    (del : Map K Bool) : Option (Map K E × Map K E) :=
  (o.list raw.keys).foldlM (aggTurn raw del) (∅, agg)

variable (D : DSTT E R)

/-- What the loop over the existing objects does with one; it sends the
key whose `srcmap` it sets. -/
def mergeTurn (raw : Map K E) (del : Map K Bool) (mono_usec : U64) (k : K)
    (ds : D.Obj) : Turn D.Obj K :=
  match raw.lookup k with
  | none => ⟨some ds, [], false⟩
  | some rit =>
      match del.lookup k with
      | none => ⟨some ds, [], true⟩
      | some true => ⟨none, [k], false⟩
      | some false => ⟨some (D.Update ds rit mono_usec), [k], false⟩

/-- One turn of the loop over `srcmap`. -/
def addTurn (raw : Map K E) (del : Map K Bool) (mono_usec : U64)
    (seen : List K) (dsm : Map K D.Obj) (k : K) : Option (Map K D.Obj) :=
  if k ∈ seen then some dsm
  else do
    let rit ← raw.lookup k
    let gone ← del.lookup k
    if gone then return dsm
    else if (dsm.lookup k).isSome then none
    else return dsm.insert k (D.Update D.make rit mono_usec)

/-- `DerivedStatsMerge`. Without `raw` there is nothing left. `none` is a
lookup that throws, or a failed assertion. -/
def DerivedStatsMerge (o : Order K) (raw : Map K E) (dsm : Map K D.Obj)
    (del : Map K Bool) (mono_usec : U64) : Option (Map K D.Obj) :=
  if raw.keys = ∅ then some ∅
  else
    let r := dsm.walk o (mergeTurn D raw del mono_usec)
    if r.stuck then none
    else (o.list raw.keys).foldlM (addTurn D raw del mono_usec r.sent) r.map

/-- The members of `DerivedStatsIf` for a map; without a first update there
is no `dsm_`. -/
structure DerivedStatsIf (K : Type) (D : DSTT E R) where
  dsm_ : Option (Map K D.Obj)
  is_agg_ : Bool
  aggm_ : Map K E

/-- The constructor. -/
def DerivedStatsIf.new (D : DSTT E R) (is_agg : Bool) : DerivedStatsIf K D where
  dsm_ := none
  is_agg_ := is_agg
  aggm_ := ∅

variable {D}

/-- With `is_agg_` the objects get the differences. -/
def DerivedStatsIf.Update [AddCommGroup E] (o : Order K)
    (s : DerivedStatsIf K D) (raw : Map K E) (del : Map K Bool)
    (mono_usec : U64) : Option (DerivedStatsIf K D) := do
  let dsm := s.dsm_.getD ∅
  if s.is_agg_ then
    let (diffm, aggm) ← DerivedStatsAgg o raw s.aggm_ del
    let dsm ← DerivedStatsMerge D o diffm dsm del mono_usec
    return { s with dsm_ := some dsm, aggm_ := aggm }
  else
    let dsm ← DerivedStatsMerge D o raw dsm del mono_usec
    return { s with dsm_ := some dsm }

/-- One turn of the loop of `FillResult`. -/
def fillTurn (D : DSTT E R) (force : Bool) (dsm : Map K D.Obj)
    (mres : Map K R) (k : K) : Map K R :=
  match dsm.lookup k with
  | none => mres
  | some ds =>
      let (rt, res) := D.FillResult ds
      if (force && rt != .DSR_INVALID) || (!force && rt == .DSR_OK) then
        mres.insert k res
      else mres

/-- The results, and whether there are any. -/
def DerivedStatsIf.FillResult (o : Order K) (s : DerivedStatsIf K D)
    (force : Bool) : Map K R × Bool :=
  let mres := match s.dsm_ with
    | none => ∅
    | some dsm => (o.list dsm.keys).foldl (fillTurn D force dsm) ∅
  (mres, decide (mres.keys ≠ ∅))

end Maps

end Sandesh.Stats

/-
`DSChange` (library/cpp/derived_stats_algo.h), and `DerivedStatsIf` for a
single value (derived_stats.h).

`DerivedStatsIf` keeps one object (`ds_`) or a map of them (`dsm_`),
depending on which of its two `Update`s is called. The maps are in
`Stats.Basic`; this is the other half.

No constructor gives a value to `value_` and `prev_`, nor to `agg_` and
`diff_`: what memory held is a parameter. So is what the result held
that `FillResult` does not write before the first update.
-/

namespace Sandesh.Stats

-- ============================================================ DSChange

/-- The members of `DSChange`. -/
structure DSChange (E : Type) where
  init_ : Bool
  value_ : E
  prev_ : E
  deriving DecidableEq

namespace DSChange

variable {E : Type}

/-- The constructor; nothing is initialized but `init_`. -/
def new (value prev : E) : DSChange E where
  init_ := false
  value_ := value
  prev_ := prev

/-- A value that has not changed is skipped. -/
def FillResult [DecidableEq E] (res : E) (d : DSChange E) : DSReturnType × E :=
  if d.init_ = false then (.DSR_INVALID, res)
  else if d.prev_ = d.value_ then (.DSR_SKIP, d.value_)
  else (.DSR_OK, d.value_)

/-- The value before is kept beside the new one. -/
def Update (d : DSChange E) (raw : E) (_mono_usec : U64) : DSChange E where
  prev_ := if d.init_ then d.value_ else d.prev_
  value_ := raw
  init_ := true

/-- `DSChange` objects. -/
abbrev kind [DecidableEq E] (res value prev : E) : DSTT E E where
  Obj := DSChange E
  make := new value prev
  Update := Update
  FillResult := FillResult res

end DSChange

-- ==================================================== a single statistic

/-- The members of `DerivedStatsIf` for a value. -/
structure DerivedStatsIf.Scalar {E R : Type} (D : DSTT E R) where
  ds_ : Option D.Obj
  is_agg_ : Bool
  agg_ : E
  diff_ : E

namespace DerivedStatsIf.Scalar

variable {E R : Type} {D : DSTT E R}

/-- The constructor. -/
def new (D : DSTT E R) (is_agg : Bool) (agg diff : E) : Scalar D where
  ds_ := none
  is_agg_ := is_agg
  agg_ := agg
  diff_ := diff

/-- With `is_agg_` the object gets the difference. -/
def Update [Add E] [Sub E] (s : Scalar D) (raw : E) (mono_usec : U64) :
    Scalar D :=
  let ds := s.ds_.getD D.make
  let s :=
    if s.is_agg_ then
      let diff := if s.ds_.isSome then raw - s.agg_ else raw
      { s with
        diff_ := diff
        agg_ := if s.ds_.isSome then s.agg_ + diff else raw }
    else s
  { s with ds_ := D.Update ds (if s.is_agg_ then s.diff_ else raw) mono_usec }

/-- The result, where `res` is what the caller passed, and `isset`. -/
def FillResult (s : Scalar D) (res : R) (force : Bool) : R × Bool :=
  match s.ds_ with
  | none => (res, false)
  | some ds =>
      let (rt, res) := D.FillResult ds
      (res, (force && rt != .DSR_INVALID) || (!force && rt == .DSR_OK))

end DerivedStatsIf.Scalar

end Sandesh.Stats
