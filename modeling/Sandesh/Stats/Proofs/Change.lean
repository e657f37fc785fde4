/-
What `DSChange` reports.

An object remembers the last two values it was given. It compares them
also after the first, when `prev_` holds whatever memory did, so a first
value that happens to be there already is skipped. Apart from that the
object, the statistic of a single value and the statistic of a map report
first values and changes (`Changed`), and nothing else.

A statistic with `is_agg_` gives its object the differences of the values
it receives, so what is said of it is said of what it gives on: `givenOn` for
a single value, `given` for a map.
-/
import Mathlib.Data.BitVec
import Sandesh.Stats.Basic
import Sandesh.Stats.Proofs.Telescope
import Sandesh.Stats.Proofs.Window

namespace Sandesh.Stats

open Lib DerivedStatsIf

variable {K E : Type} [DecidableEq K] [DecidableEq E] {res value prev : E}

/-- `v` is the first value, or not the one before it. -/
def Changed (us : List E) (v : E) : Prop := us = [] ∨ us.getLast? ≠ some v

instance (us : List E) (v : E) : Decidable (Changed us v) :=
  inferInstanceAs (Decidable (_ ∨ _))

/-- What `FillResult` is to return after the values `us` and `v`. -/
def verdict (us : List E) (v : E) : DSReturnType × E :=
  (if Changed us v then .DSR_OK else .DSR_SKIP, v)

/-- Only a first value is compared with what memory held. -/
def Distinct (prev : E) (us : List E) (v : E) : Prop := us ≠ [] ∨ v ≠ prev

-- ============================================================ one object

/-- The object after some values. Their times are not used. -/
def changed (value prev : E) (vs : List E) : DSChange E :=
  vs.foldl (fun d v => d.Update v 0) (DSChange.new value prev)

omit [DecidableEq E] in
theorem changed_concat (us : List E) (v : E) :
    changed value prev (us ++ [v])
      = ⟨true, v, us.getLast?.getD prev⟩ := by
  rcases List.eq_nil_or_concat us with hnil | hconcat
  · rw [hnil]
    rfl
  · obtain ⟨us, u, rfl⟩ := hconcat
    unfold changed
    rw [List.concat_eq_append, List.foldl_append, List.foldl_append,
      List.getLast?_concat]
    rfl

omit [DecidableEq E] in
theorem changed_concat_iff (us : List E) (u v : E) :
    Changed (us ++ [u]) v ↔ u ≠ v := by
  unfold Changed
  rw [List.getLast?_concat, ne_eq, Option.some_inj]
  refine ⟨fun hor => ?_, .inr⟩
  rcases hor with hnil | hne
  · exact absurd hnil (List.append_ne_nil_of_right_ne_nil us (List.cons_ne_nil u []))
  · exact hne

/-- The comparison that `FillResult` makes. -/
def differs (prev : E) (us : List E) (v : E) : Bool := us.getLast?.getD prev ≠ v

theorem fillResult_changed (us : List E) (v : E) :
    (changed value prev (us ++ [v])).FillResult res
      = (if differs prev us v then .DSR_OK else .DSR_SKIP, v) := by
  rw [changed_concat]
  unfold DSChange.FillResult differs
  by_cases hsame : us.getLast?.getD prev = v
  · simp [hsame]
  · simp [hsame]

/-- It tells a change from a repetition, but for a first value that memory
held. -/
theorem differs_iff (us : List E) (v : E) :
    differs prev us v = decide (Changed us v) ↔ Distinct prev us v := by
  unfold differs Distinct
  rcases List.eq_nil_or_concat us with hnil | hconcat
  · subst hnil
    have hfirst : Changed [] v := .inl rfl
    rw [decide_eq_true hfirst, List.getLast?_nil, Option.getD_none,
      decide_eq_true_iff]
    constructor
    · intro hne
      exact .inr (Ne.symm hne)
    · rintro (hne | hne)
      · exact absurd rfl hne
      · exact Ne.symm hne
  · obtain ⟨us, u, rfl⟩ := hconcat
    rw [List.concat_eq_append, List.getLast?_concat, Option.getD_some]
    refine iff_of_true ?_
      (.inl (List.append_ne_nil_of_right_ne_nil us (List.cons_ne_nil u [])))
    exact decide_eq_decide.mpr (changed_concat_iff us u v).symm

/-- So do the results. -/
theorem verdict_iff (us : List E) (v : E) :
    (changed value prev (us ++ [v])).FillResult res = verdict us v
      ↔ Distinct prev us v := by
  rw [fillResult_changed, ← differs_iff]
  unfold verdict
  cases differs prev us v with
  | true => by_cases hc : Changed us v <;> simp [hc]
  | false => by_cases hc : Changed us v <;> simp [hc]

-- ========================================================= a single value

section Scalar

variable [Add E] [Sub E]

/-- What a statistic gives its object, once it has the aggregate `agg`. -/
def givenOnAfter (is_agg : Bool) (agg : E) : List (Sample E) → List E
  | [] => []
  | u :: us =>
      if is_agg then
        (u.raw - agg) :: givenOnAfter is_agg (agg + (u.raw - agg)) us
      else u.raw :: givenOnAfter is_agg agg us

/-- What a statistic gives its object: the values, or the first of them and
then the differences. -/
def givenOn (is_agg : Bool) : List (Sample E) → List E
  | [] => []
  | u :: us => u.raw :: givenOnAfter is_agg u.raw us

/-- The statistic after some updates. -/
def recorded {D : DSTT E E} (s : Scalar D) (us : List (Sample E)) : Scalar D :=
  us.foldl (fun s u => s.Update u.raw u.mono_usec) s

theorem recorded_ds (us : List (Sample E)) :
    ∀ {s : Scalar (DSChange.kind res value prev)} {ds : DSChange E},
      s.ds_ = some ds →
      (recorded s us).ds_
        = some ((givenOnAfter s.is_agg_ s.agg_ us).foldl (fun d v => d.Update v 0) ds) := by
  induction us with
  | nil =>
      intro s ds hds
      exact hds
  | cons u us ih =>
      intro s ds hds
      cases hagg : s.is_agg_ with
      | true =>
          have hstep : s.Update u.raw u.mono_usec
              = ⟨some (ds.Update (u.raw - s.agg_) 0), true,
                  s.agg_ + (u.raw - s.agg_), u.raw - s.agg_⟩ := by
            unfold Scalar.Update
            simp only [hagg, hds, Option.isSome_some, if_true, Option.getD_some]
            rfl
          show (recorded (s.Update u.raw u.mono_usec) us).ds_ = _
          rw [hstep, ih rfl]
          rfl
      | false =>
          have hstep : s.Update u.raw u.mono_usec
              = ⟨some (ds.Update u.raw 0), false, s.agg_, s.diff_⟩ := by
            unfold Scalar.Update
            simp only [hagg, hds, Option.getD_some, Bool.false_eq_true, if_false]
            rfl
          show (recorded (s.Update u.raw u.mono_usec) us).ds_ = _
          rw [hstep, ih rfl]
          rfl

omit [DecidableEq E] in
theorem givenOnAfter_false (us : List (Sample E)) :
    ∀ agg : E, givenOnAfter false agg us = us.map Sample.raw := by
  induction us with
  | nil =>
      intro agg
      rfl
  | cons u us ih =>
      intro agg
      show u.raw :: givenOnAfter false agg us = u.raw :: us.map Sample.raw
      rw [ih]

theorem new_ds {is_agg : Bool} {agg diff : E} {us : List (Sample E)} (hne : us ≠ []) :
    (recorded (Scalar.new (DSChange.kind res value prev) is_agg agg diff) us).ds_
      = some (changed value prev (givenOn is_agg us)) := by
  cases us with
  | nil => exact absurd rfl hne
  | cons u us =>
      cases is_agg with
      | true => exact recorded_ds us rfl
      | false =>
          show (recorded _ us).ds_ = _
          rw [recorded_ds us rfl, givenOn, givenOnAfter_false]
          show some ((givenOnAfter false agg us).foldl _ _) = _
          rw [givenOnAfter_false]
          rfl

/-- The statistic of a single value reports what its object finds. -/
theorem fillResult_recorded {is_agg : Bool} {agg diff : E} {us : List (Sample E)}
    {vs : List E} {v : E} (h : givenOn is_agg us = vs ++ [v]) (res' : E) :
    (recorded (Scalar.new (DSChange.kind res value prev) is_agg agg diff)
        us).FillResult res' false = (v, decide (Changed vs v))
      ↔ Distinct prev vs v := by
  have hne : us ≠ [] := by
    rintro rfl
    exact absurd h.symm (List.append_ne_nil_of_right_ne_nil vs (List.cons_ne_nil v []))
  unfold Scalar.FillResult
  rw [new_ds hne, h, ← differs_iff]
  simp only [fillResult_changed, Bool.false_and, Bool.false_or, Bool.not_false,
    Bool.true_and, Prod.mk.injEq, true_and]
  cases differs prev vs v with
  | true => exact Iff.rfl
  | false => exact Iff.rfl

end Scalar

-- ================================================================= a map

section Maps

variable [AddCommGroup E] {o : Order K}

/-- What a statistic gives to `DerivedStatsMerge`. -/
def given {D : DSTT E E} (o : Order K) (s : DerivedStatsIf K D)
    (a : MapUpdate K E) : Map K E :=
  if s.is_agg_ then
    ((DerivedStatsAgg o a.raw s.aggm_ a.del).map Prod.fst).getD ∅
  else a.raw

/-- The values an object has been given since it was made. -/
def since {D : DSTT E E} (o : Order K) (values : K → List E)
    (s : DerivedStatsIf K D) (a : MapUpdate K E) (k : K) : List E :=
  if (given o s a).keys = ∅ then []
  else match (given o s a).lookup k with
    | none => values k
    | some r => if a.del.lookup k = some true then [] else values k ++ [r]

/-- The updates of a map, with the values given to each object. -/
def followed (o : Order K) (res value prev : E) :
    Machine (DerivedStatsIf K (DSChange.kind res value prev) × (K → List E))
      (MapUpdate K E) :=
  Machine.watch ⟨fun s a => s.Update o a.raw a.del a.mono_usec⟩
    fun values s a => since o values s a

variable {s s' : DerivedStatsIf K (DSChange.kind res value prev) × (K → List E)}
  {a : MapUpdate K E}

/-- What is given is merged. -/
theorem update_given {s s' : DerivedStatsIf K (DSChange.kind res value prev)}
    (h : s.Update o a.raw a.del a.mono_usec = some s') :
    ∃ dsm', DerivedStatsMerge (DSChange.kind res value prev) o (given o s a)
        (s.dsm_.getD ∅) a.del a.mono_usec = some dsm'
      ∧ s'.dsm_ = some dsm' := by
  unfold DerivedStatsIf.Update at h
  unfold given
  cases hagg : s.is_agg_ with
  | true =>
      rw [if_pos hagg] at h
      obtain ⟨r, hdiff, h⟩ := Option.bind_eq_some_iff.mp h
      obtain ⟨dsm', hmerge, h⟩ := Option.bind_eq_some_iff.mp h
      injection h with h
      refine ⟨dsm', ?_, by rw [← h]⟩
      rw [if_pos rfl, hdiff]
      exact hmerge
  | false =>
      rw [if_neg (hagg ▸ Bool.false_ne_true)] at h
      obtain ⟨dsm', hmerge, h⟩ := Option.bind_eq_some_iff.mp h
      injection h with h
      refine ⟨dsm', ?_, by rw [← h]⟩
      rw [if_neg Bool.false_ne_true]
      exact hmerge

/-- A key has an object once it was given a value, and the object is that
of its values. -/
def Follows (s : DerivedStatsIf K (DSChange.kind res value prev) × (K → List E)) :
    Prop :=
  ∀ k, (s.1.dsm_.getD ∅).lookup k
    = if s.2 k = [] then none else some (changed value prev (s.2 k))

theorem follows_step (hinv : Follows s)
    (h : (followed o res value prev).step s a = some s') : Follows s' := by
  obtain ⟨hupdate, hvalues⟩ := Machine.watch_step.mp h
  obtain ⟨dsm', hmerge, hdsm⟩ := update_given hupdate
  intro k
  rw [hdsm, hvalues, Option.getD_some]
  unfold since
  by_cases hempty : (given o s.1 a).keys = ∅
  · rw [merge_empty hempty] at hmerge
    injection hmerge with hmerge
    rw [← hmerge, if_pos hempty, if_pos rfl]
    exact Finmap.lookup_empty k
  · rw [if_neg hempty]
    obtain ⟨hother, hown⟩ := merge_spec hempty hmerge k
    cases hgiven : (given o s.1 a).lookup k with
    | none => rw [hother hgiven, hinv k]
    | some r =>
        obtain ⟨gone, hgone, hleft⟩ := hown r hgiven
        rw [hleft, hgone]
        cases gone with
        | true => rfl
        | false =>
            have hne : s.2 k ++ [r] ≠ [] :=
              List.append_ne_nil_of_right_ne_nil _ (List.cons_ne_nil r [])
            simp only [Bool.false_eq_true, if_false, Option.some_inj, if_neg hne]
            rw [hinv k]
            unfold changed
            rw [List.foldl_append]
            by_cases hnil : s.2 k = []
            · rw [if_pos hnil, hnil]
              rfl
            · rw [if_neg hnil]
              rfl

theorem follows_run {is_agg : Bool} (as : List (MapUpdate K E))
    (h : (followed o res value prev).run (DerivedStatsIf.new _ is_agg, fun _ => []) as
      = some s) : Follows s :=
  Machine.run_keeps follows_step as (fun k => Finmap.lookup_empty k) h

omit [AddCommGroup E] in
/-- A key reports what its object finds. -/
theorem fillResult_followed (hinv : Follows s) {k : K} {vs : List E} {v : E}
    (h : s.2 k = vs ++ [v]) :
    (s.1.FillResult o false).1.lookup k = (if Changed vs v then some v else none)
      ↔ Distinct prev vs v := by
  have hlive := hinv k
  rw [h, if_neg (List.append_ne_nil_of_right_ne_nil vs (List.cons_ne_nil v []))]
    at hlive
  cases hdsm : s.1.dsm_ with
  | none =>
      rw [hdsm, Option.getD_none, Finmap.lookup_empty] at hlive
      cases hlive
  | some dsm =>
      rw [hdsm, Option.getD_some] at hlive
      have hfill : (DSChange.kind res value prev).FillResult
          (changed value prev (vs ++ [v])) = _ := fillResult_changed vs v
      rw [lookup_fillResult hdsm hlive, ← differs_iff, hfill]
      cases differs prev vs v with
      | true => by_cases hc : Changed vs v <;> simp [hc]
      | false => by_cases hc : Changed vs v <;> simp [hc]

/-- An update of a map ends if every key is known to `del`. -/
theorem followed_total (hagg : s.1.is_agg_ = false)
    (hdel : ∀ k r, a.raw.lookup k = some r → ∃ gone, a.del.lookup k = some gone) :
    ∃ s', (followed o res value prev).step s a = some s' := by
  obtain ⟨dsm', hmerge⟩ := merge_total (D := DSChange.kind res value prev) (o := o)
    hdel (s.1.dsm_.getD ∅) a.mono_usec
  refine ⟨({ s.1 with dsm_ := some dsm' }, since o s.2 s.1 a),
    Machine.watch_step.mpr ⟨?_, rfl⟩⟩
  show s.1.Update o a.raw a.del a.mono_usec = _
  unfold DerivedStatsIf.Update
  rw [if_neg (hagg ▸ Bool.false_ne_true), hmerge]
  rfl

end Maps

-- ============================================================ the results

/-- For every sequence of updates: an object, the statistic of a single
value and the statistic of a map report first values and changes, and
nothing else, exactly where a first value is not what memory held. -/
theorem reports_changes_iff (K : Type) [DecidableEq K] (res value prev : E) :
    (∀ (us : List (Sample E)) (a : Sample E),
      ((us ++ [a]).foldl (fun d u => d.Update u.raw u.mono_usec)
          (DSChange.new value prev)).FillResult res
          = verdict (us.map Sample.raw) a.raw
        ↔ Distinct prev (us.map Sample.raw) a.raw)
    ∧ (∀ [Add E] [Sub E] (is_agg : Bool) (agg diff res' : E) (us : List (Sample E))
        (vs : List E) (v : E), givenOn is_agg us = vs ++ [v] →
      ((recorded (Scalar.new (DSChange.kind res value prev) is_agg agg diff)
          us).FillResult res' false = (v, decide (Changed vs v))
        ↔ Distinct prev vs v))
    ∧ ∀ [AddCommGroup E] (o : Order K) (is_agg : Bool) (as : List (MapUpdate K E))
        (s : DerivedStatsIf K (DSChange.kind res value prev) × (K → List E)),
      (followed o res value prev).run (DerivedStatsIf.new _ is_agg, fun _ => []) as
        = some s → ∀ k,
      (s.2 k = [] → (s.1.FillResult o false).1.lookup k = none)
      ∧ ∀ vs v, s.2 k = vs ++ [v] →
        ((s.1.FillResult o false).1.lookup k = (if Changed vs v then some v else none)
          ↔ Distinct prev vs v) := by
  refine ⟨fun us a => ?_, ?_, ?_⟩
  · have hobject : (us ++ [a]).foldl (fun d u => d.Update u.raw u.mono_usec)
        (DSChange.new value prev)
        = changed value prev (us.map Sample.raw ++ [a.raw]) := by
      unfold changed
      rw [← List.map_singleton, ← List.map_append, List.foldl_map]
      rfl
    rw [hobject]
    exact verdict_iff _ _
  · intro _ _ is_agg agg diff res' us vs v h
    exact fillResult_recorded h res'
  · intro _ o is_agg as s hrun k
    have hinv := follows_run as hrun
    refine ⟨fun hnil => ?_, fun vs v h => fillResult_followed hinv h⟩
    apply lookup_fillResult_none
    rw [hinv k, if_pos hnil]

/-- A first 5 where memory held 0. -/
theorem reports_changes_five :
    ((DSChange.new (0 : BitVec 32) 0).Update 5 0).FillResult 0 = verdict [] 5
    ∧ ((Scalar.new (DSChange.kind (0 : BitVec 32) 0 0) false 0 0).Update 5 0).FillResult
        0 false = (5, true)
    ∧ ∃ s, (followed Order.any (0 : BitVec 32) 0 0).run
        (DerivedStatsIf.new _ false, fun _ => []) [onlyA 5] = some s
      ∧ (s.1.FillResult Order.any false).1.lookup "a" = some 5 := by
  obtain ⟨hobject, hscalar, hmap⟩ :=
    reports_changes_iff String (0 : BitVec 32) 0 0
  have hdistinct : Distinct (0 : BitVec 32) [] 5 := .inr (by decide)
  refine ⟨(hobject [] ⟨5, 0⟩).mpr hdistinct,
    (hscalar false 0 0 0 [⟨5, 0⟩] [] 5 rfl).mpr hdistinct, ?_⟩
  obtain ⟨s, hstep⟩ := followed_total (o := Order.any) (a := onlyA 5)
    (s := (DerivedStatsIf.new (DSChange.kind (0 : BitVec 32) 0 0) false, fun _ => []))
    rfl fun k r hr => ⟨_, onlyA_del hr⟩
  have hrun : (followed Order.any (0 : BitVec 32) 0 0).run
      (DerivedStatsIf.new _ false, fun _ => []) [onlyA 5] = some s := by
    show ((followed _ _ _ _).step _ _).bind some = _
    rw [hstep]
    rfl
  have hgiven : s.2 "a" = [] ++ [5] := by
    have hne : (onlyA 5).raw.keys ≠ ∅ := by
      intro hempty
      have hnone := Map.keys_eq_empty.mp hempty "a"
      rw [onlyA_raw] at hnone
      cases hnone
    have heq : given Order.any (DerivedStatsIf.new (K := String)
        (DSChange.kind (0 : BitVec 32) 0 0) false) (onlyA 5) = (onlyA 5).raw := rfl
    rw [(Machine.watch_step.mp hstep).2]
    simp only [since, heq, if_neg hne, onlyA_raw, onlyA_del (onlyA_raw 5)]
    rfl
  exact ⟨s, hrun, ((hmap Order.any false _ s hrun "a").2 [] 5 hgiven).mpr hdistinct⟩

/-- A first 0 where memory held 0 is skipped, and not reported. -/
theorem first_value_skipped :
    Changed [] (0 : BitVec 32)
    ∧ ((DSChange.new (0 : BitVec 32) 0).Update 0 0).FillResult 0 = (.DSR_SKIP, 0)
    ∧ ((Scalar.new (DSChange.kind (0 : BitVec 32) 0 0) false 0 0).Update 0 0).FillResult
        0 false = (0, false) := by
  refine ⟨.inl rfl, ?_, ?_⟩
  · rfl
  · rfl

end Sandesh.Stats
