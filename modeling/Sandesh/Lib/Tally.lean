/-
Tallies of events by bucket.

Events fall into buckets and are worth something that can be added up. A
map that has the worth of each bucket that is not empty `Tallies` a list of
events. The rules follow what is done to such a map: an event is added,
buckets are dropped as a whole. What a walk over the map hands over when
it drops them is what the events in them are worth (`sum_dropped`).
-/
import Mathlib.Algebra.BigOperators.Group.List.Basic
import Sandesh.Lib.Pass

namespace Sandesh.Lib

universe u

variable {U B H : Type u} [DecidableEq B] [AddCommGroup H]
  {bucket : U → B} {worth : U → H} {us : List U} {m : Map B H}

/-- The events in one bucket. -/
def inBucket (bucket : U → B) (us : List U) (b : B) : List U :=
  us.filter fun u => bucket u = b

/-- What the events are worth together. -/
def total (worth : U → H) (us : List U) : H := (us.map worth).sum

/-- The worth of each bucket that is not empty. -/
def Tallies (bucket : U → B) (worth : U → H) (us : List U) (m : Map B H) :
    Prop :=
  ∀ b, m.lookup b
    = if inBucket bucket us b = [] then none
      else some (total worth (inBucket bucket us b))

theorem total_append (us vs : List U) :
    total worth (us ++ vs) = total worth us + total worth vs := by
  unfold total
  rw [List.map_append, List.sum_append]

theorem total_cons (u : U) (us : List U) :
    total worth (u :: us) = worth u + total worth us := by
  unfold total
  rw [List.map_cons, List.sum_cons]

theorem total_singleton (u : U) : total worth [u] = worth u := by
  unfold total
  rw [List.map_singleton, List.sum_singleton]

/-- What is kept and what is dropped add up. -/
theorem total_filter_add (worth : U → H) (p : U → Bool) (us : List U) :
    total worth (us.filter p) + total worth (us.filter fun u => !p u)
      = total worth us := by
  induction us with
  | nil => exact zero_add 0
  | cons u us ih =>
      rw [total_cons, ← ih]
      cases hp : p u with
      | true =>
          rw [List.filter_cons_of_pos hp, List.filter_cons_of_neg (by simp [hp]),
            total_cons, add_assoc]
      | false =>
          rw [List.filter_cons_of_neg (by simp [hp]), List.filter_cons_of_pos
            (by simp [hp]), total_cons, add_left_comm]

-- ============================================================= buckets

theorem inBucket_concat (us : List U) (u : U) (b : B) :
    inBucket bucket (us ++ [u]) b
      = if bucket u = b then inBucket bucket us b ++ [u]
        else inBucket bucket us b := by
  unfold inBucket
  rw [List.filter_append]
  by_cases hb : bucket u = b
  · rw [if_pos hb, List.filter_cons_of_pos (by simp [hb]), List.filter_nil]
  · rw [if_neg hb, List.filter_cons_of_neg (by simp [hb]), List.filter_nil,
      List.append_nil]

/-- Buckets dropped as a whole. -/
theorem inBucket_filter (keep : B → Bool) (us : List U) (b : B) :
    inBucket bucket (us.filter fun u => keep (bucket u)) b
      = if keep b then inBucket bucket us b else [] := by
  unfold inBucket
  rw [List.filter_filter]
  cases hb : keep b with
  | true =>
      rw [if_pos rfl]
      refine List.filter_congr fun u _ => ?_
      by_cases hu : bucket u = b
      · simp [hu, hb]
      · simp [hu]
  | false =>
      rw [if_neg Bool.false_ne_true]
      refine List.filter_eq_nil_iff.mpr fun u _ => ?_
      by_cases hu : bucket u = b
      · simp [hu, hb]
      · simp [hu]

/-- A list with something at one of its entries. -/
theorem sum_map_single {bs : List B} (hnd : bs.Nodup) (b : B) (x : H) :
    (bs.map fun b' => if b' = b then x else 0).sum = if b ∈ bs then x else 0 := by
  by_cases hb : b ∈ bs
  · rw [List.sum_map_ite_eq, List.count_eq_one_of_mem hnd hb, one_nsmul, sub_zero,
      List.sum_eq_zero (by simp), add_zero, if_pos hb]
  · rw [if_neg hb]
    refine List.sum_eq_zero fun y hy => ?_
    obtain ⟨b', hb', rfl⟩ := List.mem_map.mp hy
    refine if_neg ?_
    rintro rfl
    exact hb hb'

/-- The worth of all events, bucket by bucket. -/
theorem sum_total_inBucket (bucket : U → B) (worth : U → H) {bs : List B}
    (hnd : bs.Nodup) :
    ∀ {us : List U}, (∀ u ∈ us, bucket u ∈ bs) →
      (bs.map fun b => total worth (inBucket bucket us b)).sum
        = total worth us := by
  intro us
  induction us with
  | nil =>
      intro _
      exact List.sum_eq_zero (by simp [inBucket, total])
  | cons u us ih =>
      intro hall
      obtain ⟨hu, hus⟩ := List.forall_mem_cons.mp hall
      have hone : ∀ b, total worth (inBucket bucket (u :: us) b)
          = (if b = bucket u then worth u else 0)
            + total worth (inBucket bucket us b) := by
        intro b
        unfold inBucket
        by_cases hb : bucket u = b
        · rw [List.filter_cons_of_pos (by simp [hb]), total_cons, if_pos hb.symm]
        · rw [List.filter_cons_of_neg (by simp [hb]), if_neg (Ne.symm hb), zero_add]
      simp only [hone]
      rw [List.sum_map_add, sum_map_single hnd, if_pos hu, ih hus, total_cons]

-- ============================================================= tallies

theorem tallies_nil : Tallies bucket worth [] ∅ := by
  intro b
  exact Finmap.lookup_empty b

theorem Tallies.mem_keys (h : Tallies bucket worth us m) {u : U} (hu : u ∈ us) :
    bucket u ∈ m.keys := by
  have hmem : u ∈ inBucket bucket us (bucket u) :=
    List.mem_filter.mpr ⟨hu, decide_eq_true rfl⟩
  rw [Finmap.mem_keys, Finmap.mem_iff]
  rw [h (bucket u), if_neg (List.ne_nil_of_mem hmem)]
  exact ⟨_, rfl⟩

/-- Dropping buckets drops their events. -/
theorem Tallies.filter (h : Tallies bucket worth us m) {keep : B → Bool}
    {m' : Map B H}
    (hm : ∀ b, m'.lookup b = if keep b then m.lookup b else none) :
    Tallies bucket worth (us.filter fun u => keep (bucket u)) m' := by
  intro b
  rw [hm b, inBucket_filter]
  cases keep b with
  | true => exact h b
  | false => rfl

/-- What a map that tallies the events has in a bucket. -/
def tallyOf (bucket : U → B) (worth : U → H) (us : List U) (b : B) : Option H :=
  if inBucket bucket us b = [] then none
  else some (total worth (inBucket bucket us b))

/-- One more event. -/
theorem tallyOf_concat (us : List U) (u : U) (b : B) :
    tallyOf bucket worth (us ++ [u]) b
      = if bucket u = b then some ((tallyOf bucket worth us b).getD 0 + worth u)
        else tallyOf bucket worth us b := by
  unfold tallyOf
  rw [inBucket_concat]
  by_cases hb : bucket u = b
  · rw [if_pos hb, if_pos hb, if_neg (by simp), total_append, total_singleton]
    by_cases hnil : inBucket bucket us b = []
    · rw [if_pos hnil, hnil]
      rfl
    · rw [if_neg hnil]
      rfl
  · rw [if_neg hb, if_neg hb]

theorem Tallies.concat (h : Tallies bucket worth us m) (u : U) :
    Tallies bucket worth (us ++ [u])
      (m.insert (bucket u) ((m.lookup (bucket u)).getD 0 + worth u)) := by
  intro b
  refine Eq.trans ?_ (tallyOf_concat us u b).symm
  by_cases hb : bucket u = b
  · subst hb
    rw [Finmap.lookup_insert, if_pos rfl, h (bucket u)]
    rfl
  · rw [if_neg hb, Finmap.lookup_insert_of_ne m (Ne.symm hb)]
    exact h b

/-- What a walk hands over that drops some buckets is what the events in
them are worth. -/
theorem Tallies.sum_dropped (h : Tallies bucket worth us m) {o : Order B}
    {f : B → H → Turn H H} {keep : B → Bool}
    (hf : ∀ b n, f b n = if keep b then ⟨some n, [], false⟩
      else ⟨none, [n], false⟩) :
    (m.walk o f).sent.sum
      = total worth (us.filter fun u => !keep (bucket u)) := by
  have hends : (m.walk o f).stuck = false := by
    refine Map.stuck_walk.mpr fun b n _ => ?_
    rw [hf b n]
    cases keep b with
    | true => rfl
    | false => rfl
  have hone : ∀ b, (((m.lookup b).map fun n => (f b n).sent).getD []).sum
      = total worth (inBucket bucket (us.filter fun u => !keep (bucket u)) b) := by
    intro b
    rw [inBucket_filter fun b => !keep b, h b]
    by_cases hnil : inBucket bucket us b = []
    · rw [if_pos hnil, hnil, ite_self]
      rfl
    · rw [if_neg hnil, Option.map_some, Option.getD_some, hf]
      cases keep b with
      | true => rfl
      | false => exact List.sum_singleton
  unfold Map.walk at hends ⊢
  rw [Map.sent_pass (o.nodup _) hends, List.flatMap_def, List.sum_flatten,
    List.map_map]
  simp only [Function.comp_def, hone]
  refine sum_total_inBucket bucket worth (o.nodup _) fun u hu => ?_
  exact o.mem.mpr (h.mem_keys (List.mem_of_mem_filter hu))

end Sandesh.Lib
