/-
The window of `DSSum`.

An update stays in the sum for as long as the end of its bucket's range
lies beyond the current bucket (`InWindow`, in exact arithmetic). What an
update is worth is a pair, one sample and its raw value, so `samples_` and
`value_` are one total, and `history_buf_` tallies the same updates by
bucket.

The sum that `Purge` compares, of a bucket and the range, is a `uint64_t`.
Where it wraps around, the bucket is erased at the next call. `Fits` says
that it does not, nor the counter of samples, and a run of updates keeps
its window exactly as far as each of them fits.
-/
import Mathlib.Algebra.Group.Prod
import Mathlib.Data.BitVec
import Sandesh.Lib.Tally
import Sandesh.Stats.Basic

namespace Sandesh.Stats

open Lib DSSum

variable {E : Type} {o : Order U64} {d : DSSum E}

/-- A call of `Update`. -/
structure Sample (E : Type) where
  raw : E
  mono_usec : U64

/-- One sample, and its value. -/
def worth (u : Sample E) : U64 × E := (1, u.raw)

/-- `(x >> s) << s`, in exact arithmetic. -/
def floorTo (s x : Nat) : Nat := (x >>> s) <<< s

/-- An update at `t'` is in the window at `t`. -/
def InWindow (d : DSSum E) (t t' : U64) : Prop :=
  (d.bin t).toNat
    < floorTo d.shifter_ ((d.bin t').toNat + d.range_usecs_.toNat)

instance (d : DSSum E) (t t' : U64) : Decidable (InWindow d t t') :=
  inferInstanceAs (Decidable (_ < _))

/-- The updates that count at a time. -/
def window (d : DSSum E) (us : List (Sample E)) (t : U64) : List (Sample E) :=
  us.filter fun u => InWindow d t u.mono_usec

/-- Updates with times that do not go back. -/
def sampled [AddCommGroup E] (o : Order U64) :
    Machine (DSSum E × List (Sample E)) (Sample E) where
  step s a :=
    if ∀ u ∈ s.2, u.mono_usec ≤ a.mono_usec then
      some (s.1.Update o a.raw a.mono_usec, s.2 ++ [a])
    else none

/-- After the update `a`, the last of `us`. -/
structure KeepsWindow [AddCommGroup E] (d : DSSum E) (us : List (Sample E))
    (a : Sample E) : Prop where
  value : d.value_ = ((window d us a.mono_usec).map Sample.raw).sum
  samples : d.samples_.toNat = (window d us a.mono_usec).length
  newest : a ∈ window d us a.mono_usec
  buckets : ∀ b, (d.history_buf_.lookup b).map (fun e => (e.1.toNat, e.2))
    = let held := (window d us a.mono_usec).filter fun u => d.bin u.mono_usec = b
      if held = [] then none
      else some (held.length, (held.map Sample.raw).sum)
  average : ∀ (quot : E → U64 → E) (res : E), DSAvg.FillResult quot d res ≠ none

/-- No earlier bucket has a range that ends beyond the largest `uint64_t`,
and the updates in the window can be counted. -/
def Fits (d : DSSum E) (us : List (Sample E)) (a : Sample E) : Prop :=
  (∀ u ∈ us, (d.bin u.mono_usec).toNat + d.range_usecs_.toNat < 2 ^ 64)
  ∧ (window d (us ++ [a]) a.mono_usec).length < 2 ^ 64

-- ============================================================= rounding

/-- `floorTo` by division. -/
theorem floorTo_eq (s x : Nat) : floorTo s x = x / 2 ^ s * 2 ^ s := by
  unfold floorTo
  rw [Nat.shiftLeft_eq, Nat.shiftRight_eq_div_pow]

/-- It goes down. -/
theorem floorTo_le (s x : Nat) : floorTo s x ≤ x := by
  rw [floorTo_eq]
  exact Nat.div_mul_le_self x _

/-- And keeps the order. -/
theorem floorTo_mono {s x y : Nat} (h : x ≤ y) : floorTo s x ≤ floorTo s y := by
  rw [floorTo_eq, floorTo_eq]
  exact Nat.mul_le_mul_right _ (Nat.div_le_div_right h)

/-- A range of at least one bucket ends beyond it. -/
theorem lt_floorTo_add {s x r : Nat} (h : 2 ^ s ≤ r) :
    floorTo s x < floorTo s (floorTo s x + r) := by
  have hpos : 0 < 2 ^ s := Nat.two_pow_pos s
  rw [floorTo_eq s x, floorTo_eq, Nat.add_comm, Nat.add_mul_div_right _ _ hpos,
    Nat.add_mul]
  have hone : 1 * 2 ^ s ≤ r / 2 ^ s * 2 ^ s :=
    Nat.mul_le_mul_right _ ((Nat.one_le_div_iff hpos).mpr h)
  omega

/-- A number that does not fit is not rounded down to one that does. -/
theorem two_pow_le_floorTo {s x : Nat} (hs : s ≤ 64) (h : 2 ^ 64 ≤ x) :
    2 ^ 64 ≤ floorTo s x := by
  have heq : floorTo s (2 ^ 64) = 2 ^ 64 := by
    rw [floorTo_eq]
    exact Nat.div_mul_cancel (Nat.pow_dvd_pow 2 hs)
  exact heq ▸ floorTo_mono h

/-- A time's bucket is its floor. -/
theorem toNat_bin (d : DSSum E) (x : U64) :
    (d.bin x).toNat = floorTo d.shifter_ x.toNat := by
  unfold bin floorTo
  rw [BitVec.toNat_shiftLeft, BitVec.toNat_ushiftRight]
  exact Nat.mod_eq_of_lt (Nat.lt_of_le_of_lt (floorTo_le _ _) x.isLt)

/-- Later times have later buckets. -/
theorem bin_mono {t t' : U64} (h : t ≤ t') :
    (d.bin t).toNat ≤ (d.bin t').toNat := by
  rw [toNat_bin, toNat_bin]
  exact floorTo_mono h

-- ===================================================== the constructor

/-- The shift that is chosen is the first whose bound is enough. -/
theorem choose_spec {range : U64} {s : Nat} :
    ∀ {shifts shifter : Nat}, choose range shifts shifter = some s →
      shifter ≤ s ∧ s < shifter + shifts
      ∧ (s = shifter ∨ bound (s - 1) < range) := by
  intro shifts
  induction shifts with
  | zero =>
      intro shifter h
      cases h
  | succ shifts ih =>
      intro shifter h
      unfold choose at h
      by_cases hlt : bound shifter < range
      · rw [if_pos hlt] at h
        obtain ⟨hle, hbound, hwhy⟩ := ih h
        refine ⟨by omega, by omega, .inr ?_⟩
        rcases hwhy with heq | hlt'
        · rw [heq]
          exact hlt
        · exact hlt'
      · rw [if_neg hlt] at h
        injection h with h
        omega

/-- The shift is small, and a bucket no longer than the range. -/
theorem choose_range {range : U64} {s : Nat} (hne : range ≠ 0)
    (h : choose range 24 0 = some s) : s ≤ 23 ∧ 2 ^ s ≤ range.toNat := by
  have hbound : ∀ k < 23, (bound k).toNat = 2 ^ (k + 8) := by decide
  have hpos : 0 < range.toNat := by
    refine Nat.pos_of_ne_zero fun hzero => hne ?_
    exact BitVec.eq_of_toNat_eq hzero
  obtain ⟨-, hlt, hwhy⟩ := choose_spec h
  refine ⟨by omega, ?_⟩
  rcases hwhy with hzero | hless
  · rw [hzero]
    exact hpos
  · by_cases hzero : s = 0
    · rw [hzero]
      exact hpos
    · have hless := BitVec.lt_def.mp hless
      rw [hbound (s - 1) (by omega)] at hless
      have hpow : 2 ^ s ≤ 2 ^ (s - 1 + 8) :=
        Nat.pow_le_pow_right (by omega) (by omega)
      omega

-- ========================================================== the window

/-- The window only loses what is in it. -/
theorem InWindow.anti {t t' u : U64} (h : t ≤ t') (hu : InWindow d t' u) :
    InWindow d t u :=
  Nat.lt_of_le_of_lt (bin_mono h) hu

/-- A time lies in its own window if a bucket is no longer than the range.
-/
theorem inWindow_self (hrange : 2 ^ d.shifter_ ≤ d.range_usecs_.toNat) (t : U64) :
    InWindow d t t := by
  unfold InWindow
  rw [toNat_bin]
  exact lt_floorTo_add hrange

/-- What `Purge` keeps. -/
def keeps (d : DSSum E) (tbin b : U64) : Bool :=
  !decide (d.bin (b + d.range_usecs_) ≤ tbin)

/-- A bucket whose range does not wrap around is kept while it is in the
window. -/
theorem keeps_iff {t u : U64}
    (hfits : (d.bin u).toNat + d.range_usecs_.toNat < 2 ^ 64) :
    keeps d (d.bin t) (d.bin u) = true ↔ InWindow d t u := by
  unfold keeps InWindow
  rw [Bool.not_eq_true', decide_eq_false_iff_not, BitVec.not_le, BitVec.lt_def,
    toNat_bin d (d.bin u + d.range_usecs_), BitVec.toNat_add,
    Nat.mod_eq_of_lt hfits]

/-- One whose range does is in the window, and is not kept. -/
theorem wraps {t u : U64} (hs : d.shifter_ ≤ 64) (hle : u ≤ t)
    (hwraps : 2 ^ 64 ≤ (d.bin u).toNat + d.range_usecs_.toNat) :
    keeps d (d.bin t) (d.bin u) = false ∧ InWindow d t u := by
  refine ⟨?_, ?_⟩
  · unfold keeps
    rw [Bool.not_eq_false', decide_eq_true_iff, BitVec.le_def,
      toNat_bin d (d.bin u + d.range_usecs_), BitVec.toNat_add]
    have hmod : ((d.bin u).toNat + d.range_usecs_.toNat) % 2 ^ 64
        ≤ (d.bin u).toNat := by
      have := d.range_usecs_.isLt
      have := (d.bin u).isLt
      omega
    exact Nat.le_trans (floorTo_le _ _) (Nat.le_trans hmod (bin_mono hle))
  · exact Nat.lt_of_lt_of_le (d.bin t).isLt (two_pow_le_floorTo hs hwraps)

/-- The time of the last update. -/
def lastTime (us : List (Sample E)) : U64 :=
  (us.getLast?.map Sample.mono_usec).getD 0

/-- The last update is the last. -/
theorem lastTime_concat (us : List (Sample E)) (a : Sample E) :
    lastTime (us ++ [a]) = a.mono_usec := by
  unfold lastTime
  rw [List.getLast?_concat]
  rfl

/-- It is no later than what all of them are earlier than. -/
theorem lastTime_le {us : List (Sample E)} {t : U64}
    (h : ∀ u ∈ us, u.mono_usec ≤ t) : lastTime us ≤ t := by
  unfold lastTime
  cases hlast : us.getLast? with
  | none => exact Nat.zero_le _
  | some u => exact h u (List.mem_of_getLast? hlast)

/-- The first update counts. -/
theorem window_singleton (hrange : 2 ^ d.shifter_ ≤ d.range_usecs_.toNat)
    (a : Sample E) : window d [a] a.mono_usec = [a] := by
  refine List.filter_eq_self.mpr fun u hu => ?_
  rw [List.mem_singleton.mp hu]
  exact decide_eq_true (inWindow_self hrange _)

/-- The update goes to its own bucket and to no other. -/
theorem filter_window_concat (hrange : 2 ^ d.shifter_ ≤ d.range_usecs_.toNat)
    (us : List (Sample E)) (a : Sample E) (b : U64) :
    (window d (us ++ [a]) a.mono_usec).filter (fun v => d.bin v.mono_usec = b)
      = (window d us a.mono_usec).filter (fun v => d.bin v.mono_usec = b)
        ++ if d.bin a.mono_usec = b then [a] else [] := by
  have hself := window_singleton hrange a
  unfold window at hself ⊢
  rw [List.filter_append, hself, List.filter_append, List.filter_singleton,
    Bool.cond_decide]

/-- The updates that stay, and the new one. -/
theorem window_concat {us : List (Sample E)} {a : Sample E}
    (hrange : 2 ^ d.shifter_ ≤ d.range_usecs_.toNat)
    (hle : ∀ u ∈ us, u.mono_usec ≤ a.mono_usec)
    (hfits : ∀ u ∈ us, (d.bin u.mono_usec).toNat + d.range_usecs_.toNat < 2 ^ 64) :
    window d (us ++ [a]) a.mono_usec
      = (window d us (lastTime us)).filter
          (fun u => keeps d (d.bin a.mono_usec) (d.bin u.mono_usec)) ++ [a] := by
  have hself := window_singleton hrange a
  unfold window at hself ⊢
  rw [List.filter_append, List.filter_filter, hself]
  congr 1
  refine List.filter_congr fun u hu => ?_
  rw [Bool.eq_iff_iff, decide_eq_true_iff, Bool.and_eq_true, decide_eq_true_iff,
    keeps_iff (hfits u hu)]
  exact ⟨fun h => ⟨h, h.anti (lastTime_le hle)⟩, fun h => h.1⟩

/-- Whether a bucket is kept depends on its key alone. -/
theorem purgeTurn_eq (t b : U64) (e : U64 × E) :
    d.purgeTurn (d.bin t) b e
      = if keeps d (d.bin t) b then ⟨some e, [], false⟩
        else ⟨none, [e], false⟩ := by
  unfold purgeTurn keeps
  by_cases hle : d.bin (b + d.range_usecs_) ≤ d.bin t
  · rw [if_pos hle, decide_eq_true hle]
    rfl
  · rw [if_neg hle, decide_eq_false hle]
    rfl

/-- What the loop of `Purge` goes through. -/
def purged (o : Order U64) (d : DSSum E) (t : U64) :
    Passed U64 (U64 × E) (U64 × E) :=
  d.history_buf_.walk o (d.purgeTurn (d.bin t))

/-- So a bucket is there afterwards if it was and is kept. -/
theorem lookup_purged (t b : U64) :
    (purged o d t).map.lookup b
      = if keeps d (d.bin t) b then d.history_buf_.lookup b else none := by
  have hends : (purged o d t).stuck = false := by
    refine Map.stuck_walk.mpr fun b e _ => ?_
    rw [purgeTurn_eq]
    cases keeps d (d.bin t) b with
    | true => rfl
    | false => rfl
  unfold purged at hends ⊢
  rw [Map.lookup_walk hends]
  simp only [purgeTurn_eq]
  cases keeps d (d.bin t) b with
  | true => exact Option.bind_fun_some _
  | false => exact Option.bind_fun_none _

-- ========================================================== one update

variable [AddCommGroup E]

/-- Taking off one by one is taking off the sum. -/
theorem foldl_sub {A B : Type} [AddCommGroup A] (f : B → A) (xs : List B) :
    ∀ a : A, xs.foldl (fun acc x => acc - f x) a = a - (xs.map f).sum := by
  induction xs with
  | nil =>
      intro a
      exact (sub_zero a).symm
  | cons x xs ih =>
      intro a
      rw [List.foldl_cons, ih, List.map_cons, List.sum_cons, sub_sub]

/-- The bucket of the update counts one more, from nothing if there was
none. -/
theorem record_eq (d : DSSum E) (tbin : U64) (raw : E) :
    d.record tbin raw
      = { d with
          history_buf_ := d.history_buf_.insert tbin
            ((d.history_buf_.lookup tbin).getD 0 + (1, raw)) } := by
  unfold record
  cases d.history_buf_.lookup tbin with
  | none =>
      simp only [Option.getD_none, zero_add]
  | some e => rfl

/-- An update as one expression. -/
theorem update_eq (hne : d.range_usecs_ ≠ 0) (raw : E) (t : U64) :
    d.Update o raw t
      = { d with
          samples_ := d.samples_ - (purged o d t).sent.sum.1 + 1
          value_ := (if d.samples_ = 0 then raw else d.value_ + raw)
            - (purged o d t).sent.sum.2
          history_buf_ := (purged o d t).map.insert (d.bin t)
            (((purged o d t).map.lookup (d.bin t)).getD 0 + (1, raw))
          start_tbin_ := if d.start_tbin_ = 0 then d.bin t else d.start_tbin_
          last_tbin_ := d.bin t } := by
  have hfst : ((purged o d t).sent.map Prod.fst).sum = (purged o d t).sent.sum.1 :=
    (map_list_sum (AddMonoidHom.fst U64 E) _).symm
  have hsnd : ((purged o d t).sent.map Prod.snd).sum = (purged o d t).sent.sum.2 :=
    (map_list_sum (AddMonoidHom.snd U64 E) _).symm
  unfold Update
  simp only []
  rw [if_neg hne, record_eq, ← hfst, ← hsnd]
  unfold Purge
  simp only []
  rw [foldl_sub, foldl_sub]
  rfl

/-- `DSAvg` divides where there are samples only. -/
theorem avg_ne_none (quot : E → U64 → E) (d : DSSum E) (res : E) :
    DSAvg.FillResult quot d res ≠ none := by
  unfold DSAvg.FillResult DSSum.FillResult
  by_cases hzero : d.samples_ = 0
  · rw [if_pos hzero]
    exact nofun
  · rw [if_neg hzero]
    split
    · rw [if_neg hzero]
      exact nofun
    · exact nofun

-- ======================================================== the invariant

/-- A total is a number of updates and their sum. -/
theorem total_fst (us : List (Sample E)) :
    (total worth us).1 = BitVec.ofNat 64 us.length := by
  induction us with
  | nil => rfl
  | cons u us ih =>
      rw [total_cons, Prod.fst_add, ih, List.length_cons, BitVec.ofNat_add,
        BitVec.add_comm]
      rfl

theorem total_snd (us : List (Sample E)) :
    (total worth us).2 = (us.map Sample.raw).sum := by
  induction us with
  | nil => rfl
  | cons u us ih =>
      rw [total_cons, Prod.snd_add, ih, List.map_cons, List.sum_cons]
      rfl

/-- The number is the right one below 2^64. -/
theorem toNat_total_fst {us : List (Sample E)} (h : us.length < 2 ^ 64) :
    (total worth us).1.toNat = us.length := by
  rw [total_fst, BitVec.toNat_ofNat]
  exact Nat.mod_eq_of_lt h

/-- What holds behind every update. -/
structure WindowInv (d : DSSum E) (us : List (Sample E)) : Prop where
  range : d.range_usecs_ ≠ 0
  shift : d.shifter_ ≤ 64
  bucket : 2 ^ d.shifter_ ≤ d.range_usecs_.toNat
  tallies : Tallies (fun u => d.bin u.mono_usec) worth
    (window d us (lastTime us)) d.history_buf_
  samples : d.samples_ = (total worth (window d us (lastTime us))).1
  value : d.samples_ ≠ 0 →
    d.value_ = (total worth (window d us (lastTime us))).2
  few : (window d us (lastTime us)).length < 2 ^ 64

variable {us : List (Sample E)} {a : Sample E}

/-- The constructor's object has seen nothing. -/
theorem windowInv_start {value : E} {range : U64} {s : Nat} (hne : range ≠ 0)
    (hs : choose range 24 0 = some s) : WindowInv (build value range s) [] where
  range := hne
  shift := Nat.le_trans (choose_range hne hs).1 (by omega)
  bucket := (choose_range hne hs).2
  tallies := tallies_nil
  samples := rfl
  value := fun h => absurd rfl h
  few := Nat.two_pow_pos 64

/-- What the counters become. -/
theorem counters_update (hinv : WindowInv d us)
    (hle : ∀ u ∈ us, u.mono_usec ≤ a.mono_usec)
    (hfits : ∀ u ∈ us, (d.bin u.mono_usec).toNat + d.range_usecs_.toNat < 2 ^ 64) :
    ((d.Update o a.raw a.mono_usec).samples_,
        (d.Update o a.raw a.mono_usec).value_)
      = total worth (window d (us ++ [a]) a.mono_usec) := by
  have hdropped : (purged o d a.mono_usec).sent.sum = _ :=
    hinv.tallies.sum_dropped (o := o) fun b e => purgeTurn_eq a.mono_usec b e
  have hall := total_filter_add worth
    (fun u => keeps d (d.bin a.mono_usec) (d.bin u.mono_usec))
    (window d us (lastTime us))
  have hvalue : (if d.samples_ = 0 then a.raw else d.value_ + a.raw)
      = (total worth (window d us (lastTime us))).2 + a.raw := by
    by_cases hzero : d.samples_ = 0
    · have hlength : (window d us (lastTime us)).length = 0 := by
        rw [← toNat_total_fst hinv.few, ← hinv.samples, hzero]
        rfl
      rw [if_pos hzero, List.eq_nil_of_length_eq_zero hlength]
      exact (zero_add a.raw).symm
    · rw [if_neg hzero, hinv.value hzero]
  rw [window_concat hinv.bucket hle hfits, total_append, total_singleton,
    update_eq hinv.range, hdropped]
  simp only []
  rw [hvalue, hinv.samples, ← hall]
  refine Prod.ext ?_ ?_
  · show _ + _ - _ + 1 = _ + 1
    rw [add_sub_cancel_right]
  · show _ + _ + a.raw - _ = _ + a.raw
    rw [add_right_comm, add_sub_cancel_right]

/-- An update leaves the range and the shift. -/
theorem update_frame (hne : d.range_usecs_ ≠ 0) (raw : E) (t : U64) :
    (d.Update o raw t).range_usecs_ = d.range_usecs_
    ∧ (d.Update o raw t).shifter_ = d.shifter_ := by
  rw [update_eq hne]
  exact ⟨rfl, rfl⟩

/-- The window depends on the range and the shift only. -/
theorem window_update (hne : d.range_usecs_ ≠ 0) (raw : E) (t t' : U64)
    (us : List (Sample E)) : window (d.Update o raw t) us t' = window d us t' := by
  rw [update_eq hne]
  rfl

/-- So buckets stay where they are. -/
theorem bin_update (hne : d.range_usecs_ ≠ 0) (raw : E) (t t' : U64) :
    (d.Update o raw t).bin t' = d.bin t' := by
  rw [update_eq hne]
  rfl

/-- The step: an update goes to its bucket, and what has left the window is
taken off. -/
theorem windowInv_step (hinv : WindowInv d us)
    (hle : ∀ u ∈ us, u.mono_usec ≤ a.mono_usec) (hfits : Fits d us a) :
    WindowInv (d.Update o a.raw a.mono_usec) (us ++ [a]) := by
  have hcounters := counters_update (o := o) hinv hle hfits.1
  obtain ⟨hrange, hshift⟩ := update_frame (o := o) hinv.range a.raw a.mono_usec
  have hwindow : window (d.Update o a.raw a.mono_usec) (us ++ [a])
      (lastTime (us ++ [a])) = window d (us ++ [a]) a.mono_usec := by
    rw [lastTime_concat, window_update hinv.range]
  refine ⟨?_, ?_, ?_, ?_, ?_, ?_, ?_⟩
  · rw [hrange]
    exact hinv.range
  · rw [hshift]
    exact hinv.shift
  · rw [hrange, hshift]
    exact hinv.bucket
  · simp only [bin_update hinv.range]
    rw [hwindow, window_concat hinv.bucket hle hfits.1, update_eq hinv.range]
    exact (hinv.tallies.filter fun b => lookup_purged a.mono_usec b).concat a
  · rw [hwindow, ← hcounters]
  · intro _
    rw [hwindow, ← hcounters]
  · rw [hwindow]
    exact hfits.2

/-- What the invariant says after an update. -/
theorem keepsWindow_of_inv (hinv : WindowInv d (us ++ [a])) :
    KeepsWindow d (us ++ [a]) a := by
  have hnewest : a ∈ window d (us ++ [a]) a.mono_usec :=
    List.mem_filter.mpr ⟨List.mem_append_right _ List.mem_cons_self,
      decide_eq_true (inWindow_self hinv.bucket _)⟩
  have hlast : lastTime (us ++ [a]) = a.mono_usec := lastTime_concat us a
  have hsamples := hinv.samples
  have hvalue := hinv.value
  have hfew := hinv.few
  have htallies := hinv.tallies
  simp only [hlast] at hsamples hvalue hfew htallies
  have hcount : d.samples_.toNat = (window d (us ++ [a]) a.mono_usec).length := by
    rw [hsamples, toNat_total_fst hfew]
  have hne : d.samples_ ≠ 0 := by
    intro hzero
    rw [hzero] at hcount
    exact List.ne_nil_of_mem hnewest (List.eq_nil_of_length_eq_zero hcount.symm)
  refine ⟨?_, hcount, hnewest, fun b => ?_,
    fun quot res => avg_ne_none quot d res⟩
  · rw [hvalue hne, total_snd]
  · rw [htallies b]
    show Option.map _ (if (window d (us ++ [a]) a.mono_usec).filter _ = [] then _
      else _) = _
    simp only []
    by_cases hnil : (window d (us ++ [a]) a.mono_usec).filter
        (fun u => d.bin u.mono_usec = b) = []
    · rw [if_pos hnil, if_pos hnil]
      rfl
    · rw [if_neg hnil, if_neg hnil]
      have hheld : (inBucket (fun u => d.bin u.mono_usec)
          (window d (us ++ [a]) a.mono_usec) b).length < 2 ^ 64 :=
        Nat.lt_of_le_of_lt (List.length_filter_le _ _) hfew
      rw [Option.map_some, toNat_total_fst hheld, total_snd]
      rfl

/-- A bucket whose range wraps around is lost at the next update. -/
theorem fits_of_keepsWindow (hinv : WindowInv d us)
    (hle : ∀ u ∈ us, u.mono_usec ≤ a.mono_usec)
    (h : KeepsWindow (d.Update o a.raw a.mono_usec) (us ++ [a]) a) :
    Fits d us a := by
  have hsamples := h.samples
  rw [window_update hinv.range] at hsamples
  refine ⟨fun u hu => ?_, ?_⟩
  · by_contra hnot
    obtain ⟨hlost, hin⟩ := wraps hinv.shift (hle u hu) (Nat.not_lt.mp hnot)
    have hbucket := h.buckets (d.bin u.mono_usec)
    simp only [bin_update hinv.range, window_update hinv.range] at hbucket
    have hmem : u ∈ (window d us a.mono_usec).filter
        (fun v => d.bin v.mono_usec = d.bin u.mono_usec) :=
      List.mem_filter.mpr ⟨List.mem_filter.mpr ⟨hu, decide_eq_true hin⟩,
        decide_eq_true rfl⟩
    have hheld : (window d (us ++ [a]) a.mono_usec).filter
        (fun v => d.bin v.mono_usec = d.bin u.mono_usec) = _ :=
      filter_window_concat hinv.bucket us a (d.bin u.mono_usec)
    have hne := List.ne_nil_of_mem hmem
    rw [hheld, if_neg (by simp [hne]), update_eq hinv.range] at hbucket
    by_cases hsame : d.bin a.mono_usec = d.bin u.mono_usec
    · -- the bucket starts again, with the new update alone
      rw [if_pos hsame, hsame, Finmap.lookup_insert, lookup_purged, hlost]
        at hbucket
      injection hbucket with hbucket
      injection hbucket with hcount _
      rw [if_neg Bool.false_ne_true, List.length_append, List.length_singleton]
        at hcount
      have hpos := List.length_pos_iff.mpr hne
      have hone : ((none : Option (U64 × E)).getD 0 + (1, a.raw)).1.toNat = 1 :=
        rfl
      omega
    · rw [Finmap.lookup_insert_of_ne _ (Ne.symm hsame), lookup_purged, hlost]
        at hbucket
      cases hbucket
  · rw [← hsamples]
    exact BitVec.isLt _

-- ============================================================= the runs

/-- What a step of the run is. -/
theorem sampled_step {s s' : DSSum E × List (Sample E)}
    (h : (sampled o).step s a = some s') :
    (∀ u ∈ s.2, u.mono_usec ≤ a.mono_usec)
    ∧ s' = (s.1.Update o a.raw a.mono_usec, s.2 ++ [a]) := by
  simp only [sampled] at h
  by_cases hle : ∀ u ∈ s.2, u.mono_usec ≤ a.mono_usec
  · rw [if_pos hle] at h
    injection h with h
    exact ⟨hle, h.symm⟩
  · rw [if_neg hle] at h
    cases h

/-- For every range, and every sequence of updates with times that do not
go back: the counters and the buckets are those of the window after every
update exactly as far as the updates fit. -/
theorem dssum_window_iff (o : Order U64) (value : E) {range : U64} {d : DSSum E}
    (hne : range ≠ 0) (hd : DSSum.ofRange value range = some d)
    (as : List (Sample E)) :
    (sampled o).Each (fun _ a s' => KeepsWindow s'.1 s'.2 a) (d, []) as
      ↔ (sampled o).Each (fun s a _ => Fits s.1 s.2 a) (d, []) as := by
  obtain ⟨s, hs, rfl⟩ := Option.map_eq_some_iff.mp hd
  refine Machine.each_iff (M := sampled o) (I := fun s => WindowInv s.1 s.2)
    ?_ ?_ as (windowInv_start hne hs)
  · intro s a s' hinv hstep
    obtain ⟨hle, rfl⟩ := sampled_step hstep
    exact ⟨fits_of_keepsWindow hinv hle,
      fun hfits => keepsWindow_of_inv (windowInv_step hinv hle hfits)⟩
  · intro s a s' hinv hstep hkeeps
    obtain ⟨hle, rfl⟩ := sampled_step hstep
    exact windowInv_step hinv hle (fits_of_keepsWindow hinv hle hkeeps)

/-- Two updates in a window of one second. -/
theorem dssum_window_one_second :
    (1000000 : U64) ≠ 0
    ∧ DSSum.ofRange (7 : BitVec 32) 1000000 = some (build 7 1000000 12)
    ∧ (sampled Order.any).Each (fun _ a s' => KeepsWindow s'.1 s'.2 a)
        (build (7 : BitVec 32) 1000000 12, []) [⟨5, 100⟩, ⟨6, 5000⟩] := by
  have hne : (1000000 : U64) ≠ 0 := by decide
  have hd : DSSum.ofRange (7 : BitVec 32) 1000000
      = some (build 7 1000000 12) := rfl
  refine ⟨hne, hd, (dssum_window_iff Order.any 7 hne hd _).mpr ?_⟩
  intro s₁ h₁
  obtain ⟨-, rfl⟩ := sampled_step h₁
  refine ⟨⟨nofun, by decide⟩, fun s₂ h₂ => ⟨⟨fun u hu => ?_, ?_⟩, trivial⟩⟩
  · rw [List.mem_singleton.mp hu, bin_update hne, (update_frame hne _ _).1]
    decide
  · rw [window_update hne]
    decide

/-- The annotation 18446744071562, and two updates half an hour after the
clock started: the bucket of the first and the range add up to more than
`uint64_t` holds, and the second update finds itself alone. -/
theorem dssum_window_wraps :
    let range : U64 := 18446744071562000000
    let a : Sample (BitVec 32) := ⟨1, 2155872256⟩
    DSSum.new (0 : BitVec 32) (some 18446744071562) = some (build 0 range 23)
    ∧ ¬ (sampled Order.any).Each (fun _ a s' => KeepsWindow s'.1 s'.2 a)
        (build 0 range 23, []) ([a] ++ [a]) := by
  have hne : (18446744071562000000 : U64) ≠ 0 := by decide
  refine ⟨rfl, fun h => ?_⟩
  have hkeeps := Machine.each_last _ h rfl rfl
  have hstart : WindowInv (build (0 : BitVec 32) 18446744071562000000 23) [] :=
    windowInv_start hne rfl
  have hinv := windowInv_step (o := Order.any) (a := ⟨1, 2155872256⟩) hstart nofun
    ⟨nofun, by decide⟩
  have hfits := (fits_of_keepsWindow hinv (by decide) hkeeps).1 _
    List.mem_cons_self
  rw [bin_update hne, (update_frame hne _ _).1] at hfits
  exact absurd hfits (by decide)

end Sandesh.Stats
