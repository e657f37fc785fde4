/-
How many buckets `DSSum` keeps.

After an update at `t` every bucket that is left begins less than a range
before the bucket of `t`, and buckets begin at multiples of their length.
So there are at most as many as fit in the range, and the constructor
picks a length of which at most 256 do (`choose_fits`).

It picks it by shifting an `int`. The shift by 31 gives the sign bit, the
cast makes it larger than any range, and the loop ends there whatever the
range is. The bound is lost for the ranges above 2^31 microseconds, which
is less than 36 minutes.
-/
import Mathlib.Order.Interval.Finset.Nat
import Sandesh.Stats.Proofs.Window

namespace Sandesh.Stats

open Lib DSSum

variable {E : Type} {o : Order U64} {d : DSSum E} {us : List (Sample E)}
  {a : Sample E}

/-- `history_buf_.size()`. -/
def buckets (d : DSSum E) : Nat := d.history_buf_.keys.card

/-- The number of the bucket at a time. -/
def index (d : DSSum E) (usecs : U64) : Nat := usecs.toNat / 2 ^ d.shifter_

/-- How many whole buckets there are in the range. -/
def capacity (d : DSSum E) : Nat := d.range_usecs_.toNat / 2 ^ d.shifter_

/-- What the constructor promises for a range of `seconds`. -/
def KeepsFew [AddCommGroup E] (o : Order U64) (value : E) (seconds : Nat) : Prop :=
  ∃ d, DSSum.new value (some (BitVec.ofNat 64 seconds)) = some d
    ∧ d.range_usecs_.toNat ≤ 256 * 2 ^ d.shifter_
    ∧ (256 < d.range_usecs_.toNat → 128 * 2 ^ d.shifter_ < d.range_usecs_.toNat)
    ∧ ∀ as, (sampled o).Each (fun _ _ s' => buckets s'.1 ≤ 256) (d, []) as

-- ===================================================== the constructor

/-- While the shift does not reach the sign. -/
theorem toNat_bound {s : Nat} (h : s < 23) : (bound s).toNat = 256 * 2 ^ s := by
  have hbound : ∀ k < 23, (bound k).toNat = 256 * 2 ^ k := by decide
  exact hbound s h

theorem choose_stops {range : U64} {s : Nat} :
    ∀ {shifts shifter : Nat}, choose range shifts shifter = some s →
      range ≤ bound s := by
  intro shifts
  induction shifts with
  | zero =>
      intro shifter h
      cases h
  | succ shifts ih =>
      intro shifter h
      unfold choose at h
      by_cases hlt : bound shifter < range
      · rw [if_pos hlt] at h
        exact ih h
      · rw [if_neg hlt] at h
        injection h with h
        exact h ▸ BitVec.not_lt.mp hlt

theorem choose_some {range : U64} :
    ∀ {shifts shifter : Nat}, range ≤ bound (shifter + shifts) →
      ∃ s, choose range (shifts + 1) shifter = some s := by
  intro shifts
  induction shifts with
  | zero =>
      intro shifter h
      exact ⟨shifter, if_neg (BitVec.not_lt.mpr h)⟩
  | succ shifts ih =>
      intro shifter h
      unfold choose
      by_cases hlt : bound shifter < range
      · rw [if_pos hlt]
        apply ih
        rw [Nat.add_right_comm]
        exact h
      · exact ⟨shifter, if_neg hlt⟩

/-- A range of up to 2^31 microseconds has buckets of the right length. -/
theorem choose_fits {range : U64} (h : range.toNat ≤ 2 ^ 31) :
    ∃ s, choose range 24 0 = some s ∧ range.toNat ≤ 256 * 2 ^ s
      ∧ (256 < range.toNat → 128 * 2 ^ s < range.toNat) := by
  have hlast : range ≤ bound (0 + 23) := by
    have hsign : (bound (0 + 23)).toNat = 2 ^ 64 - 2 ^ 31 := by decide
    rw [BitVec.le_def, hsign]
    omega
  obtain ⟨s, hs⟩ := choose_some hlast
  refine ⟨s, hs, ?_, fun hlong => ?_⟩
  · have hstop := BitVec.le_def.mp (choose_stops hs)
    have hsmall := (choose_spec hs).2.1
    by_cases heq : s = 23
    · rw [heq]
      exact h
    · rw [toNat_bound (by omega)] at hstop
      exact hstop
  · obtain ⟨-, hsmall, hwhy⟩ := choose_spec hs
    rcases hwhy with hzero | hless
    · rw [hzero]
      omega
    · by_cases hzero : s = 0
      · rw [hzero]
        omega
      · have hless := BitVec.lt_def.mp hless
        rw [toNat_bound (by omega)] at hless
        have hpow : 256 * 2 ^ (s - 1) = 128 * 2 ^ s := by
          obtain ⟨n, rfl⟩ := Nat.exists_eq_succ_of_ne_zero hzero
          rw [Nat.succ_sub_one, Nat.pow_succ]
          omega
        omega

-- ========================================================= the buckets

/-- Buckets are those of updates. -/
structure Bucketed (d : DSSum E) (us : List (Sample E)) : Prop where
  range : d.range_usecs_ ≠ 0
  shift : d.shifter_ ≤ 64
  bucket : 2 ^ d.shifter_ ≤ d.range_usecs_.toNat
  keys : ∀ b ∈ d.history_buf_.keys, ∃ u ∈ us, b = d.bin u.mono_usec

variable [AddCommGroup E]

theorem mem_keys_update (hne : d.range_usecs_ ≠ 0) {raw : E} {t b : U64} :
    b ∈ (d.Update o raw t).history_buf_.keys
      ↔ b = d.bin t ∨ (b ∈ d.history_buf_.keys ∧ keeps d (d.bin t) b = true) := by
  rw [update_eq hne, Finmap.mem_keys, Finmap.mem_insert, Finmap.mem_keys,
    ← Finmap.lookup_isSome, lookup_purged, ← Finmap.lookup_isSome]
  cases keeps d (d.bin t) b with
  | true => simp
  | false => simp

theorem bucketed_step (hinv : Bucketed d us) :
    Bucketed (d.Update o a.raw a.mono_usec) (us ++ [a]) := by
  obtain ⟨hrange, hshift⟩ := update_frame (o := o) hinv.range a.raw a.mono_usec
  refine ⟨?_, ?_, ?_, fun b hb => ?_⟩
  · rw [hrange]
    exact hinv.range
  · rw [hshift]
    exact hinv.shift
  · rw [hrange, hshift]
    exact hinv.bucket
  · simp only [bin_update hinv.range]
    rcases (mem_keys_update hinv.range).mp hb with heq | hkept
    · exact ⟨a, List.mem_append_right _ List.mem_cons_self, heq⟩
    · obtain ⟨u, hu, heq⟩ := hinv.keys b hkept.1
      exact ⟨u, List.mem_append_left _ hu, heq⟩

omit [AddCommGroup E] in
theorem index_bin (u : U64) : index d (d.bin u) = index d u := by
  unfold index
  rw [toNat_bin, floorTo_eq, Nat.mul_div_cancel _ (Nat.two_pow_pos _)]

omit [AddCommGroup E] in
theorem index_inj {u u' : U64} (h : index d u = index d u') : d.bin u = d.bin u' := by
  apply BitVec.eq_of_toNat_eq
  unfold index at h
  rw [toNat_bin, toNat_bin, floorTo_eq, floorTo_eq, h]

omit [AddCommGroup E] in
theorem keeps_iff_index {t u : U64}
    (hfits : (d.bin u).toNat + d.range_usecs_.toNat < 2 ^ 64) :
    keeps d (d.bin t) (d.bin u) = true ↔ index d t < capacity d + index d u := by
  have hpos : 0 < 2 ^ d.shifter_ := Nat.two_pow_pos _
  rw [keeps_iff hfits]
  unfold InWindow index capacity
  rw [toNat_bin, toNat_bin, floorTo_eq, floorTo_eq, floorTo_eq,
    Nat.add_comm _ d.range_usecs_.toNat, Nat.add_mul_div_right _ _ hpos]
  exact Nat.mul_lt_mul_right hpos

omit [AddCommGroup E] in
/-- A bucket that is kept is one of the last that fit in the range. -/
theorem index_kept {t u : U64} (hs : d.shifter_ ≤ 64) (hle : u ≤ t)
    (hkeeps : keeps d (d.bin t) (d.bin u) = true) :
    index d t < capacity d + index d u ∧ index d u ≤ index d t := by
  have hfits : (d.bin u).toNat + d.range_usecs_.toNat < 2 ^ 64 := by
    by_contra hnot
    rw [(wraps hs hle (Nat.not_lt.mp hnot)).1] at hkeeps
    cases hkeeps
  exact ⟨(keeps_iff_index hfits).mp hkeeps, Nat.div_le_div_right hle⟩

theorem buckets_le (hinv : Bucketed d us)
    (hle : ∀ u ∈ us, u.mono_usec ≤ a.mono_usec) :
    buckets (d.Update o a.raw a.mono_usec) ≤ capacity d := by
  have hone : 1 ≤ capacity d :=
    (Nat.one_le_div_iff (Nat.two_pow_pos _)).mpr hinv.bucket
  -- every bucket is that of an update no later than `a`, which it still sees
  have hfrom : ∀ b ∈ (d.Update o a.raw a.mono_usec).history_buf_.keys,
      ∃ u, b = d.bin u ∧ index d a.mono_usec < capacity d + index d u
        ∧ index d u ≤ index d a.mono_usec := by
    intro b hb
    rcases (mem_keys_update hinv.range).mp hb with heq | hkept
    · exact ⟨a.mono_usec, heq, by omega, Nat.le_refl _⟩
    · obtain ⟨u, hu, heq⟩ := hinv.keys b hkept.1
      exact ⟨u.mono_usec, heq, index_kept hinv.shift (hle u hu) (heq ▸ hkept.2)⟩
  have hcard : buckets (d.Update o a.raw a.mono_usec)
      ≤ (Finset.Ico (index d a.mono_usec + 1 - capacity d)
          (index d a.mono_usec + 1)).card := by
    apply Finset.card_le_card_of_injOn (index d)
    · intro b hb
      obtain ⟨u, rfl, hlow, hhigh⟩ := hfrom b hb
      rw [index_bin]
      exact Finset.mem_Ico.mpr ⟨by omega, by omega⟩
    · intro b hb b' hb' heq
      obtain ⟨u, rfl, -⟩ := hfrom b hb
      obtain ⟨u', rfl, -⟩ := hfrom b' hb'
      rw [index_bin, index_bin] at heq
      exact index_inj heq
  rw [Nat.card_Ico] at hcard
  omega

/-- A run keeps at most 256 if at most 256 fit in the range. -/
theorem buckets_run {value : E} {range : U64} {s : Nat} (hne : range ≠ 0)
    (hs : choose range 24 0 = some s) (hfew : range.toNat ≤ 256 * 2 ^ s)
    (as : List (Sample E)) :
    (sampled o).Each (fun _ _ s' => buckets s'.1 ≤ 256) (build value range s, []) as := by
  refine Machine.each_keeps
    (I := fun s => Bucketed s.1 s.2
      ∧ s.1.range_usecs_.toNat ≤ 256 * 2 ^ s.1.shifter_) ?_ as ⟨?_, hfew⟩
  · intro s a s' hinv hstep
    obtain ⟨hle, rfl⟩ := sampled_step hstep
    obtain ⟨hbucketed, hfew⟩ := hinv
    obtain ⟨hrange, hshift⟩ := update_frame (o := o) hbucketed.range a.raw a.mono_usec
    refine ⟨⟨bucketed_step hbucketed, ?_⟩, ?_⟩
    · rw [hrange, hshift]
      exact hfew
    · refine Nat.le_trans (buckets_le hbucketed hle) ?_
      refine Nat.div_le_of_le_mul ?_
      rw [Nat.mul_comm]
      exact hfew
  · exact ⟨hne, Nat.le_trans (choose_range hne hs).1 (by omega),
      (choose_range hne hs).2, fun b hb => absurd hb (Finset.notMem_empty b)⟩

/-- For every range of whole seconds: at most 256 buckets, each no shorter
than it has to be, exactly up to 2147 seconds. -/
theorem keeps_few_iff (o : Order U64) (value : E) {seconds : Nat}
    (hpos : 1 ≤ seconds) (hsmall : seconds * 1000000 < 2 ^ 63) :
    KeepsFew o value seconds ↔ seconds ≤ 2147 := by
  have hrange : (BitVec.ofNat 64 seconds * 1000000 : U64).toNat
      = seconds * 1000000 := by
    have hmillion : (1000000 : U64).toNat = 1000000 := by decide
    have hseconds : seconds % 2 ^ 64 = seconds := Nat.mod_eq_of_lt (by omega)
    rw [BitVec.toNat_mul, BitVec.toNat_ofNat, hmillion, hseconds]
    exact Nat.mod_eq_of_lt (by omega)
  constructor
  · intro hfew
    obtain ⟨d, hd, hfits, -⟩ := hfew
    obtain ⟨s, hs, rfl⟩ := Option.map_eq_some_iff.mp hd
    have hshift : s ≤ 23 := by
      have hlt := (choose_spec hs).2.1
      omega
    have hpow : 2 ^ s ≤ 2 ^ 23 := Nat.pow_le_pow_right (by omega) hshift
    have hfits : (BitVec.ofNat 64 seconds * 1000000 : U64).toNat ≤ 256 * 2 ^ s :=
      hfits
    rw [hrange] at hfits
    omega
  · intro hle
    have hshortest : (BitVec.ofNat 64 seconds * 1000000 : U64).toNat ≤ 2 ^ 31 := by
      omega
    obtain ⟨s, hs, hfits, hshort⟩ := choose_fits hshortest
    have hne : (BitVec.ofNat 64 seconds * 1000000 : U64) ≠ 0 := by
      intro hzero
      rw [hzero] at hrange
      have hzero : (0 : U64).toNat = 0 := rfl
      omega
    refine ⟨build value _ s, ?_, hfits, hshort, buckets_run hne hs hfits⟩
    exact Option.map_eq_some_iff.mpr ⟨s, hs, rfl⟩

/-- Ten minutes. -/
theorem keeps_few_ten_minutes :
    (1 ≤ 600 ∧ 600 * 1000000 < 2 ^ 63) ∧ KeepsFew Order.any (0 : BitVec 32) 600 :=
  ⟨by decide, (keeps_few_iff Order.any 0 (by decide) (by decide)).mpr (by decide)⟩

-- ============================================================== an hour

/-- The beginning of bucket `i`, in buckets of 2^23 microseconds. -/
def start (i : Nat) : U64 := BitVec.ofNat 64 (i * 2 ^ 23)

/-- Updates at the beginning of each of the first `n` buckets. -/
def spaced (n : Nat) : List (Sample (BitVec 32)) :=
  (List.range n).map fun i => ⟨1, start i⟩

theorem toNat_start {i : Nat} (h : i ≤ 257) : (start i).toNat = i * 2 ^ 23 := by
  unfold start
  rw [BitVec.toNat_ofNat]
  exact Nat.mod_eq_of_lt (by omega)

omit [AddCommGroup E] in
theorem index_start {i : Nat} (hs : d.shifter_ = 23) (h : i ≤ 257) :
    index d (start i) = i := by
  unfold index
  rw [hs, toNat_start h]
  exact Nat.mul_div_cancel i (by decide)

/-- No bucket of the hour is purged while the updates go through them. -/
theorem spaced_run {n : Nat} (h : n ≤ 257) :
    ∃ d : DSSum (BitVec 32),
      (sampled Order.any).run (build 0 3600000000 23, []) (spaced n)
        = some (d, spaced n)
      ∧ d.range_usecs_ = 3600000000 ∧ d.shifter_ = 23
      ∧ ∀ i < n, d.bin (start i) ∈ d.history_buf_.keys := by
  induction n with
  | zero => exact ⟨_, rfl, rfl, rfl, nofun⟩
  | succ n ih =>
      obtain ⟨d, hrun, hrange, hshift, hkeys⟩ := ih (by omega)
      have hne : d.range_usecs_ ≠ 0 := by
        rw [hrange]
        decide
      obtain ⟨hrange', hshift'⟩ :=
        update_frame (o := Order.any) hne 1 (start n)
      have hlist : spaced (n + 1) = spaced n ++ [⟨1, start n⟩] := by
        unfold spaced
        rw [List.range_succ, List.map_append]
        rfl
      have hle : ∀ u ∈ spaced n, u.mono_usec ≤ start n := by
        intro u hu
        obtain ⟨i, hi, rfl⟩ := List.mem_map.mp hu
        have hlt := List.mem_range.mp hi
        show start i ≤ start n
        rw [BitVec.le_def, toNat_start (by omega), toNat_start (by omega)]
        omega
      refine ⟨d.Update Order.any 1 (start n), ?_, hrange'.trans hrange,
        hshift'.trans hshift, fun i hi => ?_⟩
      · rw [hlist]
        exact (Machine.run_concat _ _).mpr ⟨_, hrun, if_pos hle⟩
      · rw [bin_update hne]
        apply (mem_keys_update hne).mpr
        by_cases heq : i = n
        · exact .inl (by rw [heq])
        · refine .inr ⟨hkeys i (by omega), (keeps_iff_index ?_).mpr ?_⟩
          · have hbin : (d.bin (start i)).toNat ≤ (start i).toNat := by
              rw [toNat_bin]
              exact floorTo_le _ _
            rw [toNat_start (by omega)] at hbin
            rw [hrange]
            show (d.bin (start i)).toNat + 3600000000 < 2 ^ 64
            omega
          · have hcapacity : capacity d = 429 := by
              unfold capacity
              rw [hrange, hshift]
              decide
            rw [index_start hshift (by omega), index_start hshift (by omega),
              hcapacity]
            omega

/-- An hour has buckets of 2^23 microseconds, of which it would take 429,
and keeps 257 of them. -/
theorem keeps_few_hour :
    ¬ KeepsFew Order.any (0 : BitVec 32) 3600
    ∧ ∃ d, DSSum.new (0 : BitVec 32) (some 3600) = some d
      ∧ ¬ d.range_usecs_.toNat ≤ 256 * 2 ^ d.shifter_
      ∧ ∃ as s, (sampled Order.any).run (d, []) as = some s ∧ 256 < buckets s.1 := by
  refine ⟨fun hfew => ?_, ?_⟩
  · obtain ⟨d, hd, hfits, -⟩ := hfew
    have hhour : DSSum.new (0 : BitVec 32) (some 3600)
        = some (build 0 3600000000 23) := rfl
    obtain rfl := Option.some.inj (hd.symm.trans hhour)
    exact absurd hfits (by decide)
  obtain ⟨d, hrun, hrange, hshift, hkeys⟩ := spaced_run (n := 257) (by omega)
  refine ⟨build 0 3600000000 23, rfl, by decide, spaced 257, _, hrun, ?_⟩
  have hcard : (Finset.range 257).card ≤ d.history_buf_.keys.card := by
    apply Finset.card_le_card_of_injOn fun i => d.bin (start i)
    · intro i hi
      exact hkeys i (Finset.mem_range.mp hi)
    · intro i hi j hj heq
      have hi := Finset.mem_range.mp hi
      have hj := Finset.mem_range.mp hj
      have hindex := congrArg (index d) heq
      simp only [index_bin] at hindex
      rw [index_start hshift (by omega), index_start hshift (by omega)] at hindex
      exact hindex
  rw [Finset.card_range] at hcard
  exact hcard

end Sandesh.Stats
