/-
When doubling a buffer makes it large enough.

`sizeAfter k size` is the size after `k` doublings, modulo 2^32. The loop
compares the length with `free`, the 32-bit difference between the size
and the write offset. While the size is not below the offset this is the
free space; if it falls below, the difference is nearly 2^32, and the loop
ends with a buffer that is too small.

So the loop is right exactly if the sizes reach `woffset + len` before one
of them is below `woffset` (`Reaches`): otherwise it goes on for ever, or
ends too early (`stops_right_iff`). Up to 2^31 bytes are always reached
(`reaches_of_le`).
-/
import Mathlib.Logic.Function.Iterate
import Sandesh.Transport.Memory

namespace Sandesh.Transport

open Lib

variable {size woffset len n m k : Nat}

-- ============================================================== the sizes

/-- The size after `k` doublings. -/
def sizeAfter (k size : Nat) : Nat := doubled^[k] size

/-- The sizes reach the space that is needed before one is below the
offset. -/
def Reaches (size woffset len : Nat) : Prop :=
  ∃ k, woffset + len ≤ sizeAfter k size ∧ ∀ j < k, woffset ≤ sizeAfter j size

/-- The free space, as the loop computes it. -/
def free (woffset n : Nat) : Nat := u32 ((n : Int) - woffset)

theorem doubled_lt (n : Nat) : doubled n < 2 ^ 32 := by
  unfold doubled
  split
  · exact u32_lt _
  · decide

theorem sizeAfter_succ (k size : Nat) : sizeAfter (k + 1) size = sizeAfter k (doubled size) :=
  Function.iterate_succ_apply doubled k size

theorem sizeAfter_lt (h : size < 2 ^ 32) (k : Nat) : sizeAfter k size < 2 ^ 32 := by
  induction k generalizing size with
  | zero => exact h
  | succ k ih =>
      rw [sizeAfter_succ]
      exact ih (doubled_lt size)

theorem free_of_le (h : woffset ≤ n) (hn : n < 2 ^ 32) : free woffset n = n - woffset := by
  have hnat : ((n : Int) - woffset) = ((n - woffset : Nat) : Int) := by omega
  unfold free
  rw [hnat, u32_nat (by omega)]

theorem free_of_lt (h : n < woffset) (hw : woffset < 2 ^ 32) :
    free woffset n = n + 2 ^ 32 - woffset := by
  unfold free u32
  omega

/-- The sum of the two 32-bit differences. -/
theorem free_sum (hw : woffset ≤ size) (hs : size < 2 ^ 32) (n : Nat) :
    u32 (free woffset size + u32 ((n : Int) - size)) = free woffset n := by
  rw [free_of_le hw hs]
  unfold free u32
  omega

-- =============================================================== the loop

/-- The loop ends with the size `m`: the first one that seems to leave
enough space. -/
def Stops (woffset len size m : Nat) : Prop :=
  ∃ k, m = sizeAfter k size ∧ len ≤ free woffset m
    ∧ ∀ j < k, free woffset (sizeAfter j size) < len

theorem stops_here (h : len ≤ free woffset n) : Stops woffset len n m ↔ m = n := by
  constructor
  · intro hstops
    obtain ⟨k, hm, -, hbefore⟩ := hstops
    cases k with
    | zero => exact hm
    | succ k =>
        have hlt : free woffset n < len := hbefore 0 (Nat.zero_lt_succ k)
        omega
  · intro hm
    subst hm
    exact ⟨0, rfl, h, fun j hj => absurd hj (Nat.not_lt_zero j)⟩

theorem stops_again (h : free woffset n < len) :
    Stops woffset len n m ↔ Stops woffset len (doubled n) m := by
  constructor
  · intro hstops
    obtain ⟨k, hm, hle, hbefore⟩ := hstops
    cases k with
    | zero =>
        have hmn : m = n := hm
        rw [hmn] at hle
        omega
    | succ k =>
        refine ⟨k, ?_, hle, fun j hj => ?_⟩
        · rw [hm, sizeAfter_succ]
        · rw [← sizeAfter_succ]
          exact hbefore (j + 1) (by omega)
  · intro hstops
    obtain ⟨k, hm, hle, hbefore⟩ := hstops
    refine ⟨k + 1, ?_, hle, fun j hj => ?_⟩
    · rw [hm, sizeAfter_succ]
    · cases j with
      | zero => exact h
      | succ j =>
          rw [sizeAfter_succ]
          exact hbefore j (by omega)

section Loop

variable {σ : Type} {s s' : σ}

/-- One turn, on a size and its free space. -/
def growTurn (woffset len n : Nat) : Prog σ Fault ((Nat × Nat) ⊕ Nat) :=
  if len > free woffset n then pure (.inl (doubled n, free woffset (doubled n)))
  else pure (.inr n)

/-- The body of the loop is such a turn. -/
def growBody (size woffset len : Nat) (t : Nat × Nat) :
    Prog σ Fault ((Nat × Nat) ⊕ Nat) :=
  if len > t.2 then
    let new_size := doubled t.1
    pure (.inl (new_size, u32 (free woffset size + u32 ((new_size : Int) - size))))
  else pure (.inr t.1)

theorem growBody_eq (hw : woffset ≤ size) (hs : size < 2 ^ 32) (n : Nat) :
    (growBody size woffset len (n, free woffset n) : Prog σ Fault _)
      = growTurn woffset len n := by
  unfold growBody growTurn
  simp only [free_sum hw hs]

theorem runs_growTurn {x : (Nat × Nat) ⊕ Nat} :
    (growTurn woffset len n : Prog σ Fault _).Runs s (.ok x) s'
      ↔ s' = s ∧ x = if len > free woffset n
          then .inl (doubled n, free woffset (doubled n)) else .inr n := by
  unfold growTurn
  split
  · rw [Prog.runs_pure, Except.ok.injEq, and_comm]
  · rw [Prog.runs_pure, Except.ok.injEq, and_comm]

/-- The loop ends where `Stops` says, and changes nothing. -/
theorem runs_growLoop (hw : woffset ≤ size) (hs : size < 2 ^ 32) :
    (growLoop size (free woffset size) len (n, free woffset n) : Prog σ Fault Nat).Runs
        s (.ok m) s'
      ↔ s' = s ∧ Stops woffset len n m := by
  show (Prog.loop (growBody size woffset len) _).Runs s (.ok m) s' ↔ _
  constructor
  · intro h
    refine Prog.loop_rec (P := fun t s res s' => t.2 = free woffset t.1 →
      ∀ m, res = .ok m → s' = s ∧ Stops woffset len t.1 m) ?_ ?_ ?_ h rfl m rfl
    · intro t s a s' hbody ht m hm
      obtain ⟨n, avail⟩ := t
      obtain rfl : avail = free woffset n := ht
      injection hm with hm
      subst hm
      rw [growBody_eq hw hs] at hbody
      obtain ⟨hstate, hx⟩ := runs_growTurn.mp hbody
      split at hx
      · cases hx
      · next hle =>
          injection hx with hx
          exact ⟨hstate, (stops_here (Nat.not_lt.mp hle)).mpr hx⟩
    · intro t s e s' _ _ m hm
      cases hm
    · intro t s t₁ s₁ res s' hbody ih ht m hm
      obtain ⟨n, avail⟩ := t
      obtain rfl : avail = free woffset n := ht
      rw [growBody_eq hw hs] at hbody
      obtain ⟨rfl, hx⟩ := runs_growTurn.mp hbody
      split at hx
      · next hlt =>
          injection hx with hx
          subst hx
          obtain ⟨hstate, hstops⟩ := ih rfl m hm
          exact ⟨hstate, (stops_again hlt).mpr hstops⟩
      · cases hx
  · intro h
    obtain ⟨rfl, k, hm, hle, hbefore⟩ := h
    induction k generalizing n with
    | zero =>
        have hmn : m = n := hm
        subst hmn
        apply Prog.Runs.leave
        rw [growBody_eq hw hs]
        refine runs_growTurn.mpr ⟨rfl, ?_⟩
        rw [if_neg (by omega)]
    | succ k ih =>
        have hlt : free woffset n < len := hbefore 0 (Nat.zero_lt_succ k)
        have hturn : (growBody size woffset len (n, free woffset n)).Runs s'
            (.ok (.inl (doubled n, free woffset (doubled n)))) s' := by
          rw [growBody_eq hw hs]
          refine runs_growTurn.mpr ⟨rfl, ?_⟩
          rw [if_pos hlt]
        refine Prog.Runs.again hturn (ih ?_ ?_)
        · rw [hm, sizeAfter_succ]
        · intro j hj
          rw [← sizeAfter_succ]
          exact hbefore (j + 1) (by omega)

end Loop

-- ============================================================== the result

theorem stops_unique (h : Stops woffset len size n) (h' : Stops woffset len size m) :
    n = m := by
  obtain ⟨k, hn, hle, hbefore⟩ := h
  obtain ⟨k', hm, hle', hbefore'⟩ := h'
  rcases Nat.lt_trichotomy k k' with hlt | heq | hgt
  · have hmore := hbefore' k hlt
    rw [← hn] at hmore
    omega
  · rw [hn, hm, heq]
  · have hmore := hbefore k' hgt
    rw [← hm] at hmore
    omega

/-- Sizes that reach far enough are stopped at the first that does. -/
theorem stops_of_reaches (hs : size < 2 ^ 32) (h : Reaches size woffset len) :
    ∃ n, Stops woffset len size n ∧ woffset + len ≤ n := by
  obtain ⟨k, hk, hbefore⟩ := h
  have hex : ∃ k, woffset + len ≤ sizeAfter k size := ⟨k, hk⟩
  have hfirst := Nat.find_spec hex
  have hle : Nat.find hex ≤ k := Nat.find_min' hex hk
  refine ⟨_, ⟨Nat.find hex, rfl, ?_, fun j hj => ?_⟩, hfirst⟩
  · rw [free_of_le (by omega) (sizeAfter_lt hs _)]
    omega
  · have hsmall := Nat.find_min hex hj
    have hlarge := hbefore j (by omega)
    rw [free_of_le hlarge (sizeAfter_lt hs j)]
    omega

/-- The loop ends and leaves enough space exactly if the sizes reach far
enough. -/
theorem stops_right_iff (hw : woffset ≤ size) (hs : size < 2 ^ 32) :
    ((∃ n, Stops woffset len size n) ∧ ∀ n, Stops woffset len size n → woffset + len ≤ n)
      ↔ Reaches size woffset len := by
  constructor
  · intro h
    obtain ⟨⟨n, hstops⟩, hright⟩ := h
    have hn := hright n hstops
    obtain ⟨k, rfl, -, hbefore⟩ := hstops
    refine ⟨k, hn, fun j hj => ?_⟩
    -- a size below the offset would have stopped the loop
    by_contra hbelow
    have hfree := hbefore j hj
    rw [free_of_lt (by omega) (by omega)] at hfree
    have hlt := sizeAfter_lt hs k
    omega
  · intro h
    obtain ⟨n, hstops, hn⟩ := stops_of_reaches hs h
    refine ⟨⟨n, hstops⟩, fun m hm => ?_⟩
    rw [← stops_unique hstops hm]
    exact hn

-- ========================================================== up to 2^31

theorem reaches_again (hw : woffset ≤ size) (h : Reaches (doubled size) woffset len) :
    Reaches size woffset len := by
  obtain ⟨k, hk, hbefore⟩ := h
  refine ⟨k + 1, ?_, fun j hj => ?_⟩
  · rw [sizeAfter_succ]
    exact hk
  · cases j with
    | zero => exact hw
    | succ j =>
        rw [sizeAfter_succ]
        exact hbefore j (by omega)

/-- Below 2^31 a size grows when it is doubled. -/
theorem lt_doubled (h : size < 2 ^ 31) : size < doubled size := by
  unfold doubled
  split
  · have hnat : ((size : Int) * 2) = ((size * 2 : Nat) : Int) := by omega
    rw [hnat, u32_nat (by omega)]
    omega
  · omega

theorem reaches_of_le (hw : woffset ≤ size) (h : woffset + len ≤ 2 ^ 31) :
    Reaches size woffset len := by
  induction hd : 2 ^ 31 - size using Nat.strongRecOn generalizing size with
  | _ d ih =>
      by_cases hfits : woffset + len ≤ size
      · exact ⟨0, hfits, fun j hj => absurd hj (Nat.not_lt_zero j)⟩
      · have hlt : size < doubled size := lt_doubled (by omega)
        exact reaches_again hw (ih _ (by omega) (by omega) rfl)

end Sandesh.Transport
