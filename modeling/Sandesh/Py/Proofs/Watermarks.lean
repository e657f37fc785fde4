/-
The watermarks of the work queue.

`_hwm_index` says which high watermark is in force, until a low watermark
releases it. An enqueue compares the new size with the marks alone: where
the size has dropped below the mark in force and not reached a low mark,
it runs the callback of a lower high mark. `StaysInForce` says when it
does not, and a run of calls never goes back to a lower mark exactly as
far as each of its enqueues is of that kind.

In a session the callback of the `i`-th high mark sets the same send level
as that of the low mark above it, so the level is a function of
`_hwm_index` alone (`levelAt`), and the same condition decides whether an
enqueue ever lets more messages through.
-/
import Sandesh.Py.Proofs.WorkQueue

namespace Sandesh.Py.Work

open Lib WorkQueue

variable {α γ : Type} {weight : α → Nat} {q : WorkQueue α γ} {x : α}
  {start : Bool}

/-- An enqueue runs no callback of a mark below the one in force. -/
def NeverLower (weight : α → Nat) (q : WorkQueue α γ) (a : Call α) : Prop :=
  ∀ x start, a = .enqueue x start →
    ∀ (index : Nat) callback qsize,
      .high index callback qsize ∈ (q.enqueue weight x start).fired →
      q._hwm_index ≤ index

/-- The item is turned away, or no mark is in force, or the new size is
below all marks, or it reaches the mark in force. -/
def StaysInForce (weight : α → Nat) (q : WorkQueue α γ) (a : Call α) : Prop :=
  ∀ x start, a = .enqueue x start →
    Rejects weight q x ∨ q._hwm_index < 0
    ∨ (∀ wm ∈ q.highs, q._qsize + weight x < wm.size)
    ∨ ∃ wm, q.highs[q._hwm_index.toNat]? = some wm
        ∧ wm.size ≤ q._qsize + weight x

-- ============================================================= the marks

theorem ordered_pairwise (wms : List (WaterMark γ)) :
    (ordered wms).Pairwise fun a b => a.size ≤ b.size := by
  have : Std.Total fun a b : WaterMark γ => a.size ≤ b.size :=
    ⟨fun a b => Int.le_total a.size b.size⟩
  have : IsTrans (WaterMark γ) fun a b => a.size ≤ b.size :=
    ⟨fun _ _ _ => Int.le_trans⟩
  exact List.pairwise_insertionSort _ _

/-- Which marks are at or below a size. -/
theorem lt_bisect_right {wms : List (WaterMark γ)}
    (hsorted : wms.Pairwise fun a b => a.size ≤ b.size) {i : Nat} {qsize : Int} :
    i < bisect_right wms qsize
      ↔ ∃ wm, wms[i]? = some wm ∧ wm.size ≤ qsize := by
  unfold bisect_right
  rw [List.lt_findIdx_iff]
  constructor
  · intro h
    obtain ⟨hi, hall⟩ := h
    have hle := of_decide_eq_false (hall i (Nat.le_refl i))
    exact ⟨wms[i], List.getElem?_eq_getElem hi, Int.not_lt.mp hle⟩
  · intro h
    obtain ⟨wm, hwm, hle⟩ := h
    obtain ⟨hi, rfl⟩ := List.getElem?_eq_some_iff.mp hwm
    refine ⟨hi, fun j hj => decide_eq_false (Int.not_lt.mpr ?_)⟩
    rcases Nat.lt_or_eq_of_le hj with hlt | rfl
    · exact Int.le_trans (List.pairwise_iff_getElem.mp hsorted j i _ hi hlt) hle
    · exact hle

theorem bisect_right_eq_zero {wms : List (WaterMark γ)}
    (hsorted : wms.Pairwise fun a b => a.size ≤ b.size) {qsize : Int} :
    bisect_right wms qsize = 0 ↔ ∀ wm ∈ wms, qsize < wm.size := by
  constructor
  · intro hzero wm hmem
    obtain ⟨i, hi, rfl⟩ := List.getElem_of_mem hmem
    refine Int.not_le.mp fun hle => ?_
    have hpos := (lt_bisect_right hsorted).mpr
      ⟨wms[i], List.getElem?_eq_getElem hi, hle⟩
    omega
  · intro hall
    by_contra hne
    obtain ⟨wm, hwm, hle⟩ :=
      (lt_bisect_right hsorted (i := 0)).mp (Nat.pos_of_ne_zero hne)
    have := hall wm (List.mem_of_getElem? hwm)
    omega

/-- What crossing a high watermark does. -/
theorem process_high_cases (q : WorkQueue α γ) :
    (q._process_high_watermarks = (q, [])
      ∧ (bisect_right q.highs q._qsize = 0
        ∨ (bisect_right q.highs q._qsize : Int) = q._hwm_index + 1))
    ∨ ∃ (index : Nat) (wm : WaterMark γ), q.highs[index]? = some wm
      ∧ index + 1 = bisect_right q.highs q._qsize
      ∧ (index : Int) ≠ q._hwm_index
      ∧ q._process_high_watermarks
        = ({ q with _hwm_index := index, _lwm_index := index + 1 },
            [.high index wm.callback q._qsize]) := by
  unfold _process_high_watermarks
  simp only []
  by_cases hzero : bisect_right q.highs q._qsize = 0
  · rw [if_pos hzero]
    exact .inl ⟨rfl, .inl hzero⟩
  rw [if_neg hzero]
  by_cases hsame : ((bisect_right q.highs q._qsize - 1 : Nat) : Int) = q._hwm_index
  · rw [if_pos hsame]
    exact .inl ⟨rfl, .inr (by omega)⟩
  · rw [if_neg hsame]
    have hle : bisect_right q.highs q._qsize ≤ q.highs.length :=
      List.findIdx_le_length
    have hlt : bisect_right q.highs q._qsize - 1 < q.highs.length := by omega
    have hget := List.getElem?_eq_getElem hlt
    refine .inr ⟨_, _, hget, by omega, hsame, ?_⟩
    rw [hget]
    rfl

/-- What crossing a low watermark does. -/
theorem process_low_cases (q : WorkQueue α γ) :
    q._process_low_watermarks = (q, [])
    ∨ ∃ (index : Nat) (wm : WaterMark γ), q.lows[index]? = some wm
      ∧ q._qsize ≤ wm.size
      ∧ q._process_low_watermarks
        = ({ q with _hwm_index := index - 1, _lwm_index := index },
            [.low index wm.callback q._qsize]) := by
  unfold _process_low_watermarks
  simp only []
  by_cases hend : bisect_left q.lows q._qsize = q.lows.length
  · rw [if_pos hend]
    exact .inl rfl
  rw [if_neg hend]
  by_cases hsame : (bisect_left q.lows q._qsize : Int) = q._lwm_index
  · rw [if_pos hsame]
    exact .inl rfl
  · rw [if_neg hsame]
    have hlt : bisect_left q.lows q._qsize < q.lows.length :=
      Nat.lt_of_le_of_ne List.findIdx_le_length hend
    have hget := List.getElem?_eq_getElem hlt
    refine .inr
      ⟨_, _, hget, of_decide_eq_true (List.findIdx_getElem (w := hlt)), ?_⟩
    rw [hget]
    rfl

-- ============================================================= one call

/-- No call touches the marks. -/
theorem calls_marks {q' : WorkQueue α γ} {a : Call α}
    (h : (calls weight).step q a = some q') :
    q'.highs = q.highs ∧ q'.lows = q.lows := by
  cases a with
  | enqueue x start =>
      injection h with h
      rw [← h]
      by_cases hrej : Rejects weight q x
      · rw [enqueue_rejected hrej]
        exact ⟨rfl, rfl⟩
      · rw [enqueue_accepted hrej]
        unfold accept
        simp only []
        rw [may_be_start_frame, process_high_frame]
        exact ⟨rfl, rfl⟩
  | dequeue =>
      injection h with h
      rw [← h]
      cases hqueue : q._queue with
      | nil =>
          rw [dequeue_nil hqueue]
          exact ⟨rfl, rfl⟩
      | cons x rest =>
          rw [dequeue_cons hqueue, process_low_frame]
          exact ⟨rfl, rfl⟩
  | set_bounded bounded =>
      injection h with h
      rw [← h]
      exact ⟨rfl, rfl⟩

/-- What an accepted item does to the marks. -/
theorem enqueue_marks (start : Bool) (h : ¬ Rejects weight q x) :
    let r := q.enqueue weight x start
    let reached := bisect_right q.highs (q._qsize + weight x)
    (r.fired = [] ∧ r.queue._hwm_index = q._hwm_index
      ∧ (reached = 0 ∨ (reached : Int) = q._hwm_index + 1))
    ∨ ∃ (index : Nat) (wm : WaterMark γ), q.highs[index]? = some wm
      ∧ index + 1 = reached
      ∧ r.fired = [.high index wm.callback (q._qsize + weight x)]
      ∧ r.queue._hwm_index = index := by
  simp only []
  rw [enqueue_accepted h]
  unfold accept
  simp only []
  rw [may_be_start_frame]
  rcases process_high_cases { grown weight q x with
      _num_enqueues := (grown weight q x)._num_enqueues + 1 } with hsame | hmoved
  · obtain ⟨hprocess, hreached⟩ := hsame
    rw [hprocess]
    exact .inl ⟨rfl, rfl, hreached⟩
  · obtain ⟨index, wm, hwm, hindex, -, hprocess⟩ := hmoved
    rw [hprocess]
    exact .inr ⟨index, wm, hwm, hindex, rfl, rfl⟩

/-- What a dequeue does to the marks. -/
theorem dequeue_marks (weight : α → Nat) (q : WorkQueue α γ) :
    let r := q.dequeue weight
    (r.fired = [] ∧ r.queue._hwm_index = q._hwm_index)
    ∨ ∃ (index : Nat) (wm : WaterMark γ), q.lows[index]? = some wm
      ∧ r.queue._qsize ≤ wm.size
      ∧ r.fired = [.low index wm.callback r.queue._qsize]
      ∧ r.queue._hwm_index = index - 1 := by
  cases hqueue : q._queue with
  | nil =>
      rw [dequeue_nil hqueue]
      exact .inl ⟨rfl, rfl⟩
  | cons x rest =>
      rw [dequeue_cons hqueue]
      rcases process_low_cases (shrunk weight q x rest) with hsame | hmoved
      · rw [hsame]
        exact .inl ⟨rfl, rfl⟩
      · obtain ⟨index, wm, hwm, hsize, hprocess⟩ := hmoved
        rw [hprocess]
        exact .inr ⟨index, wm, hwm, hsize, rfl, rfl⟩

/-- The condition, in terms of the marks reached. -/
theorem staysInForce_iff (hsorted : q.highs.Pairwise fun a b => a.size ≤ b.size)
    (x : α) (start : Bool) :
    StaysInForce weight q (.enqueue x start)
      ↔ Rejects weight q x ∨ bisect_right q.highs (q._qsize + weight x) = 0
        ∨ q._hwm_index < bisect_right q.highs (q._qsize + weight x) := by
  have hone : StaysInForce weight q (.enqueue x start)
      ↔ Rejects weight q x ∨ q._hwm_index < 0
        ∨ bisect_right q.highs (q._qsize + weight x) = 0
        ∨ q._hwm_index.toNat < bisect_right q.highs (q._qsize + weight x) := by
    rw [bisect_right_eq_zero hsorted, lt_bisect_right hsorted]
    constructor
    · intro h
      exact h x start rfl
    · intro h x' start' ha
      injection ha with hx hstart
      subst hx
      exact h
  rw [hone]
  refine or_congr_right ?_
  omega

/-- An enqueue stays at or above the mark in force if the size does. -/
theorem neverLower_iff (hsorted : q.highs.Pairwise fun a b => a.size ≤ b.size)
    (a : Call α) : NeverLower weight q a ↔ StaysInForce weight q a := by
  cases a with
  | dequeue =>
      refine ⟨fun _ x start ha => ?_, fun _ x start ha => ?_⟩
      · cases ha
      · cases ha
  | set_bounded bounded =>
      refine ⟨fun _ x start ha => ?_, fun _ x start ha => ?_⟩
      · cases ha
      · cases ha
  | enqueue x start =>
      have hone : NeverLower weight q (.enqueue x start)
          ↔ ∀ (index : Nat) callback qsize,
            .high index callback qsize ∈ (q.enqueue weight x start).fired →
            q._hwm_index ≤ index := by
        constructor
        · intro h
          exact h x start rfl
        · intro h x' start' ha
          injection ha with hx hstart
          subst hx hstart
          exact h
      rw [hone, staysInForce_iff hsorted]
      by_cases hrej : Rejects weight q x
      · rw [enqueue_rejected hrej]
        simp only [List.not_mem_nil, false_imp_iff, implies_true, hrej, true_or]
      rcases enqueue_marks start hrej with hsame | hmoved
      · obtain ⟨hfired, -, hreached⟩ := hsame
        rw [hfired]
        simp only [List.not_mem_nil, false_imp_iff, implies_true, hrej, false_or,
          true_iff]
        omega
      · obtain ⟨index, wm, -, hindex, hfired, -⟩ := hmoved
        rw [hfired, ← hindex]
        simp only [List.mem_singleton, Fired.high.injEq, hrej, false_or]
        constructor
        · intro h
          have := h index _ _ ⟨rfl, rfl, rfl⟩
          omega
        · intro h index' callback qsize heq
          obtain ⟨rfl, -, -⟩ := heq
          omega

-- ========================================================== the session

/-- The send level in a session, while no mark is in force and then mark by
mark. -/
def sendLevels : List Int :=
  [SandeshLevel.INVALID, SandeshLevel.SYS_DEBUG, SandeshLevel.SYS_ERR,
    SandeshLevel.SYS_EMERG, SandeshLevel.SYS_UVE]

/-- The calls on a queue, with the send level. -/
def callsLevel (weight : α → Nat) : Machine (WorkQueue α Int × Int) (Call α) :=
  (calls weight).watch fun send_level q a =>
    match a with
    | .enqueue x start =>
        _set_send_level send_level (q.enqueue weight x start).fired
    | .dequeue => _set_send_level send_level (q.dequeue weight).fired
    | .set_bounded _ => send_level

/-- The send level rises only as the queue drains to a low watermark. -/
def OnlyDrainingOpens (s : WorkQueue α Int × Int) (a : Call α)
    (s' : WorkQueue α Int × Int) : Prop :=
  s.2 < s'.2 → a = .dequeue ∧ ∃ wm ∈ s.1.lows, s'.1._qsize ≤ wm.size

/-- The callbacks of the marks go with the levels, and the level with the
mark in force. -/
structure SessionInv (s : WorkQueue α Int × Int) : Prop where
  sorted : s.1.highs.Pairwise fun a b => a.size ≤ b.size
  highs : s.1.highs.map WaterMark.callback = sendLevels.tail
  lows : s.1.lows.map WaterMark.callback = sendLevels.dropLast
  bottom : -1 ≤ s.1._hwm_index
  level : sendLevels[(s.1._hwm_index + 1).toNat]? = some s.2

variable {s s' : WorkQueue α Int × Int} {a : Call α} {wm : WaterMark Int}
  {index : Nat}

theorem high_level (h : SessionInv s) (hwm : s.1.highs[index]? = some wm) :
    sendLevels[index + 1]? = some wm.callback := by
  rw [← List.getElem?_tail, ← h.highs, List.getElem?_map, hwm]
  rfl

theorem low_level (h : SessionInv s) (hwm : s.1.lows[index]? = some wm) :
    sendLevels[index]? = some wm.callback := by
  have hget : sendLevels.dropLast[index]? = some wm.callback := by
    rw [← h.lows, List.getElem?_map, hwm]
    rfl
  rw [List.getElem?_dropLast] at hget
  split at hget
  · exact hget
  · cases hget

/-- A higher mark has the lower level. -/
theorem sendLevels_le_iff {i j : Nat} {k l : Int} (hi : sendLevels[i]? = some k)
    (hj : sendLevels[j]? = some l) : k ≤ l ↔ j ≤ i := by
  have hfall : sendLevels.Pairwise fun a b => b < a := by decide
  obtain ⟨hilt, rfl⟩ := List.getElem?_eq_some_iff.mp hi
  obtain ⟨hjlt, rfl⟩ := List.getElem?_eq_some_iff.mp hj
  have hpair := List.pairwise_iff_getElem.mp hfall
  rcases Nat.lt_trichotomy i j with hlt | rfl | hgt
  · have := hpair i j hilt hjlt hlt
    omega
  · simp only [Int.le_refl, Nat.le_refl]
  · have := hpair j i hjlt hilt hgt
    omega

theorem sessionInv_start {α : Type} :
    SessionInv (set_send_queue_watermarks (WorkQueue.new (α := α) true 0 0)
      _SENDQ_WATERMARKS, SandeshLevel.INVALID) where
  sorted := ordered_pairwise _
  highs := rfl
  lows := rfl
  bottom := Int.le_refl _
  level := rfl

/-- The level after an accepted item is that of the mark then in force. -/
theorem session_enqueue {x : α} (start : Bool) (h : SessionInv s)
    (hacc : ¬ Rejects weight s.1 x) :
    let r := s.1.enqueue weight x start
    let level := _set_send_level s.2 r.fired
    sendLevels[(r.queue._hwm_index + 1).toNat]? = some level
    ∧ -1 ≤ r.queue._hwm_index
    ∧ (level ≤ s.2 ↔ StaysInForce weight s.1 (.enqueue x start)) := by
  have hbottom := h.bottom
  simp only []
  rw [staysInForce_iff h.sorted]
  rcases enqueue_marks start hacc with hsame | hmoved
  · obtain ⟨hfired, hindex, hreached⟩ := hsame
    rw [hfired, hindex]
    refine ⟨h.level, h.bottom, fun _ => .inr ?_, fun _ => Int.le_refl _⟩
    omega
  · obtain ⟨index, wm, hwm, hindex, hfired, hhwm⟩ := hmoved
    have hlevel := high_level h hwm
    rw [hfired, hhwm, ← hindex]
    refine ⟨hlevel, by omega, ?_⟩
    show wm.callback ≤ s.2 ↔ _
    rw [sendLevels_le_iff hlevel h.level]
    simp only [hacc, false_or]
    omega

/-- And after a dequeue too; it rises at a low watermark only. -/
theorem session_dequeue (weight : α → Nat) (h : SessionInv s) :
    let r := s.1.dequeue weight
    let level := _set_send_level s.2 r.fired
    sendLevels[(r.queue._hwm_index + 1).toNat]? = some level
    ∧ -1 ≤ r.queue._hwm_index
    ∧ (s.2 < level → ∃ wm ∈ s.1.lows, r.queue._qsize ≤ wm.size) := by
  simp only []
  rcases dequeue_marks weight s.1 with hsame | hmoved
  · obtain ⟨hfired, hindex⟩ := hsame
    rw [hfired, hindex]
    exact ⟨h.level, h.bottom, fun hlt => absurd hlt (Int.lt_irrefl _)⟩
  · obtain ⟨index, wm, hwm, hsize, hfired, hindex⟩ := hmoved
    have hnext : ((index : Int) - 1 + 1).toNat = index := by omega
    rw [hfired, hindex, hnext]
    exact ⟨low_level h hwm, by omega,
      fun _ => ⟨wm, List.mem_of_getElem? hwm, hsize⟩⟩

/-- The marks stay, whatever the call. -/
theorem sessionInv_of_call (h : SessionInv s)
    (hcall : (calls weight).step s.1 a = some s'.1)
    (hlevel : sendLevels[(s'.1._hwm_index + 1).toNat]? = some s'.2)
    (hbottom : -1 ≤ s'.1._hwm_index) : SessionInv s' := by
  obtain ⟨hhighs, hlows⟩ := calls_marks hcall
  refine ⟨?_, ?_, ?_, hbottom, hlevel⟩
  · rw [hhighs]
    exact h.sorted
  · rw [hhighs]
    exact h.highs
  · rw [hlows]
    exact h.lows

/-- One call in a session. -/
theorem session_step (h : SessionInv s)
    (hstep : (callsLevel weight).step s a = some s') :
    SessionInv s' ∧ (OnlyDrainingOpens s a s' ↔ StaysInForce weight s.1 a) := by
  obtain ⟨hcall, hlevel⟩ := Machine.watch_step.mp hstep
  have hinv := sessionInv_of_call h hcall
  unfold OnlyDrainingOpens
  cases a with
  | enqueue x start =>
      injection hcall with hcall
      simp only [reduceCtorEq, false_and, imp_false, Int.not_lt] at hlevel ⊢
      by_cases hrej : Rejects weight s.1 x
      · rw [enqueue_rejected hrej] at hcall hlevel
        have hsame : s'.2 = s.2 := hlevel
        rw [← hcall, hsame] at hinv
        refine ⟨hinv h.level h.bottom, ?_⟩
        rw [staysInForce_iff h.sorted, hsame]
        simp only [Int.le_refl, hrej, true_or]
      · obtain ⟨hnow, hbottom, hle⟩ := session_enqueue start h hrej
        rw [hcall, ← hlevel] at hnow
        rw [hcall] at hbottom
        rw [← hlevel] at hle
        exact ⟨hinv hnow hbottom, hle⟩
  | dequeue =>
      injection hcall with hcall
      simp only [true_and] at hlevel ⊢
      obtain ⟨hnow, hbottom, hopens⟩ := session_dequeue weight h
      rw [hcall, ← hlevel] at hnow
      rw [hcall] at hbottom
      rw [hcall, ← hlevel] at hopens
      exact ⟨hinv hnow hbottom, fun _ => nofun, fun _ => hopens⟩
  | set_bounded bounded =>
      injection hcall with hcall
      have hsame : s'.2 = s.2 := hlevel
      rw [← hcall, hsame] at hinv
      refine ⟨hinv h.level h.bottom, fun _ => nofun, fun _ hlt => ?_⟩
      omega

-- ============================================================== the runs

/-- Whatever marks are set and whatever the items weigh, the enqueues of a
run keep to the mark in force exactly as far as the size does; and in a
session the send level then rises only as the queue drains. -/
theorem watermark_hysteresis_iff (weight : α → Nat) (start_runner : Bool)
    (max_qsize : Int) (max_work_load : Nat) (high low : List (WaterMark γ))
    (as : List (Call α)) {σ : Type} (bs : List (Call (Element σ))) :
    let q := ((WorkQueue.new start_runner max_qsize
      max_work_load).set_high_watermarks high).set_low_watermarks low
    let sendQueue := set_send_queue_watermarks (WorkQueue.new true 0 0)
      _SENDQ_WATERMARKS
    ((calls weight).Each (fun q a _ => NeverLower weight q a) q as
      ↔ (calls weight).Each (fun q a _ => StaysInForce weight q a) q as)
    ∧ ((callsLevel Element.size).Each OnlyDrainingOpens
        (sendQueue, SandeshLevel.INVALID) bs
      ↔ (callsLevel Element.size).Each
          (fun s a _ => StaysInForce Element.size s.1 a)
          (sendQueue, SandeshLevel.INVALID) bs) := by
  refine ⟨?_, ?_⟩
  · refine Machine.each_iff (M := calls weight)
      (I := fun q => q.highs.Pairwise fun a b => a.size ≤ b.size) ?_ ?_ as
      (ordered_pairwise high)
    · intro q a q' hsorted _
      exact neverLower_iff hsorted a
    · intro q a q' hsorted hstep _
      rw [(calls_marks hstep).1]
      exact hsorted
  · refine Machine.each_iff (M := callsLevel Element.size) (I := SessionInv)
      ?_ ?_ bs sessionInv_start
    · intro s a s' hs hstep
      exact (session_step hs hstep).2
    · intro s a s' hs hstep _
      exact (session_step hs hstep).1

/-- Marks at 5, 11 and 17 and at 2, 8 and 14, as in the test of the
queue. The third is reached; two items leave, and 15 is still above the
low mark. The next item runs the callback of the second mark. -/
theorem lower_mark_fires :
    ¬ (calls (γ := Nat) (fun _ : Unit => 1)).Each
      (fun q a _ => NeverLower (fun _ => 1) q a)
      (((WorkQueue.new false 0 0).set_high_watermarks
        [⟨5, 1⟩, ⟨11, 2⟩, ⟨17, 3⟩]).set_low_watermarks
        [⟨14, 4⟩, ⟨8, 5⟩, ⟨2, 6⟩])
      ((List.replicate 17 (.enqueue () true) ++ [.dequeue, .dequeue])
        ++ [.enqueue () true]) := by
  intro h
  have hlower := Machine.each_last _ h rfl rfl
  exact absurd (hlower () true rfl 1 2 16 (by decide)) (by decide)

end Sandesh.Py.Work
