/-
The books of the work queue.

`Books` keeps what was accepted and what was handed out; a queue that
`Balances` holds the difference, in order, with its size and its counters.
A rejected enqueue is undone but for `_max_qlen` and `_drops`.
-/
import Sandesh.Py.WorkQueue

namespace Sandesh.Py.Work

open Lib WorkQueue

variable {α γ : Type} {weight : α → Nat} {q : WorkQueue α γ} {x : α}
  {start : Bool}

-- ============================================================== one call

/-- The bound turns the item away. -/
def Rejects (weight : α → Nat) (q : WorkQueue α γ) (x : α) : Prop :=
  q._bounded = true ∧ q._max_qsize < q._qsize + weight x

/-- Crossing a high watermark moves the indices only. -/
theorem process_high_frame (q : WorkQueue α γ) :
    q._process_high_watermarks.1
      = { q with
          _hwm_index := q._process_high_watermarks.1._hwm_index
          _lwm_index := q._process_high_watermarks.1._lwm_index } := by
  unfold _process_high_watermarks
  simp only []
  split
  · rfl
  · split
    · rfl
    · rfl

/-- The watermarks move their indices and nothing else. -/
theorem process_low_frame (q : WorkQueue α γ) :
    q._process_low_watermarks.1
      = { q with
          _hwm_index := q._process_low_watermarks.1._hwm_index
          _lwm_index := q._process_low_watermarks.1._lwm_index } := by
  unfold _process_low_watermarks
  simp only []
  split
  · rfl
  · split
    · rfl
    · rfl

/-- Starting the runner leaves the queue alone. -/
theorem may_be_start_frame (q : WorkQueue α γ) (start : Bool) :
    q.may_be_start_runner start
      = { q with
          _running := (q.may_be_start_runner start)._running
          greenlet := (q.may_be_start_runner start).greenlet } := by
  unfold may_be_start_runner WorkQueue.start
  split
  · rfl
  · split
    · rfl
    · rfl

/-- The queue with the item's weight added. -/
def grown (weight : α → Nat) (q : WorkQueue α γ) (x : α) : WorkQueue α γ :=
  (q.increment_queue_size weight x).recordLength

/-- An enqueue that is turned away. -/
theorem enqueue_rejected (h : Rejects weight q x) :
    q.enqueue weight x start
      = ⟨false, { q with _max_qlen := q._qsize, _drops := q._drops + 1 }, []⟩ := by
  have hcond : ((grown weight q x)._bounded
      && (grown weight q x)._qsize > (grown weight q x)._max_qsize) = true :=
    Bool.and_eq_true_iff.mpr ⟨h.1, decide_eq_true h.2⟩
  have hsize : q._qsize + weight x - weight x = q._qsize := by omega
  refine (if_pos hcond).trans ?_
  show Enqueued.mk false { q with
    _qsize := q._qsize + weight x - weight x
    _max_qlen := q._qsize + weight x - weight x
    _drops := q._drops + 1 } [] = _
  rw [hsize]

/-- One that is not. -/
theorem enqueue_accepted (h : ¬ Rejects weight q x) :
    q.enqueue weight x start = (grown weight q x).accept x start := by
  have hcond : ¬ ((grown weight q x)._bounded
      && (grown weight q x)._qsize > (grown weight q x)._max_qsize) = true := by
    intro hand
    obtain ⟨hbounded, hlarge⟩ := Bool.and_eq_true_iff.mp hand
    exact h ⟨hbounded, of_decide_eq_true hlarge⟩
  exact if_neg hcond

/-- The queue with its first item taken. -/
def shrunk (weight : α → Nat) (q : WorkQueue α γ) (x : α) (rest : List α) :
    WorkQueue α γ :=
  { q with
    _queue := rest
    _qsize := q._qsize - weight x
    _num_dequeues := q._num_dequeues + 1 }

/-- Nothing to take. -/
theorem dequeue_nil (h : q._queue = []) : q.dequeue weight = ⟨none, q, []⟩ := by
  unfold dequeue
  rw [h]

/-- The head is taken. -/
theorem dequeue_cons {rest : List α} (h : q._queue = x :: rest) :
    q.dequeue weight
      = ⟨some x, (shrunk weight q x rest)._process_low_watermarks.1,
          (shrunk weight q x rest)._process_low_watermarks.2⟩ := by
  unfold dequeue
  rw [h]
  rfl

-- ============================================================= the books

/-- What was accepted and what was handed out. -/
structure Books (α : Type) where
  accepted : List α
  handedOut : List α

/-- The books behind a call. -/
def Books.after (weight : α → Nat) (books : Books α) (q : WorkQueue α γ) :
    Call α → Books α
  | .enqueue x start =>
      if (q.enqueue weight x start).accepted then
        { books with accepted := books.accepted ++ [x] }
      else books
  | .dequeue =>
      { books with
        handedOut := books.handedOut ++ (q.dequeue weight).work_item.toList }
  | .set_bounded _ => books

/-- What the queue has is what the books say. -/
structure Balances (weight : α → Nat) (q : WorkQueue α γ) (books : Books α) :
    Prop where
  size : q._qsize = ((q._queue.map weight).sum : Nat)
  number : q._num_enqueues = q._num_dequeues + q._queue.length
  order : books.accepted = books.handedOut ++ q._queue

variable {books : Books α}

/-- The books after an enqueue. -/
theorem balances_accept (h : Balances weight q books)
    (haccept : ¬ Rejects weight q x) :
    Balances weight (q.enqueue weight x start).queue
      { books with accepted := books.accepted ++ [x] } := by
  rw [enqueue_accepted haccept]
  unfold accept
  simp only []
  rw [may_be_start_frame, process_high_frame]
  refine ⟨?_, ?_, ?_⟩
  · show q._qsize + weight x = (((q._queue ++ [x]).map weight).sum : Nat)
    rw [h.size, List.map_append, List.sum_append, List.map_singleton,
      List.sum_singleton, Int.natCast_add]
  · show q._num_enqueues + 1 = q._num_dequeues + (q._queue ++ [x]).length
    rw [h.number, List.length_append, List.length_singleton, Nat.add_assoc]
  · show books.accepted ++ [x] = books.handedOut ++ (q._queue ++ [x])
    rw [h.order, List.append_assoc]

/-- The books after a dequeue. -/
theorem balances_dequeue (h : Balances weight q books) :
    Balances weight (q.dequeue weight).queue
      { books with
        handedOut := books.handedOut ++ (q.dequeue weight).work_item.toList } := by
  cases hqueue : q._queue with
  | nil =>
      rw [dequeue_nil hqueue]
      refine ⟨h.size, h.number, ?_⟩
      show books.accepted = (books.handedOut ++ []) ++ q._queue
      rw [List.append_nil]
      exact h.order
  | cons x rest =>
      rw [dequeue_cons hqueue, process_low_frame]
      have hsize := h.size
      have hnumber := h.number
      have horder := h.order
      rw [hqueue] at hsize hnumber horder
      refine ⟨?_, ?_, ?_⟩
      · show q._qsize - weight x = ((rest.map weight).sum : Nat)
        rw [hsize, List.map_cons, List.sum_cons]
        omega
      · show q._num_enqueues = q._num_dequeues + 1 + rest.length
        rw [hnumber, List.length_cons]
        omega
      · show books.accepted = (books.handedOut ++ [x]) ++ rest
        rw [horder, List.append_assoc]
        rfl

/-- The calls on a queue, with the books. -/
def callsBooks (weight : α → Nat) :
    Machine (WorkQueue α γ × Books α) (Call α) :=
  (calls weight).watch fun books q a => books.after weight q a

/-- After every call the books balance; an accepted item fits a bounded
queue, and one that is turned away leaves no trace but a drop. -/
def Accounts (weight : α → Nat) (s : WorkQueue α γ × Books α) (a : Call α)
    (s' : WorkQueue α γ × Books α) : Prop :=
  Balances weight s'.1 s'.2
  ∧ ∀ x start, a = .enqueue x start →
    let r := s.1.enqueue weight x start
    (r.accepted = true → s.1._bounded = true → s'.1._qsize ≤ s'.1._max_qsize)
    ∧ (r.accepted = false → r.fired = []
      ∧ s'.1 = { s.1 with
          _max_qlen := s.1._qsize
          _drops := s.1._drops + 1 })

/-- An accepted item fits under the bound. -/
theorem enqueue_bounded (haccept : ¬ Rejects weight q x)
    (hbounded : q._bounded = true) :
    (q.enqueue weight x start).queue._qsize
      ≤ (q.enqueue weight x start).queue._max_qsize := by
  rw [enqueue_accepted haccept]
  unfold accept
  simp only []
  rw [may_be_start_frame, process_high_frame]
  show q._qsize + weight x ≤ q._max_qsize
  exact Int.not_lt.mp fun hlarge => haccept ⟨hbounded, hlarge⟩

/-- A call that is no enqueue only has to balance. -/
theorem accounts_of_balances {s s' : WorkQueue α γ × Books α} {a : Call α}
    (h : Balances weight s'.1 s'.2) (ha : ∀ x start, a ≠ .enqueue x start) :
    Accounts weight s a s' :=
  ⟨h, fun x start heq => absurd heq (ha x start)⟩

/-- What an enqueue does, in the account. -/
theorem accounts_enqueue (h : Balances weight q books) (x : α) (start : Bool) :
    Accounts weight (q, books) (.enqueue x start)
      ((q.enqueue weight x start).queue,
        books.after weight q (.enqueue x start)) := by
  by_cases hrej : Rejects weight q x
  · have heq : q.enqueue weight x start = _ := enqueue_rejected hrej
    have hsame : books.after weight q (.enqueue x start) = books := by
      refine if_neg ?_
      rw [heq]
      exact Bool.false_ne_true
    rw [hsame]
    refine ⟨?_, ?_⟩
    · rw [heq]
      exact ⟨h.size, h.number, h.order⟩
    · intro x' start' ha
      injection ha with hx hstart
      subst hx hstart
      simp only [heq]
      exact ⟨fun hacc => absurd hacc Bool.false_ne_true,
        fun _ => ⟨trivial, trivial⟩⟩
  · have haccepted : (q.enqueue weight x start).accepted = true := by
      rw [enqueue_accepted hrej]
      rfl
    have hadded : books.after weight q (.enqueue x start)
        = { books with accepted := books.accepted ++ [x] } := if_pos haccepted
    rw [hadded]
    refine ⟨balances_accept h hrej, ?_⟩
    intro x' start' ha
    injection ha with hx hstart
    subst hx hstart
    refine ⟨fun _ => enqueue_bounded hrej, fun hnot => ?_⟩
    rw [haccepted] at hnot
    cases hnot

/-- In every run of calls on a new queue, whatever its watermarks and
whatever the items weigh. -/
theorem work_queue_accounts (weight : α → Nat) (start_runner : Bool)
    (max_qsize : Int) (max_work_load : Nat) (high low : List (WaterMark γ))
    (as : List (Call α)) :
    (callsBooks weight).Each (Accounts weight)
      (((WorkQueue.new start_runner max_qsize max_work_load).set_high_watermarks
        high).set_low_watermarks low, ⟨[], []⟩) as := by
  refine Machine.each_keeps (M := callsBooks weight)
    (I := fun s => Balances weight s.1 s.2) ?_ as ⟨rfl, rfl, rfl⟩
  intro s a s' hs hstep
  obtain ⟨hcall, hbooks⟩ := Machine.watch_step.mp hstep
  suffices haccounts : Accounts weight s a s' from ⟨haccounts.1, haccounts⟩
  cases a with
  | enqueue x start =>
      injection hcall with hcall
      have haccounts := accounts_enqueue hs x start
      rw [hcall, ← hbooks] at haccounts
      exact haccounts
  | dequeue =>
      injection hcall with hcall
      refine accounts_of_balances ?_ nofun
      rw [← hcall, hbooks]
      exact balances_dequeue hs
  | set_bounded bounded =>
      injection hcall with hcall
      refine accounts_of_balances ?_ nofun
      rw [← hcall, hbooks]
      exact ⟨hs.size, hs.number, hs.order⟩

end Sandesh.Py.Work

/-
The high-water statistic of the work queue.

`max_qlen()` is to be the largest size the queue has had after an accepted
enqueue. An enqueue raises `_max_qlen` before the bound is tested; the one
that is turned away sets it to the size left behind, whatever it was
before. So the statistic is right for as long as every enqueue that is
turned away finds the queue as large as it has ever been, and wrong from
the first that does not.

`peak` is kept beside the queue from the calls alone and does not read
`_max_qlen`.
-/

namespace Sandesh.Py.Work

open Lib WorkQueue

variable {α γ : Type} {weight : α → Nat} {q : WorkQueue α γ} {x : α}
  {start : Bool} {peak : Int}

-- ======================================================== the statistic

/-- The largest size after an accepted enqueue, with one more call. -/
def peakAfter (weight : α → Nat) (peak : Int) (q : WorkQueue α γ) :
    Call α → Int
  | .enqueue x start =>
      let r := q.enqueue weight x start
      if r.accepted then max peak r.queue._qsize else peak
  | .dequeue => peak
  | .set_bounded _ => peak

/-- The calls on a queue, with its peak. -/
def callsPeak (weight : α → Nat) : Machine (WorkQueue α γ × Int) (Call α) :=
  (calls weight).watch (peakAfter weight)

/-- `max_qlen()` did not fall, and is the peak. -/
def MaxIsPeak (s : WorkQueue α γ × Int) (_ : Call α)
    (s' : WorkQueue α γ × Int) : Prop :=
  s.1._max_qlen ≤ s'.1._max_qlen ∧ s'.1._max_qlen = s'.2

/-- An enqueue that is turned away finds the queue at its peak. -/
def DropsAtPeak (weight : α → Nat) (s : WorkQueue α γ × Int) : Call α → Prop
  | .enqueue x _ => Rejects weight s.1 x → s.1._qsize = s.2
  | .dequeue => True
  | .set_bounded _ => True

-- ============================================================== one call

/-- An item turned away sets the peak to the size. -/
theorem max_qlen_rejected (h : Rejects weight q x) :
    (q.enqueue weight x start).queue._max_qlen = q._qsize := by
  rw [enqueue_rejected h]

/-- It makes no new peak. -/
theorem peakAfter_rejected (h : Rejects weight q x) :
    peakAfter weight peak q (.enqueue x start) = peak := by
  refine if_neg ?_
  rw [enqueue_rejected h]
  exact Bool.false_ne_true

/-- An accepted item adds its weight. -/
theorem qsize_accepted (h : ¬ Rejects weight q x) :
    (q.enqueue weight x start).queue._qsize = q._qsize + weight x := by
  rw [enqueue_accepted h]
  unfold accept
  simp only []
  rw [may_be_start_frame, process_high_frame]
  rfl

/-- The peak goes with it. -/
theorem max_qlen_accepted (h : ¬ Rejects weight q x) :
    (q.enqueue weight x start).queue._max_qlen
      = max q._max_qlen (q._qsize + weight x) := by
  rw [enqueue_accepted h]
  unfold accept
  simp only []
  rw [may_be_start_frame, process_high_frame]
  show (if q._qsize + weight x > q._max_qlen then q._qsize + weight x
    else q._max_qlen) = _
  split
  · omega
  · omega

/-- So does the one of the account. -/
theorem peakAfter_accepted (h : ¬ Rejects weight q x) :
    peakAfter weight peak q (.enqueue x start)
      = max peak (q._qsize + weight x) := by
  have haccepted : (q.enqueue weight x start).accepted = true := by
    rw [enqueue_accepted h]
    rfl
  refine (if_pos haccepted).trans ?_
  rw [qsize_accepted h]

/-- A dequeue leaves the peak. -/
theorem max_qlen_dequeue (q : WorkQueue α γ) :
    (q.dequeue weight).queue._max_qlen = q._max_qlen := by
  cases hqueue : q._queue with
  | nil => rw [dequeue_nil hqueue]
  | cons x rest =>
      rw [dequeue_cons hqueue, process_low_frame]
      rfl

/-- From a queue whose statistic is right, one call keeps it right exactly
if it drops at the peak. -/
theorem maxIsPeak_iff {s s' : WorkQueue α γ × Int} {c : Call α}
    (hs : s.1._max_qlen = s.2) (hstep : (callsPeak weight).step s c = some s') :
    MaxIsPeak s c s' ↔ DropsAtPeak weight s c := by
  obtain ⟨q, peak⟩ := s
  obtain ⟨q', peak'⟩ := s'
  obtain ⟨hq, hpeak⟩ := Machine.watch_step.mp hstep
  simp only at hs hq hpeak
  subst hs hpeak
  cases c with
  | enqueue x start =>
      injection hq with hq
      subst hq
      by_cases hrej : Rejects weight q x
      · unfold MaxIsPeak DropsAtPeak
        rw [peakAfter_rejected hrej, max_qlen_rejected hrej]
        constructor
        · intro h _
          exact h.2
        · intro h
          exact ⟨Int.le_of_eq (h hrej).symm, h hrej⟩
      · unfold MaxIsPeak DropsAtPeak
        rw [peakAfter_accepted hrej, max_qlen_accepted hrej]
        refine iff_of_true ⟨Int.le_max_left _ _, rfl⟩ ?_
        intro h
        exact absurd h hrej
  | dequeue =>
      injection hq with hq
      subst hq
      refine iff_of_true ?_ trivial
      unfold MaxIsPeak
      rw [max_qlen_dequeue]
      exact ⟨Int.le_refl _, rfl⟩
  | set_bounded bounded =>
      injection hq with hq
      subst hq
      exact iff_of_true ⟨Int.le_refl _, rfl⟩ trivial

-- =============================================================== the run

/-- In every run of calls on a new queue, whatever its watermarks and
whatever the items weigh. -/
theorem max_qlen_is_peak_iff (weight : α → Nat) (start_runner : Bool)
    (max_qsize : Int) (max_work_load : Nat) (high low : List (WaterMark γ))
    (as : List (Call α)) :
    (callsPeak weight).Each MaxIsPeak
      (((WorkQueue.new start_runner max_qsize max_work_load).set_high_watermarks
        high).set_low_watermarks low, 0) as
    ↔ (callsPeak weight).Each (fun s c _ => DropsAtPeak weight s c)
      (((WorkQueue.new start_runner max_qsize max_work_load).set_high_watermarks
        high).set_low_watermarks low, 0) as := by
  refine Machine.each_iff (I := fun s => s.1._max_qlen = s.2) ?_ ?_ as rfl
  · intro s c s' hs hstep
    exact maxIsPeak_iff hs hstep
  · intro s c s' _ _ h
    exact h.2

/-- Two items are accepted, one is taken, and a third one is turned away:
`max_qlen()` falls from 2 to 1. -/
theorem max_qlen_falls :
    ¬ (callsPeak fun _ : Unit => 1).Each MaxIsPeak
      (((WorkQueue.new false 1 0).set_high_watermarks
        ([] : List (WaterMark Unit))).set_low_watermarks [], 0)
      [.enqueue () true, .enqueue () true, .dequeue, .set_bounded true,
        .enqueue () true] := by
  intro h
  have h₁ := (h _ rfl).2
  have h₂ := (h₁ _ rfl).2
  have h₃ := (h₂ _ rfl).2
  have h₄ := (h₃ _ rfl).2
  have h₅ := (h₄ _ rfl).1.2
  exact absurd h₅ (by decide +kernel)

end Sandesh.Py.Work
