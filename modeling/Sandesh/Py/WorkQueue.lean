/-
The Python work queue and its runner
(library/python/pysandesh/work_queue.py), and the send queue of a session
(`SandeshSendQueue` in sandesh_session.py).

# Size and watermarks

`_qsize` is kept by `increment_queue_size` and `decrement_queue_size`,
which a subclass overrides: an item weighs 1, in the send queue
`element.size`. An enqueue adds the weight first and takes it back if the
queue is bounded and too large. Crossing a watermark moves the two indices
and runs a callback; the callbacks run are returned, in order. They do
not touch the queue.

# The runner

`Runner.start` spawns a greenlet that takes up to `_max_work_load` items,
asks `runner_done`, and sleeps or ends. Control changes only at yields, so
what a greenlet does between two of them is one step: from where it is
resumed to the next call of the worker, a sleep or its end. The worker is
user code, which may yield, enqueue, return or raise; an exception ends
the greenlet. There is never a second one to spawn while one is alive, as
`_running` is set for as long as it is.

`_start_runner`, if there is one, is asked at most once in each step: its
answer is part of the action. `bool(work_item)` is a parameter, as the
loop of the runner tests the item itself.
-/
import Mathlib.Algebra.Ring.Nat
import Mathlib.Data.List.Sort
import Sandesh.Lib.Machine

namespace Sandesh.Py.Work

open Lib

/-- `util.WaterMark`: equal and ordered by the size alone. -/
structure WaterMark (γ : Type) where
  size : Int
  callback : γ

/-- A callback that was run, with its index in the list. -/
inductive Fired (γ : Type)
  | high (index : Nat) (callback : γ) (qsize : Int)
  | low (index : Nat) (callback : γ) (qsize : Int)
  deriving DecidableEq

/-- Where the greenlet of the runner waits. -/
inductive Greenlet (α : Type)
  | spawned
  | sleeping
  | working (work_item : α) (work_load : Nat)

/-- The attributes of the queue and of its `Runner`, under the source's
names. -/
structure WorkQueue (α γ : Type) where
  /-- Whether there is a `_start_runner` -/
  _start_runner : Bool
  _max_qsize : Int
  _max_work_load : Nat
  _bounded : Bool
  _queue : List α
  _qsize : Int
  _num_enqueues : Nat
  _num_dequeues : Nat
  _drops : Nat
  _high_watermarks : Option (List (WaterMark γ))
  _low_watermarks : Option (List (WaterMark γ))
  _hwm_index : Int
  _lwm_index : Int
  _max_qlen : Int
  _running : Bool
  greenlet : Option (Greenlet α)

variable {α γ : Type}

namespace WorkQueue

/-- `WorkQueue(worker, start_runner, max_qsize, max_work_load)`; an
argument that is `None` or 0 is replaced by its default. -/
def new (start_runner : Bool) (max_qsize : Int) (max_work_load : Nat) :
    WorkQueue α γ where
  _start_runner := start_runner
  _max_qsize := if max_qsize = 0 then 1024 else max_qsize
  _max_work_load := if max_work_load = 0 then 16 else max_work_load
  _bounded := false
  _queue := []
  _qsize := 0
  _num_enqueues := 0
  _num_dequeues := 0
  _drops := 0
  _high_watermarks := none
  _low_watermarks := none
  _hwm_index := -1
  _lwm_index := -1
  _max_qlen := 0
  _running := false
  greenlet := none

/-- From the next enqueue on. -/
def set_bounded (q : WorkQueue α γ) (bounded : Bool) : WorkQueue α γ :=
  { q with _bounded := bounded }

-- ========================================================== watermarks

/-- `set(marks)`: the first of each size. -/
def distinct : List (WaterMark γ) → List (WaterMark γ)
  | [] => []
  | wm :: wms => wm :: (distinct wms).filter fun w => w.size ≠ wm.size

/-- `list(sorted(set(marks)))`. -/
def ordered (wms : List (WaterMark γ)) : List (WaterMark γ) :=
  (distinct wms).insertionSort fun a b => a.size ≤ b.size

/-- New marks on either side forget which mark was crossed last. -/
def set_high_watermarks (q : WorkQueue α γ) (high_wm : List (WaterMark γ)) :
    WorkQueue α γ :=
  { q with
    _high_watermarks := some (ordered high_wm)
    _hwm_index := -1
    _lwm_index := -1 }

/-- The same for the other side. -/
def set_low_watermarks (q : WorkQueue α γ) (low_wm : List (WaterMark γ)) :
    WorkQueue α γ :=
  { q with
    _low_watermarks := some (ordered low_wm)
    _hwm_index := -1
    _lwm_index := -1 }

/-- `None` is as good as no marks. -/
def highs (q : WorkQueue α γ) : List (WaterMark γ) := q._high_watermarks.getD []

/-- The marks on the way down. -/
def lows (q : WorkQueue α γ) : List (WaterMark γ) := q._low_watermarks.getD []

/-- `bisect_right`: the first mark greater than the size. -/
def bisect_right (wms : List (WaterMark γ)) (qsize : Int) : Nat :=
  wms.findIdx fun wm => qsize < wm.size

/-- `bisect_left`: the first mark not less than the size. -/
def bisect_left (wms : List (WaterMark γ)) (qsize : Int) : Nat :=
  wms.findIdx fun wm => qsize ≤ wm.size

/-- The highest mark that the size has reached fires, unless it was the last
one to; marks in between are passed over. -/
def _process_high_watermarks (q : WorkQueue α γ) :
    WorkQueue α γ × List (Fired γ) :=
  let index := bisect_right q.highs q._qsize
  if index = 0 then (q, [])
  else
    let hwm_index := index - 1
    if hwm_index = q._hwm_index then (q, [])
    else
      ({ q with _hwm_index := hwm_index, _lwm_index := hwm_index + 1 },
        q.highs[hwm_index]?.toList.map fun wm =>
          .high hwm_index wm.callback q._qsize)

/-- The lowest mark that the size is not above fires, unless it was the last
one to. -/
def _process_low_watermarks (q : WorkQueue α γ) :
    WorkQueue α γ × List (Fired γ) :=
  let lwm_index := bisect_left q.lows q._qsize
  if lwm_index = q.lows.length then (q, [])
  else if lwm_index = q._lwm_index then (q, [])
  else
    ({ q with _hwm_index := lwm_index - 1, _lwm_index := lwm_index },
      q.lows[lwm_index]?.toList.map fun wm =>
        .low lwm_index wm.callback q._qsize)

-- ========================================================== the runner

/-- `not self._start_runner or self._start_runner()`. -/
def mayRun (q : WorkQueue α γ) (start : Bool) : Bool :=
  !q._start_runner || start

/-- `Runner.start`. -/
def start (q : WorkQueue α γ) : WorkQueue α γ :=
  if q._running then q
  else { q with _running := true, greenlet := some .spawned }

/-- There must be something to do, and `_start_runner` must not object. -/
def may_be_start_runner (q : WorkQueue α γ) (start : Bool) : WorkQueue α γ :=
  if q._queue.isEmpty || !q.mayRun start then q else q.start

/-- The same test from inside the runner. -/
def runner_done (q : WorkQueue α γ) (start : Bool) : Bool :=
  q._queue.isEmpty || !q.mayRun start

-- ================================================== enqueue and dequeue

variable (weight : α → Nat)

/-- The size of the queue is the sum of its items' weights. -/
def increment_queue_size (q : WorkQueue α γ) (work_item : α) :
    WorkQueue α γ :=
  { q with _qsize := q._qsize + weight work_item }

/-- What leaves the queue takes its weight with it. -/
def decrement_queue_size (q : WorkQueue α γ) (work_item : α) :
    WorkQueue α γ :=
  { q with _qsize := q._qsize - weight work_item }

/-- What an enqueue returns and what callbacks it has run. -/
structure Enqueued (α γ : Type) where
  accepted : Bool
  queue : WorkQueue α γ
  fired : List (Fired γ)

/-- `if self._qsize > self._max_qlen`. -/
def recordLength (q : WorkQueue α γ) : WorkQueue α γ :=
  { q with _max_qlen := if q._qsize > q._max_qlen then q._qsize else q._max_qlen }

/-- The queue is too large: the size is taken back. -/
def turnAway (q : WorkQueue α γ) (work_item : α) : Enqueued α γ :=
  let q := q.decrement_queue_size weight work_item
  ⟨false, { q with _max_qlen := q._qsize, _drops := q._drops + 1 }, []⟩

/-- The part of `enqueue` behind the bound: marks first, then the item, then
the runner. -/
def accept (q : WorkQueue α γ) (work_item : α) (start : Bool) : Enqueued α γ :=
  let q := { q with _num_enqueues := q._num_enqueues + 1 }
  let r := q._process_high_watermarks
  let q := { r.1 with _queue := r.1._queue ++ [work_item] }
  ⟨true, q.may_be_start_runner start, r.2⟩

/-- The item counts before the bound is looked at. -/
def enqueue (q : WorkQueue α γ) (work_item : α) (start : Bool) :
    Enqueued α γ :=
  let q := (q.increment_queue_size weight work_item).recordLength
  if q._bounded && q._qsize > q._max_qsize then q.turnAway weight work_item
  else q.accept work_item start

/-- What a dequeue returns and what callbacks it has run. -/
structure Dequeued (α γ : Type) where
  work_item : Option α
  queue : WorkQueue α γ
  fired : List (Fired γ)

/-- The oldest item, or `None`; the low marks are looked at behind it. -/
def dequeue (q : WorkQueue α γ) : Dequeued α γ :=
  match q._queue with
  | [] => ⟨none, q, []⟩
  | work_item :: rest =>
      let q := { q with _queue := rest }.decrement_queue_size weight work_item
      let q := { q with _num_dequeues := q._num_dequeues + 1 }
      let r := q._process_low_watermarks
      ⟨some work_item, r.1, r.2⟩

-- ============================================================ greenlet

variable (truthy : α → Bool)

/-- After the inner loop of `_do_work`. -/
def afterLoop (q : WorkQueue α γ) (start : Bool) : WorkQueue α γ :=
  if q.runner_done start then { q with _running := false, greenlet := none }
  else { q with greenlet := some .sleeping }

/-- `work_item = dequeue()`, and what `while work_item` does with it. -/
def takeItem (q : WorkQueue α γ) (work_load : Nat) (start : Bool) :
    WorkQueue α γ :=
  let r := q.dequeue weight
  match r.work_item with
  | some work_item =>
      if truthy work_item then
        { r.queue with greenlet := some (.working work_item work_load) }
      else r.queue.afterLoop start
  | none => r.queue.afterLoop start

end WorkQueue

-- ======================================================= the send queue

/-- `SandeshSendQueue.Element`. -/
structure Element (σ : Type) where
  sandesh : σ
  size : Nat

namespace SandeshLevel

/-- The levels that the queue's watermarks set. -/
def SYS_UVE : Int := -100
def SYS_EMERG : Int := 0
def SYS_ERR : Int := 3
def SYS_DEBUG : Int := 7
def INVALID : Int := 0x7fffffff

end SandeshLevel

/-- The size, the level, and whether it is a high watermark. -/
def _SENDQ_WATERMARKS : List (Int × Int × Bool) := [
  (50 * 1024 * 1024, SandeshLevel.SYS_UVE, true),
  (30 * 1024 * 1024, SandeshLevel.SYS_EMERG, true),
  (20 * 1024 * 1024, SandeshLevel.SYS_ERR, true),
  (1 * 1024 * 1024, SandeshLevel.SYS_DEBUG, true),
  (35 * 1024 * 1024, SandeshLevel.SYS_EMERG, false),
  (25 * 1024 * 1024, SandeshLevel.SYS_ERR, false),
  (15 * 1024 * 1024, SandeshLevel.SYS_DEBUG, false),
  (2 * 1024, SandeshLevel.INVALID, false)]

/-- `set_send_queue_watermarks`: each callback sets the send level. -/
def set_send_queue_watermarks (q : WorkQueue α Int)
    (watermarks : List (Int × Int × Bool)) : WorkQueue α Int :=
  let marks := fun high => (watermarks.filter fun wm => wm.2.2 == high).map
    fun wm => (⟨wm.1, wm.2.1⟩ : WaterMark Int)
  (q.set_high_watermarks (marks true)).set_low_watermarks (marks false)

/-- `_send_level`, after the callbacks run. -/
def _set_send_level (send_level : Int) (fired : List (Fired Int)) : Int :=
  fired.foldl
    (fun _ f => match f with
      | .high _ sandesh_level _ | .low _ sandesh_level _ => sandesh_level)
    send_level

-- ================================================================ calls

/-- The calls of the class. -/
inductive Call (α : Type)
  | enqueue (work_item : α) (start : Bool)
  | dequeue
  | set_bounded (bounded : Bool)

/-- Calls on the queue, one after the other. -/
def calls (weight : α → Nat) : Machine (WorkQueue α γ) (Call α) where
  step q
    | .enqueue work_item start => some (q.enqueue weight work_item start).queue
    | .dequeue => some (q.dequeue weight).queue
    | .set_bounded bounded => some (q.set_bounded bounded)

-- =============================================================== steps

/-- What can happen between two points at which a greenlet gives way. -/
inductive Step (α : Type)
  | enqueue (work_item : α) (start : Bool)
  | may_be_start_runner (start : Bool)
  /-- The greenlet is resumed from its start or from `gevent.sleep`. -/
  | resume (start : Bool)
  | workerReturns (start : Bool)
  | workerRaises

/-- The callers, the runner and the worker, in any interleaving. -/
def system (weight : α → Nat) (truthy : α → Bool) :
    Machine (WorkQueue α γ) (Step α) where
  step q
    | .enqueue work_item start => some (q.enqueue weight work_item start).queue
    | .may_be_start_runner start => some (q.may_be_start_runner start)
    | .resume start =>
        match q.greenlet with
        | some .spawned | some .sleeping =>
            some (q.takeItem weight truthy q._max_work_load start)
        | _ => none
    | .workerReturns start =>
        match q.greenlet with
        | some (.working _ work_load) =>
            if work_load - 1 = 0 then some (q.afterLoop start)
            else some (q.takeItem weight truthy (work_load - 1) start)
        | _ => none
    | .workerRaises =>
        match q.greenlet with
        | some (.working _ _) => some { q with greenlet := none }
        | _ => none

end Sandesh.Py.Work
