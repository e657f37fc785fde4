/-
The pipelines that serve introspect requests, `RequestPipeline`
(library/cpp/request_pipeline.cc, request_pipeline.h).

A pipeline runs its stages one after another. The instances of a stage are
tasks, `StageWorker`s, which the scheduler runs in any order and at the
same time; the one that takes `remainingInst_` to zero goes on to the next
stage. One pipeline is served at a time, the others wait in `pendPipes_`.

# Threads

Whatever runs is a `Thread`: a worker, enqueued or at one of the places in
`Run` where it reads or writes what other threads can change; a call of
`NextStage`, made by a worker or by a constructor; or the end of a scope
that holds `mutex_`. One step of one thread is one action, so a run of the
system is an interleaving of them. `activePipes_` and `pendPipes_` are only
touched under `mutex_`, and taking it and touching them is one step.
Threads are told apart by what they have left to do alone.

A `PipeImpl *` is a number, counted in the order in which the constructors
take `mutex_`; `delete this` empties its place in the heap. An access
through a deleted pipeline or past the end of a vector sets `fault`.

What the callback does to its `InstData` is the client's. The request, the
task and instance ids and the callback itself are not read here: a callback
returns what the run says it does.
-/
import Mathlib.Data.Multiset.AddSub
import Sandesh.Lib.Machine

namespace Sandesh.Pipeline

open Lib

/-- What a stage is made of: its instances, and what allocates their data.
-/
structure StageSpec (δ : Type) where
  instances_ : List Int
  /-- `none`: not provided -/
  allocFn_ : Option (Int → δ)

/-- What a pipeline is made of. -/
structure PipeSpec (δ : Type) where
  stages_ : List (StageSpec δ)

/-- A stage at work: the data of its instances, and how many are not done.
-/
structure StageImpl (δ : Type) where
  data_ : List δ
  remainingInst_ : Int

/-- A pipeline at work. -/
structure PipeImpl (δ : Type) where
  spec_ : PipeSpec δ
  stageImpls_ : List (StageImpl δ)
  currentStage_ : Int

variable {δ : Type}

/-- A vector at an index of type `int`. -/
def nth {α : Type} (l : List α) (i : Int) : Option α :=
  if 0 ≤ i then l[i.toNat]? else none

/-- The data is allocated for every instance before the stage starts. -/
def StageImpl.new (spec : StageSpec δ) (stage : Int) : StageImpl δ where
  data_ :=
    match spec.allocFn_ with
    | none => []
    | some allocFn => List.replicate spec.instances_.length (allocFn stage)
  remainingInst_ := spec.instances_.length

/-- A `PipeImpl` before its first `NextStage`. -/
def PipeImpl.new (spec : PipeSpec δ) : PipeImpl δ where
  spec_ := spec
  stageImpls_ := []
  currentStage_ := -1

/-- What a callback gets from `GetStageData`: `none` is `NULL`. -/
def PipeImpl.GetStageData (pipe : PipeImpl δ) (stage : Int) :
    Option (List δ) :=
  if stage ≥ pipe.currentStage_ then none
  else (nth pipe.stageImpls_ stage).map StageImpl.data_

-- ============================================================== threads

/-- Where a `StageWorker` is, with what it has read so far. -/
inductive Pc
  | queued
  /-- `ss` is the stage with this number -/
  | running (ss : Int)
  /-- and this is the argument `stage` -/
  | passing (ss stage : Int)
  /-- inside the callback -/
  | called (stage : Int)
  /-- in `DoneInstance` -/
  | done
  /-- about to decrement `remainingInst_` of this stage -/
  | decr (stage : Int)
  deriving DecidableEq

/-- Where a call of `NextStage` is. -/
inductive NextPc
  | enter
  /-- `currentStage_` is the new stage -/
  | create
  /-- about to enqueue worker `i` of `insts` -/
  | enqueue (insts i : Nat)
  /-- `this` is deleted -/
  | ended
  deriving DecidableEq

/-- A worker, a call of `NextStage`, or the end of a scope. -/
inductive Thread
  | worker (pipe instNum_ : Nat) (pc : Pc)
  | nextStage (pipe : Nat) (holds : Bool) (pc : NextPc)
  /-- the end of the scope of a `lock(mutex_)` -/
  | unlock
  deriving DecidableEq

/-- What can be seen of the pipelines from outside. -/
inductive Event
  | entered (pipe : Nat) (stage : Int)
  /-- the callback of stage `ss` is called -/
  | called (pipe : Nat) (ss stage : Int) (instNum : Nat)
  | returned (pipe : Nat) (stage : Int) (instNum : Nat) (ret : Bool)
  | ended (pipe : Nat)
  deriving DecidableEq

/-- All pipelines there ever were, the threads and the log. -/
structure Pipes (δ : Type) where
  /-- what every pipeline ever constructed was constructed from -/
  specs : List (PipeSpec δ)
  heap : Nat → Option (PipeImpl δ)
  activePipes_ : Int
  pendPipes_ : List Nat
  mutex_ : Bool
  threads : Multiset Thread
  /-- newest first -/
  log : List Event
  fault : Bool

/-- What happens next: a new pipeline, or a step of some thread. -/
inductive Action (δ : Type)
  | construct (spec : PipeSpec δ)
  /-- one step of a thread; a callback that returns returns `ret` -/
  | go (thread : Thread) (ret : Bool)

namespace Pipes

/-- Nothing has been constructed. -/
def init : Pipes δ where
  specs := []
  heap := fun _ => none
  activePipes_ := 0
  pendPipes_ := []
  mutex_ := false
  threads := 0
  log := []
  fault := false

variable (s : Pipes δ)

/-- One more thread. -/
def spawn (th : Thread) : Pipes δ := { s with threads := th ::ₘ s.threads }

/-- A pipeline changes, or is deleted. -/
def put (p : Nat) (pipe : Option (PipeImpl δ)) : Pipes δ :=
  { s with heap := Function.update s.heap p pipe }

/-- One more entry of the log. -/
def emit (e : Event) : Pipes δ := { s with log := e :: s.log }

/-- An assertion that fails, or an access to what is deleted. -/
def crash : Pipes δ := { s with fault := true }

/-- `NextStage` returns to the end of a scope with the lock, or to `Run`. -/
def leave (holds : Bool) : Pipes δ := if holds then s.spawn .unlock else s

/-- The `PipeImpl` constructor up to its call of `NextStage`, if any. -/
def construct (spec : PipeSpec δ) : Option (Pipes δ) :=
  if s.mutex_ then none else
  let p := s.specs.length
  let s : Pipes δ := { s.put p (some (.new spec)) with
    specs := s.specs ++ [spec], mutex_ := true }
  if s.activePipes_ < 1 then
    some ({ s with activePipes_ := s.activePipes_ + 1 }.spawn
      (.nextStage p true .enter))
  else some ({ s with pendPipes_ := s.pendPipes_ ++ [p] }.spawn .unlock)

/-- `&(stageImpls_[currentStage_].data_[instNum])` exists, if it is asked
for. -/
def dataOk (pipe : PipeImpl δ) (ss : StageSpec δ) (i : Nat) : Bool :=
  ss.allocFn_.isNone ||
    ((nth pipe.stageImpls_ pipe.currentStage_).bind (·.data_[i]?)).isSome

/-- A step of worker `i` of the pipeline at `p`. -/
def work (p i : Nat) (pipe : PipeImpl δ) (ret : Bool) : Pc → Pipes δ
  | .queued =>
      match nth pipe.spec_.stages_ pipe.currentStage_ with
      | none => s.crash
      | some _ => s.spawn (.worker p i (.running pipe.currentStage_))
  | .running ss => s.spawn (.worker p i (.passing ss pipe.currentStage_))
  | .passing c stage =>
      match nth pipe.spec_.stages_ c with
      | none => s.crash
      | some ss =>
          if dataOk pipe ss i then
            (s.emit (.called p c stage i)).spawn (.worker p i (.called stage))
          else s.crash
  | .called stage =>
      -- a task that returns false is enqueued again
      (s.emit (.returned p stage i ret)).spawn
        (.worker p i (if ret then .done else .queued))
  | .done =>
      match nth pipe.stageImpls_ pipe.currentStage_ with
      | none => s.crash
      | some _ => s.spawn (.worker p i (.decr pipe.currentStage_))
  | .decr c =>
      match nth pipe.stageImpls_ c with
      | none => s.crash
      | some impl =>
          let s := s.put p (some { pipe with
            stageImpls_ := pipe.stageImpls_.set c.toNat
              { impl with remainingInst_ := impl.remainingInst_ - 1 } })
          if impl.remainingInst_ = 1 then s.spawn (.nextStage p false .enter)
          else s

/-- A step of `NextStage` while `this` is there. -/
def nextStage (p : Nat) (holds : Bool) (pipe : PipeImpl δ) :
    NextPc → Pipes δ
  | .enter =>
      let stage := pipe.currentStage_ + 1
      if stage = pipe.spec_.stages_.length then
        ((s.put p none).emit (.ended p)).spawn (.nextStage p holds .ended)
      else
        ((s.put p (some { pipe with currentStage_ := stage })).emit
          (.entered p stage)).spawn (.nextStage p holds .create)
  | .create =>
      match nth pipe.spec_.stages_ pipe.currentStage_ with
      | none => s.crash
      | some stageSpec =>
          let s := s.put p (some { pipe with
            stageImpls_ := pipe.stageImpls_ ++
              [.new stageSpec pipe.currentStage_] })
          let insts := stageSpec.instances_.length
          if 0 < insts then s.spawn (.nextStage p holds (.enqueue insts 0))
          else s.leave holds
  | .enqueue insts i =>
      let s := s.spawn (.worker p i .queued)
      if i + 1 < insts then s.spawn (.nextStage p holds (.enqueue insts (i + 1)))
      else s.leave holds
  | .ended => s

/-- The scope with the lock after `delete this`. A thread that holds
`mutex_` already waits here for itself. -/
def lockAndPop : Option (Pipes δ) :=
  if s.mutex_ then none else
  let s := { s with mutex_ := true }
  match s.pendPipes_ with
  | q :: rest =>
      some ({ s with pendPipes_ := rest }.spawn (.nextStage q true .enter))
  | [] => some ({ s with activePipes_ := s.activePipes_ - 1 }.spawn .unlock)

/-- A step of a thread that has been taken out of `threads`. -/
def exec (ret : Bool) : Thread → Option (Pipes δ)
  | .worker p i pc =>
      match s.heap p with
      | none => some s.crash
      | some pipe => some (s.work p i pipe ret pc)
  | .nextStage _ _ .ended => s.lockAndPop
  | .nextStage p holds pc =>
      match s.heap p with
      | none => some s.crash
      | some pipe => some (s.nextStage p holds pipe pc)
  | .unlock => some { s with mutex_ := false }

end Pipes

/-- Any number of pipelines in any schedule. -/
def pipes (δ : Type) : Machine (Pipes δ) (Action δ) where
  step s
    | .construct spec => s.construct spec
    | .go th ret =>
        if th ∈ s.threads then
          { s with threads := s.threads.erase th }.exec ret th
        else none

end Sandesh.Pipeline
