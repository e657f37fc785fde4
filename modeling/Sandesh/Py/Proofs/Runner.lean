/-
The runner of the work queue, in every interleaving with its callers and
its worker.

`_running` is set when the greenlet is spawned and cleared only where the
loop of `_do_work` ends. So it tells whether there is a greenlet as long
as no worker raises: an exception ends the greenlet and leaves the flag,
and nothing spawns another.

`Asked` keeps what the start condition answered: at the last call, and
whether it has held since. The two differ because the runner asks too,
and ends with items left if the condition no longer holds, and because an
enqueue that is turned away asks nothing.
-/
import Sandesh.Py.Proofs.WorkQueue

namespace Sandesh.Py.Work

open Lib WorkQueue

variable {α γ : Type} {weight : α → Nat} {truthy : α → Bool}
  {q q' : WorkQueue α γ} {x : α} {start : Bool} {a : Step α}

/-- A step of the runner. -/
def Step.own : Step α → Bool
  | .resume _ | .workerReturns _ => true
  | _ => false

/-- The loop of the runner ends with the next item, or for want of one. -/
def outOfWork (weight : α → Nat) (truthy : α → Bool) (q : WorkQueue α γ) :
    Bool :=
  !(q.dequeue weight).work_item.any truthy

/-- The items left where the loop of the runner ends in this step, and
what the start condition answers. -/
def loopEnds (weight : α → Nat) (truthy : α → Bool) (q : WorkQueue α γ) :
    Step α → Option (List α × Bool)
  | .resume start =>
      if outOfWork weight truthy q then some (q._queue.tail, q.mayRun start)
      else none
  | .workerReturns start =>
      match q.greenlet with
      | some (.working _ work_load) =>
          if work_load - 1 = 0 then some (q._queue, q.mayRun start)
          else if outOfWork weight truthy q then
            some (q._queue.tail, q.mayRun start)
          else none
      | _ => none
  | _ => none

/-- There is a greenlet that takes the next item as soon as it goes on, or
sleeps and takes it then if the condition holds. -/
def WillTake (weight : α → Nat) (truthy : α → Bool) (q : WorkQueue α γ) :
    Prop :=
  match q.greenlet with
  | none => False
  | some (.working _ _) => ∀ start, ∃ q',
      (system weight truthy).step q (.workerReturns start) = some q'
      ∧ (q'._queue = q._queue.tail
        ∨ q'._queue = q._queue
          ∧ (q.mayRun start = true → q'.greenlet = some .sleeping))
  | some _ => ∀ start, ∃ q',
      (system weight truthy).step q (.resume start) = some q'
      ∧ q'._queue = q._queue.tail

-- ============================================================= one step

/-- A dequeue takes the head and leaves the rest alone. -/
theorem dequeue_frame (weight : α → Nat) (q : WorkQueue α γ) :
    (q.dequeue weight).queue._queue = q._queue.tail
    ∧ (q.dequeue weight).queue._running = q._running
    ∧ (q.dequeue weight).queue._start_runner = q._start_runner := by
  cases hqueue : q._queue with
  | nil =>
      rw [dequeue_nil hqueue]
      exact ⟨hqueue, rfl, rfl⟩
  | cons x rest =>
      rw [dequeue_cons hqueue, process_low_frame]
      exact ⟨rfl, rfl, rfl⟩

/-- Where the loop of the runner ends. -/
theorem afterLoop_cases (q : WorkQueue α γ) (start : Bool) :
    (q._queue ≠ [] ∧ q.mayRun start = true
      ∧ q.afterLoop start = { q with greenlet := some .sleeping })
    ∨ ((q._queue = [] ∨ q.mayRun start = false)
      ∧ q.afterLoop start = { q with _running := false, greenlet := none }) := by
  unfold afterLoop runner_done
  by_cases hdone : (q._queue.isEmpty || !q.mayRun start) = true
  · rw [if_pos hdone]
    rw [Bool.or_eq_true, List.isEmpty_iff, Bool.not_eq_true'] at hdone
    exact .inr ⟨hdone, rfl⟩
  · rw [if_neg hdone]
    rw [Bool.or_eq_true, List.isEmpty_iff, Bool.not_eq_true', not_or,
      Bool.not_eq_false] at hdone
    exact .inl ⟨hdone.1, hdone.2, rfl⟩

/-- The runner is out of work, or starts on an item. -/
theorem takeItem_cases (weight : α → Nat) (truthy : α → Bool)
    (q : WorkQueue α γ) (work_load : Nat) (start : Bool) :
    (outOfWork weight truthy q = true
      ∧ q.takeItem weight truthy work_load start
        = (q.dequeue weight).queue.afterLoop start)
    ∨ (outOfWork weight truthy q = false
      ∧ ∃ x, q.takeItem weight truthy work_load start
        = { (q.dequeue weight).queue with
            greenlet := some (.working x work_load) }) := by
  unfold takeItem outOfWork
  simp only []
  cases (q.dequeue weight).work_item with
  | none => exact .inl ⟨rfl, rfl⟩
  | some x =>
      cases htruthy : truthy x with
      | true =>
          refine .inr ⟨?_, x, if_pos htruthy⟩
          rw [Option.any_some, htruthy]
          rfl
      | false =>
          refine .inl ⟨?_, if_neg ?_⟩
          · rw [Option.any_some, htruthy]
            rfl
          · rw [htruthy]
            exact Bool.false_ne_true

/-- What a caller may do to the runner: spawn its greenlet. -/
theorem may_be_start_cases (q : WorkQueue α γ) (start : Bool) :
    (q._queue ≠ [] ∧ q.mayRun start = true ∧ q._running = false
      ∧ q.may_be_start_runner start
        = { q with _running := true, greenlet := some .spawned })
    ∨ ((q._queue = [] ∨ q.mayRun start = false ∨ q._running = true)
      ∧ q.may_be_start_runner start = q) := by
  unfold may_be_start_runner WorkQueue.start
  by_cases hidle : (q._queue.isEmpty || !q.mayRun start) = true
  · rw [if_pos hidle]
    rw [Bool.or_eq_true, List.isEmpty_iff, Bool.not_eq_true'] at hidle
    exact .inr ⟨hidle.imp_right .inl, rfl⟩
  · rw [if_neg hidle]
    rw [Bool.or_eq_true, List.isEmpty_iff, Bool.not_eq_true', not_or,
      Bool.not_eq_false] at hidle
    cases hrunning : q._running with
    | true => exact .inr ⟨.inr (.inr rfl), rfl⟩
    | false => exact .inl ⟨hidle.1, hidle.2, rfl, rfl⟩

/-- A call that asks the condition leaves the runner as it is, or starts
it. -/
def Called (may : Bool) (q q' : WorkQueue α γ) : Prop :=
  (q'._running = true ∧ q'.greenlet = some .spawned)
  ∨ ((q'._queue = [] ∨ may = false ∨ q._running = true)
    ∧ q'._running = q._running ∧ q'.greenlet = q.greenlet)

/-- What a step does to the runner. -/
inductive Effect (weight : α → Nat) (truthy : α → Bool)
    (q q' : WorkQueue α γ) : Step α → Prop
  | turnedAway {x : α} {start : Bool} (rejects : Rejects weight q x)
      (queue : q'._queue = q._queue) (running : q'._running = q._running)
      (greenlet : q'.greenlet = q.greenlet) :
      Effect weight truthy q q' (.enqueue x start)
  | accepted {x : α} {start : Bool} (accepts : ¬ Rejects weight q x)
      (called : Called (q.mayRun start) q q') :
      Effect weight truthy q q' (.enqueue x start)
  | asked {start : Bool} (called : Called (q.mayRun start) q q') :
      Effect weight truthy q q' (.may_be_start_runner start)
  | goesOn {a : Step α} (own : a.own = true)
      (runner : loopEnds weight truthy q a = none)
      (was : q.greenlet.isSome = true) (running : q'._running = q._running)
      (greenlet : q'.greenlet.isSome = true) : Effect weight truthy q q' a
  | sleeps {a : Step α} {left : List α}
      (runner : loopEnds weight truthy q a = some (left, true))
      (was : q.greenlet.isSome = true) (running : q'._running = q._running)
      (greenlet : q'.greenlet = some .sleeping) : Effect weight truthy q q' a
  | ends {a : Step α} {left : List α} {may : Bool}
      (runner : loopEnds weight truthy q a = some (left, may))
      (queue : q'._queue = left) (done : left = [] ∨ may = false)
      (running : q'._running = false) (greenlet : q'.greenlet = none) :
      Effect weight truthy q q' a
  | raises (was : q.greenlet.isSome = true) (running : q'._running = q._running)
      (greenlet : q'.greenlet = none) : Effect weight truthy q q' .workerRaises

/-- What `may_be_start_runner` does. -/
theorem called_may_be_start (q : WorkQueue α γ) (start : Bool) :
    Called (q.mayRun start) q (q.may_be_start_runner start) := by
  rcases may_be_start_cases q start with hstart | hkeep
  · obtain ⟨-, -, -, heq⟩ := hstart
    rw [heq]
    exact .inl ⟨rfl, rfl⟩
  · obtain ⟨hwhy, heq⟩ := hkeep
    rw [heq]
    exact .inr ⟨hwhy, rfl, rfl⟩

/-- What an enqueue does to the queue and the runner. -/
theorem effect_enqueue (x : α) (start : Bool) :
    Effect weight truthy q (q.enqueue weight x start).queue
      (.enqueue x start) := by
  by_cases hrej : Rejects weight q x
  · rw [enqueue_rejected hrej]
    exact .turnedAway hrej rfl rfl rfl
  · refine .accepted hrej ?_
    rw [enqueue_accepted hrej]
    unfold accept
    simp only []
    rw [process_high_frame]
    exact called_may_be_start _ start

/-- The end of the loop, after what it took. -/
theorem effect_afterLoop {left : List α} (hwas : q.greenlet.isSome = true)
    (hrunning : q'._running = q._running)
    (hstart : q'._start_runner = q._start_runner)
    (hleft : q'._queue = left)
    (hends : loopEnds weight truthy q a = some (left, q.mayRun start)) :
    Effect weight truthy q (q'.afterLoop start) a := by
  have hmay : q'.mayRun start = q.mayRun start := by
    unfold mayRun
    rw [hstart]
  rcases afterLoop_cases q' start with hsleep | hend
  · obtain ⟨-, htrue, heq⟩ := hsleep
    rw [hmay] at htrue
    rw [htrue] at hends
    rw [heq]
    exact .sleeps hends hwas hrunning rfl
  · obtain ⟨hdone, heq⟩ := hend
    rw [hmay, hleft] at hdone
    rw [heq]
    exact .ends hends hleft hdone rfl rfl

/-- What a turn of the runner does to them. -/
theorem effect_takeItem {work_load : Nat} (hown : a.own = true)
    (hwas : q.greenlet.isSome = true)
    (hends : loopEnds weight truthy q a
      = if outOfWork weight truthy q then some (q._queue.tail, q.mayRun start)
        else none) :
    Effect weight truthy q (q.takeItem weight truthy work_load start) a := by
  obtain ⟨hqueue, hrunning, hstart⟩ := dequeue_frame weight q
  rcases takeItem_cases weight truthy q work_load start with hout | hin
  · obtain ⟨hout, heq⟩ := hout
    rw [if_pos hout] at hends
    rw [heq]
    exact effect_afterLoop hwas hrunning hstart hqueue hends
  · obtain ⟨hin, x, heq⟩ := hin
    rw [hin] at hends
    rw [heq]
    exact .goesOn hown hends hwas hrunning rfl

/-- What every step does. -/
theorem system_effect (h : (system weight truthy).step q a = some q') :
    Effect weight truthy q q' a := by
  cases a with
  | enqueue x start =>
      injection h with h
      rw [← h]
      exact effect_enqueue x start
  | may_be_start_runner start =>
      injection h with h
      rw [← h]
      exact .asked (called_may_be_start q start)
  | resume start =>
      simp only [system] at h
      split at h
      · injection h with h
        rw [← h]
        refine effect_takeItem rfl ?_ rfl
        rename_i hgreenlet
        rw [hgreenlet]
        rfl
      · injection h with h
        rw [← h]
        refine effect_takeItem rfl ?_ rfl
        rename_i hgreenlet
        rw [hgreenlet]
        rfl
      · cases h
  | workerReturns start =>
      simp only [system] at h
      split at h
      · rename_i x work_load hgreenlet
        have hwas : q.greenlet.isSome = true := by
          rw [hgreenlet]
          rfl
        by_cases hspent : work_load - 1 = 0
        · rw [if_pos hspent] at h
          injection h with h
          rw [← h]
          refine effect_afterLoop hwas rfl rfl rfl ?_
          simp only [loopEnds, hgreenlet, hspent, if_true]
        · rw [if_neg hspent] at h
          injection h with h
          rw [← h]
          refine effect_takeItem rfl hwas ?_
          simp only [loopEnds, hgreenlet, hspent, if_false]
      · cases h
  | workerRaises =>
      simp only [system] at h
      split at h
      · injection h with h
        rename_i hgreenlet
        rw [← h]
        refine .raises ?_ rfl rfl
        rw [hgreenlet]
        rfl
      · cases h

-- ========================================================= the greenlet

/-- The end of the loop leaves the queue alone. -/
theorem afterLoop_queue (q : WorkQueue α γ) (start : Bool) :
    (q.afterLoop start)._queue = q._queue := by
  rcases afterLoop_cases q start with hsleep | hend
  · rw [hsleep.2.2]
  · rw [hend.2]

/-- A turn takes the head of the queue. -/
theorem takeItem_queue (weight : α → Nat) (truthy : α → Bool)
    (q : WorkQueue α γ) (work_load : Nat) (start : Bool) :
    (q.takeItem weight truthy work_load start)._queue = q._queue.tail := by
  rcases takeItem_cases weight truthy q work_load start with hout | hin
  · rw [hout.2, afterLoop_queue]
    exact (dequeue_frame weight q).1
  · obtain ⟨-, x, heq⟩ := hin
    rw [heq]
    exact (dequeue_frame weight q).1

/-- Any greenlet will do. -/
theorem willTake_iff : WillTake weight truthy q ↔ q.greenlet.isSome = true := by
  unfold WillTake
  cases hgreenlet : q.greenlet with
  | none => simp only [Option.isSome_none, Bool.false_eq_true]
  | some g =>
      refine iff_of_true ?_ rfl
      cases g with
      | spawned =>
          intro start
          refine ⟨_, ?_, takeItem_queue weight truthy q q._max_work_load start⟩
          simp only [system, hgreenlet]
      | sleeping =>
          intro start
          refine ⟨_, ?_, takeItem_queue weight truthy q q._max_work_load start⟩
          simp only [system, hgreenlet]
      | working x work_load =>
          intro start
          by_cases hspent : work_load - 1 = 0
          · refine ⟨q.afterLoop start, ?_, ?_⟩
            · simp only [system, hgreenlet, hspent, if_true]
            rw [afterLoop_queue]
            rcases afterLoop_cases q start with hsleep | hend
            · rw [hsleep.2.2]
              exact .inr ⟨rfl, fun _ => rfl⟩
            rcases hend.1 with hnil | hmay
            · left
              rw [hnil]
              rfl
            · right
              rw [hmay]
              exact ⟨rfl, fun hne => absurd hne Bool.false_ne_true⟩
          · refine ⟨_, ?_,
              .inl (takeItem_queue weight truthy q (work_load - 1) start)⟩
            simp only [system, hgreenlet, hspent, if_false]

-- ======================================================= the condition

/-- The start condition at the last call, and whether it has held since
the last call that asked. -/
structure Asked where
  lastCall : Bool
  held : Bool

/-- What `_start_runner` has said, behind a step. -/
def Asked.after (weight : α → Nat) (truthy : α → Bool) (asked : Asked)
    (q : WorkQueue α γ) : Step α → Asked
  | .enqueue x start =>
      ⟨q.mayRun start,
        if (q.enqueue weight x start).accepted then q.mayRun start
        else asked.held⟩
  | .may_be_start_runner start => ⟨q.mayRun start, q.mayRun start⟩
  | a =>
      match loopEnds weight truthy q a with
      | some (_, may) => { asked with held := asked.held && may }
      | none => asked

/-- The system, with what the condition answered. -/
def systemAsked (weight : α → Nat) (truthy : α → Bool) :
    Machine (WorkQueue α γ × Asked) (Step α) :=
  (system weight truthy).watch fun asked q a => asked.after weight truthy q a

/-- Items wait only for a greenlet that will take them, and `_running`
tells that there is one. -/
def NeverDead (weight : α → Nat) (truthy : α → Bool) (cond : Bool)
    (q : WorkQueue α γ) : Prop :=
  (q._queue ≠ [] → cond = true → WillTake weight truthy q)
  ∧ (q._running = true → WillTake weight truthy q)

/-- No item is turned away while others wait for a runner that may run,
and the runner does not find items left and the condition changed. -/
def Undisturbed (weight : α → Nat) (truthy : α → Bool)
    (s : WorkQueue α γ × Asked) (a : Step α) : Prop :=
  (∀ x start, a = .enqueue x start → Rejects weight s.1 x →
    s.1.mayRun start = true → s.1._queue = [] ∨ s.1._running = true)
  ∧ ∀ left, loopEnds weight truthy s.1 a = some (left, false) →
    left = [] ∨ s.2.lastCall = false

/-- Work that may be done has a runner. -/
theorem neverDead_iff {cond : Bool} :
    NeverDead weight truthy cond q
      ↔ (q._queue ≠ [] → cond = true → q.greenlet.isSome = true)
        ∧ (q._running = true → q.greenlet.isSome = true) := by
  unfold NeverDead
  rw [willTake_iff]

/-- A greenlet is known to be running. -/
def Known (q : WorkQueue α γ) : Prop :=
  q.greenlet.isSome = true → q._running = true

/-- A call of `may_be_start_runner` leaves the runner known. -/
theorem known_called {may : Bool} (h : Known q) (hcalled : Called may q q') :
    Known q' := by
  unfold Known at h ⊢
  rcases hcalled with hstart | hkeep
  · intro _
    exact hstart.1
  · rw [hkeep.2.1, hkeep.2.2]
    exact h

/-- So does every step. -/
theorem known_step (h : Known q) (heffect : Effect weight truthy q q' a) :
    Known q' := by
  unfold Known at h ⊢
  cases heffect with
  | turnedAway _ _ hrunning hgreenlet =>
      rw [hrunning, hgreenlet]
      exact h
  | accepted _ hcalled => exact known_called h hcalled
  | asked hcalled => exact known_called h hcalled
  | goesOn _ _ hwas hrunning _ =>
      intro _
      rw [hrunning]
      exact h hwas
  | sleeps _ hwas hrunning _ =>
      intro _
      rw [hrunning]
      exact h hwas
  | ends _ _ _ _ hgreenlet =>
      rw [hgreenlet]
      intro hsome
      cases hsome
  | raises _ _ hgreenlet =>
      rw [hgreenlet]
      intro hsome
      cases hsome

/-- After a call that asks, the items left have a runner or may not run. -/
theorem neverDead_called {cond may : Bool} (h : NeverDead weight truthy cond q)
    (hcalled : Called may q q') : NeverDead weight truthy may q' := by
  rw [neverDead_iff] at h ⊢
  rcases hcalled with hstart | hkeep
  · rw [hstart.2]
    exact ⟨fun _ _ => rfl, fun _ => rfl⟩
  · obtain ⟨hwhy, hrunning, hgreenlet⟩ := hkeep
    rw [hrunning, hgreenlet]
    refine ⟨fun hne hmay => ?_, h.2⟩
    rcases hwhy with hnil | hnot | hrun
    · exact absurd hnil hne
    · rw [hmay] at hnot
      cases hnot
    · exact h.2 hrun

/-- A runner that is there is not dead. -/
theorem neverDead_alive {cond : Bool} (h : q.greenlet.isSome = true) :
    NeverDead weight truthy cond q :=
  neverDead_iff.mpr ⟨fun _ _ => h, fun _ => h⟩

/-- An exception leaves the flag behind. -/
theorem not_neverDead_raises {cond : Bool} (h : Known q)
    (hwas : q.greenlet.isSome = true) (hrunning : q'._running = q._running)
    (hgreenlet : q'.greenlet = none) : ¬ NeverDead weight truthy cond q' := by
  rw [neverDead_iff, hgreenlet, hrunning]
  intro hdead
  exact absurd (hdead.2 (h hwas)) Bool.false_ne_true

/-- A step of the runner's own is no exception. -/
theorem Step.ne_raises (h : a.own = true) : a ≠ .workerRaises := by
  intro heq
  rw [heq] at h
  cases h

/-- Only the runner's own steps end its loop. -/
theorem own_of_loopEnds {r : List α × Bool}
    (h : loopEnds weight truthy q a = some r) : a.own = true := by
  cases a with
  | enqueue x start => cases h
  | may_be_start_runner start => cases h
  | resume start => rfl
  | workerReturns start => rfl
  | workerRaises => cases h

/-- The end of the loop notes the answer. -/
theorem after_ends {asked : Asked} {left : List α} {may : Bool}
    (h : loopEnds weight truthy q a = some (left, may)) :
    asked.after weight truthy q a = { asked with held := asked.held && may } := by
  cases a with
  | enqueue x start => cases h
  | may_be_start_runner start => cases h
  | resume start => simp only [Asked.after, h]
  | workerReturns start => simp only [Asked.after, h]
  | workerRaises => cases h

variable {s s' : WorkQueue α γ × Asked}

/-- The same with the record beside it. -/
theorem known_asked (h : Known s.1)
    (hstep : (systemAsked weight truthy).step s a = some s') : Known s'.1 :=
  known_step h (system_effect (Machine.watch_step.mp hstep).1)

/-- As long as the condition has held, only an exception leaves the queue
dead. -/
theorem held_step (hknown : Known s.1)
    (h : NeverDead weight truthy s.2.held s.1)
    (hstep : (systemAsked weight truthy).step s a = some s') :
    NeverDead weight truthy s'.2.held s'.1 ↔ a ≠ .workerRaises := by
  obtain ⟨hsys, hasked⟩ := Machine.watch_step.mp hstep
  rw [hasked]
  cases system_effect hsys with
  | @turnedAway x start hrej hqueue hrunning hgreenlet =>
      refine iff_of_true ?_ nofun
      have hheld :
          (s.2.after weight truthy s.1 (.enqueue x start)).held = s.2.held := by
        simp only [Asked.after, enqueue_rejected hrej, Bool.false_eq_true,
          if_false]
      rw [hheld]
      rw [neverDead_iff] at h ⊢
      rw [hqueue, hrunning, hgreenlet]
      exact h
  | @accepted x start hacc hcalled =>
      refine iff_of_true ?_ nofun
      have hheld : (s.2.after weight truthy s.1 (.enqueue x start)).held
          = s.1.mayRun start := by
        simp only [Asked.after, enqueue_accepted hacc, accept, if_true]
      rw [hheld]
      exact neverDead_called h hcalled
  | asked hcalled =>
      refine iff_of_true ?_ nofun
      exact neverDead_called h hcalled
  | goesOn hown _ _ _ hgreenlet =>
      exact iff_of_true (neverDead_alive hgreenlet) (Step.ne_raises hown)
  | sleeps hends _ _ hgreenlet =>
      refine iff_of_true (neverDead_alive ?_)
        (Step.ne_raises (own_of_loopEnds hends))
      rw [hgreenlet]
      rfl
  | ends hends hqueue hdone hrunning hgreenlet =>
      refine iff_of_true ?_ (Step.ne_raises (own_of_loopEnds hends))
      rw [neverDead_iff, hqueue, hrunning, after_ends hends]
      refine ⟨fun hne hheld => ?_, fun hrun => absurd hrun Bool.false_ne_true⟩
      rcases hdone with hnil | hmay
      · exact absurd hnil hne
      · rw [hmay, Bool.and_false] at hheld
        cases hheld
  | raises hwas hrunning hgreenlet =>
      exact iff_of_false (not_neverDead_raises hknown hwas hrunning hgreenlet)
        fun hne => hne rfl

/-- What the condition says of a step of the runner's own. -/
theorem undisturbed_own (hown : a.own = true) :
    Undisturbed weight truthy s a
      ↔ ∀ left, loopEnds weight truthy s.1 a = some (left, false) →
        left = [] ∨ s.2.lastCall = false := by
  refine and_iff_right ?_
  intro x start ha
  rw [ha] at hown
  cases hown

/-- An item that is turned away asks nothing, and the queue is as it was:
it is dead if the items in it may run now and have no runner. -/
theorem lastCall_rejected {q' : WorkQueue α γ} {x : α} {start : Bool}
    (hknown : Known s.1) (h : NeverDead weight truthy s.2.lastCall s.1)
    (hrej : Rejects weight s.1 x) (hqueue : q'._queue = s.1._queue)
    (hrunning : q'._running = s.1._running)
    (hgreenlet : q'.greenlet = s.1.greenlet) :
    NeverDead weight truthy (s.1.mayRun start) q'
      ↔ Undisturbed weight truthy s (.enqueue x start) := by
  rw [neverDead_iff] at h ⊢
  rw [hqueue, hrunning, hgreenlet]
  constructor
  · intro hdead
    refine ⟨?_, nofun⟩
    intro x' start' ha _ hmay
    injection ha with hx hstart
    rw [← hstart] at hmay
    by_cases hnil : s.1._queue = []
    · exact .inl hnil
    · exact .inr (hknown (hdead.1 hnil hmay))
  · intro hcond
    refine ⟨fun hne hmay => ?_, h.2⟩
    rcases hcond.1 x start rfl hrej hmay with hnil | hrun
    · exact absurd hnil hne
    · exact h.2 hrun

/-- A runner that ends leaves items behind only where the condition no
longer holds. -/
theorem lastCall_ends {q' : WorkQueue α γ} {left : List α} {may : Bool}
    (hends : loopEnds weight truthy s.1 a = some (left, may))
    (hqueue : q'._queue = left) (hdone : left = [] ∨ may = false)
    (hrunning : q'._running = false) (hgreenlet : q'.greenlet = none) :
    NeverDead weight truthy s.2.lastCall q' ↔ Undisturbed weight truthy s a := by
  rw [undisturbed_own (own_of_loopEnds hends), neverDead_iff, hqueue, hrunning,
    hgreenlet, hends]
  constructor
  · intro hdead left' heq
    injection heq with heq
    injection heq with hleft _
    subst hleft
    by_cases hnil : left = []
    · exact .inl hnil
    · refine .inr (Bool.eq_false_iff.mpr fun hlast => ?_)
      exact absurd (hdead.1 hnil hlast) Bool.false_ne_true
  · intro hcond
    refine ⟨fun hne hlast => ?_, fun hrun => absurd hrun Bool.false_ne_true⟩
    rcases hdone with hnil | hmay
    · exact absurd hnil hne
    · rw [hmay] at hcond
      rcases hcond left rfl with hnil | hnot
      · exact absurd hnil hne
      · exact absurd (hlast.symm.trans hnot) Bool.true_eq_false.mp

/-- Read to the letter, by the condition at the last call, the queue also
needs to be undisturbed. -/
theorem lastCall_step (hknown : Known s.1)
    (h : NeverDead weight truthy s.2.lastCall s.1)
    (hstep : (systemAsked weight truthy).step s a = some s') :
    NeverDead weight truthy s'.2.lastCall s'.1
      ↔ a ≠ .workerRaises ∧ Undisturbed weight truthy s a := by
  obtain ⟨hsys, hasked⟩ := Machine.watch_step.mp hstep
  rw [hasked]
  cases system_effect hsys with
  | turnedAway hrej hqueue hrunning hgreenlet =>
      rw [and_iff_right nofun]
      exact lastCall_rejected hknown h hrej hqueue hrunning hgreenlet
  | accepted hacc hcalled =>
      refine iff_of_true (neverDead_called h hcalled) ⟨nofun, ?_, nofun⟩
      intro x' start' ha hrej
      injection ha with hx
      exact absurd (hx ▸ hrej) hacc
  | asked hcalled =>
      exact iff_of_true (neverDead_called h hcalled) ⟨nofun, nofun, nofun⟩
  | goesOn hown hends _ _ hgreenlet =>
      rw [undisturbed_own hown, hends]
      exact iff_of_true (neverDead_alive hgreenlet) ⟨Step.ne_raises hown, nofun⟩
  | sleeps hends _ _ hgreenlet =>
      have hown := own_of_loopEnds hends
      rw [undisturbed_own hown, hends]
      refine iff_of_true (neverDead_alive ?_) ⟨Step.ne_raises hown, nofun⟩
      rw [hgreenlet]
      rfl
  | ends hends hqueue hdone hrunning hgreenlet =>
      rw [and_iff_right (Step.ne_raises (own_of_loopEnds hends)),
        after_ends hends]
      exact lastCall_ends hends hqueue hdone hrunning hgreenlet
  | raises hwas hrunning hgreenlet =>
      exact iff_of_false (not_neverDead_raises hknown hwas hrunning hgreenlet)
        fun hne => hne.1 rfl

-- ============================================================== the runs

/-- In every interleaving on a new queue: while the condition holds, the
queue never goes dead exactly as far as no worker raises; and by the
condition at the last call, exactly as far as it is undisturbed too. -/
theorem work_queue_live_iff (weight : α → Nat) (truthy : α → Bool)
    (start_runner bounded : Bool) (max_qsize : Int) (max_work_load : Nat)
    (high low : List (WaterMark γ)) (as : List (Step α)) :
    let M := systemAsked weight truthy
    let q := (((WorkQueue.new start_runner max_qsize
      max_work_load).set_high_watermarks high).set_low_watermarks low).set_bounded
        bounded
    (M.Each (fun _ _ s' => NeverDead weight truthy s'.2.held s'.1)
        (q, ⟨false, false⟩) as
      ↔ M.Each (fun _ a _ => a ≠ .workerRaises) (q, ⟨false, false⟩) as)
    ∧ (M.Each (fun _ _ s' => NeverDead weight truthy s'.2.lastCall s'.1)
        (q, ⟨false, false⟩) as
      ↔ M.Each (fun s a _ => a ≠ .workerRaises ∧ Undisturbed weight truthy s a)
          (q, ⟨false, false⟩) as) := by
  simp only []
  refine ⟨?_, ?_⟩
  · refine Machine.each_iff (M := systemAsked weight truthy)
      (I := fun s => Known s.1 ∧ NeverDead weight truthy s.2.held s.1)
      ?_ ?_ as ⟨nofun, nofun, nofun⟩
    · intro s a s' hs hstep
      exact held_step hs.1 hs.2 hstep
    · intro s a s' hs hstep hdead
      exact ⟨known_asked hs.1 hstep, hdead⟩
  · refine Machine.each_iff (M := systemAsked weight truthy)
      (I := fun s => Known s.1 ∧ NeverDead weight truthy s.2.lastCall s.1)
      ?_ ?_ as ⟨nofun, nofun, nofun⟩
    · intro s a s' hs hstep
      exact lastCall_step hs.1 hs.2 hstep
    · intro s a s' hs hstep hdead
      exact ⟨known_asked hs.1 hstep, hdead⟩

/-- The worker raises on the first item: `_running` stays set, and the
second item, which may run, waits for no one. -/
theorem queue_dead_after_exception :
    ¬ (systemAsked (γ := Nat) (fun _ : Nat => 1) fun _ => true).Each
      (fun _ _ s' => NeverDead (fun _ => 1) (fun _ => true) s'.2.held s'.1)
      (WorkQueue.new false 0 0, ⟨false, false⟩)
      ([.enqueue 1 true, .resume true, .workerRaises] ++ [.enqueue 2 true]) := by
  intro h
  have hdead := Machine.each_last _ h rfl rfl
  exact hdead.1 (by decide) rfl

end Sandesh.Py.Work
