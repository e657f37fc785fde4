/-
Where the pipelines are, in every state that can be reached.

`n` pipelines have ended, the first `a` have entered their first stage and
those from `m` on wait in `pendPipes_`. At most one pipeline, the one at
`n`, is between the two. One `Phase` says what it does: a call of
`NextStage` is on its way to stage `k`, or the workers of stage `k` are
being enqueued or run, or it is deleted and the lock is not yet taken. The
threads of a phase are all there are but for ends of scopes.

The phases follow each other as long as a step `Fills`: no stage without
instances is created, and no pipeline without stages is started. The step
lemmas for each kind of thread are in Proofs/Steps.lean.
-/
import Mathlib.Data.List.Range
import Mathlib.Data.Multiset.UnionInter
import Sandesh.Pipeline.Basic

namespace Sandesh.Pipeline

open Lib Pipes

variable {δ : Type} {s s' : Pipes δ}

-- ============================================================== the log

/-- Every instance of stage `j` of the pipeline `p` has returned true
exactly once. -/
def Done (log : List Event) (p j : Nat) (st : StageSpec δ) : Prop :=
  ∀ i < st.instances_.length, log.count (.returned p j i true) = 1

/-- What must have happened before an event. -/
def EventOk (specs : List (PipeSpec δ)) (before : List Event) : Event → Prop
  | .entered p k =>
      k = 0 →
        (∀ q, .entered q 0 ∈ before ↔ q < p) ∧ ∀ q < p, .ended q ∈ before
  | .called p ss stage i =>
      .entered p 0 ∈ before ∧ .ended p ∉ before ∧
      ∃ spec, specs[p]? = some spec ∧ ∃ k : Nat, ss = k ∧ stage = k ∧
        (∃ st, spec.stages_[k]? = some st ∧ i < st.instances_.length) ∧
        ∀ j < k, ∀ st, spec.stages_[j]? = some st → Done before p j st
  | .returned p stage i ret => ret = true → .returned p stage i true ∉ before
  | .ended p =>
      ∃ spec, specs[p]? = some spec ∧
        ∀ j st, spec.stages_[j]? = some st → Done before p j st

/-- Every entry of the log was right when it was made. -/
def LogOk (specs : List (PipeSpec δ)) : List Event → Prop
  | [] => True
  | e :: before => EventOk specs before e ∧ LogOk specs before

theorem EventOk.append {specs : List (PipeSpec δ)} {before : List Event}
    {e : Event} (spec : PipeSpec δ) (h : EventOk specs before e) :
    EventOk (specs ++ [spec]) before e := by
  have more : ∀ {p : Nat} {x : PipeSpec δ}, specs[p]? = some x →
      (specs ++ [spec])[p]? = some x := by
    intro p x hx
    rw [List.getElem?_append_left (List.getElem?_eq_some_iff.mp hx).1]
    exact hx
  cases e with
  | entered p k => exact h
  | called p ss stage i =>
      obtain ⟨hent, hend, x, hx, hrest⟩ := h
      exact ⟨hent, hend, x, more hx, hrest⟩
  | returned p stage i ret => exact h
  | ended p =>
      obtain ⟨x, hx, hdone⟩ := h
      exact ⟨x, more hx, hdone⟩

theorem LogOk.append {specs : List (PipeSpec δ)} (spec : PipeSpec δ) :
    ∀ {log : List Event}, LogOk specs log → LogOk (specs ++ [spec]) log := by
  intro log
  induction log with
  | nil => exact id
  | cons e log ih =>
      intro h
      exact ⟨h.1.append spec, ih h.2⟩

/-- No instance returns true twice. -/
theorem LogOk.count {specs : List (PipeSpec δ)} {p i : Nat} {k : Int} :
    ∀ {log : List Event}, LogOk specs log →
      .returned p k i true ∈ log → log.count (.returned p k i true) = 1 := by
  intro log
  induction log with
  | nil =>
      intro _ h
      cases h
  | cons e log ih =>
      intro h hmem
      by_cases he : e = .returned p k i true
      · subst he
        rw [List.count_cons_self, List.count_eq_zero_of_not_mem (h.1 rfl)]
      · rw [List.count_cons_of_ne he]
        refine ih h.2 ?_
        rcases List.mem_cons.mp hmem with heq | hmem
        · exact absurd heq.symm he
        · exact hmem

-- =========================================================== the phases

/-- The stage numbers a worker has read are `k`. -/
def Pc.At (k : Nat) : Pc → Prop
  | .queued => True
  | .running ss => ss = k
  | .passing ss stage => ss = k ∧ stage = k
  | .called stage => stage = k
  | .done => True
  | .decr stage => stage = k

/-- The callback has returned true. -/
def Pc.Returned : Pc → Prop
  | .done => True
  | .decr _ => True
  | _ => False

/-- The thread holds `mutex_` and is not waiting for it. -/
def Thread.Holds : Thread → Prop
  | .unlock => True
  | .nextStage _ holds pc => holds = true ∧ pc ≠ .ended
  | .worker _ _ _ => False

/-- The stages below `k` of the pipeline `n` are complete. -/
def Below (spec : PipeSpec δ) (log : List Event) (n k : Nat) : Prop :=
  ∀ j < k, ∀ st, spec.stages_[j]? = some st →
    ∀ i < st.instances_.length, .returned n j i true ∈ log

/-- Between two stages: `k` stages are behind the pipeline, and no instance
of another one has returned. -/
structure Between (spec : PipeSpec δ) (pipe : PipeImpl δ) (log : List Event)
    (n k : Nat) : Prop where
  spec_ : pipe.spec_ = spec
  length : pipe.stageImpls_.length = k
  below : Below spec log n k
  only : ∀ j i, .returned n j i true ∈ log → j < (k : Int)

/-- In stage `k`: `e` workers have been enqueued, `W` of them are left. -/
structure Working (spec : PipeSpec δ) (pipe : PipeImpl δ) (log : List Event)
    (n k e : Nat) (st : StageSpec δ) (W : Multiset (Nat × Pc)) : Prop where
  spec_ : pipe.spec_ = spec
  stage : spec.stages_[k]? = some st
  current : pipe.currentStage_ = k
  length : pipe.stageImpls_.length = k + 1
  impl : ∃ impl, pipe.stageImpls_[k]? = some impl ∧
    impl.remainingInst_ + e = st.instances_.length + W.card ∧
    (st.allocFn_.isSome → impl.data_.length = st.instances_.length)
  below : Below spec log n k
  le : e ≤ st.instances_.length
  nodup : (W.map Prod.fst).Nodup
  lt : ∀ w ∈ W, w.1 < e
  at_ : ∀ w ∈ W, w.2.At k
  returned : ∀ i < e, (∀ pc, (i, pc) ∈ W → pc.Returned) →
    .returned n k i true ∈ log
  only : ∀ j i, .returned n j i true ∈ log →
    j < (k : Int) ∨ (j = k ∧ i < e ∧ ∀ pc, (i, pc) ∈ W → pc.Returned)

/-- The workers as threads. -/
def workers (n : Nat) (W : Multiset (Nat × Pc)) : Multiset Thread :=
  W.map fun w => .worker n w.1 w.2

@[simp] theorem workers_zero (n : Nat) : workers n 0 = 0 := rfl

@[simp] theorem workers_cons (n i : Nat) (pc : Pc) (W : Multiset (Nat × Pc)) :
    workers n ((i, pc) ::ₘ W) = .worker n i pc ::ₘ workers n W :=
  Multiset.map_cons _ _ _

theorem mem_workers {n : Nat} {W : Multiset (Nat × Pc)} {th : Thread} :
    th ∈ workers n W ↔ ∃ i pc, (i, pc) ∈ W ∧ th = .worker n i pc := by
  unfold workers
  rw [Multiset.mem_map]
  constructor
  · rintro ⟨⟨i, pc⟩, hw, rfl⟩
    exact ⟨i, pc, hw, rfl⟩
  · rintro ⟨i, pc, hw, rfl⟩
    exact ⟨(i, pc), hw, rfl⟩

/-- Threads at the end of a scope. -/
def unlocks (u : Nat) : Multiset Thread := Multiset.replicate u .unlock

theorem unlocks_succ (u : Nat) : unlocks (u + 1) = .unlock ::ₘ unlocks u :=
  Multiset.replicate_succ _ _

/-- The pipeline `n` and its specification are in their places. -/
structure Placed (s : Pipes δ) (n : Nat) (spec : PipeSpec δ)
    (pipe : PipeImpl δ) : Prop where
  spec : s.specs[n]? = some spec
  heap : s.heap n = some pipe
  active : s.activePipes_ = 1

/-- What the pipeline `n` does, how many have entered a stage or left
`pendPipes_`, and its threads. -/
inductive Phase (s : Pipes δ) (n : Nat) :
    Nat → Nat → Multiset Thread → Prop
  | idle (active : s.activePipes_ = 0) (all : s.specs.length = n) :
      Phase s n n n 0
  | enter {spec pipe k h a} (placed : Placed s n spec pipe)
      (between : Between spec pipe s.log n k)
      (current : pipe.currentStage_ + 1 = k)
      (le : k ≤ spec.stages_.length)
      (first : h = true ↔ k = 0)
      (entered : a = if k = 0 then n else n + 1) :
      Phase s n a (n + 1) {.nextStage n h .enter}
  | create {spec p k h} (placed : Placed s n spec p)
      (between : Between spec p s.log n k)
      (current : p.currentStage_ = k)
      (lt : k < spec.stages_.length) :
      Phase s n (n + 1) (n + 1) {.nextStage n h .create}
  | enqueue {spec pipe k st W e h} (placed : Placed s n spec pipe)
      (working : Working spec pipe s.log n k e st W)
      (lt : e < st.instances_.length) :
      Phase s n (n + 1) (n + 1)
        (.nextStage n h (.enqueue st.instances_.length e) ::ₘ workers n W)
  | run {spec pipe k st W} (placed : Placed s n spec pipe)
      (working : Working spec pipe s.log n k st.instances_.length st W)
      (left : W ≠ 0) :
      Phase s n (n + 1) (n + 1) (workers n W)
  | closing {p} (active : s.activePipes_ = 1) :
      Phase s n n n {.nextStage p false .ended}

/-- `n` pipelines have ended, `a` have entered a stage, those from `m` on
wait. -/
structure Queue (s : Pipes δ) (n a m : Nat) : Prop where
  fault : s.fault = false
  le : m ≤ s.specs.length
  pend : s.pendPipes_ = List.range' m (s.specs.length - m)
  fresh : ∀ q spec, m ≤ q → s.specs[q]? = some spec →
    s.heap q = some (.new spec)
  ended : ∀ q, .ended q ∈ s.log ↔ q < n
  entered : ∀ q, .entered q 0 ∈ s.log ↔ q < a
  untouched : ∀ q j i, .returned q j i true ∈ s.log → q < m
  log : LogOk s.specs s.log

/-- If `mutex_` is taken, some thread will go on and release it. -/
def Held (s : Pipes δ) : Prop :=
  s.mutex_ = true → ∃ th ∈ s.threads, th.Holds

/-- What holds in every schedule. -/
structure Inv (s : Pipes δ) : Prop where
  held : Held s
  phase : ∃ n a m D u, Queue s n a m ∧ Phase s n a m D ∧
    s.threads = D + unlocks u

/-- A step that starts no pipeline without stages and creates no stage
without instances. -/
def Fills (s : Pipes δ) : Action δ → Prop
  | .go (.nextStage p holds .enter) _ =>
      ∀ pipe, s.heap p = some pipe → holds = true →
        pipe.currentStage_ + 1 ≠ pipe.spec_.stages_.length
  | .go (.nextStage p _ .create) _ =>
      ∀ pipe st, s.heap p = some pipe →
        nth pipe.spec_.stages_ pipe.currentStage_ = some st →
        st.instances_ ≠ []
  | _ => True

-- ============================================================ the queue

theorem nth_nat {α : Type} (l : List α) (k : Nat) : nth l k = l[k]? := rfl

section Kept

variable {n a m : Nat}

/-- A step that leaves the log, the queue and the waiting pipelines as they
are. -/
theorem Queue.keep (h : Queue s n a m) (fault : s'.fault = s.fault)
    (specs : s'.specs = s.specs) (pend : s'.pendPipes_ = s.pendPipes_)
    (heap : ∀ q, m ≤ q → s'.heap q = s.heap q) (log : s'.log = s.log) :
    Queue s' n a m where
  fault := fault.trans h.fault
  le := by rw [specs]; exact h.le
  pend := by rw [pend, specs]; exact h.pend
  fresh := by
    intro q spec hq hspec
    rw [heap q hq]
    rw [specs] at hspec
    exact h.fresh q spec hq hspec
  ended := by rw [log]; exact h.ended
  entered := by rw [log]; exact h.entered
  untouched := by rw [log]; exact h.untouched
  log := by rw [log, specs]; exact h.log

/-- A step that calls a callback or returns from one. -/
theorem Queue.emit (h : Queue s n a m) {e : Event} (ok : EventOk s.specs s.log e)
    (hend : ∀ q, e ≠ .ended q) (hent : ∀ q, e ≠ .entered q 0)
    (hret : ∀ q j i, e = .returned q j i true → q < m) :
    Queue (s.emit e) n a m where
  fault := h.fault
  le := h.le
  pend := h.pend
  fresh := h.fresh
  ended := by
    intro q
    rw [← h.ended q]
    exact ⟨fun hq => (List.mem_cons.mp hq).resolve_left (hend q).symm,
      List.mem_cons_of_mem e⟩
  entered := by
    intro q
    rw [← h.entered q]
    exact ⟨fun hq => (List.mem_cons.mp hq).resolve_left (hent q).symm,
      List.mem_cons_of_mem e⟩
  untouched := by
    intro q j i hq
    rcases List.mem_cons.mp hq with he | hq
    · exact hret q j i he.symm
    · exact h.untouched q j i hq
  log := ⟨ok, h.log⟩

end Kept

-- ============================================================== workers

section Workers

variable {spec : PipeSpec δ} {pipe : PipeImpl δ} {log : List Event}
  {n k e i : Nat} {st : StageSpec δ} {W : Multiset (Nat × Pc)} {pc pc' : Pc}

theorem Working.not_mem (h : Working spec pipe log n k e st ((i, pc) ::ₘ W)) :
    ∀ pc', (i, pc') ∉ W := by
  intro pc' hmem
  have hnodup := h.nodup
  rw [Multiset.map_cons, Multiset.nodup_cons] at hnodup
  exact hnodup.1 (Multiset.mem_map.mpr ⟨(i, pc'), hmem, rfl⟩)

/-- Nothing but returns of true matters. -/
theorem Working.of_log (h : Working spec pipe log n k e st W)
    {log' : List Event}
    (hlog : ∀ j i, .returned n j i true ∈ log' ↔ .returned n j i true ∈ log) :
    Working spec pipe log' n k e st W :=
  { h with
    below := fun j hj st hst i hi => (hlog j i).mpr (h.below j hj st hst i hi)
    returned := fun i hi hret => (hlog k i).mpr (h.returned i hi hret)
    only := fun j i hmem => h.only j i ((hlog j i).mp hmem) }

/-- A worker that moves on without returning true. -/
theorem Working.move (h : Working spec pipe log n k e st ((i, pc) ::ₘ W))
    (hat : pc'.At k) (hret : pc'.Returned ↔ pc.Returned) :
    Working spec pipe log n k e st ((i, pc') ::ₘ W) := by
  have hiff : ∀ x, (∀ y, (x, y) ∈ (i, pc') ::ₘ W → y.Returned)
      ↔ ∀ y, (x, y) ∈ (i, pc) ::ₘ W → y.Returned := by
    intro x
    simp only [Multiset.mem_cons, Prod.mk.injEq]
    constructor
    · rintro hx y (⟨rfl, rfl⟩ | hy)
      · exact hret.mp (hx pc' (.inl ⟨rfl, rfl⟩))
      · exact hx y (.inr hy)
    · rintro hx y (⟨rfl, rfl⟩ | hy)
      · exact hret.mpr (hx pc (.inl ⟨rfl, rfl⟩))
      · exact hx y (.inr hy)
  refine { h with impl := ?_, nodup := ?_, lt := ?_, at_ := ?_, returned := ?_, only := ?_ }
  · obtain ⟨impl, himpl, hleft, hdata⟩ := h.impl
    rw [Multiset.card_cons] at hleft
    exact ⟨impl, himpl, by rw [Multiset.card_cons]; exact hleft, hdata⟩
  · have hnodup := h.nodup
    rw [Multiset.map_cons] at hnodup
    rwa [Multiset.map_cons]
  · intro w hw
    rcases Multiset.mem_cons.mp hw with rfl | hw
    · exact h.lt (i, pc) (Multiset.mem_cons_self _ _)
    · exact h.lt w (Multiset.mem_cons_of_mem hw)
  · intro w hw
    rcases Multiset.mem_cons.mp hw with rfl | hw
    · exact hat
    · exact h.at_ w (Multiset.mem_cons_of_mem hw)
  · intro x hx hall
    exact h.returned x hx ((hiff x).mp hall)
  · intro j x hmem
    rcases h.only j x hmem with hj | ⟨hj, hx, hall⟩
    · exact .inl hj
    · exact .inr ⟨hj, hx, (hiff x).mpr hall⟩

/-- A worker whose callback returns true. -/
theorem Working.finish (h : Working spec pipe log n k e st ((i, pc) ::ₘ W)) :
    Working spec pipe (.returned n k i true :: log) n k e st
      ((i, .done) ::ₘ W) := by
  have hi : i < e := h.lt (i, pc) (Multiset.mem_cons_self _ _)
  refine { h with below := ?_, impl := ?_, nodup := ?_, lt := ?_, at_ := ?_, returned := ?_, only := ?_ }
  · obtain ⟨impl, himpl, hleft, hdata⟩ := h.impl
    rw [Multiset.card_cons] at hleft
    exact ⟨impl, himpl, by rw [Multiset.card_cons]; exact hleft, hdata⟩
  · intro j hj st hst x hx
    exact List.mem_cons_of_mem _ (h.below j hj st hst x hx)
  · have hnodup := h.nodup
    rw [Multiset.map_cons] at hnodup
    rwa [Multiset.map_cons]
  · intro w hw
    rcases Multiset.mem_cons.mp hw with rfl | hw
    · exact hi
    · exact h.lt w (Multiset.mem_cons_of_mem hw)
  · intro w hw
    rcases Multiset.mem_cons.mp hw with rfl | hw
    · trivial
    · exact h.at_ w (Multiset.mem_cons_of_mem hw)
  · intro x hx hall
    by_cases hxi : x = i
    · rw [hxi]
      exact List.mem_cons_self
    · refine List.mem_cons_of_mem _ (h.returned x hx fun y hy => ?_)
      rcases Multiset.mem_cons.mp hy with heq | hy
      · exact absurd (congrArg Prod.fst heq) hxi
      · exact hall y (Multiset.mem_cons_of_mem hy)
  · intro j x hmem
    rcases List.mem_cons.mp hmem with heq | hmem
    · injection heq with _ hj hx _
      refine .inr ⟨hj, hx ▸ hi, fun y hy => ?_⟩
      rcases Multiset.mem_cons.mp hy with heq | hy
      · injection heq with _ hy
        rw [hy]
        trivial
      · exact absurd (hx ▸ hy) (h.not_mem y)
    · rcases h.only j x hmem with hj | ⟨hj, hx, hall⟩
      · exact .inl hj
      · refine .inr ⟨hj, hx, fun y hy => ?_⟩
        rcases Multiset.mem_cons.mp hy with heq | hy
        · injection heq with _ hy
          rw [hy]
          trivial
        · exact hall y (Multiset.mem_cons_of_mem hy)

/-- The pipeline after `DecrInst` on stage `c`. -/
def decremented (pipe : PipeImpl δ) (c : Nat) (impl : StageImpl δ) :
    PipeImpl δ :=
  { pipe with
    stageImpls_ := pipe.stageImpls_.set c
      { impl with remainingInst_ := impl.remainingInst_ - 1 } }

/-- A worker that is not the last one. -/
theorem Working.decr {impl : StageImpl δ}
    (h : Working spec pipe log n k e st ((i, pc) ::ₘ W)) (hpc : pc.Returned)
    (himpl : pipe.stageImpls_[k]? = some impl) :
    Working spec (decremented pipe k impl) log n k e st W := by
  have hall : ∀ x, (∀ y, (x, y) ∈ (i, pc) ::ₘ W → y.Returned)
      ↔ ∀ y, (x, y) ∈ W → y.Returned := by
    intro x
    simp only [Multiset.mem_cons, Prod.mk.injEq]
    constructor
    · intro hx y hy
      exact hx y (.inr hy)
    · rintro hx y (⟨-, rfl⟩ | hy)
      · exact hpc
      · exact hx y hy
  refine { h with length := ?_, impl := ?_, nodup := ?_, lt := ?_, at_ := ?_, returned := ?_, only := ?_ }
  · show (pipe.stageImpls_.set _ _).length = _
    rw [List.length_set]
    exact h.length
  · obtain ⟨impl', himpl', hleft, hdata⟩ := h.impl
    obtain rfl : impl = impl' := Option.some.inj (himpl.symm.trans himpl')
    refine ⟨_, List.getElem?_set_self (by rw [h.length]; omega), ?_, hdata⟩
    rw [Multiset.card_cons] at hleft
    show impl.remainingInst_ - 1 + e = _
    push_cast at hleft
    omega
  · have hnodup := h.nodup
    rw [Multiset.map_cons, Multiset.nodup_cons] at hnodup
    exact hnodup.2
  · intro w hw
    exact h.lt w (Multiset.mem_cons_of_mem hw)
  · intro w hw
    exact h.at_ w (Multiset.mem_cons_of_mem hw)
  · intro x hx hret
    exact h.returned x hx ((hall x).mpr hret)
  · intro j x hmem
    rcases h.only j x hmem with hj | ⟨hj, hx, hret⟩
    · exact .inl hj
    · exact .inr ⟨hj, hx, (hall x).mp hret⟩

/-- What `remainingInst_` says before a worker's decrement. -/
theorem Working.remaining {impl : StageImpl δ}
    (h : Working spec pipe log n k e st ((i, pc) ::ₘ W))
    (himpl : pipe.stageImpls_[k]? = some impl) :
    impl.remainingInst_ = 1 ↔ e = st.instances_.length ∧ W = 0 := by
  obtain ⟨impl', himpl', hleft, -⟩ := h.impl
  obtain rfl : impl = impl' := Option.some.inj (himpl.symm.trans himpl')
  rw [Multiset.card_cons] at hleft
  rw [← Multiset.card_eq_zero]
  have hle := h.le
  push_cast at hleft
  omega

/-- When the last worker has left, the stage is complete. -/
theorem Working.between
    (h : Working spec pipe log n k st.instances_.length st 0) :
    Between spec pipe log n (k + 1) where
  spec_ := h.spec_
  length := h.length
  below := by
    intro j hj st' hst' x hx
    by_cases hjk : j = k
    · subst hjk
      obtain rfl : st = st' := Option.some.inj (h.stage.symm.trans hst')
      exact h.returned x hx fun y hy => absurd hy (Multiset.notMem_zero _)
    · exact h.below j (by omega) st' hst' x hx
  only := by
    intro j x hmem
    rcases h.only j x hmem with hj | ⟨hj, -, -⟩ <;> omega

end Workers

end Sandesh.Pipeline
