/-
Pipelines are served one at a time, stage by stage, and in order.

`Ordered` says it of a state: of its log (`LogOk`), of the callbacks that
run and of the counters. It holds in every state that can be reached from
pipelines with at least one stage and at least one instance in each
(`pipelines_in_order`).
-/
import Sandesh.Pipeline.Proofs.Steps

namespace Sandesh.Pipeline

open Lib Pipes

variable {δ : Type} {s s' : Pipes δ}

-- ======================================================= specifications

/-- A specification with something to do in every stage. -/
structure PipeSpec.Full (spec : PipeSpec δ) : Prop where
  stages : spec.stages_ ≠ []
  instances : ∀ st ∈ spec.stages_, st.instances_ ≠ []

/-- What is constructed is full. -/
def Action.Full : Action δ → Prop
  | .construct spec => spec.Full
  | .go _ _ => True

theorem leave_specs (s : Pipes δ) (holds : Bool) :
    (s.leave holds).specs = s.specs := by
  cases holds <;> rfl

theorem work_specs (s : Pipes δ) (p i : Nat) (pipe : PipeImpl δ) (ret : Bool)
    (pc : Pc) : (s.work p i pipe ret pc).specs = s.specs := by
  cases pc with
  | queued | passing | done | decr =>
      simp only [work]
      repeat' split
      all_goals rfl
  | running | called => rfl

theorem nextStage_specs (s : Pipes δ) (p : Nat) (holds : Bool)
    (pipe : PipeImpl δ) (pc : NextPc) :
    (s.nextStage p holds pipe pc).specs = s.specs := by
  cases pc with
  | enter =>
      simp only [Pipes.nextStage]
      split <;> rfl
  | create =>
      simp only [Pipes.nextStage]
      repeat' split
      · rfl
      · rfl
      · exact leave_specs _ holds
  | enqueue insts i =>
      simp only [Pipes.nextStage]
      split
      · rfl
      · exact leave_specs _ holds
  | ended => rfl

theorem exec_specs {ret : Bool} {th : Thread} (h : s.exec ret th = some s') :
    s'.specs = s.specs := by
  cases th with
  | worker p i pc =>
      simp only [exec] at h
      split at h
      · obtain rfl := Option.some.inj h
        rfl
      · obtain rfl := Option.some.inj h
        exact work_specs ..
  | nextStage p holds pc =>
      by_cases hpc : pc = .ended
      · subst hpc
        simp only [exec, lockAndPop] at h
        split at h
        · cases h
        · split at h <;> (obtain rfl := Option.some.inj h; rfl)
      · simp only [exec] at h
        split at h
        · obtain rfl := Option.some.inj h
          rfl
        · obtain rfl := Option.some.inj h
          exact nextStage_specs ..
  | unlock =>
      obtain rfl := Option.some.inj h
      rfl

/-- Every pipeline so far has something to do in every stage. -/
def AllFull (s : Pipes δ) : Prop := ∀ spec ∈ s.specs, spec.Full

/-- A specification in its place is one that was constructed. -/
theorem Placed.full {n : Nat} {spec : PipeSpec δ} {pipe : PipeImpl δ}
    (h : Placed s n spec pipe) (hall : AllFull s) : spec.Full :=
  hall spec (List.mem_of_getElem? h.spec)

theorem step_allFull {a : Action δ} (h : AllFull s)
    (hstep : (pipes δ).step s a = some s') (ha : a.Full) : AllFull s' := by
  cases a with
  | construct spec =>
      have hspecs : s'.specs = s.specs ++ [spec] := by
        change s.construct spec = some s' at hstep
        unfold construct at hstep
        split at hstep
        · cases hstep
        · dsimp only at hstep
          split at hstep <;> (obtain rfl := Option.some.inj hstep; rfl)
      intro x hx
      rw [hspecs] at hx
      rcases List.mem_append.mp hx with hx | hx
      · exact h x hx
      · rw [List.mem_singleton.mp hx]
        exact ha
  | go th ret =>
      obtain ⟨rest, -, hexec⟩ := go_step.mp hstep
      intro x hx
      rw [exec_specs hexec] at hx
      exact h x hx

-- ============================================================ every step

theorem Inv.mem_phase {th : Thread} (hI : Inv s) (hmem : th ∈ s.threads)
    (hth : th ≠ .unlock) :
    ∃ n a m D u, Queue s n a m ∧ Phase s n a m D ∧
      s.threads = D + unlocks u ∧ th ∈ D := by
  obtain ⟨n, a, m, D, u, hq, hphase, hthreads⟩ := hI.phase
  refine ⟨n, a, m, D, u, hq, hphase, hthreads, ?_⟩
  rw [hthreads] at hmem
  rcases Multiset.mem_add.mp hmem with hD | hu
  · exact hD
  · exact absurd (Multiset.eq_of_mem_replicate hu) hth

/-- A thread that enters `NextStage` with the lock starts a pipeline. -/
theorem Inv.entering {p : Nat} (hI : Inv s)
    (hmem : .nextStage p true .enter ∈ s.threads) :
    ∃ spec, s.specs[p]? = some spec ∧ s.heap p = some (.new spec) := by
  obtain ⟨n, a, m, D, u, hq, hphase, hthreads, hD⟩ := hI.mem_phase hmem nofun
  cases hphase with
  | idle => exact absurd hD (Multiset.notMem_zero _)
  | @enter spec pipe k holds a placed between current le first entered =>
      have heq := Multiset.mem_singleton.mp hD
      injection heq with hp hholds
      subst hp hholds
      obtain rfl := first.mp rfl
      have hpipe : pipe = .new spec := by
        obtain ⟨pspec, impls, cur⟩ := pipe
        obtain rfl := between.spec_
        obtain rfl := List.length_eq_zero_iff.mp between.length
        obtain rfl : cur = -1 := by
          change cur + 1 = 0 at current
          omega
        rfl
      exact ⟨spec, placed.spec, hpipe ▸ placed.heap⟩
  | create | closing => cases Multiset.mem_singleton.mp hD
  | enqueue =>
      rcases Multiset.mem_cons.mp hD with heq | hmem
      · cases heq
      · exact absurd hmem nextStage_notMem_workers
  | run => exact absurd hD nextStage_notMem_workers

/-- A thread that creates a stage is alone with its pipeline. -/
theorem Inv.creating {p : Nat} {holds : Bool} (hI : Inv s)
    (hmem : .nextStage p holds .create ∈ s.threads) :
    ∃ spec pipe u, Placed s p spec pipe ∧ pipe.spec_ = spec ∧
      s.threads = {.nextStage p holds .create} + unlocks u := by
  obtain ⟨n, a, m, D, u, hq, hphase, hthreads, hD⟩ := hI.mem_phase hmem nofun
  cases hphase with
  | idle => exact absurd hD (Multiset.notMem_zero _)
  | create placed between current lt =>
      have heq := Multiset.mem_singleton.mp hD
      injection heq with hp hholds
      subst hp hholds
      exact ⟨_, _, u, placed, between.spec_, hthreads⟩
  | enter | closing => cases Multiset.mem_singleton.mp hD
  | enqueue =>
      rcases Multiset.mem_cons.mp hD with heq | hmem
      · cases heq
      · exact absurd hmem nextStage_notMem_workers
  | run => exact absurd hD nextStage_notMem_workers

theorem mem_of_nth {α : Type} {l : List α} {i : Int} {x : α}
    (h : nth l i = some x) : x ∈ l := by
  unfold nth at h
  split at h
  · exact List.mem_of_getElem? h
  · cases h

theorem step_fills {a : Action δ} (hI : Inv s) (hall : AllFull s)
    (hstep : (pipes δ).step s a = some s') : Fills s a := by
  cases a with
  | construct spec => trivial
  | go th ret =>
      obtain ⟨rest, hs, -⟩ := go_step.mp hstep
      have hmem : th ∈ s.threads := by
        rw [hs]
        exact Multiset.mem_cons_self _ rest
      cases th with
      | worker | unlock => trivial
      | nextStage p holds pc =>
          cases pc with
          | enqueue | ended => trivial
          | enter =>
              intro pipe hpipe hholds
              subst hholds
              obtain ⟨spec, hspec, hheap⟩ := hI.entering hmem
              obtain rfl := Option.some.inj (hheap.symm.trans hpipe)
              have hne := (hall spec (List.mem_of_getElem? hspec)).stages
              have hpos := List.length_pos_of_ne_nil hne
              show (-1 : Int) + 1 ≠ spec.stages_.length
              omega
          | create =>
              intro pipe st hpipe hst
              obtain ⟨spec, pipe', u, placed, hspec, -⟩ := hI.creating hmem
              obtain rfl := Option.some.inj (placed.heap.symm.trans hpipe)
              rw [hspec] at hst
              exact (hall spec (List.mem_of_getElem? placed.spec)).instances st
                (mem_of_nth hst)

-- ========================================================== every state

/-- At most one pipeline is being served, in order and stage by stage;
callbacks see the data of the complete stages; the counters go back to
where they were; and as long as a pipeline has not ended some thread can
go on. -/
structure Ordered (s : Pipes δ) : Prop where
  fault : s.fault = false
  log : LogOk s.specs s.log
  one : ∀ p q, .entered p 0 ∈ s.log → .ended p ∉ s.log →
    .entered q 0 ∈ s.log → .ended q ∉ s.log → p = q
  data : ∀ p i k, .worker p i (.called k) ∈ s.threads →
    ∃ spec pipe, s.specs[p]? = some spec ∧ s.heap p = some pipe ∧
      ∀ j : Nat, (pipe.GetStageData j).isSome ↔
        ∃ st, spec.stages_[j]? = some st ∧ Done s.log p j st
  served : (∀ p < s.specs.length, .ended p ∈ s.log) →
    s.pendPipes_ = [] ∧ (s.activePipes_ = 0 ↔
      ∀ p holds, .nextStage p holds .ended ∉ s.threads)
  live : ∀ p < s.specs.length, .ended p ∉ s.log →
    ∃ th ret, ((pipes δ).step s (.go th ret)).isSome

/-- How far the pipeline that is not waiting has come. -/
theorem Phase.bounds {n a m : Nat} {D : Multiset Thread}
    (h : Phase s n a m D) : n ≤ a ∧ a ≤ n + 1 ∧ n ≤ m := by
  cases h with
  | enter placed between current le first entered =>
      rw [entered]
      split <;> omega
  | idle | create | enqueue | run | closing => omega

/-- A worker belongs to the stage of the phase. -/
theorem Inv.working {p i : Nat} {pc : Pc} (hI : Inv s)
    (hmem : .worker p i pc ∈ s.threads) :
    ∃ spec pipe k e st W, Placed s p spec pipe ∧ LogOk s.specs s.log ∧
      Working spec pipe s.log p k e st W ∧ (i, pc) ∈ W := by
  obtain ⟨n, a, m, D, u, hq, hphase, hthreads, hD⟩ := hI.mem_phase hmem nofun
  have hworkers : ∀ {W}, .worker p i pc ∈ workers n W → p = n ∧ (i, pc) ∈ W := by
    intro W hW
    obtain ⟨i', pc', hw, heq⟩ := mem_workers.mp hW
    injection heq with hp hi hpc
    subst hi hpc
    exact ⟨hp, hw⟩
  cases hphase with
  | idle => exact absurd hD (Multiset.notMem_zero _)
  | enter | create | closing => cases Multiset.mem_singleton.mp hD
  | enqueue placed working lt =>
      rcases Multiset.mem_cons.mp hD with heq | hW
      · cases heq
      · obtain ⟨rfl, hw⟩ := hworkers hW
        exact ⟨_, _, _, _, _, _, placed, hq.log, working, hw⟩
  | run placed working left =>
      obtain ⟨rfl, hw⟩ := hworkers hD
      exact ⟨_, _, _, _, _, _, placed, hq.log, working, hw⟩

/-- Inside a callback, a stage has data to show exactly if it is
complete. -/
theorem Working.getStageData {spec : PipeSpec δ} {pipe : PipeImpl δ}
    {n k e i : Nat} {st : StageSpec δ} {W : Multiset (Nat × Pc)} {pc : Pc}
    (hw : Working spec pipe s.log n k e st W) (hmem : (i, pc) ∈ W)
    (hpc : ¬ pc.Returned) (hfull : spec.Full) (hlog : LogOk s.specs s.log)
    (j : Nat) :
    (pipe.GetStageData j).isSome ↔
      ∃ st, spec.stages_[j]? = some st ∧ Done s.log n j st := by
  have hk := (List.getElem?_eq_some_iff.mp hw.stage).1
  unfold PipeImpl.GetStageData
  rw [hw.current]
  by_cases hj : j < k
  · have hlt : j < pipe.stageImpls_.length := by
      rw [hw.length]
      omega
    obtain ⟨st', hst'⟩ : ∃ st', spec.stages_[j]? = some st' :=
      ⟨_, List.getElem?_eq_getElem (by omega)⟩
    rw [if_neg (by omega), nth_nat, List.getElem?_eq_getElem hlt]
    exact ⟨fun _ => ⟨st', hst', hw.below.done hlog j hj st' hst'⟩, fun _ => rfl⟩
  · rw [if_pos (by omega)]
    constructor
    · intro h
      cases h
    · rintro ⟨st', hst', hdone⟩
      -- an instance of this stage that cannot have returned: this one, or
      -- any one of a later stage
      have hwait : ∃ x < st'.instances_.length,
          .returned n j x true ∉ s.log := by
        by_cases hjk : j = k
        · subst hjk
          obtain rfl := Option.some.inj (hw.stage.symm.trans hst')
          refine ⟨i, Nat.lt_of_lt_of_le (hw.lt _ hmem) hw.le, fun hret => ?_⟩
          rcases hw.only j i hret with hlt | ⟨-, -, hall⟩
          · omega
          · exact hpc (hall pc hmem)
        · have hne := hfull.instances st' (List.mem_of_getElem? hst')
          refine ⟨0, List.length_pos_of_ne_nil hne, fun hret => ?_⟩
          rcases hw.only j 0 hret with hlt | ⟨heq, -, -⟩ <;> omega
      obtain ⟨x, hx, hnot⟩ := hwait
      have hcount := hdone x hx
      rw [List.count_eq_zero_of_not_mem hnot] at hcount
      cases hcount

/-- Only a thread that waits for `mutex_` cannot go on at once. -/
theorem exec_isSome (s : Pipes δ) (ret : Bool) {th : Thread}
    (hth : ∀ p holds, th ≠ .nextStage p holds .ended) :
    (s.exec ret th).isSome := by
  cases th with
  | worker p i pc =>
      simp only [exec]
      split <;> rfl
  | nextStage p holds pc =>
      cases pc with
      | ended => exact absurd rfl (hth p holds)
      | enter | create | enqueue =>
          simp only [exec]
          split <;> rfl
  | unlock => rfl

theorem go_isSome {th : Thread} (hmem : th ∈ s.threads)
    (hth : ∀ p holds, th ≠ .nextStage p holds .ended) :
    ∃ th ret, ((pipes δ).step s (.go th ret)).isSome := by
  refine ⟨th, true, ?_⟩
  obtain ⟨s', hs'⟩ := Option.isSome_iff_exists.mp
    (exec_isSome { s with threads := s.threads.erase th } true hth)
  rw [Option.isSome_iff_exists]
  exact ⟨s', go_step.mpr ⟨_, (Multiset.cons_erase hmem).symm, hs'⟩⟩

/-- A thread that waits for `mutex_` waits for one that can go on. -/
theorem Inv.live (hI : Inv s) {th : Thread} (hmem : th ∈ s.threads)
    (hth : ∀ p, th ≠ .nextStage p true .ended) :
    ∃ th ret, ((pipes δ).step s (.go th ret)).isSome := by
  by_cases hwaits : ∃ p, th = .nextStage p false .ended
  · obtain ⟨p, rfl⟩ := hwaits
    by_cases hm : s.mutex_ = true
    · obtain ⟨x, hx, hholds⟩ := hI.held hm
      refine go_isSome hx ?_
      rintro q holds rfl
      exact hholds.2 rfl
    · refine ⟨.nextStage p false .ended, true, ?_⟩
      rw [Option.isSome_iff_exists]
      have hpop : ({ s with threads := s.threads.erase (.nextStage p false .ended) }
          : Pipes δ).lockAndPop.isSome := by
        simp only [lockAndPop, hm, Bool.false_eq_true, if_false]
        split <;> rfl
      obtain ⟨s', hs'⟩ := Option.isSome_iff_exists.mp hpop
      exact ⟨s', go_step.mpr ⟨_, (Multiset.cons_erase hmem).symm, hs'⟩⟩
  · refine go_isSome hmem ?_
    rintro p holds rfl
    cases holds with
    | true => exact hth p rfl
    | false => exact hwaits ⟨p, rfl⟩

/-- Unless no pipeline is active, a thread works for it. -/
theorem Phase.thread {n a m : Nat} {D : Multiset Thread}
    (h : Phase s n a m D) (hact : s.activePipes_ ≠ 0) :
    ∃ th ∈ D, ∀ p, th ≠ .nextStage p true .ended := by
  cases h with
  | idle active => exact absurd active hact
  | enter | create | closing =>
      exact ⟨_, Multiset.mem_singleton_self _, fun p => nofun⟩
  | enqueue => exact ⟨_, Multiset.mem_cons_self _ _, fun p => nofun⟩
  | @run spec pipe k st W placed working left =>
      obtain ⟨⟨i, pc⟩, hw⟩ := Multiset.exists_mem_of_ne_zero left
      exact ⟨.worker n i pc, mem_workers.mpr ⟨i, pc, hw, rfl⟩, fun p => nofun⟩

theorem nextStage_notMem_unlocks {p u : Nat} {holds : Bool} {pc : NextPc} :
    Thread.nextStage p holds pc ∉ unlocks u := by
  intro hmem
  cases Multiset.eq_of_mem_replicate hmem

/-- When every pipeline has ended. -/
theorem Phase.served {n a m u : Nat} {D : Multiset Thread}
    (h : Phase s n a m D) (hq : Queue s n a m)
    (hthreads : s.threads = D + unlocks u)
    (hended : ∀ p < s.specs.length, p < n) :
    s.pendPipes_ = [] ∧ (s.activePipes_ = 0 ↔
      ∀ p holds, .nextStage p holds .ended ∉ s.threads) := by
  have hlen : s.specs.length ≤ n := by
    by_contra hlt
    exact Nat.lt_irrefl n (hended n (by omega))
  have hno : ∀ {spec pipe}, ¬ Placed s n spec pipe := by
    intro spec pipe hp
    have hlt := (List.getElem?_eq_some_iff.mp hp.spec).1
    omega
  rw [hthreads, hq.pend]
  cases h with
  | enter placed | create placed | enqueue placed | run placed =>
      exact absurd placed hno
  | idle active all =>
      refine ⟨by rw [Nat.sub_eq_zero_of_le hlen]; rfl, ?_⟩
      rw [Multiset.zero_add]
      exact ⟨fun _ p holds => nextStage_notMem_unlocks, fun _ => active⟩
  | @closing p active =>
      refine ⟨by rw [Nat.sub_eq_zero_of_le hlen]; rfl, ?_⟩
      rw [active]
      refine ⟨nofun, fun hnot => ?_⟩
      exact absurd (Multiset.mem_add.mpr (.inl (Multiset.mem_singleton_self _)))
        (hnot p false)

theorem Inv.ordered (hI : Inv s) (hall : AllFull s) : Ordered s := by
  obtain ⟨n, a, m, D, u, hq, hphase, hthreads⟩ := hI.phase
  have hbounds := hphase.bounds
  refine ⟨hq.fault, hq.log, ?_, ?_, ?_, ?_⟩
  · intro p q hp hp' hq₀ hq'
    rw [hq.entered] at hp hq₀
    rw [hq.ended] at hp' hq'
    omega
  · intro p i k hmem
    obtain ⟨spec, pipe, k', e, st, W, placed, hlog, working, hw⟩ :=
      hI.working hmem
    exact ⟨spec, pipe, placed.spec, placed.heap,
      working.getStageData hw id (placed.full hall) hlog⟩
  · intro hended
    exact hphase.served hq hthreads fun p hp => (hq.ended p).mp (hended p hp)
  · intro p hp hnot
    rw [hq.ended] at hnot
    have hact : s.activePipes_ ≠ 0 := by
      intro h0
      cases hphase with
      | idle active hlen => omega
      | enter placed | create placed | enqueue placed | run placed =>
          rw [placed.active] at h0
          cases h0
      | closing active =>
          rw [active] at h0
          cases h0
    obtain ⟨th, hth, hne⟩ := hphase.thread hact
    refine hI.live ?_ hne
    rw [hthreads]
    exact Multiset.mem_add.mpr (.inl hth)

/-- Whatever pipelines are constructed and however their workers are
scheduled. -/
theorem pipelines_in_order (as : List (Action δ)) (h : ∀ a ∈ as, a.Full) :
    (pipes δ).Each (fun _ _ s' => Ordered s') .init as := by
  refine Machine.each_of (I := fun s => Inv s ∧ AllFull s) ?_ as
    ⟨init_inv, fun spec hmem => by cases hmem⟩ (Machine.each_action h)
  rintro s a s' ⟨hI, hall⟩ hstep ha
  have hI' := step_keeps hI hstep (step_fills hI hall hstep)
  have hall' := step_allFull hall hstep ha
  exact ⟨⟨hI', hall'⟩, hI'.ordered hall'⟩

/-- One stage with one instance, whose callback returns false once. -/
def servedRun : List (Action Unit) :=
  [.construct ⟨[⟨[7], none⟩]⟩,
    .go (.nextStage 0 true .enter) true,
    .go (.nextStage 0 true .create) true,
    .go (.nextStage 0 true (.enqueue 1 0)) true,
    .go (.worker 0 0 .queued) true,
    .go (.worker 0 0 (.running 0)) true,
    .go (.worker 0 0 (.passing 0 0)) true,
    .go (.worker 0 0 (.called 0)) false,
    .go .unlock true,
    .go (.worker 0 0 .queued) true,
    .go (.worker 0 0 (.running 0)) true,
    .go (.worker 0 0 (.passing 0 0)) true,
    .go (.worker 0 0 (.called 0)) true,
    .go (.worker 0 0 .done) true,
    .go (.worker 0 0 (.decr 0)) true,
    .go (.nextStage 0 false .enter) true,
    .go (.nextStage 0 false .ended) true,
    .go .unlock true]

theorem pipelines_in_order_served :
    (∃ s, (pipes Unit).run .init servedRun = some s ∧ .ended 0 ∈ s.log ∧
      s.activePipes_ = 0 ∧ s.threads = 0) ∧
    (pipes Unit).Each (fun _ _ s' => Ordered s') .init servedRun := by
  refine ⟨⟨_, rfl, List.mem_cons_self, rfl, rfl⟩,
    pipelines_in_order servedRun ?_⟩
  have hfull : PipeSpec.Full (δ := Unit) ⟨[⟨[7], none⟩]⟩ := by
    refine ⟨List.cons_ne_nil _ _, fun st hst => ?_⟩
    rw [List.mem_singleton.mp hst]
    exact List.cons_ne_nil _ _
  intro a ha
  cases a with
  | construct spec =>
      have hspec : spec = ⟨[⟨[7], none⟩]⟩ := by simpa [servedRun] using ha
      rw [hspec]
      exact hfull
  | go => trivial

end Sandesh.Pipeline

/-
What keeps the pipelines going.

Only a worker that finishes, or a constructor, moves a pipeline on. A stage
without instances has no worker, and `NextStage` takes `mutex_` at the end
of a pipeline although it may have been called with the lock held, which is
what happens to a pipeline without stages. `Alive` holds along a run
exactly as far as the run `Fills` (`never_wedges_iff`).
-/

namespace Sandesh.Pipeline

open Lib Pipes

variable {δ : Type} {s s' : Pipes δ}

/-- While a pipeline is active it has a worker, or a thread is inside
`NextStage`; and no thread waits for the `mutex_` it holds. -/
structure Alive (s : Pipes δ) : Prop where
  works : s.activePipes_ = 1 →
    (∃ p pipe i pc, s.heap p = some pipe ∧ 0 ≤ pipe.currentStage_ ∧
      .worker p i pc ∈ s.threads) ∨
    ∃ p holds pc, .nextStage p holds pc ∈ s.threads
  waits : ∀ p, .nextStage p true .ended ∉ s.threads

theorem Inv.alive (hI : Inv s) : Alive s := by
  obtain ⟨n, a, m, D, u, hq, hphase, hthreads⟩ := hI.phase
  have hin : ∀ {th}, th ∈ D → th ∈ s.threads := by
    intro th hth
    rw [hthreads]
    exact Multiset.mem_add.mpr (.inl hth)
  constructor
  · intro hact
    cases hphase with
    | idle active =>
        rw [active] at hact
        cases hact
    | enter | create | closing =>
        exact .inr ⟨_, _, _, hin (Multiset.mem_singleton_self _)⟩
    | enqueue => exact .inr ⟨_, _, _, hin (Multiset.mem_cons_self _ _)⟩
    | @run spec pipe k st W placed working left =>
        obtain ⟨⟨i, pc⟩, hw⟩ := Multiset.exists_mem_of_ne_zero left
        refine .inl ⟨n, pipe, i, pc, placed.heap, ?_,
          hin (mem_workers.mpr ⟨i, pc, hw, rfl⟩)⟩
        rw [working.current]
        exact Int.natCast_nonneg k
  · intro p hmem
    rw [hthreads] at hmem
    rcases Multiset.mem_add.mp hmem with hD | hu
    · cases hphase with
      | idle => exact Multiset.notMem_zero _ hD
      | enter | create | closing => cases Multiset.mem_singleton.mp hD
      | enqueue =>
          rcases Multiset.mem_cons.mp hD with heq | hmem
          · cases heq
          · exact nextStage_notMem_workers hmem
      | run => exact nextStage_notMem_workers hD
    · exact nextStage_notMem_unlocks hu

/-- A pipeline without stages waits for itself. -/
theorem no_stage_waits {p : Nat} {ret : Bool} {pipe : PipeImpl δ}
    (hstep : (pipes δ).step s (.go (.nextStage p true .enter) ret) = some s')
    (hpipe : s.heap p = some pipe)
    (hlast : pipe.currentStage_ + 1 = pipe.spec_.stages_.length) :
    .nextStage p true .ended ∈ s'.threads := by
  obtain ⟨rest, hs, hexec⟩ := go_step.mp hstep
  simp only [exec, hpipe, Pipes.nextStage, hlast, if_true,
    Option.some.injEq] at hexec
  rw [← hexec]
  exact Multiset.mem_cons_self _ _

/-- A stage without instances leaves an active pipeline with no thread. -/
theorem no_instance_stops {p : Nat} {holds ret : Bool} {pipe : PipeImpl δ}
    {st : StageSpec δ} (hI : Inv s)
    (hstep : (pipes δ).step s (.go (.nextStage p holds .create) ret) = some s')
    (hpipe : s.heap p = some pipe)
    (hst : nth pipe.spec_.stages_ pipe.currentStage_ = some st)
    (hnone : st.instances_ = []) :
    s'.activePipes_ = 1 ∧ ∃ u, s'.threads = unlocks u := by
  obtain ⟨rest, hs, hexec⟩ := go_step.mp hstep
  have hmem : .nextStage p holds .create ∈ s.threads := by
    rw [hs]
    exact Multiset.mem_cons_self _ rest
  obtain ⟨spec, pipe', u, placed, hspec, hthreads⟩ := hI.creating hmem
  have hrest : rest = unlocks u := by
    rw [hs, Multiset.singleton_add] at hthreads
    exact (Multiset.cons_inj_right _).mp hthreads
  simp only [exec, hpipe, Pipes.nextStage, hst, hnone, List.length_nil,
    Nat.lt_irrefl, if_false, Option.some.injEq] at hexec
  rw [← hexec]
  cases holds with
  | true =>
      refine ⟨placed.active, u + 1, ?_⟩
      rw [unlocks_succ, ← hrest]
      rfl
  | false => exact ⟨placed.active, u, hrest⟩

theorem alive_fills {a : Action δ} (hI : Inv s)
    (hstep : (pipes δ).step s a = some s') (halive : Alive s') : Fills s a := by
  cases a with
  | construct spec => trivial
  | go th ret =>
      cases th with
      | worker | unlock => trivial
      | nextStage p holds pc =>
          cases pc with
          | enqueue | ended => trivial
          | enter =>
              intro pipe hpipe hholds hlast
              subst hholds
              exact halive.waits p (no_stage_waits hstep hpipe hlast)
          | create =>
              intro pipe st hpipe hst hnone
              obtain ⟨hact, u, hthreads⟩ :=
                no_instance_stops hI hstep hpipe hst hnone
              rcases halive.works hact with ⟨q, _, i, pc, -, -, hmem⟩ | ⟨q, h, pc, hmem⟩
              · rw [hthreads] at hmem
                cases Multiset.eq_of_mem_replicate hmem
              · rw [hthreads] at hmem
                exact nextStage_notMem_unlocks hmem

/-- The pipelines keep going along a run exactly if it starts no pipeline
without stages and creates no stage without instances; specifications
without either see to that. -/
theorem never_wedges_iff (as : List (Action δ)) :
    ((pipes δ).Each (fun _ _ s' => Alive s') .init as
      ↔ (pipes δ).Each (fun s a _ => Fills s a) .init as) ∧
    ((∀ a ∈ as, a.Full) → (pipes δ).Each (fun _ _ s' => Alive s') .init as) := by
  constructor
  · refine Iff.symm (Machine.each_iff (I := Inv) ?_ ?_ as init_inv)
    · intro s a s' hI hstep
      exact ⟨fun hfills => (step_keeps hI hstep hfills).alive,
        alive_fills hI hstep⟩
    · intro s a s' hI hstep hfills
      exact step_keeps hI hstep hfills
  · intro hfull
    refine Machine.each_of (I := fun s => Inv s ∧ AllFull s) ?_ as
      ⟨init_inv, fun spec hmem => by cases hmem⟩ (Machine.each_action hfull)
    rintro s a s' ⟨hI, hall⟩ hstep ha
    have hI' := step_keeps hI hstep (step_fills hI hall hstep)
    exact ⟨⟨hI', step_allFull hall hstep ha⟩, hI'.alive⟩

/-- A stage without instances: the next request waits for good. A pipeline
without stages: it waits for itself with `mutex_` taken. -/
theorem empty_stage_wedges :
    (∃ s, (pipes Unit).run .init
        [.construct ⟨[⟨[], none⟩]⟩, .go (.nextStage 0 true .enter) true,
          .go (.nextStage 0 true .create) true, .go .unlock true,
          .construct ⟨[⟨[7], none⟩]⟩, .go .unlock true] = some s ∧
      s.activePipes_ = 1 ∧ s.pendPipes_ = [1] ∧ s.threads = 0 ∧ ¬ Alive s) ∧
    ∃ s, (pipes Unit).run .init
        [.construct ⟨[]⟩, .go (.nextStage 0 true .enter) true] = some s ∧
      s.mutex_ = true ∧ s.threads = {.nextStage 0 true .ended} ∧ ¬ Alive s := by
  refine ⟨⟨_, rfl, rfl, rfl, rfl, fun h => ?_⟩, ⟨_, rfl, rfl, rfl, fun h => ?_⟩⟩
  · rcases h.works rfl with ⟨_, _, _, _, -, -, hmem⟩ | ⟨_, _, _, hmem⟩
    · exact absurd hmem (Multiset.notMem_zero _)
    · exact absurd hmem (Multiset.notMem_zero _)
  · exact h.waits 0 (Multiset.mem_singleton_self _)

end Sandesh.Pipeline
