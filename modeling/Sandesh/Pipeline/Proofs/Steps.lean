/-
One step of the pipelines, thread by thread.

Each lemma takes the state without the thread that runs and says in which
phase its step leaves the system. `step_keeps` puts them together: a step
that `Fills` keeps `Inv`.
-/
import Sandesh.Pipeline.Proofs.Invariant

namespace Sandesh.Pipeline

open Lib Pipes

variable {δ : Type} {s s' t : Pipes δ}

/-- A step takes a thread out and executes it. -/
theorem go_step {th : Thread} {ret : Bool} :
    (pipes δ).step s (.go th ret) = some s' ↔
      ∃ rest, s.threads = th ::ₘ rest ∧
        { s with threads := rest }.exec ret th = some s' := by
  show (if th ∈ s.threads then _ else none) = some s' ↔ _
  constructor
  · intro h
    split at h
    · rename_i hmem
      exact ⟨s.threads.erase th, (Multiset.cons_erase hmem).symm, h⟩
    · cases h
  · rintro ⟨rest, hthreads, h⟩
    have hmem : th ∈ s.threads := by
      rw [hthreads]
      exact Multiset.mem_cons_self th rest
    rw [if_pos hmem, hthreads, Multiset.erase_cons_head]
    exact h

/-- The phase only reads the pipeline it is about. -/
theorem Phase.keep {n a m : Nat} {D : Multiset Thread} (h : Phase s n a m D)
    (active : s'.activePipes_ = s.activePipes_) (log : s'.log = s.log)
    (specs : n < s.specs.length → s'.specs[n]? = s.specs[n]?)
    (heap : n < s.specs.length → s'.heap n = s.heap n)
    (length : s.activePipes_ = 0 → s'.specs.length = s.specs.length) :
    Phase s' n a m D := by
  have place : ∀ {spec pipe}, Placed s n spec pipe → Placed s' n spec pipe := by
    intro spec pipe hp
    have hlt := (List.getElem?_eq_some_iff.mp hp.spec).1
    exact ⟨(specs hlt).trans hp.spec, (heap hlt).trans hp.heap,
      active.trans hp.active⟩
  cases h with
  | idle hact hall => exact .idle (active.trans hact) ((length hact).trans hall)
  | enter placed between current le first entered =>
      exact .enter (place placed) (log ▸ between) current le first entered
  | create placed between current lt =>
      exact .create (place placed) (log ▸ between) current lt
  | enqueue placed working lt => exact .enqueue (place placed) (log ▸ working) lt
  | run placed working left => exact .run (place placed) (log ▸ working) left
  | closing hact => exact .closing (active.trans hact)

/-- The stages below are done. -/
theorem Below.done {spec : PipeSpec δ} {specs : List (PipeSpec δ)}
    {log : List Event} {n k : Nat} (h : Below spec log n k)
    (hlog : LogOk specs log) :
    ∀ j < k, ∀ st, spec.stages_[j]? = some st → Done log n j st := by
  intro j hj st hst i hi
  exact hlog.count (h j hj st hst i hi)

-- ============================================================== workers

section Workers

variable {spec : PipeSpec δ} {pipe : PipeImpl δ} {n k e i : Nat}
  {st : StageSpec δ} {W : Multiset (Nat × Pc)} {pc : Pc}

/-- Where a step of a worker of stage `k` leads: it is one of the workers
still, or it has left, or it was the last one. -/
inductive Worked (s t : Pipes δ) (spec : PipeSpec δ) (n k e i : Nat)
    (st : StageSpec δ) (W : Multiset (Nat × Pc)) : Prop
  | still {p : PipeImpl δ} {c : Pc} (queue : Queue t n (n + 1) (n + 1))
      (placed : Placed t n spec p)
      (working : Working spec p t.log n k e st ((i, c) ::ₘ W))
      (threads : t.threads = .worker n i c ::ₘ s.threads)
  | left {pipe : PipeImpl δ} (queue : Queue t n (n + 1) (n + 1))
      (placed : Placed t n spec pipe)
      (working : Working spec pipe t.log n k e st W)
      (more : e = st.instances_.length → W ≠ 0)
      (threads : t.threads = s.threads)
  | last {pipe : PipeImpl δ} (queue : Queue t n (n + 1) (n + 1))
      (placed : Placed t n spec pipe)
      (all : e = st.instances_.length) (none_left : W = 0)
      (between : Between spec pipe t.log n (k + 1))
      (current : pipe.currentStage_ = k) (lt : k < spec.stages_.length)
      (threads : t.threads = .nextStage n false .enter ::ₘ s.threads)

/-- A worker that reads `currentStage_` and goes on. -/
theorem worked_move {pc' : Pc} (hq : Queue s n (n + 1) (n + 1))
    (hp : Placed s n spec pipe)
    (hw : Working spec pipe s.log n k e st ((i, pc) ::ₘ W))
    (hat : pc'.At k) (hret : pc'.Returned ↔ pc.Returned) :
    Worked s (s.spawn (.worker n i pc')) spec n k e i st W :=
  .still (hq.keep rfl rfl rfl (fun _ _ => rfl) rfl) ⟨hp.spec, hp.heap, hp.active⟩
    (hw.move hat hret) rfl

/-- The callback of stage `k` may be called. -/
theorem called_ok (hq : Queue s n (n + 1) (n + 1)) (hp : Placed s n spec pipe)
    (hw : Working spec pipe s.log n k e st ((i, pc) ::ₘ W)) :
    EventOk s.specs s.log (.called n k k i) := by
  have hi := hw.lt (i, pc) (Multiset.mem_cons_self _ _)
  refine ⟨(hq.entered n).mpr (Nat.lt_succ_self n), ?_, spec, hp.spec, k, rfl,
    rfl, ⟨st, hw.stage, Nat.lt_of_lt_of_le hi hw.le⟩, hw.below.done hq.log⟩
  rw [hq.ended]
  exact Nat.lt_irrefl n

/-- One step of a worker of the stage at work: it gets to its callback, in
it, or through it. -/
theorem worked_passing (hq : Queue s n (n + 1) (n + 1))
    (hp : Placed s n spec pipe)
    (hw : Working spec pipe s.log n k e st ((i, .passing k k) ::ₘ W))
    (ret : Bool) :
    Worked s (s.work n i pipe ret (.passing k k)) spec n k e i st W := by
  have hi := hw.lt (i, _) (Multiset.mem_cons_self _ _)
  have hstage : nth pipe.spec_.stages_ k = some st := by
    rw [nth_nat, hw.spec_]
    exact hw.stage
  obtain ⟨impl, himpl, -, hdata⟩ := hw.impl
  have hok : dataOk pipe st i = true := by
    unfold dataOk
    rw [hw.current, nth_nat, himpl]
    cases hal : st.allocFn_ with
    | none => rfl
    | some f =>
        have hlen := hdata (by rw [hal]; rfl)
        have hlt : i < impl.data_.length := by
          rw [hlen]
          exact Nat.lt_of_lt_of_le hi hw.le
        simp [hlt]
  rw [Pipes.work, hstage]
  simp only [hok, if_true]
  refine .still (c := .called k) ?_ ⟨hp.spec, hp.heap, hp.active⟩ ?_ rfl
  · refine (hq.emit (called_ok hq hp hw) ?_ ?_ ?_).keep rfl rfl rfl
      (fun _ _ => rfl) rfl
    all_goals intros; simp_all
  · refine (hw.move (show (Pc.called k).At k from rfl) Iff.rfl).of_log fun j x => ?_
    show _ ∈ _ :: s.log ↔ _
    simp

/-- The callback returns. -/
theorem worked_called (hq : Queue s n (n + 1) (n + 1))
    (hp : Placed s n spec pipe)
    (hw : Working spec pipe s.log n k e st ((i, .called k) ::ₘ W))
    (ret : Bool) :
    Worked s (s.work n i pipe ret (.called k)) spec n k e i st W := by
  have hnot : .returned n k i true ∉ s.log := by
    intro hmem
    rcases hw.only k i hmem with hlt | ⟨-, -, hret⟩
    · omega
    · exact hret _ (Multiset.mem_cons_self _ _)
  have hqueue : Queue (s.emit (.returned n k i ret)) n (n + 1) (n + 1) := by
    refine hq.emit (fun _ => hnot) ?_ ?_ ?_
    · intros; simp
    · intros; simp
    · intro q j x heq
      injection heq with hn
      omega
  refine .still (p := pipe) (c := if ret then .done else .queued)
    (hqueue.keep rfl rfl rfl (fun _ _ => rfl) rfl)
    ⟨hp.spec, hp.heap, hp.active⟩ ?_ rfl
  cases ret with
  | true => exact hw.finish
  | false =>
      refine (hw.move (show Pc.queued.At k from trivial) Iff.rfl).of_log fun j x => ?_
      show _ ∈ _ :: s.log ↔ _
      simp

/-- The instance is done, and perhaps the stage with it. -/
theorem worked_decr (hq : Queue s n (n + 1) (n + 1))
    (hp : Placed s n spec pipe)
    (hw : Working spec pipe s.log n k e st ((i, .decr k) ::ₘ W))
    (ret : Bool) :
    Worked s (s.work n i pipe ret (.decr k)) spec n k e i st W := by
  obtain ⟨impl, himpl, -, -⟩ := hw.impl
  have hnth : nth pipe.stageImpls_ (k : Int) = some impl := himpl
  have hdecr := hw.decr trivial himpl
  have hput : Placed (s.put n (some (decremented pipe k impl))) n spec
      (decremented pipe k impl) :=
    ⟨hp.spec, Function.update_self _ _ _, hp.active⟩
  have hqueue : Queue (s.put n (some (decremented pipe k impl))) n (n + 1)
      (n + 1) := by
    refine hq.keep rfl rfl rfl (fun q hle => ?_) rfl
    exact Function.update_of_ne (by omega) _ _
  rw [Pipes.work, hnth]
  show Worked s (if impl.remainingInst_ = 1 then
    (s.put n (some (decremented pipe k impl))).spawn (.nextStage n false .enter)
    else s.put n (some (decremented pipe k impl))) spec n k e i st W
  split
  · rename_i hone
    obtain ⟨rfl, rfl⟩ := (hw.remaining himpl).mp hone
    exact .last (hqueue.keep rfl rfl rfl (fun _ _ => rfl) rfl)
      ⟨hput.spec, hput.heap, hput.active⟩ rfl rfl hdecr.between hw.current
      (List.getElem?_eq_some_iff.mp hw.stage).1 rfl
  · rename_i hone
    refine .left hqueue hput hdecr ?_ rfl
    intro he hW
    exact hone ((hw.remaining himpl).mpr ⟨he, hW⟩)

/-- Whichever step it is. -/
theorem worked (hq : Queue s n (n + 1) (n + 1)) (hp : Placed s n spec pipe)
    (hw : Working spec pipe s.log n k e st ((i, pc) ::ₘ W)) (ret : Bool) :
    Worked s (s.work n i pipe ret pc) spec n k e i st W := by
  have hat := hw.at_ (i, pc) (Multiset.mem_cons_self _ _)
  cases pc with
  | queued =>
      rw [Pipes.work, hw.current, nth_nat, hw.spec_, hw.stage]
      exact worked_move hq hp hw rfl Iff.rfl
  | running ss =>
      exact worked_move hq hp hw ⟨hat, hw.current⟩ Iff.rfl
  | passing ss stage =>
      obtain ⟨rfl, rfl⟩ := hat
      exact worked_passing hq hp hw ret
  | called stage =>
      obtain rfl := hat
      exact worked_called hq hp hw ret
  | done =>
      obtain ⟨impl, himpl, -, -⟩ := hw.impl
      rw [Pipes.work, hw.current, nth_nat, himpl]
      exact worked_move hq hp hw rfl Iff.rfl
  | decr stage =>
      obtain rfl := hat
      exact worked_decr hq hp hw ret

end Workers

-- ============================================================ NextStage

section NextStage

variable {spec : PipeSpec δ} {pipe : PipeImpl δ} {n a k e : Nat}
  {st : StageSpec δ} {W : Multiset (Nat × Pc)} {holds : Bool}

/-- A state with the threads `D` of its phase and the threads `rest`. -/
def Rests (s : Pipes δ) (rest : Multiset Thread) : Prop :=
  ∃ n a m D, Queue s n a m ∧ Phase s n a m D ∧ s.threads = D + rest

/-- The last stage is over. -/
theorem enter_ends (hq : Queue s n a (n + 1)) (hp : Placed s n spec pipe)
    (hb : Between spec pipe s.log n k) (hlast : k = spec.stages_.length)
    (hk : k ≠ 0) (ha : a = if k = 0 then n else n + 1) :
    Rests (((s.put n none).emit (.ended n)).spawn (.nextStage n false .ended))
      s.threads := by
  refine ⟨n + 1, n + 1, n + 1, _, ?_, .closing (p := n) hp.active,
    (Multiset.singleton_add _ _).symm⟩
  rw [if_neg hk] at ha
  subst ha
  refine ⟨hq.fault, hq.le, hq.pend, ?_, ?_, ?_, ?_, ?_, ?_⟩
  · intro q x hle hx
    show Function.update s.heap n none q = _
    rw [Function.update_of_ne (by omega)]
    exact hq.fresh q x hle hx
  · intro q
    show _ ∈ _ :: s.log ↔ _
    rw [List.mem_cons, hq.ended q, Event.ended.injEq]
    omega
  · intro q
    show _ ∈ _ :: s.log ↔ _
    rw [List.mem_cons, hq.entered q]
    simp
  · intro q j i hmem
    refine hq.untouched q j i ((List.mem_cons.mp hmem).resolve_left ?_)
    simp
  · refine ⟨spec, hp.spec, fun j st hst => ?_⟩
    have hj : j < k := hlast ▸ (List.getElem?_eq_some_iff.mp hst).1
    exact hb.below.done hq.log j hj st hst
  · exact hq.log

/-- The pipeline enters stage `k`. -/
theorem enter_goes (hq : Queue s n a (n + 1)) (hp : Placed s n spec pipe)
    (hb : Between spec pipe s.log n k) (hk : k < spec.stages_.length)
    (ha : a = if k = 0 then n else n + 1) :
    Rests (((s.put n (some { pipe with currentStage_ := k })).emit
      (.entered n k)).spawn (.nextStage n holds .create)) s.threads := by
  have hlog : ∀ j i, .returned n j i true ∈ (.entered n k :: s.log)
      ↔ .returned n j i true ∈ s.log := by simp
  have hphase := Phase.create (n := n) (k := k) (h := holds)
    (s := ((s.put n (some { pipe with currentStage_ := k })).emit
      (.entered n k)).spawn (.nextStage n holds .create))
    (p := { pipe with currentStage_ := k })
    ⟨hp.spec, Function.update_self _ _ _, hp.active⟩
    ⟨hb.spec_, hb.length,
      fun j hj st hst i hi => (hlog j i).mpr (hb.below j hj st hst i hi),
      fun j i hmem => hb.only j i ((hlog j i).mp hmem)⟩ rfl hk
  refine ⟨n, n + 1, n + 1, _, ?_, hphase, (Multiset.singleton_add _ _).symm⟩
  refine ⟨hq.fault, hq.le, hq.pend, ?_, ?_, ?_, ?_, ?_, hq.log⟩
  · intro q x hle hx
    show Function.update s.heap n _ q = _
    rw [Function.update_of_ne (by omega)]
    exact hq.fresh q x hle hx
  · intro q
    show _ ∈ _ :: s.log ↔ _
    rw [List.mem_cons, hq.ended q]
    simp
  · intro q
    show _ ∈ _ :: s.log ↔ _
    rw [List.mem_cons, hq.entered q, Event.entered.injEq, ha]
    split <;> omega
  · intro q j i hmem
    refine hq.untouched q j i ((List.mem_cons.mp hmem).resolve_left ?_)
    simp
  · intro hk0
    rw [if_pos (by omega)] at ha
    subst ha
    exact ⟨hq.entered, fun q hlt => (hq.ended q).mpr hlt⟩

/-- The next stage is entered, or the pipeline ends. -/
theorem enter_rests (hq : Queue s n a (n + 1)) (hp : Placed s n spec pipe)
    (hb : Between spec pipe s.log n k) (hcur : pipe.currentStage_ + 1 = k)
    (hle : k ≤ spec.stages_.length) (hfirst : holds = true ↔ k = 0)
    (ha : a = if k = 0 then n else n + 1)
    (hfills : holds = true → pipe.currentStage_ + 1 ≠ pipe.spec_.stages_.length) :
    Rests (s.nextStage n holds pipe .enter) s.threads := by
  show Rests (if pipe.currentStage_ + 1 = pipe.spec_.stages_.length then _
    else _) s.threads
  rw [hcur, hb.spec_] at hfills
  rw [hcur]
  split
  · rename_i hlast
    rw [hb.spec_] at hlast
    have hno : holds = false := by
      cases holds with
      | true => exact absurd hlast (hfills rfl)
      | false => rfl
    subst hno
    have hk : k ≠ 0 := fun h0 => nomatch hfirst.mpr h0
    exact enter_ends hq hp hb (by omega) hk ha
  · rename_i hmore
    rw [hb.spec_] at hmore
    exact enter_goes hq hp hb (by omega) ha

/-- A new stage, nothing of it enqueued yet. -/
theorem Between.working (hb : Between spec pipe s.log n k)
    (hcur : pipe.currentStage_ = k) (hst : spec.stages_[k]? = some st) :
    Working spec
      { pipe with
        stageImpls_ := pipe.stageImpls_ ++ [.new st pipe.currentStage_] }
      s.log n k 0 st 0 where
  spec_ := hb.spec_
  stage := hst
  current := hcur
  length := by
    show (pipe.stageImpls_ ++ [_]).length = _
    rw [List.length_append, hb.length]
    rfl
  impl := by
    refine ⟨.new st pipe.currentStage_, ?_, ?_, ?_⟩
    · show (pipe.stageImpls_ ++ [_])[k]? = _
      rw [← hb.length, List.getElem?_concat_length]
    · rfl
    · intro hal
      obtain ⟨f, hf⟩ := Option.isSome_iff_exists.mp hal
      rw [StageImpl.new, hf]
      exact List.length_replicate
  below := hb.below
  le := Nat.zero_le _
  nodup := Multiset.nodup_zero
  lt := fun w hw => absurd hw (Multiset.notMem_zero w)
  at_ := fun w hw => absurd hw (Multiset.notMem_zero w)
  returned := fun i hi => absurd hi (Nat.not_lt_zero i)
  only := fun j i hmem => .inl (hb.only j i hmem)

/-- The stage is made. -/
theorem create_rests (hq : Queue s n (n + 1) (n + 1))
    (hp : Placed s n spec pipe) (hb : Between spec pipe s.log n k)
    (hcur : pipe.currentStage_ = k) (hlt : k < spec.stages_.length)
    (hfills : ∀ st, nth pipe.spec_.stages_ pipe.currentStage_ = some st →
      st.instances_ ≠ []) :
    Rests (s.nextStage n holds pipe .create) s.threads := by
  obtain ⟨st, hst⟩ : ∃ st, spec.stages_[k]? = some st :=
    ⟨_, List.getElem?_eq_getElem hlt⟩
  have hnth : nth pipe.spec_.stages_ pipe.currentStage_ = some st := by
    rw [hcur, nth_nat, hb.spec_]
    exact hst
  have hne := hfills st hnth
  have hpos : 0 < st.instances_.length := List.length_pos_of_ne_nil hne
  have hw := hb.working hcur hst
  rw [Pipes.nextStage, hnth]
  simp only [hpos, if_true]
  refine ⟨n, n + 1, n + 1, _, ?_, .enqueue (h := holds) ⟨hp.spec, Function.update_self _ _ _,
    hp.active⟩ hw hpos, ?_⟩
  · refine hq.keep rfl rfl rfl (fun q hle => ?_) rfl
    exact Function.update_of_ne (by omega) _ _
  · exact (Multiset.singleton_add _ _).symm

/-- One more worker. -/
theorem Working.enqueue {log : List Event}
    (hw : Working spec pipe log n k e st W)
    (hlt : e < st.instances_.length) :
    Working spec pipe log n k (e + 1) st ((e, .queued) ::ₘ W) := by
  refine { hw with impl := ?_, le := hlt, nodup := ?_, lt := ?_, at_ := ?_, returned := ?_, only := ?_ }
  · obtain ⟨impl, himpl, hleft, hdata⟩ := hw.impl
    refine ⟨impl, himpl, ?_, hdata⟩
    rw [Multiset.card_cons]
    push_cast
    omega
  · rw [Multiset.map_cons, Multiset.nodup_cons]
    refine ⟨fun hmem => ?_, hw.nodup⟩
    obtain ⟨w, hw', hwe⟩ := Multiset.mem_map.mp hmem
    have hlt' := hw.lt w hw'
    rw [hwe] at hlt'
    exact Nat.lt_irrefl e hlt'
  · intro w hmem
    rcases Multiset.mem_cons.mp hmem with rfl | hmem
    · exact Nat.lt_succ_self e
    · exact Nat.lt_succ_of_lt (hw.lt w hmem)
  · intro w hmem
    rcases Multiset.mem_cons.mp hmem with rfl | hmem
    · trivial
    · exact hw.at_ w hmem
  · intro i hi hret
    by_cases hie : i = e
    · subst hie
      exact (hret .queued (Multiset.mem_cons_self _ _)).elim
    · exact hw.returned i (by omega) fun pc hpc =>
        hret pc (Multiset.mem_cons_of_mem hpc)
  · intro j i hmem
    rcases hw.only j i hmem with hj | ⟨hj, hi, hret⟩
    · exact .inl hj
    · refine .inr ⟨hj, by omega, fun pc hpc => ?_⟩
      rcases Multiset.mem_cons.mp hpc with heq | hpc
      · injection heq with hie
        omega
      · exact hret pc hpc

end NextStage

-- ======================================================= the whole step

section Whole

variable {spec : PipeSpec δ} {pipe : PipeImpl δ} {n a m k e u : Nat}
  {st : StageSpec δ} {W : Multiset (Nat × Pc)} {holds : Bool}

/-- Its workers are put up, one by one. -/
theorem enqueue_rests (hq : Queue s n (n + 1) (n + 1))
    (hp : Placed s n spec pipe) (hw : Working spec pipe s.log n k e st W)
    (hlt : e < st.instances_.length)
    (hthreads : s.threads = workers n W + unlocks u) :
    ∃ u, Rests (s.nextStage n holds pipe (.enqueue st.instances_.length e))
      (unlocks u) := by
  have hwe := hw.enqueue hlt
  show ∃ u, Rests (if e + 1 < st.instances_.length then _ else _) (unlocks u)
  split
  · rename_i hmore
    refine ⟨u, n, n + 1, n + 1, _, hq.keep rfl rfl rfl (fun _ _ => rfl) rfl,
      .enqueue (h := holds) ⟨hp.spec, hp.heap, hp.active⟩ hwe hmore, ?_⟩
    show _ ::ₘ _ ::ₘ s.threads = _
    rw [hthreads, workers_cons, Multiset.cons_add, Multiset.cons_add]
  · have hall : e + 1 = st.instances_.length := by omega
    rw [hall] at hwe
    have hrun : ∀ t : Pipes δ, t.specs = s.specs → t.heap = s.heap →
        t.activePipes_ = s.activePipes_ → t.log = s.log →
        Phase t n (n + 1) (n + 1) (workers n ((e, .queued) ::ₘ W)) := by
      intro t hspecs hheap hact hlog
      refine .run ⟨hspecs ▸ hp.spec, hheap ▸ hp.heap, hact.trans hp.active⟩
        (hlog ▸ hwe) (Multiset.cons_ne_zero)
    cases holds with
    | true =>
        refine ⟨u + 1, n, n + 1, n + 1, _,
          hq.keep rfl rfl rfl (fun _ _ => rfl) rfl, hrun _ rfl rfl rfl rfl, ?_⟩
        show Thread.unlock ::ₘ _ ::ₘ s.threads = _
        rw [hthreads, workers_cons, Multiset.cons_add, unlocks_succ,
          Multiset.add_cons, Multiset.cons_swap]
    | false =>
        refine ⟨u, n, n + 1, n + 1, _,
          hq.keep rfl rfl rfl (fun _ _ => rfl) rfl, hrun _ rfl rfl rfl rfl, ?_⟩
        show _ ::ₘ s.threads = _
        rw [hthreads, workers_cons, Multiset.cons_add]

/-- A pipeline that leaves the queue, before its first stage. -/
theorem fresh_between (hq : Queue s n n n) (log : List Event)
    (hlog : log = s.log) (spec : PipeSpec δ) :
    Between spec (.new spec) log n 0 where
  spec_ := rfl
  length := rfl
  below := fun j hj => absurd hj (Nat.not_lt_zero j)
  only := by
    intro j i hmem
    exact absurd (hq.untouched n j i (hlog ▸ hmem)) (Nat.lt_irrefl n)

/-- The next pipeline of the queue starts. -/
theorem pop_rests (hq : Queue s n n n) (hact : s.activePipes_ = 1)
    (hthreads : s.threads = unlocks u) (h : s.lockAndPop = some t) :
    ∃ u, Rests t (unlocks u) := by
  unfold lockAndPop at h
  split at h
  · cases h
  · simp only [hq.pend] at h
    by_cases hlen : n = s.specs.length
    · rw [hlen, Nat.sub_self] at h
      obtain rfl := Option.some.inj h
      refine ⟨u + 1, n, n, n, _, ⟨hq.fault, hq.le, ?_, hq.fresh, hq.ended,
        hq.entered, hq.untouched, hq.log⟩, .idle ?_ hlen.symm, ?_⟩
      · show List.range' s.specs.length 0 = List.range' n (s.specs.length - n)
        rw [hlen, Nat.sub_self]
      · show s.activePipes_ - 1 = 0
        rw [hact]
        rfl
      · show Thread.unlock ::ₘ s.threads = _
        rw [hthreads, Multiset.zero_add, unlocks_succ]
    · have hle := hq.le
      obtain ⟨r, hr⟩ : ∃ r, s.specs.length - n = r + 1 :=
        ⟨s.specs.length - n - 1, by omega⟩
      rw [hr, List.range'_succ] at h
      obtain rfl := Option.some.inj h
      obtain ⟨spec, hspec⟩ : ∃ spec, s.specs[n]? = some spec :=
        ⟨_, List.getElem?_eq_getElem (by omega)⟩
      refine ⟨u, n, n, n + 1, _, ⟨hq.fault, ?_, ?_, ?_, hq.ended, hq.entered,
        ?_, hq.log⟩,
        .enter ⟨hspec, hq.fresh n spec (Nat.le_refl n) hspec, hact⟩
          (fresh_between hq _ rfl spec) rfl (Nat.zero_le _) ⟨fun _ => rfl, fun _ => rfl⟩
          rfl, ?_⟩
      · show n + 1 ≤ s.specs.length
        omega
      · show List.range' (n + 1) r = List.range' (n + 1) (s.specs.length - (n + 1))
        congr 1
        omega
      · intro q x hle hx
        exact hq.fresh q x (by omega) hx
      · intro q j i hmem
        exact Nat.lt_succ_of_lt (hq.untouched q j i hmem)
      · show _ ::ₘ s.threads = _
        rw [hthreads, Multiset.singleton_add]

/-- The waiting pipelines once one more is constructed. -/
theorem Queue.push (hq : Queue s n a m) (spec : PipeSpec δ)
    (hspecs : s'.specs = s.specs ++ [spec])
    (hheap : s'.heap = Function.update s.heap s.specs.length
      (some (.new spec)))
    (hfault : s'.fault = s.fault) (hlog : s'.log = s.log)
    (hpend : s'.pendPipes_ = s.pendPipes_ ++ [s.specs.length]) :
    Queue s' n a m := by
  have hle := hq.le
  have hlen : s'.specs.length = s.specs.length + 1 := by
    rw [hspecs, List.length_append]
    rfl
  refine ⟨hfault.trans hq.fault, by omega, ?_, ?_, hlog ▸ hq.ended,
    hlog ▸ hq.entered, hlog ▸ hq.untouched, ?_⟩
  · rw [hpend, hq.pend, hlen]
    have hsucc : s.specs.length + 1 - m = s.specs.length - m + 1 := by omega
    rw [hsucc, List.range'_1_concat]
    congr 2
    omega
  · intro q x hmq hx
    rw [hheap]
    rw [hspecs] at hx
    by_cases hqlen : q = s.specs.length
    · subst hqlen
      rw [List.getElem?_concat_length] at hx
      rw [Function.update_self, Option.some.inj hx]
    · have hlt := (List.getElem?_eq_some_iff.mp hx).1
      rw [List.length_append, List.length_singleton] at hlt
      rw [List.getElem?_append_left (by omega)] at hx
      rw [Function.update_of_ne hqlen]
      exact hq.fresh q x hmq hx
  · rw [hlog, hspecs]
    exact hq.log.append spec

/-- A new one is put at the end. -/
theorem construct_rests {D : Multiset Thread} (hq : Queue s n a m)
    (hphase : Phase s n a m D) (hthreads : s.threads = D + unlocks u)
    (h : s.construct spec = some t) : ∃ u, Rests t (unlocks u) := by
  unfold construct at h
  split at h
  · cases h
  · by_cases hact : s.activePipes_ = 0
    · cases hphase with
      | enter placed | create placed | enqueue placed | run placed =>
          rw [placed.active] at hact
          cases hact
      | closing active =>
          rw [active] at hact
          cases hact
      | idle _ hall =>
          have hlt : s.activePipes_ < 1 := by omega
          simp only [Pipes.put, hlt, if_true] at h
          obtain rfl := Option.some.inj h
          have hspec : (s.specs ++ [spec])[n]? = some spec := by
            rw [← hall, List.getElem?_concat_length]
          have hheap : Function.update s.heap s.specs.length
              (some (PipeImpl.new spec)) n = some (.new spec) := by
            rw [hall, Function.update_self]
          refine ⟨u, n, n, n + 1, _, ⟨hq.fault, ?_, ?_, ?_, hq.ended,
            hq.entered, ?_, hq.log.append spec⟩,
            .enter (k := 0) ⟨hspec, hheap, ?_⟩ (fresh_between hq _ rfl spec) rfl
              (Nat.zero_le _) ⟨fun _ => rfl, fun _ => rfl⟩ rfl, ?_⟩
          · show n + 1 ≤ (s.specs ++ [spec]).length
            rw [List.length_append, hall]
            exact Nat.le_refl _
          · show s.pendPipes_ = List.range' (n + 1) ((s.specs ++ [spec]).length - (n + 1))
            rw [hq.pend, List.length_append, hall, Nat.sub_self]
            show [] = List.range' (n + 1) (n + 1 - (n + 1))
            rw [Nat.sub_self]
            rfl
          · intro q x hle hx
            have hlt := (List.getElem?_eq_some_iff.mp hx).1
            change q < (s.specs ++ [spec]).length at hlt
            rw [List.length_append, hall, List.length_singleton] at hlt
            omega
          · intro q j i hmem
            exact Nat.lt_succ_of_lt (hq.untouched q j i hmem)
          · show s.activePipes_ + 1 = 1
            rw [hact]
            rfl
          · show Thread.nextStage s.specs.length true .enter ::ₘ s.threads = _
            rw [hthreads, hall, Multiset.zero_add, Multiset.singleton_add]
    · have hone : ¬ s.activePipes_ < 1 := by
        cases hphase with
        | idle active => exact absurd active hact
        | enter placed | create placed | enqueue placed | run placed =>
            rw [placed.active]
            exact Int.lt_irrefl 1
        | closing active =>
            rw [active]
            exact Int.lt_irrefl 1
      simp only [Pipes.put, hone, if_false] at h
      obtain rfl := Option.some.inj h
      refine ⟨u + 1, n, a, m, D, hq.push spec rfl rfl rfl rfl rfl,
        hphase.keep rfl rfl ?_ ?_ ?_, ?_⟩
      · intro hlt
        exact List.getElem?_append_left hlt
      · intro hlt
        exact Function.update_of_ne (Nat.ne_of_lt hlt) _ _
      · intro h0
        exact absurd h0 hact
      · show Thread.unlock ::ₘ s.threads = _
        rw [hthreads, unlocks_succ, Multiset.add_cons]

/-- A thread other than the end of a scope belongs to the phase. -/
theorem thread_of_phase {th : Thread} {rest D : Multiset Thread}
    (h : th ::ₘ rest = D + unlocks u) (hth : th ≠ .unlock) :
    ∃ D', D = th ::ₘ D' ∧ rest = D' + unlocks u := by
  have hmem : th ∈ D + unlocks u := by
    rw [← h]
    exact Multiset.mem_cons_self th rest
  rcases Multiset.mem_add.mp hmem with hD | hu
  · obtain ⟨D', rfl⟩ := Multiset.exists_cons_of_mem hD
    rw [Multiset.cons_add] at h
    exact ⟨D', rfl, (Multiset.cons_inj_right th).mp h⟩
  · exact absurd (Multiset.eq_of_mem_replicate hu) hth

/-- A worker belongs to the pipeline at work. -/
theorem workers_eq_cons {p i : Nat} {pc : Pc} {C : Multiset Thread}
    (h : workers n W = .worker p i pc ::ₘ C) :
    p = n ∧ ∃ W', W = (i, pc) ::ₘ W' ∧ C = workers n W' := by
  have hmem : Thread.worker p i pc ∈ workers n W := by
    rw [h]
    exact Multiset.mem_cons_self _ _
  obtain ⟨i', pc', hw, heq⟩ := mem_workers.mp hmem
  injection heq with hp hi hpc
  subst hp hi hpc
  obtain ⟨W', rfl⟩ := Multiset.exists_cons_of_mem hw
  rw [workers_cons] at h
  exact ⟨rfl, W', rfl, ((Multiset.cons_inj_right _).mp h).symm⟩

/-- A call of `NextStage` is no worker. -/
theorem nextStage_notMem_workers {p : Nat} {pc : NextPc} :
    Thread.nextStage p holds pc ∉ workers n W := by
  intro hmem
  obtain ⟨_, _, _, heq⟩ := mem_workers.mp hmem
  cases heq

/-- A worker's step while the workers of its stage are being enqueued. -/
theorem Worked.enqueueing {i : Nat} (h : Worked s t spec n k e i st W)
    (hlt : e < st.instances_.length)
    (hthreads : s.threads = .nextStage n holds
      (.enqueue st.instances_.length e) ::ₘ workers n W + unlocks u) :
    Rests t (unlocks u) := by
  cases h with
  | still queue placed working threads =>
      refine ⟨n, n + 1, n + 1, _, queue, .enqueue (h := holds) placed
        working hlt, ?_⟩
      rw [threads, hthreads, workers_cons, Multiset.cons_add,
        Multiset.cons_add, Multiset.cons_add, Multiset.cons_swap]
  | left queue placed working more threads =>
      exact ⟨n, n + 1, n + 1, _, queue, .enqueue (h := holds) placed
        working hlt, threads.trans hthreads⟩
  | last queue placed all => omega

/-- A worker's step when all workers of its stage have been enqueued. -/
theorem Worked.running {i : Nat}
    (h : Worked s t spec n k st.instances_.length i st W)
    (hthreads : s.threads = workers n W + unlocks u) :
    Rests t (unlocks u) := by
  cases h with
  | still queue placed working threads =>
      refine ⟨n, n + 1, n + 1, _, queue, .run placed working
        Multiset.cons_ne_zero, ?_⟩
      rw [threads, hthreads, workers_cons, Multiset.cons_add]
  | left queue placed working more threads =>
      exact ⟨n, n + 1, n + 1, _, queue, .run placed working (more rfl),
        threads.trans hthreads⟩
  | @last pipe queue placed all none_left between current lt threads =>
      have hcur : pipe.currentStage_ + 1 = (k + 1 : Nat) := by
        rw [current]
        rfl
      refine ⟨n, n + 1, n + 1, _, queue, .enter placed between hcur lt
        (h := false) ⟨nofun, nofun⟩ rfl, ?_⟩
      rw [threads, hthreads, none_left, workers_zero, Multiset.zero_add,
        Multiset.singleton_add]

/-- Any step of a worker keeps the phase. -/
theorem worker_rests {D rest : Multiset Thread} {p i : Nat} {pc : Pc}
    {ret : Bool} (hq : Queue s n a m) (hphase : Phase s n a m D)
    (hD : D = .worker p i pc ::ₘ rest)
    (hthreads : s.threads = rest + unlocks u)
    (h : s.exec ret (.worker p i pc) = some t) : Rests t (unlocks u) := by
  cases hphase with
  | idle => exact absurd hD.symm Multiset.cons_ne_zero
  | enter | create | closing =>
      obtain ⟨heq, -⟩ := (Multiset.singleton_eq_cons_iff _).mp hD
      cases heq
  | enqueue placed working lt =>
      rcases Multiset.cons_eq_cons.mp hD with ⟨heq, -⟩ | ⟨-, C, hC, hrest⟩
      · cases heq
      · obtain ⟨rfl, W', rfl, rfl⟩ := workers_eq_cons hC
        simp only [exec, placed.heap, Option.some.injEq] at h
        subst h
        rw [hrest] at hthreads
        exact (worked hq placed working ret).enqueueing lt hthreads
  | run placed working left =>
      obtain ⟨rfl, W', rfl, rfl⟩ := workers_eq_cons hD
      simp only [exec, placed.heap, Option.some.injEq] at h
      subst h
      exact (worked hq placed working ret).running hthreads

/-- Any step of a `NextStage` does. -/
theorem nextStage_rests {D rest : Multiset Thread} {p : Nat} {pc : NextPc}
    {ret : Bool} (hq : Queue s n a m) (hphase : Phase s n a m D)
    (hD : D = .nextStage p holds pc ::ₘ rest)
    (hthreads : s.threads = rest + unlocks u)
    (hfills : Fills s (.go (.nextStage p holds pc) ret))
    (h : s.exec ret (.nextStage p holds pc) = some t) :
    ∃ u, Rests t (unlocks u) := by
  cases hphase with
  | idle => exact absurd hD.symm Multiset.cons_ne_zero
  | enter placed between current le first entered =>
      obtain ⟨heq, rfl⟩ := (Multiset.singleton_eq_cons_iff _).mp hD
      injection heq with hp hholds hpc
      subst hp hholds hpc
      simp only [exec, placed.heap, Option.some.injEq] at h
      subst h
      rw [Multiset.zero_add] at hthreads
      exact ⟨u, hthreads ▸ enter_rests hq placed between current le first
        entered (hfills _ placed.heap)⟩
  | create placed between current lt =>
      obtain ⟨heq, rfl⟩ := (Multiset.singleton_eq_cons_iff _).mp hD
      injection heq with hp hholds hpc
      subst hp hholds hpc
      simp only [exec, placed.heap, Option.some.injEq] at h
      subst h
      rw [Multiset.zero_add] at hthreads
      refine ⟨u, hthreads ▸ create_rests hq placed between current lt ?_⟩
      intro st hst
      exact hfills _ st placed.heap hst
  | enqueue placed working lt =>
      rcases Multiset.cons_eq_cons.mp hD with ⟨heq, hrest⟩ | ⟨-, C, hC, -⟩
      · injection heq with hp hholds hpc
        subst hp hholds hpc
        simp only [exec, placed.heap, Option.some.injEq] at h
        subst h
        rw [← hrest] at hthreads
        exact enqueue_rests hq placed working lt hthreads
      · exact absurd (hC ▸ Multiset.mem_cons_self _ C) nextStage_notMem_workers
  | run placed working left =>
      exact absurd (hD ▸ Multiset.mem_cons_self _ rest) nextStage_notMem_workers
  | closing active =>
      obtain ⟨heq, rfl⟩ := (Multiset.singleton_eq_cons_iff _).mp hD
      injection heq with hp hholds hpc
      subst hp hholds hpc
      rw [Multiset.zero_add] at hthreads
      exact pop_rests hq active hthreads h

/-- The end of a scope belongs to no phase. -/
theorem unlock_notMem_phase {D : Multiset Thread} (h : Phase s n a m D) :
    Thread.unlock ∉ D := by
  have hworkers : ∀ W, Thread.unlock ∉ workers n W := by
    intro W hmem
    obtain ⟨_, _, _, heq⟩ := mem_workers.mp hmem
    cases heq
  cases h with
  | idle => exact Multiset.notMem_zero _
  | enter | create | closing => simp
  | enqueue => simp [hworkers]
  | run => exact hworkers _

/-- It gives the lock back. -/
theorem unlock_rests {D rest : Multiset Thread} (hq : Queue s n a m)
    (hphase : Phase s n a m D)
    (hthreads : .unlock ::ₘ rest = D + unlocks u) (hrest : s.threads = rest) :
    ∃ u, Rests { s with mutex_ := false } (unlocks u) := by
  cases u with
  | zero =>
      have hmem : Thread.unlock ∈ D + unlocks 0 := by
        rw [← hthreads]
        exact Multiset.mem_cons_self _ _
      exact absurd (by simpa [unlocks] using hmem) (unlock_notMem_phase hphase)
  | succ u =>
      rw [unlocks_succ, Multiset.add_cons] at hthreads
      refine ⟨u, n, a, m, D, hq.keep rfl rfl rfl (fun _ _ => rfl) rfl,
        hphase.keep rfl rfl (fun _ => rfl) (fun _ => rfl) fun _ => rfl, ?_⟩
      exact hrest.trans ((Multiset.cons_inj_right _).mp hthreads)

end Whole

/-- A thread that does not hold `mutex_` leaves the one that does. -/
theorem holder_of_cons {th : Thread} {rest more : Multiset Thread}
    (hth : ¬ th.Holds) (h : ∃ x ∈ th ::ₘ rest, x.Holds) (hle : rest ⊆ more) :
    ∃ x ∈ more, x.Holds := by
  obtain ⟨x, hx, hholds⟩ := h
  rcases Multiset.mem_cons.mp hx with rfl | hx
  · exact absurd hholds hth
  · exact ⟨x, hle hx, hholds⟩

/-- Leaving `NextStage` takes no thread away. -/
theorem leave_threads {threads : Multiset Thread} (s : Pipes δ)
    (hs : threads ⊆ s.threads) (holds : Bool) :
    threads ⊆ (s.leave holds).threads := by
  cases holds with
  | true => exact Multiset.Subset.trans hs (Multiset.subset_cons _ _)
  | false => exact hs

/-- Nor does it touch the lock. -/
theorem leave_mutex (s : Pipes δ) (holds : Bool) :
    (s.leave holds).mutex_ = s.mutex_ := by
  cases holds <;> rfl

/-- A worker leaves `mutex_` and the other threads alone. -/
theorem work_frame (s : Pipes δ) (p i : Nat) (pipe : PipeImpl δ) (ret : Bool)
    (pc : Pc) :
    (s.work p i pipe ret pc).mutex_ = s.mutex_ ∧
      s.threads ⊆ (s.work p i pipe ret pc).threads := by
  have hcons : ∀ th, s.threads ⊆ th ::ₘ s.threads := fun th =>
    Multiset.subset_cons _ _
  cases pc with
  | queued | passing | done =>
      simp only [work]
      repeat' split
      all_goals exact ⟨rfl, by first | exact hcons _ | exact Multiset.Subset.refl _⟩
  | running | called => exact ⟨rfl, hcons _⟩
  | decr =>
      simp only [work]
      repeat' split
      all_goals exact ⟨rfl, by first | exact hcons _ | exact Multiset.Subset.refl _⟩

/-- `NextStage` leaves `mutex_` and the other threads alone. -/
theorem nextStage_frame (s : Pipes δ) (p : Nat) (holds : Bool)
    (pipe : PipeImpl δ) (pc : NextPc) :
    (s.nextStage p holds pipe pc).mutex_ = s.mutex_ ∧
      s.threads ⊆ (s.nextStage p holds pipe pc).threads := by
  have hcons : ∀ th, s.threads ⊆ th ::ₘ s.threads := fun th =>
    Multiset.subset_cons _ _
  cases pc with
  | enter =>
      simp only [Pipes.nextStage]
      split
      · exact ⟨rfl, hcons _⟩
      · exact ⟨rfl, hcons _⟩
  | create =>
      simp only [Pipes.nextStage]
      split
      · exact ⟨rfl, Multiset.Subset.refl _⟩
      · split
        · exact ⟨rfl, hcons _⟩
        · refine ⟨leave_mutex _ holds, leave_threads _ ?_ holds⟩
          exact Multiset.Subset.refl s.threads
  | enqueue insts i =>
      simp only [Pipes.nextStage]
      split
      · exact ⟨rfl, Multiset.Subset.trans (hcons _) (Multiset.subset_cons _ _)⟩
      · exact ⟨leave_mutex _ holds, leave_threads _ (hcons _) holds⟩
  | ended => exact ⟨rfl, Multiset.Subset.refl _⟩

/-- A call of `NextStage` with the lock goes on to a thread with the
lock. -/
theorem nextStage_holds {p : Nat} {pipe : PipeImpl δ} {pc : NextPc}
    (hpc : pc ≠ .ended)
    (hfault : (s.nextStage p true pipe pc).fault = false)
    (hfills : pc = .enter →
      pipe.currentStage_ + 1 ≠ pipe.spec_.stages_.length) :
    ∃ x ∈ (s.nextStage p true pipe pc).threads, x.Holds := by
  cases pc with
  | enter =>
      simp only [Pipes.nextStage, if_neg (hfills rfl)]
      exact ⟨_, Multiset.mem_cons_self _ _, rfl, nofun⟩
  | create =>
      simp only [Pipes.nextStage] at hfault ⊢
      split at hfault
      · cases hfault
      · split
        · exact ⟨_, Multiset.mem_cons_self _ _, rfl, nofun⟩
        · exact ⟨_, Multiset.mem_cons_self _ _, trivial⟩
  | enqueue insts i =>
      simp only [Pipes.nextStage]
      split
      · exact ⟨_, Multiset.mem_cons_self _ _, rfl, nofun⟩
      · exact ⟨_, Multiset.mem_cons_self _ _, trivial⟩
  | ended => exact absurd rfl hpc

/-- The lock is held where it should be, behind each step. -/
theorem construct_held {spec : PipeSpec δ} (h : s.construct spec = some t) :
    Held t := by
  unfold construct at h
  split at h
  · cases h
  · dsimp only at h
    split at h
    · obtain rfl := Option.some.inj h
      exact fun _ => ⟨_, Multiset.mem_cons_self _ _, rfl, nofun⟩
    · obtain rfl := Option.some.inj h
      exact fun _ => ⟨_, Multiset.mem_cons_self _ _, trivial⟩

theorem pop_held (h : s.lockAndPop = some t) : Held t := by
  unfold lockAndPop at h
  split at h
  · cases h
  · dsimp only at h
    split at h
    · obtain rfl := Option.some.inj h
      exact fun _ => ⟨_, Multiset.mem_cons_self _ _, rfl, nofun⟩
    · obtain rfl := Option.some.inj h
      exact fun _ => ⟨_, Multiset.mem_cons_self _ _, trivial⟩

theorem step_held {a : Action δ} (hI : Held s)
    (hstep : (pipes δ).step s a = some s') (hfills : Fills s a)
    (hfault : s'.fault = false) : Held s' := by
  cases a with
  | construct spec => exact construct_held hstep
  | go th ret =>
      obtain ⟨rest, hs, hexec⟩ := go_step.mp hstep
      unfold Held at hI
      rw [hs] at hI
      cases th with
      | worker p i pc =>
          simp only [exec] at hexec
          split at hexec
          · obtain rfl := Option.some.inj hexec
            cases hfault
          · obtain rfl := Option.some.inj hexec
            obtain ⟨hmutex, hsub⟩ := work_frame { s with threads := rest } p i _ ret pc
            intro hm
            exact holder_of_cons id (hI (hmutex ▸ hm)) hsub
      | nextStage p holds pc =>
          by_cases hpc : pc = .ended
          · subst hpc
            exact pop_held hexec
          · simp only [exec] at hexec
            split at hexec
            · obtain rfl := Option.some.inj hexec
              cases hfault
            · rename_i pipe hheap
              obtain rfl := Option.some.inj hexec
              obtain ⟨hmutex, hsub⟩ :=
                nextStage_frame { s with threads := rest } p holds pipe pc
              intro hm
              cases holds with
              | true =>
                  refine nextStage_holds hpc hfault ?_
                  rintro rfl
                  exact hfills pipe hheap rfl
              | false =>
                  refine holder_of_cons ?_ (hI (hmutex ▸ hm)) hsub
                  exact fun hholds => Bool.false_ne_true hholds.1
      | unlock =>
          obtain rfl := Option.some.inj hexec
          intro hm
          cases hm

/-- A step that `Fills` goes from a phase to a phase. -/
theorem step_rests {a : Action δ} (hI : Inv s)
    (hstep : (pipes δ).step s a = some s') (hfills : Fills s a) :
    ∃ u, Rests s' (unlocks u) := by
  obtain ⟨n, b, m, D, u, hq, hphase, hthreads⟩ := hI.phase
  cases a with
  | construct spec => exact construct_rests hq hphase hthreads hstep
  | go th ret =>
      obtain ⟨rest, hs, hexec⟩ := go_step.mp hstep
      rw [hs] at hthreads
      have hq' : Queue { s with threads := rest } n b m :=
        hq.keep rfl rfl rfl (fun _ _ => rfl) rfl
      have hphase' : Phase { s with threads := rest } n b m D :=
        hphase.keep rfl rfl (fun _ => rfl) (fun _ => rfl) fun _ => rfl
      cases th with
      | worker p i pc =>
          obtain ⟨D', hD, hrest⟩ := thread_of_phase hthreads nofun
          exact ⟨u, worker_rests hq' hphase' hD hrest hexec⟩
      | nextStage p holds pc =>
          obtain ⟨D', hD, hrest⟩ := thread_of_phase hthreads nofun
          exact nextStage_rests hq' hphase' hD hrest hfills hexec
      | unlock =>
          obtain rfl := Option.some.inj hexec
          exact unlock_rests hq' hphase' hthreads rfl

/-- A step keeps the invariant. -/
theorem step_keeps {a : Action δ} (hI : Inv s)
    (hstep : (pipes δ).step s a = some s') (hfills : Fills s a) : Inv s' := by
  obtain ⟨u, n, b, m, D, hq, hphase, hthreads⟩ := step_rests hI hstep hfills
  exact ⟨step_held hI.held hstep hfills hq.fault, n, b, m, D, u, hq, hphase,
    hthreads⟩

/-- It holds at the start. -/
theorem init_inv : Inv (Pipes.init : Pipes δ) := by
  refine ⟨nofun, 0, 0, 0, 0, 0, ?_, .idle rfl rfl, rfl⟩
  exact ⟨rfl, Nat.le_refl 0, rfl, fun q spec _ h => by simp [Pipes.init] at h,
    fun q => by simp [Pipes.init], fun q => by simp [Pipes.init],
    fun q j i h => by simp [Pipes.init] at h, trivial⟩

end Sandesh.Pipeline
