/-
The sessions of a connection, over whole runs.

`Settled` is the invariant: the two copies of the session pointer agree,
there is a session exactly in the two states that serve one, and the
sessions waiting to be opened, the one being served and those handed back
are all different. It holds in every run. That every accepted session is
still in one of the three places does not: a session that is dequeued
while another is served drops out of all of them, and that is the only
way to lose one (`accounted_iff`).
-/
import Sandesh.ServerSM.Proofs.Moves

namespace Sandesh.ServerSM

open Lib SandeshStateMachine

variable {T : Timers}

/-- What an action does, seen through the view. -/
theorem step_cases {sm sm' : SandeshStateMachine T} {a : Action}
    (h : step sm a = some sm') :
    ((∀ processed, a ≠ .dequeue processed) ∧ sm'.view = sm.view)
      ∨ ((∀ processed, a ≠ .dequeue processed) ∧ sm'.view = { sm.view with
          waiting := sm.view.waiting ++ [sm.accepted]
          accepted := sm.accepted + 1 })
      ∨ ∃ processed event rest, a = .dequeue processed
          ∧ sm.work_queue_ = event :: rest
          ∧ Moves { sm.view with waiting := rest.filterMap Event.opened } event
              sm'.view := by
  have henq : ∀ {sm : SandeshStateMachine T} {event : Event},
      event.deleted = none → event.opened = none →
      (sm.Enqueue event).view = sm.view := by
    intro sm event hd ho
    rw [view_enqueue, hd, ho]
    simp
  cases a with
  | dequeue processed =>
      simp only [step] at h
      cases hq : sm.work_queue_ with
      | nil => simp [hq] at h
      | cons event rest =>
          simp only [hq, Option.some.injEq] at h
          subst h
          exact .inr (.inr ⟨processed, event, rest, rfl, rfl,
            dequeue_moves processed event { sm with work_queue_ := rest }⟩)
  | PassiveOpen =>
      injection h with h
      subst h
      refine .inr (.inl ⟨by simp, ?_⟩)
      simp [Event.deleted, Event.opened]
      simp [view]
  | Initialize =>
      injection h with h
      exact .inl ⟨by simp, h ▸ henq rfl rfl⟩
  | Shutdown =>
      injection h with h
      exact .inl ⟨by simp, h ▸ henq rfl rfl⟩
  | SetAdminState down =>
      injection h with h
      subst h
      cases down with
      | true => exact .inl ⟨by simp, henq rfl rfl⟩
      | false => exact .inl ⟨by simp, henq rfl rfl⟩
  | sessionClosed session =>
      simp only [step] at h
      split at h
      · injection h with h
        exact .inl ⟨by simp, h ▸ henq rfl rfl⟩
      · cases h
  | OnSandeshMessage control msg =>
      injection h with h
      subst h
      cases control with
      | true => exact .inl ⟨by simp, henq rfl rfl⟩
      | false => exact .inl ⟨by simp, henq rfl rfl⟩
  | ResourceUpdate rsc =>
      injection h with h
      exact .inl ⟨by simp, h ▸ henq rfl rfl⟩
  | IdleHoldTimerExpired =>
      simp only [step] at h
      split at h
      · injection h with h
        exact .inl ⟨by simp, h ▸ henq rfl rfl⟩
      · cases h

-- ======================================================= the invariant

/-- Sessions that are waiting, given back or being served. -/
def View.held (v : View) : List Nat :=
  v.waiting ++ (v.deletes ++ v.session_.toList)

/-- What holds behind every step. -/
structure Settled (v : View) : Prop where
  both : v.connection_session = v.session_
  none_iff : v.session_ = none ↔ v.state_ = .IDLE ∨ v.state_ = .ACTIVE
  resource : v.state_ ≠ .ESTABLISHED → v.resource_ = false
  distinct : v.held.Nodup
  accepted : ∀ s ∈ v.held, s < v.accepted

theorem settled_new : Settled (SandeshStateMachine.new T).view where
  both := rfl
  none_iff := by simp [SandeshStateMachine.new, view]
  resource := fun _ => rfl
  distinct := List.nodup_nil
  accepted := by simp [View.held, SandeshStateMachine.new, view]

/-- A machine in `Idle` holds what it held: the session has only changed
its place. -/
theorem toIdle_held (v : View) : v.toIdle.held = v.held := by
  show v.waiting ++ ((v.deletes ++ v.session_.toList) ++ []) = _
  rw [List.append_nil]
  rfl

theorem settled_toIdle {v : View} (h : Settled v) : Settled v.toIdle where
  both := rfl
  none_iff := by simp [View.toIdle, View.enter, View.leave, View.set_session]
  resource := by
    intro _
    show (if v.state_ = .ESTABLISHED then false else v.resource_) = false
    split
    · rfl
    · exact h.resource ‹_›
  distinct := by
    rw [toIdle_held]
    exact h.distinct
  accepted := by
    rw [toIdle_held]
    exact h.accepted

/-- The view with the head of the queue taken off holds a part of what it
held, and the session of the head besides. -/
theorem held_pop {v : View} {waiting : List Nat} {event : Event}
    (hw : v.waiting = event.opened.toList ++ waiting) :
    v.held = event.opened.toList ++ { v with waiting := waiting }.held := by
  simp [View.held, hw]

theorem settled_pop {v : View} {waiting : List Nat} {event : Event}
    (h : Settled v) (hw : v.waiting = event.opened.toList ++ waiting) :
    Settled { v with waiting := waiting } where
  both := h.both
  none_iff := h.none_iff
  resource := h.resource
  distinct := by
    have hd := h.distinct
    rw [held_pop hw] at hd
    exact (List.nodup_append.mp hd).2.1
  accepted := by
    intro s hs
    refine h.accepted s ?_
    rw [held_pop hw]
    exact List.mem_append_right _ hs

/-- The session of a dequeued `EvTcpPassiveOpen` is held nowhere else. -/
theorem fresh_pop {v : View} {waiting : List Nat} {s : Nat}
    (h : Settled v) (hw : v.waiting = s :: waiting) :
    s ∉ { v with waiting := waiting }.held ∧ s < v.accepted := by
  have hheld : v.held = s :: { v with waiting := waiting }.held := by
    simp [View.held, hw]
  constructor
  · have hd := h.distinct
    rw [hheld] at hd
    exact (List.nodup_cons.mp hd).1
  · refine h.accepted s ?_
    rw [hheld]
    exact List.mem_cons_self

/-- Moving one new session in among those held. -/
theorem settled_held {v v' : View} {s : Nat} (h : Settled v)
    (hfresh : s ∉ v.held ∧ s < v.accepted) (hperm : v'.held.Perm (s :: v.held))
    (hacc : v'.accepted = v.accepted) :
    v'.held.Nodup ∧ ∀ x ∈ v'.held, x < v'.accepted := by
  constructor
  · exact hperm.nodup_iff.mpr (List.nodup_cons.mpr ⟨hfresh.1, h.distinct⟩)
  · intro x hx
    rw [hacc]
    rcases List.mem_cons.mp (hperm.subset hx) with rfl | hmem
    · exact hfresh.2
    · exact h.accepted x hmem

/-- Every move keeps the invariant, given that a session to be opened is
new. -/
theorem moves_settled {v v' : View} {event : Event} (h : Settled v)
    (hfresh : ∀ s, event = .EvTcpPassiveOpen s → s ∉ v.held ∧ s < v.accepted)
    (hmove : Moves v event v') : Settled v' := by
  cases hmove with
  | ignored _ => exact h
  | @refused s hidle =>
      have hperm : { v with deletes := v.deletes ++ [s] }.held.Perm
          (s :: v.held) := by
        simp only [View.held]
        rw [List.append_assoc, ← List.append_assoc]
        exact List.perm_middle.trans (by simp)
      obtain ⟨hd, hacc⟩ := settled_held h (hfresh s rfl) hperm rfl
      exact ⟨h.both, h.none_iff, h.resource, hd, hacc⟩
  | activated hidle _ =>
      refine ⟨h.both, ?_, ?_, h.distinct, h.accepted⟩
      · have := h.none_iff
        simp [hidle] at this
        simp [this]
      · intro _
        exact h.resource (by simp [hidle])
  | @opened s hactive =>
      have hnone : v.session_ = none := h.none_iff.mpr (.inr hactive)
      have hperm : { v.set_session (some s) with
          state_ := .SERVER_INIT }.held.Perm (s :: v.held) := by
        simp only [View.held, View.set_session, hnone, Option.toList,
          List.append_nil]
        rw [← List.append_assoc]
        exact List.perm_append_singleton _ _
      obtain ⟨hd, hacc⟩ := settled_held h (hfresh s rfl) hperm rfl
      refine ⟨rfl, ?_, ?_, hd, hacc⟩
      · simp [View.set_session]
      · intro _
        exact h.resource (by simp [hactive])
  | established hinit _ =>
      refine ⟨h.both, ?_, ?_, h.distinct, h.accepted⟩
      · have := h.none_iff
        simp [hinit] at this
        simp [this]
      · intro hne
        exact absurd rfl hne
  | resource hest =>
      refine ⟨h.both, h.none_iff, ?_, h.distinct, h.accepted⟩
      intro hne
      exact absurd hest hne
  | closed _ _ => exact settled_toIdle h

/-- The head of the queue, through the view. -/
theorem waiting_cons {sm : SandeshStateMachine T} {event : Event}
    {rest : List Event} (hq : sm.work_queue_ = event :: rest) :
    sm.view.waiting = event.opened.toList ++ rest.filterMap Event.opened := by
  show sm.work_queue_.filterMap Event.opened = _
  rw [hq]
  cases event <;> rfl

/-- One step of a run keeps the invariant. -/
theorem step_settled {sm sm' : SandeshStateMachine T} {a : Action}
    (h : Settled sm.view) (hstep : step sm a = some sm') :
    Settled sm'.view := by
  rcases step_cases hstep with ⟨-, heq⟩ | ⟨-, heq⟩
    | ⟨processed, event, rest, -, hq, hm⟩
  · rw [heq]
    exact h
  · rw [heq]
    have hfresh : sm.view.accepted ∉ sm.view.held := fun hmem =>
      Nat.lt_irrefl _ (h.accepted _ hmem)
    have hperm : { sm.view with
        waiting := sm.view.waiting ++ [sm.accepted]
        accepted := sm.accepted + 1 }.held.Perm
          (sm.accepted :: sm.view.held) := by
      simp only [View.held]
      rw [List.append_assoc]
      exact List.perm_middle
    refine ⟨h.both, h.none_iff, h.resource, ?_, ?_⟩
    · exact hperm.nodup_iff.mpr (List.nodup_cons.mpr ⟨hfresh, h.distinct⟩)
    · intro s hs
      show s < sm.accepted + 1
      rcases List.mem_cons.mp (hperm.subset hs) with rfl | hmem
      · exact Nat.lt_succ_self _
      · exact Nat.lt_succ_of_lt (h.accepted s hmem)
  · have hw := waiting_cons hq
    refine moves_settled (settled_pop h hw) ?_ hm
    intro s hev
    subst hev
    exact fresh_pop h hw

-- =========================================================== agreement

/-- The machine and its connection agree on the session. -/
structure Agrees (sm : SandeshStateMachine T) : Prop where
  both : sm.connection_session = sm.session_
  none_iff : sm.session_ = none ↔ sm.state_ = .IDLE ∨ sm.state_ = .ACTIVE
  resource : sm.state_ ≠ .ESTABLISHED → sm.resource_ = false
  once : ∀ s, sm.enqueued.count (.EvTcpDeleteSession s) ≤ 1

theorem agrees_of_settled {sm : SandeshStateMachine T}
    (h : Settled sm.view) : Agrees sm where
  both := h.both
  none_iff := h.none_iff
  resource := h.resource
  once := by
    intro s
    rw [selects_deleted.count]
    have hd := (List.nodup_append.mp h.distinct).2.1
    exact List.nodup_iff_count_le_one.mp (List.nodup_append.mp hd).1 s

/-- An `EvTcpClose` for a session that is not the current one changes
nothing. -/
def StaleCloseIgnored (sm : SandeshStateMachine T) (a : Action)
    (sm' : SandeshStateMachine T) : Prop :=
  ∀ processed s rest, a = .dequeue processed →
    sm.work_queue_ = .EvTcpClose s :: rest → sm.session_ ≠ some s →
    sm' = { sm with work_queue_ := rest }

theorem stale_close_ignored {sm sm' : SandeshStateMachine T} {a : Action}
    (h : Settled sm.view) (hstep : step sm a = some sm') :
    StaleCloseIgnored sm a sm' := by
  intro processed s rest ha hq hne
  subst ha
  simp only [step, hq, Option.some.injEq] at hstep
  subst hstep
  have hboth : sm.connection_session = sm.session_ := h.both
  have hvalid : ¬ validate (.EvTcpClose s) { sm with work_queue_ := rest }
      = true := by
    simp [validate, hboth, hne]
  rw [DequeueEvent, if_neg hvalid]

/-- In every run the machine and its connection agree, and no close of an
old session is felt. -/
theorem session_agreement (T : Timers) (as : List Action) :
    Agrees (SandeshStateMachine.new T) ∧ (machine T).Each
      (fun sm a sm' => Agrees sm' ∧ StaleCloseIgnored sm a sm')
      (SandeshStateMachine.new T) as := by
  refine ⟨agrees_of_settled settled_new, ?_⟩
  refine Machine.each_keeps (I := fun sm => Settled sm.view) ?_ as settled_new
  intro sm a sm' h hstep
  have h' := step_settled h hstep
  exact ⟨h', agrees_of_settled h', stale_close_ignored h hstep⟩

-- ======================================================== no lost session

/-- Every accepted session is still queued, is being served or has been
deleted. -/
def Accounted (sm : SandeshStateMachine T) : Prop :=
  ∀ s < sm.accepted, .EvTcpPassiveOpen s ∈ sm.work_queue_
    ∨ sm.session_ = some s ∨ .EvTcpDeleteSession s ∈ sm.enqueued

/-- No session is opened while another is being served. -/
def OpensApart (sm : SandeshStateMachine T) (a : Action) : Prop :=
  ∀ processed s rest, a = .dequeue processed →
    sm.work_queue_ = .EvTcpPassiveOpen s :: rest →
    sm.state_ ≠ .SERVER_INIT ∧ sm.state_ ≠ .ESTABLISHED

theorem accounted_iff_held {sm : SandeshStateMachine T} :
    Accounted sm ↔ ∀ s < sm.view.accepted, s ∈ sm.view.held := by
  refine forall₂_congr fun s _ => ?_
  rw [selects_opened.mem, selects_deleted.mem]
  simp only [View.held, List.mem_append, Option.mem_toList]
  exact or_congr_right Or.comm

/-- A move keeps hold of everything it held, and of the session it was to
open unless it ignored it. -/
theorem moves_held {v v' : View} {event : Event} (hmove : Moves v event v') :
    v'.accepted = v.accepted ∧ (∀ s ∈ v.held, s ∈ v'.held)
      ∧ ∀ s, event = .EvTcpPassiveOpen s →
        v.state_ ≠ .SERVER_INIT → v.state_ ≠ .ESTABLISHED → s ∈ v'.held := by
  cases hmove with
  | ignored h =>
      refine ⟨rfl, fun s hs => hs, ?_⟩
      intro s hev hinit hest
      rcases h s hev with hstate | hstate
      · exact absurd hstate hinit
      · exact absurd hstate hest
  | @refused s hidle =>
      refine ⟨rfl, ?_, ?_⟩
      · intro x hx
        simp only [View.held, List.mem_append] at hx ⊢
        tauto
      · intro x hev _ _
        injection hev with hev
        subst hev
        simp [View.held]
  | activated _ hev =>
      refine ⟨rfl, fun s hs => hs, ?_⟩
      intro s hs
      subst hs
      cases hev
  | @opened s hactive =>
      refine ⟨rfl, ?_, ?_⟩
      · intro x hx
        simp only [View.held, View.set_session, List.mem_append] at hx ⊢
        tauto
      · intro x hev _ _
        injection hev with hev
        subst hev
        simp [View.held, View.set_session]
  | established _ hev =>
      refine ⟨rfl, fun s hs => hs, ?_⟩
      intro s hs
      subst hs
      cases hev
  | resource _ => exact ⟨rfl, fun s hs => hs, by simp⟩
  | closed _ hev =>
      refine ⟨rfl, ?_, ?_⟩
      · intro s hs
        rw [toIdle_held]
        exact hs
      · intro s hs
        subst hs
        cases hev

/-- A session dequeued while another is served is lost. -/
theorem ignored_lost {v v' : View} {s : Nat} (hfresh : s ∉ v.held)
    (hstate : v.state_ = .SERVER_INIT ∨ v.state_ = .ESTABLISHED)
    (hmove : Moves v (.EvTcpPassiveOpen s) v') : s ∉ v'.held := by
  cases hmove with
  | ignored _ => exact hfresh
  | refused h => simp [h] at hstate
  | opened h => simp [h] at hstate
  | activated _ hev => cases hev
  | established _ hev => cases hev
  | closed _ hev => cases hev

/-- One step: the sessions stay accounted for exactly when none is opened
while another is served. -/
theorem step_accounted_iff {sm sm' : SandeshStateMachine T} {a : Action}
    (h : Settled sm.view) (hacc : Accounted sm)
    (hstep : step sm a = some sm') : Accounted sm' ↔ OpensApart sm a := by
  rw [accounted_iff_held] at hacc ⊢
  rcases step_cases hstep with ⟨ha, heq⟩ | ⟨ha, heq⟩
    | ⟨processed, event, rest, ha, hq, hm⟩
  · rw [heq]
    exact ⟨fun _ p _ _ hp => absurd hp (ha p), fun _ => hacc⟩
  · rw [heq]
    refine ⟨fun _ p _ _ hp => absurd hp (ha p), ?_⟩
    intro _ s hs
    simp only [View.held, List.mem_append, List.mem_singleton]
    rcases Nat.lt_succ_iff_lt_or_eq.mp hs with hlt | heq
    · have hmem := hacc s hlt
      simp only [View.held, List.mem_append] at hmem
      tauto
    · exact .inl (.inr heq)
  · have hw := waiting_cons hq
    obtain ⟨hsame, hkeep, hopen⟩ := moves_held hm
    constructor
    · intro hacc' p s rest' _ hq'
      obtain ⟨rfl, rfl⟩ : event = .EvTcpPassiveOpen s ∧ rest = rest' := by
        simpa [hq] using hq'
      obtain ⟨hfresh, hlt⟩ := fresh_pop h hw
      by_contra hserving
      have hlost := ignored_lost hfresh (by tauto) hm
      rw [hsame] at hacc'
      exact hlost (hacc' s hlt)
    · intro hapart s hs
      rw [hsame] at hs
      have hmem := hacc s hs
      rw [held_pop hw, List.mem_append] at hmem
      rcases hmem with hhead | hrest
      · have hev : event = .EvTcpPassiveOpen s :=
          selects_opened.mp (Option.mem_toList.mp hhead)
        subst hev
        obtain ⟨hinit, hest⟩ := hapart processed s rest ha hq
        exact hopen s rfl hinit hest
      · exact hkeep s hrest

/-- A run accounts for every session exactly when it opens none while
another is served. -/
theorem accounted_iff (T : Timers) (as : List Action) :
    (machine T).Each (fun _ _ sm' => Accounted sm')
        (SandeshStateMachine.new T) as
      ↔ (machine T).Each (fun sm a _ => OpensApart sm a)
        (SandeshStateMachine.new T) as := by
  refine Machine.each_iff (I := fun sm => Settled sm.view ∧ Accounted sm)
    ?_ ?_ as ⟨settled_new, nofun⟩
  · intro sm a sm' h hstep
    exact step_accounted_iff h.1 h.2 hstep
  · intro sm a sm' h hstep hacc
    exact ⟨step_settled h.1 hstep, hacc⟩

/-- Two sessions are accepted before the machine has looked at the first,
while `connection->session()` is still null: the second is neither served
nor deleted. -/
theorem second_session_lost :
    ((machine .phases).run (SandeshStateMachine.new .phases)
        [.Initialize, .PassiveOpen]).map (·.connection_session) = some none
      ∧ ¬ (machine .phases).Each (fun _ _ sm' => Accounted sm')
        (SandeshStateMachine.new .phases)
        [.Initialize, .PassiveOpen, .PassiveOpen, .dequeue true, .dequeue true,
          .dequeue true] := by
  refine ⟨rfl, ?_⟩
  intro h
  have hacc := Machine.each_last (M := machine .phases)
    [.Initialize, .PassiveOpen, .PassiveOpen, .dequeue true, .dequeue true]
    h rfl rfl
  rcases hacc 1 (by decide) with hq | hs | hd
  · revert hq
    decide
  · revert hs
    decide
  · revert hd
    decide

end Sandesh.ServerSM
