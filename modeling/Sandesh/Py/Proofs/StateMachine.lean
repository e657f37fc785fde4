/-
The Python client, over whole runs.

The table has one event that is not tagged with the session it is about:
`EvCollectorUnknown`, enqueued by a machine that found no collector to
connect to. If it is dequeued in a `Connect` that has found one
meanwhile, the session and its timer are taken along to `Disconnect`;
short of that the invariant holds in every run (`invariant_iff`). A stop
is listed for one state only, and what leaves `Idle` does so whether a
stop was seen or not; `down_iff` says what a run must avoid.
-/
import Sandesh.Py.Proofs.Moves

namespace Sandesh.Py.StateMachine

open Lib SandeshStateMachine

-- ================================================================ steps

/-- What everything but a dequeue does to the view. -/
inductive Outside (v : View) : View → Prop
  | queued : Outside v v
  | admin (down : Bool) : Outside v { v with disable := down }
  | held : Outside v { v with idle_hold_timer := false }
  | waited : Outside v { v with connect_timer := none }

/-- Closing a session is not in the view. -/
theorem close_view (sm : SandeshStateMachine) (connected : Bool) :
    (sm.close connected).view = sm.view := by
  unfold close
  cases hs : sm.session with
  | none => rfl
  | some s => cases connected <;> rfl

/-- A step comes from outside, or takes the event in front of the queue. -/
theorem step_cases {sm sm' : SandeshStateMachine} {a : Action}
    (h : step sm a = some sm') :
    ((∀ connected, a ≠ .dequeue connected) ∧ Outside sm.view sm'.view)
      ∨ ∃ connected event rest, a = .dequeue connected
        ∧ sm.event_queue = event :: rest ∧ sm.raised = none
        ∧ sm' = { sm with event_queue := rest }.dequeue_event connected
          event := by
  cases a with
  | initialize_ =>
      injection h with h
      exact .inl ⟨nofun, h ▸ .queued⟩
  | shutdown =>
      injection h with h
      exact .inl ⟨nofun, h ▸ .admin true⟩
  | set_admin_state down =>
      injection h with h
      refine .inl ⟨nofun, h ▸ ?_⟩
      cases down with
      | true => exact .admin true
      | false => exact .admin false
  | set_collectors collectors =>
      injection h with h
      exact .inl ⟨nofun, h ▸ .queued⟩
  | on_session_event session event =>
      injection h with h
      refine .inl ⟨nofun, h ▸ ?_⟩
      unfold on_session_event
      split
      · exact .queued
      · cases event <;> exact .queued
  | on_sandesh_ctrl_msg_receive session success connected msg collector =>
      simp only [step] at h
      split at h
      · injection h with h
        refine .inl ⟨nofun, h ▸ ?_⟩
        unfold on_sandesh_ctrl_msg_receive
        split
        · exact .queued
        · rw [close_view]
          exact .queued
      · cases h
  | on_sandesh_uve_msg_send msg =>
      injection h with h
      exact .inl ⟨nofun, h ▸ .queued⟩
  | idle_hold_timer_expiry =>
      simp only [step] at h
      split at h
      · injection h with h
        exact .inl ⟨nofun, h ▸ .held⟩
      · cases h
  | connect_timer_expiry =>
      simp only [step] at h
      split at h
      · cases h
      · injection h with h
        exact .inl ⟨nofun, h ▸ .waited⟩
  | dequeue connected =>
      simp only [step] at h
      split at h
      · injection h with h
        exact .inr ⟨connected, _, _, rfl, ‹_›, ‹_›, h.symm⟩
      · cases h

-- ============================================================ invariant

/-- What holds between events. -/
structure Invariant (v : View) : Prop where
  index : v.InList
  /-- no session in `Idle` and `Disconnect` -/
  parted : v.current = .Idle ∨ v.current = .Disconnect → v.session = none
  /-- one in `ClientInit` and `Established` -/
  joined : v.current = .ClientInit ∨ v.current = .Established →
    v.session ≠ none
  connecting : v.connect_timer ≠ none →
    v.current = .Connect ∨ v.current = .ClientInit
  holding : v.idle_hold_timer = true → v.current = .Idle
  asserted : v.raised ≠ some .AssertionError

/-- A `Connect` that found no collector waits for nothing. -/
def Unanswered (v : View) : Prop :=
  v.current = .Connect → v.session = none → v.connect_timer = none

section Invariant

variable {v v' : View} {event : Event}

/-- A new list keeps the index in it. -/
theorem inList_relisted (h : v.InList) : (v.relisted event).InList := by
  cases event with
  | EvCollectorChange collectors => exact .inl rfl
  | _ => exact h

/-- What a new list changes. -/
theorem relisted_eq : v.relisted event
    = { v with
      collectors := (v.relisted event).collectors
      collector_index := (v.relisted event).collector_index } := by
  cases event <;> rfl

/-- Nothing that the invariant speaks of. -/
theorem invariant_relisted (h : Invariant v) :
    Invariant (v.relisted event) := by
  have hin : (v.relisted event).InList := inList_relisted h.index
  rw [relisted_eq] at hin ⊢
  exact ⟨hin, h.parted, h.joined, h.connecting, h.holding, h.asserted⟩

/-- A list that is kept has an index. -/
theorem inList_kept {collectors : List Bytes} (h : v.Keeps collectors) :
    { v with collectors := collectors, collector_index := 0 }.InList := by
  refine .inr ⟨Int.le_refl 0, ?_⟩
  cases collectors with
  | nil => cases h.1
  | cons c cs =>
      show (0 : Int) < ((c :: cs).length : Int)
      simp

/-- What comes from outside keeps the invariant. -/
theorem invariant_outside (h : Invariant v) (hw : Unanswered v)
    (hout : Outside v v') : Invariant v' ∧ Unanswered v' := by
  cases hout with
  | queued => exact ⟨h, hw⟩
  | admin down =>
      exact ⟨⟨h.index, h.parted, h.joined, h.connecting, h.holding, h.asserted⟩,
        hw⟩
  | held =>
      exact ⟨⟨h.index, h.parted, h.joined, h.connecting, nofun, h.asserted⟩, hw⟩
  | waited =>
      exact ⟨⟨h.index, h.parted, h.joined, fun hne => absurd rfl hne, h.holding,
        h.asserted⟩, fun _ _ => rfl⟩

/-- From a view without timer and session. -/
theorem invariant_connects (hin : v.InList) (hcur : v.current = .Connect)
    (hsession : v.session = none) (htimer : v.connect_timer = none)
    (hheld : v.idle_hold_timer = false)
    (hraised : v.raised ≠ some .AssertionError) (hcon : Connects v v') :
    Invariant v' ∧ Unanswered v' := by
  cases hcon with
  | unknown _ =>
      refine ⟨⟨hin, ?_, ?_, ?_, ?_, hraised⟩, fun _ _ => htimer⟩
      · exact fun _ => hsession
      · simp [hcur]
      · exact fun _ => .inl hcur
      · simp [hheld]
  | malformed he hindex =>
      refine ⟨⟨.inr hindex, ?_, ?_, ?_, ?_, ?_⟩, fun _ _ => htimer⟩
      · exact fun _ => hsession
      · simp [hcur]
      · exact fun _ => .inl hcur
      · simp [hheld]
      · exact fun h => he (Option.some.inj h)
  | attempt hindex =>
      refine ⟨⟨.inr hindex, ?_, ?_, ?_, ?_, hraised⟩, nofun⟩
      · simp [hcur]
      · simp [hcur]
      · exact fun _ => .inl hcur
      · simp [hheld]

/-- Entering a state, but for `Disconnect` with a session. -/
theorem invariant_enters {state : State} {w : View} (h : Invariant w)
    (hw : Unanswered w) (hdst : dst event w.current = some state)
    (hlate : event = .EvCollectorUnknown → w.current = .Connect →
      w.session = none)
    (henter : Enters w state v') : Invariant v' ∧ Unanswered v' := by
  cases henter with
  | idle =>
      refine ⟨⟨h.index, fun _ => rfl, by simp [View.onIdle, View.into],
        fun hne => absurd rfl hne, fun _ => rfl, h.asserted⟩, fun _ _ => rfl⟩
  | disconnect =>
      obtain ⟨hcur, hev⟩ := dst_disconnect hdst
      have hnone := hlate hev hcur
      have htimer := hw hcur hnone
      refine ⟨⟨h.index, fun _ => hnone, by simp [View.into],
        fun hne => absurd htimer hne, ?_, h.asserted⟩, fun _ _ => htimer⟩
      intro hheld
      cases hcur.symm.trans (h.holding hheld)
  | connect hcon =>
      have htimer : w.connect_timer = none := by
        by_contra hne
        rcases h.connecting hne with hcur | hcur
        · rcases dst_connect hdst with h' | h' | h' <;>
            cases hcur.symm.trans h'
        · rcases dst_connect hdst with h' | h' | h' <;>
            cases hcur.symm.trans h'
      exact invariant_connects (v := (w.into .Connect).cleared) h.index rfl rfl
        htimer rfl h.asserted hcon
  | clientInit hsession =>
      obtain ⟨hcur, -⟩ := dst_clientInit hdst
      refine ⟨⟨h.index, by simp [View.into], fun _ => hsession,
        fun _ => .inr rfl, ?_, h.asserted⟩,
        by simp [Unanswered, View.into]⟩
      intro hheld
      cases hcur.symm.trans (h.holding hheld)
  | established =>
      obtain ⟨hcur, -⟩ := dst_established hdst
      refine ⟨⟨h.index, by simp [View.into], fun _ => h.joined (.inl hcur),
        fun hne => absurd rfl hne, ?_, h.asserted⟩,
        by simp [Unanswered, View.into]⟩
      intro hheld
      cases hcur.symm.trans (h.holding hheld)

/-- So does a move, if no old answer comes late. -/
theorem invariant_moves (h : Invariant v) (hw : Unanswered v)
    (hlate : event = .EvCollectorUnknown → v.current = .Connect →
      v.session = none) (hm : Moves v event v') :
    Invariant v' ∧ Unanswered v' := by
  have hcur : (v.relisted event).current = v.current := by rw [relisted_eq]
  have hses : (v.relisted event).session = v.session := by rw [relisted_eq]
  have hw' : Unanswered (v.relisted event) := by
    rw [relisted_eq]
    exact hw
  cases hm with
  | stale _ => exact ⟨h, hw⟩
  | kept _ hkeep =>
      exact ⟨⟨inList_kept hkeep, h.parted, h.joined, h.connecting, h.holding,
        h.asserted⟩, hw⟩
  | stayed _ _ _ => exact ⟨invariant_relisted h, hw'⟩
  | moved _ _ hdst henter =>
      rw [← hcur] at hdst
      refine invariant_enters (invariant_relisted h) hw' hdst ?_ henter
      rw [hcur, hses]
      exact hlate

/-- A session found meanwhile is taken along. -/
theorem moves_unknown (hcur : v.current = .Connect)
    (hm : Moves v .EvCollectorUnknown v') : v' = v.into .Disconnect := by
  cases hm with
  | stale hs => cases hs.1
  | kept hev _ => cases hev
  | stayed _ _ hdst =>
      rw [hcur] at hdst
      cases hdst
  | moved _ _ hdst henter =>
      rw [hcur] at hdst
      injection hdst with hdst
      subst hdst
      cases henter
      rfl

end Invariant

/-- An event tagged with a session other than the current one changes
nothing. -/
def IgnoresOld (sm : SandeshStateMachine) (a : Action)
    (sm' : SandeshStateMachine) : Prop :=
  ∀ connected event rest, a = .dequeue connected →
    sm.event_queue = event :: rest → event.session.isSome →
    event.session ≠ sm.session → sm' = { sm with event_queue := rest }

/-- No `EvCollectorUnknown` is dequeued in a `Connect` that has a
session. -/
def NoLateUnknown (sm : SandeshStateMachine) (a : Action) : Prop :=
  ∀ connected rest, a = .dequeue connected →
    sm.event_queue = .EvCollectorUnknown :: rest →
    sm.current = .Connect → sm.session = none

section Step

variable {sm sm' : SandeshStateMachine} {a : Action}

/-- Events of another session change nothing. -/
theorem step_ignoresOld (hstep : step sm a = some sm') :
    IgnoresOld sm a sm' := by
  intro connected event rest ha hq hsome hne
  rcases step_cases hstep with ⟨hno, -⟩ | ⟨_, event', rest', -, hq', -, hsm'⟩
  · exact absurd ha (hno connected)
  · rw [hq] at hq'
    injection hq' with hev hrest
    subst hev hrest
    unfold dequeue_event at hsm'
    rwa [if_pos ⟨hsome, hne⟩] at hsm'

/-- A step, by what it does to the view. -/
theorem step_moves (hin : sm.view.InList) (hstep : step sm a = some sm') :
    ((∀ connected, a ≠ .dequeue connected) ∧ Outside sm.view sm'.view)
      ∨ ∃ connected event rest, a = .dequeue connected
        ∧ sm.event_queue = event :: rest ∧ Moves sm.view event sm'.view := by
  rcases step_cases hstep with
    hout | ⟨connected, event, rest, ha, hq, hraised, rfl⟩
  · exact .inl hout
  · have hin' : { sm with event_queue := rest }.view.InList := hin
    exact .inr ⟨connected, event, rest, ha, hq, dequeue_moves hin' hraised⟩

/-- A step keeps the invariant, if no old answer comes late. -/
theorem step_invariant (h : Invariant sm.view) (hw : Unanswered sm.view)
    (hstep : step sm a = some sm') (hlate : NoLateUnknown sm a) :
    Invariant sm'.view ∧ Unanswered sm'.view := by
  rcases step_moves h.index hstep with
    ⟨-, hout⟩ | ⟨connected, event, rest, ha, hq, hm⟩
  · exact invariant_outside h hw hout
  · refine invariant_moves h hw ?_ hm
    intro hev hcur
    exact hlate connected rest ha (hev ▸ hq) hcur

/-- And only then. -/
theorem step_late (h : Invariant sm.view) (hstep : step sm a = some sm')
    (h' : Invariant sm'.view) : NoLateUnknown sm a := by
  intro connected rest ha hq hcur
  rcases step_moves h.index hstep with ⟨hno, -⟩ | ⟨_, event, _, -, hq', hm⟩
  · exact absurd ha (hno connected)
  · rw [hq] at hq'
    injection hq' with hev hrest
    subst hev hrest
    have hview := moves_unknown hcur hm
    have hses : sm'.session = sm.session := congrArg View.session hview
    exact hses.symm.trans (h'.parted (.inr (congrArg View.current hview)))

end Step

/-- It holds at the start. -/
theorem invariant_new (collectors : List Bytes) :
    Invariant (new collectors).view ∧ Unanswered (new collectors).view := by
  refine ⟨⟨.inl rfl, fun _ => rfl, ?_, fun hne => absurd rfl hne, nofun, nofun⟩,
    fun _ _ => rfl⟩
  intro h
  rcases h with h | h <;> cases h

/-- The invariant holds in the beginning, and along a run exactly when no
`EvCollectorUnknown` comes too late. -/
theorem invariant_iff (collectors : List Bytes) (as : List Action) :
    Invariant (new collectors).view
      ∧ (machine.Each (fun sm a sm' => Invariant sm'.view
            ∧ IgnoresOld sm a sm') (new collectors) as
          ↔ machine.Each (fun sm a _ => NoLateUnknown sm a) (new collectors)
            as) := by
  refine ⟨(invariant_new collectors).1, ?_⟩
  refine Machine.each_iff
    (I := fun sm => Invariant sm.view ∧ Unanswered sm.view) ?_ ?_ as
    (invariant_new collectors)
  · intro sm a sm' h hstep
    constructor
    · intro h'
      exact step_late h.1 hstep h'.1
    · intro hlate
      exact ⟨(step_invariant h.1 h.2 hstep hlate).1, step_ignoresOld hstep⟩
  · intro sm a sm' h hstep h'
    exact step_invariant h.1 h.2 hstep (step_late h.1 hstep h'.1)

/-- The hold timer of a machine without collectors expires, and two lists
are queued before the machine takes note that it found no collector. -/
def lateUnknownRun : List Action :=
  [.initialize_, .dequeue false, .idle_hold_timer_expiry,
    .set_collectors [lit "a:1"], .set_collectors [lit "b:1"], .dequeue false,
    .dequeue false, .dequeue false]

/-- An old answer brings a machine with a session into `Disconnect`. -/
theorem session_in_disconnect :
    ¬ machine.Each (fun sm a sm' => Invariant sm'.view ∧ IgnoresOld sm a sm')
      (new []) (lateUnknownRun ++ [.dequeue false]) := by
  intro h
  have hlast := Machine.each_last (M := machine) lateUnknownRun h rfl rfl
  have hnone := hlast.1.parted (.inr rfl)
  cases hnone

-- ================================================================ stops

/-- Has a stop been dequeued and no start since? -/
def stopped (m : Bool) (sm : SandeshStateMachine) : Action → Bool
  | .dequeue _ =>
      match sm.event_queue with
      | .EvStop :: _ => true
      | .EvStart :: _ => false
      | _ => m
  | _ => m

/-- A stopped machine is in `Idle` and has no session. -/
def Down (x : SandeshStateMachine × Bool) : Prop :=
  x.2 = true → x.1.current = .Idle ∧ x.1.session = none

/-- A stop finds the machine in `Idle` or `Established`, and a stopped
machine meets neither an expiry of the hold timer nor a change of its
collector. -/
def Undisturbed (x : SandeshStateMachine × Bool) (a : Action) : Prop :=
  ∀ connected event rest, a = .dequeue connected →
    x.1.event_queue = event :: rest →
    (event = .EvStop → x.1.current = .Idle ∨ x.1.current = .Established)
      ∧ (x.2 = true → event ≠ .EvIdleHoldTimerExpired
        ∧ ∀ collectors, event = .EvCollectorChange collectors →
          x.1.view.Keeps collectors)

section Stops

variable {v v' : View} {event : Event}

/-- A move keeps the index in the list. -/
theorem inList_moves (h : v.InList) (hm : Moves v event v') : v'.InList := by
  have hin : (v.relisted event).InList := inList_relisted h
  cases hm with
  | stale _ => exact h
  | kept _ hkeep => exact inList_kept hkeep
  | stayed _ _ _ => exact hin
  | moved _ _ _ henter =>
      cases henter with
      | idle => exact hin
      | disconnect => exact hin
      | connect hcon =>
          cases hcon with
          | unknown _ => exact hin
          | malformed _ hindex => exact .inr hindex
          | attempt hindex => exact .inr hindex
      | clientInit _ => exact hin
      | established => exact hin

/-- The parts of a move that change no state, and those that do. -/
theorem connects_current (h : Connects v v') : v'.current = v.current := by
  cases h <;> rfl

theorem enters_current {state : State} (h : Enters v state v') :
    v'.current = state := by
  cases h with
  | connect hcon => exact connects_current hcon
  | _ => rfl

/-- In `Idle` there is no session. -/
theorem moves_idle_session (h : v.current = .Idle → v.session = none)
    (hm : Moves v event v') : v'.current = .Idle → v'.session = none := by
  cases hm with
  | stale _ => exact h
  | kept _ _ => exact h
  | stayed _ _ _ =>
      rw [relisted_eq]
      exact h
  | moved _ _ hdst henter =>
      intro hidle
      have hstate := (enters_current henter).symm.trans hidle
      subst hstate
      cases henter
      rfl

/-- A stop takes effect in `Established`, and is not needed in `Idle`. -/
theorem moves_stop_iff (h : v.current = .Idle → v.session = none)
    (hm : Moves v .EvStop v') :
    (v'.current = .Idle ∧ v'.session = none)
      ↔ (v.current = .Idle ∨ v.current = .Established) := by
  cases hm with
  | stale hs => cases hs.1
  | kept hev _ => cases hev
  | stayed _ _ hdst =>
      constructor
      · intro hdown
        exact .inl hdown.1
      · intro hcur
        rcases hcur with hcur | hcur
        · exact ⟨hcur, h hcur⟩
        · rw [hcur] at hdst
          cases hdst
  | moved _ _ hdst henter =>
      cases hcur : v.current <;> rw [hcur] at hdst <;> cases hdst
      cases henter
      exact ⟨fun _ => .inr rfl, fun _ => ⟨rfl, rfl⟩⟩

/-- Out of `Idle` without a start: an expiry, or another collector. -/
theorem moves_idle_iff (hidle : v.current = .Idle) (hnone : v.session = none)
    (hstart : event ≠ .EvStart) (hm : Moves v event v') :
    (v'.current = .Idle ∧ v'.session = none)
      ↔ (event ≠ .EvIdleHoldTimerExpired
        ∧ ∀ collectors, event = .EvCollectorChange collectors →
          v.Keeps collectors) := by
  cases hm with
  | stale hs =>
      refine ⟨fun _ => ⟨?_, ?_⟩, fun _ => ⟨hidle, hnone⟩⟩
      · intro hev
        subst hev
        cases hs.1
      · intro collectors hev
        subst hev
        cases hs.1
  | kept hev hkeep =>
      refine ⟨fun _ => ⟨?_, ?_⟩, fun _ => ⟨hidle, hnone⟩⟩
      · rw [hev]
        nofun
      · intro collectors hev'
        rw [hev] at hev'
        injection hev' with hc
        exact hc ▸ hkeep
  | stayed _ _ hdst =>
      rw [hidle] at hdst
      have hdown : (v.relisted event).current = .Idle
          ∧ (v.relisted event).session = none := by
        rw [relisted_eq]
        exact ⟨hidle, hnone⟩
      refine ⟨fun _ => ⟨?_, ?_⟩, fun _ => hdown⟩
      · intro hev
        subst hev
        cases hdst
      · intro collectors hev
        subst hev
        cases hdst
  | moved _ hkeep hdst henter =>
      rw [hidle] at hdst
      obtain ⟨hstate, hev⟩ := dst_idle hdst
      constructor
      · intro hdown
        cases hdown.1.symm.trans ((enters_current henter).trans hstate)
      · intro hquiet
        rcases hev with hev | hev | ⟨cs, hev⟩
        · exact absurd hev hstart
        · exact absurd hev hquiet.1
        · exact absurd ⟨cs, hev, hquiet.2 cs hev⟩ hkeep

end Stops

/-- What comes from outside changes none of these. -/
theorem outside_same {v v' : View} (h : Outside v v') :
    v'.current = v.current ∧ v'.session = v.session
      ∧ v'.collectors = v.collectors
      ∧ v'.collector_index = v.collector_index := by
  cases h <;> exact ⟨rfl, rfl, rfl, rfl⟩

/-- Only a stop or a start that is taken changes whether the machine is
stopped. -/
theorem stopped_outside {m : Bool} {sm : SandeshStateMachine} {a : Action}
    (h : ∀ connected, a ≠ .dequeue connected) : stopped m sm a = m := by
  cases a with
  | dequeue connected => exact absurd rfl (h connected)
  | _ => rfl

theorem stopped_dequeue {m connected : Bool} {sm : SandeshStateMachine}
    {event : Event} {rest : List Event} (hq : sm.event_queue = event :: rest)
    (hstop : event ≠ .EvStop) (hstart : event ≠ .EvStart) :
    stopped m sm (.dequeue connected) = m := by
  simp only [stopped, hq]
  cases event with
  | EvStop => exact absurd rfl hstop
  | EvStart => exact absurd rfl hstart
  | _ => rfl

/-- What every run keeps: the index, and no session in `Idle`. -/
def IdleBare (sm : SandeshStateMachine) : Prop :=
  sm.view.InList ∧ (sm.current = .Idle → sm.session = none)

/-- A step keeps `Idle` without a session. -/
theorem step_idleBare {sm sm' : SandeshStateMachine} {a : Action}
    (h : IdleBare sm) (hstep : step sm a = some sm') : IdleBare sm' := by
  rcases step_moves h.1 hstep with
    ⟨-, hout⟩ | ⟨connected, event, rest, ha, hq, hm⟩
  · obtain ⟨hcur, hses, hlist, hindex⟩ := outside_same hout
    refine ⟨?_, ?_⟩
    · unfold View.InList
      rw [hlist, hindex]
      exact h.1
    · intro hidle
      exact hses.trans (h.2 (hcur.symm.trans hidle))
  · exact ⟨inList_moves h.1 hm, moves_idle_session h.2 hm⟩

/-- One step of the watched machine. -/
theorem step_down_iff {x y : SandeshStateMachine × Bool} {a : Action}
    (hbare : IdleBare x.1) (hdown : Down x) (hstep : step x.1 a = some y.1)
    (hmon : y.2 = stopped x.2 x.1 a) : Down y ↔ Undisturbed x a := by
  rcases step_moves hbare.1 hstep with
    ⟨hno, hout⟩ | ⟨connected, event, rest, ha, hq, hm⟩
  · obtain ⟨hcur, hses, -⟩ := outside_same hout
    rw [stopped_outside hno] at hmon
    refine ⟨fun _ connected _ _ ha => absurd ha (hno connected), ?_⟩
    intro _ hy
    obtain ⟨hidle, hnone⟩ := hdown (hmon.symm.trans hy)
    exact ⟨hcur.trans hidle, hses.trans hnone⟩
  · -- the condition is about the event dequeued
    have hcond : Undisturbed x a
        ↔ (event = .EvStop → x.1.current = .Idle ∨ x.1.current = .Established)
          ∧ (x.2 = true → event ≠ .EvIdleHoldTimerExpired
            ∧ ∀ collectors, event = .EvCollectorChange collectors →
              x.1.view.Keeps collectors) := by
      refine ⟨fun h => h connected event rest ha hq, ?_⟩
      intro h _ event' rest' _ hq'
      rw [hq] at hq'
      injection hq' with hev
      subst hev
      exact h
    rw [hcond]
    subst ha
    by_cases hstop : event = .EvStop
    · subst hstop
      have hy : y.2 = true := by simp [hmon, stopped, hq]
      have hiff := moves_stop_iff hbare.2 hm
      constructor
      · intro hdown'
        exact ⟨fun _ => hiff.mp (hdown' hy), fun _ => ⟨nofun, nofun⟩⟩
      · intro h _
        exact hiff.mpr (h.1 rfl)
    · by_cases hstart : event = .EvStart
      · subst hstart
        have hy : y.2 = false := by simp [hmon, stopped, hq]
        refine ⟨fun _ => ⟨nofun, fun _ => ⟨nofun, nofun⟩⟩, ?_⟩
        intro _ htrue
        simp [hy] at htrue
      · rw [stopped_dequeue hq hstop hstart] at hmon
        constructor
        · intro hdown'
          refine ⟨fun h => absurd h hstop, fun hx => ?_⟩
          obtain ⟨hidle, hnone⟩ := hdown hx
          exact (moves_idle_iff hidle hnone hstart hm).mp
            (hdown' (hmon.trans hx))
        · intro h hy
          have hx := hmon.symm.trans hy
          obtain ⟨hidle, hnone⟩ := hdown hx
          exact (moves_idle_iff hidle hnone hstart hm).mpr (h.2 hx)

/-- A stopped machine is down exactly along the runs that leave it
alone. -/
theorem down_iff (collectors : List Bytes) (as : List Action) :
    (machine.watch stopped).Each (fun _ _ y => Down y)
        (new collectors, false) as
      ↔ (machine.watch stopped).Each (fun x a _ => Undisturbed x a)
        (new collectors, false) as := by
  refine Machine.each_iff (I := fun x => IdleBare x.1 ∧ Down x) ?_ ?_ as
    ⟨⟨.inl rfl, fun _ => rfl⟩, nofun⟩
  · intro x a y h hstep
    obtain ⟨hstep, hmon⟩ := Machine.watch_step.mp hstep
    exact step_down_iff h.1 h.2 hstep hmon
  · intro x a y h hstep hdown
    obtain ⟨hstep, -⟩ := Machine.watch_step.mp hstep
    exact ⟨step_idleBare h.1 hstep, hdown⟩

/-- A machine is shut down while it connects. -/
def stoppedConnectRun : List Action :=
  [.initialize_, .dequeue false, .idle_hold_timer_expiry, .dequeue false,
    .shutdown]

/-- A stop that is taken in `Connect` is lost. -/
theorem stop_not_consumed :
    ¬ (machine.watch stopped).Each (fun _ _ y => Down y)
      (new [lit "a:1"], false) (stoppedConnectRun ++ [.dequeue false]) := by
  intro h
  have hlast := Machine.each_last (M := machine.watch stopped)
    stoppedConnectRun h rfl rfl
  obtain ⟨hidle, -⟩ := hlast rfl
  cases hidle

end Sandesh.Py.StateMachine
