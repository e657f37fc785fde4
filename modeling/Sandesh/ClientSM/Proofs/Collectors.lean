/-
Which collector the client turns to.

`Choice` is the list of collectors, the index and the server in use. Two
functions change it: `CollectorUpdate` begins with a new list, and
`CollectorChange` moves on by one. Whichever state calls them, `Turns`
lists what an event can do to the state and the choice, and `Selected`,
that the server is the one at the index, follows from it for every run.

An attempt is made whenever `Connect` is entered. It is pending until the
machine is back in `Idle` or in `Established`, and has failed if it ends by
a failover event. Each of these moves the index on by one, once for an
attempt, since no event finds the attempt pending afterwards. So as long as
every attempt fails and no list arrives, the attempts go round.
-/
import Mathlib.Data.List.GetD
import Sandesh.ClientSM.Proofs.Moves

namespace Sandesh.ClientSM

open Lib SandeshClientSMImpl

variable {T : Timers}

/-- Where the client connects to, and how it got there. -/
structure Choice where
  server_ : Endpoint
  collectors_ : List Endpoint
  collector_index_ : Nat

/-- The members that say which collector it is. -/
def SandeshClientSMImpl.choice (sm : SandeshClientSMImpl T) : Choice where
  server_ := sm.server_
  collectors_ := sm.collectors_
  collector_index_ := sm.collector_index_

namespace Choice

/-- The server is the collector at the index, if there is one. -/
structure Selected (c : Choice) : Prop where
  some : c.collectors_ ≠ [] → c.collectors_[c.collector_index_]? = .some c.server_
  none : c.collectors_ = [] → c.server_ = .unset

/-- `CollectorUpdate`. -/
def update (collectors : List Endpoint) : Choice := ⟨collectors.getD 0 .unset, collectors, 0⟩

/-- The index behind `i`, in a list of `n`. -/
def following (n i : Nat) : Nat := if i + 1 = n then 0 else i + 1

/-- `CollectorChange`. -/
def change (c : Choice) : Choice :=
  if c.collectors_ = [] then { c with server_ := .unset }
  else
    let index := following c.collectors_.length c.collector_index_
    ⟨c.collectors_.getD index .unset, c.collectors_, index⟩

variable {c : Choice}

/-- The index is one of the list. -/
theorem Selected.lt (h : c.Selected) (hne : c.collectors_ ≠ []) :
    c.collector_index_ < c.collectors_.length :=
  (List.getElem?_eq_some_iff.mp (h.some hne)).1

/-- The server at an index of the list is a selection. -/
theorem selected_at {server : Endpoint} {collectors : List Endpoint} {i : Nat}
    (hi : i < collectors.length) (hserver : server = collectors.getD i .unset) :
    Selected ⟨server, collectors, i⟩ where
  some := by
    intro _
    show collectors[i]? = .some server
    rw [hserver, List.getD_eq_getElem?_getD, List.getElem?_eq_getElem hi, Option.getD_some]
  none := by
    intro hnil
    obtain rfl : collectors = [] := hnil
    cases hi

/-- The next index is one of the list. -/
theorem following_lt {n i : Nat} (hi : i < n) : following n i < n := by
  unfold following
  split <;> omega

/-- It is the next one modulo the length. -/
theorem following_eq_mod {n i : Nat} (hi : i < n) : following n i = (i + 1) % n := by
  unfold following
  split
  · rename_i h
    rw [h, Nat.mod_self]
  · rw [Nat.mod_eq_of_lt (by omega)]

/-- A new list selects its first collector. -/
theorem selected_update (collectors : List Endpoint) : (update collectors).Selected := by
  cases collectors with
  | nil => exact ⟨fun hne => absurd rfl hne, fun _ => rfl⟩
  | cons e es => exact selected_at (Nat.zero_lt_succ _) rfl

/-- Going on selects the next one. -/
theorem selected_change (h : c.Selected) : c.change.Selected := by
  unfold change
  split
  · rename_i hnil
    exact ⟨fun hne => absurd hnil hne, fun _ => rfl⟩
  · rename_i hne
    exact selected_at (following_lt (h.lt hne)) rfl

/-- Going on keeps the list. -/
theorem change_collectors (c : Choice) : c.change.collectors_ = c.collectors_ := by
  unfold change
  split <;> rfl

/-- It moves the index. -/
theorem change_index (hne : c.collectors_ ≠ []) :
    c.change.collector_index_ = following c.collectors_.length c.collector_index_ := by
  unfold change
  rw [if_neg hne]

end Choice

-- ====================================================== the operations

section Operations

variable (sm : SandeshClientSMImpl T)

/-- Sessions, timers and destructors leave the choice alone. -/
@[simp] theorem choice_set_session (session : Option Nat) (enq : Bool) :
    (sm.set_session session enq).choice = sm.choice := by
  unfold set_session
  cases sm.session_ with
  | none => rfl
  | some old => cases enq <;> rfl

@[simp] theorem choice_onIdle (enq : Bool) : (sm.OnIdle enq).choice = sm.choice := by
  unfold OnIdle
  rw [choice_set_session]
  rfl

@[simp] theorem choice_startIdleHoldTimer : sm.StartIdleHoldTimer.choice = sm.choice := by
  unfold StartIdleHoldTimer
  split <;> rfl

@[simp] theorem choice_leave : sm.leave.choice = sm.choice := by
  unfold SandeshClientSMImpl.leave
  cases sm.state_ <;> rfl

theorem choice_startSession (created : Bool) :
    (sm.StartSession created).choice = sm.choice := by
  cases created with
  | true => exact choice_set_session { sm with created := sm.created + 1 } _ true
  | false => exact choice_set_session sm none true

/-- What both functions end with. -/
theorem choice_settle (collector : Endpoint) :
    (if sm.server_ ≠ collector then (true, sm.set_server collector) else (false, sm)).2.choice
      = { sm.choice with server_ := collector } := by
  split
  · rfl
  · rename_i hsame
    rw [not_not] at hsame
    exact congrArg (Choice.mk · sm.collectors_ sm.collector_index_) hsame

/-- The two functions that do not, as functions on the choice. -/
@[simp] theorem choice_collectorUpdate (collectors : List Endpoint) :
    (sm.CollectorUpdate collectors).2.choice = .update collectors := by
  have hget : { sm with collectors_ := collectors, collector_index_ := 0 }.GetCollector
      = collectors.getD 0 .unset := by
    unfold GetCollector
    cases collectors <;> simp
  refine (choice_settle _ _).trans ?_
  rw [hget]
  rfl

@[simp] theorem choice_collectorChange : sm.CollectorChange.2.choice = sm.choice.change := by
  refine (choice_settle sm.GetNextCollector.2 sm.GetNextCollector.1).trans ?_
  by_cases hnil : sm.collectors_ = []
  · have hlen : ¬ sm.collectors_.length ≠ 0 := by simp [hnil]
    rw [GetNextCollector, if_neg hlen]
    exact (if_pos hnil).symm
  · have hlen : sm.collectors_.length ≠ 0 := by simp [hnil]
    rw [GetNextCollector, if_pos hlen]
    exact (if_neg hnil).symm

/-- `CollectorUpdate` tells whether the server is another one. -/
theorem collectorUpdate_iff (collectors : List Endpoint) :
    (sm.CollectorUpdate collectors).1 = true
      ↔ (sm.CollectorUpdate collectors).2.server_ ≠ sm.server_ := by
  unfold CollectorUpdate
  dsimp only
  split
  · rename_i hne
    exact ⟨fun _ => hne.symm, fun _ => rfl⟩
  · exact ⟨nofun, fun h => absurd rfl h⟩

/-- The flag says whether the server is another. -/
theorem collectorChange_iff :
    sm.CollectorChange.1 = true ↔ sm.CollectorChange.2.server_ ≠ sm.server_ := by
  have hserver : sm.GetNextCollector.2.server_ = sm.server_ := by
    unfold GetNextCollector
    split <;> rfl
  unfold CollectorChange
  dsimp only
  split
  · rename_i hne
    rw [hserver] at hne
    exact ⟨fun _ => hne.symm, fun _ => rfl⟩
  · exact ⟨nofun, fun h => absurd hserver h⟩

end Operations

-- ========================================================= transitions

section Transitions

variable {sm sm' : SandeshClientSMImpl T} {ans : Answers} {state : State}

/-- A transition changes the state and leaves the choice. -/
theorem enter_choice (h : sm.enter ans state = some sm') :
    sm'.state_ = state ∧ sm'.choice = sm.choice := by
  cases state with
  | IDLE =>
      injection h with h
      exact h ▸ ⟨rfl, rfl⟩
  | DISCONNECT =>
      injection h with h
      exact h ▸ ⟨rfl, rfl⟩
  | CONNECT =>
      injection h with h
      subst h
      have hview := view_startSession { sm with state_ := .CONNECT } ans.CreateSMSession
      refine ⟨(congrArg View.state_ hview).trans ?_, choice_startSession _ ans.CreateSMSession⟩
      split <;> rfl
  | CLIENT_INIT =>
      injection h with h
      exact h ▸ ⟨rfl, rfl⟩
  | ESTABLISHED =>
      have h := deref_some h
      injection h with h
      exact h ▸ ⟨rfl, rfl⟩

theorem transit_choice (h : sm.transit ans state = some sm') :
    sm'.state_ = state ∧ sm'.choice = sm.choice := by
  obtain ⟨hstate, hchoice⟩ := enter_choice h
  exact ⟨hstate, hchoice.trans (choice_leave sm)⟩

theorem transitToIdle_choice {enq : Bool} (h : sm.transitToIdle ans enq = some sm') :
    sm'.state_ = .IDLE ∧ sm'.choice = sm.choice := by
  obtain ⟨hstate, hchoice⟩ := enter_choice h
  exact ⟨hstate, by rw [hchoice, choice_onIdle, choice_leave]⟩

theorem toIdle_choice (h : sm.ToIdle ans = some sm') :
    sm'.state_ = .IDLE ∧ sm'.choice = sm.choice := by
  obtain ⟨hstate, hchoice⟩ := transit_choice (deref_some h)
  exact ⟨hstate, by rw [hchoice, choice_startIdleHoldTimer, choice_onIdle]⟩

theorem toConnect_choice (h : sm.toConnect ans = some sm') :
    sm'.state_ = .CONNECT ∧ sm'.choice = sm.choice := by
  obtain ⟨hstate, hchoice⟩ := transit_choice (deref_some h)
  exact ⟨hstate, hchoice.trans (choice_onIdle sm true)⟩

end Transitions

-- ====================================================== what events do

/-- An event that moves on to the next collector. -/
def Event.failover : Event → Bool
  | .EvConnectTimerExpired | .EvTcpConnectFail _ | .EvTcpClose _ => true
  | _ => false

/-- An attempt to connect is under way. -/
def State.Pending (state : State) : Prop := state = .CONNECT ∨ state = .CLIENT_INIT

instance (state : State) : Decidable state.Pending :=
  inferInstanceAs (Decidable (_ ∨ _))

/-- Everything an event can do to the state and the choice. -/
inductive Turns (state : State) (c : Choice) : Event → State → Choice → Prop
  | ignored {event : Event} : Turns state c event state c
  | updated {collectors : List Endpoint} {state' : State} :
      Turns state c (.EvCollectorUpdate collectors) state' (.update collectors)
  | parted {event : Event} (h : state = .IDLE) : Turns state c event .DISCONNECT c
  | began {event : Event} (h : state = .IDLE) : Turns state c event .CONNECT c
  | connected {event : Event} (h : state = .CONNECT) : Turns state c event .CLIENT_INIT c
  | established {event : Event} (h : state = .CLIENT_INIT)
      (hevent : event.failover = false) : Turns state c event .ESTABLISHED c
  /-- a stop, or a message that cannot be processed -/
  | ended {event : Event} (h : event.failover = false) : Turns state c event .IDLE c
  | failed {event : Event} (h : state.Pending) (hevent : event.failover = true) :
      Turns state c event .IDLE c.change
  | closed {event : Event} {state' : State} (h : state = .ESTABLISHED)
      (hstate : state' = .CONNECT ∨ state' = .IDLE) : Turns state c event state' c.change

section Reactions

variable {ans : Answers} {event : Event} {sm sm' : SandeshClientSMImpl T}

/-- A machine on which only other fields have changed. -/
theorem turns_same (h : sm'.state_ = sm.state_ ∧ sm'.choice = sm.choice) :
    Turns sm.state_ sm.choice event sm'.state_ sm'.choice := by
  rw [h.1, h.2]
  exact .ignored

/-- Each reaction as a turn of the choice: `Turns` lists what may happen in
which state. -/
theorem turns_stop {enq : Bool} (h : sm.transitToIdle ans enq = some sm') :
    Turns sm.state_ sm.choice (.EvStop enq) sm'.state_ sm'.choice := by
  obtain ⟨hstate, hchoice⟩ := transitToIdle_choice h
  rw [hstate, hchoice]
  exact .ended rfl

/-- After a new list. -/
theorem turns_update {collectors : List Endpoint}
    (h : sm'.choice = (sm.CollectorUpdate collectors).2.choice) :
    Turns sm.state_ sm.choice (.EvCollectorUpdate collectors) sm'.state_ sm'.choice := by
  rw [h, choice_collectorUpdate]
  exact .updated

/-- After a failover. -/
theorem turns_change (hp : sm.state_.Pending) (hevent : event.failover = true)
    (h : sm'.state_ = .IDLE ∧ sm'.choice = sm.CollectorChange.2.choice) :
    Turns sm.state_ sm.choice event sm'.state_ sm'.choice := by
  rw [h.1, h.2, choice_collectorChange]
  exact .failed hp hevent

theorem idle_turns (h : sm.state_ = .IDLE) (hr : Idle.react ans event sm = some sm') :
    Turns sm.state_ sm.choice event sm'.state_ sm'.choice := by
  cases event with
  | EvStart =>
      simp only [Idle.react] at hr
      split at hr
      · injection hr with hr
        refine turns_same ⟨?_, ?_⟩
        · rw [← hr]
          exact congrArg View.state_ (view_startIdleHoldTimer sm)
        · rw [← hr, choice_startIdleHoldTimer]
      · obtain ⟨hstate, hchoice⟩ := transit_choice hr
        rw [hstate, hchoice]
        exact .parted h
  | EvIdleHoldTimerExpired =>
      obtain ⟨hstate, hchoice⟩ := transit_choice hr
      rw [hstate, hchoice]
      exact .began h
  | EvCollectorUpdate collectors =>
      injection hr with hr
      exact turns_update (hr ▸ rfl)
  | _ =>
      injection hr with hr
      exact turns_same (hr ▸ ⟨rfl, rfl⟩)

theorem disconnect_turns (hr : Disconnect.react ans event sm = some sm') :
    Turns sm.state_ sm.choice event sm'.state_ sm'.choice := by
  cases event with
  | EvStop enq => exact turns_stop hr
  | EvCollectorUpdate collectors => exact turns_update (transit_choice hr).2
  | _ =>
      injection hr with hr
      exact turns_same (hr ▸ ⟨rfl, rfl⟩)

/-- Setting the idle hold time first makes no difference. -/
theorem connectToIdle_choice (hr : Connect.ToIdle ans sm = some sm') :
    sm'.state_ = .IDLE ∧ sm'.choice = sm.choice := by
  obtain ⟨hstate, hchoice⟩ := toIdle_choice hr
  exact ⟨hstate, hchoice⟩

theorem connect_turns (h : sm.state_ = .CONNECT) (hr : Connect.react ans event sm = some sm') :
    Turns sm.state_ sm.choice event sm'.state_ sm'.choice := by
  cases event with
  | EvStop enq => exact turns_stop hr
  | EvConnectTimerExpired => exact turns_change (.inl h) rfl (connectToIdle_choice hr)
  | EvTcpConnectFail s => exact turns_change (.inl h) rfl (connectToIdle_choice hr)
  | EvTcpClose s => exact turns_change (.inl h) rfl (connectToIdle_choice hr)
  | EvTcpConnected s =>
      obtain ⟨hstate, hchoice⟩ := transit_choice hr
      rw [hstate, hchoice]
      exact .connected h
  | EvCollectorUpdate collectors =>
      simp only [Connect.react] at hr
      split at hr
      · exact turns_update (connectToIdle_choice hr).2
      · injection hr with hr
        exact turns_update (hr ▸ rfl)
  | _ =>
      injection hr with hr
      exact turns_same (hr ▸ ⟨rfl, rfl⟩)

/-- Neither does sending. -/
theorem send_session_turns {snh : Snh} (hr : sm.send_session snh = some sm') :
    Turns sm.state_ sm.choice event sm'.state_ sm'.choice := by
  unfold send_session at hr
  split at hr
  · injection hr with hr
    exact turns_same (hr ▸ ⟨rfl, rfl⟩)
  · cases hr

theorem clientInit_turns (h : sm.state_ = .CLIENT_INIT)
    (hr : ClientInit.react ans event sm = some sm') :
    Turns sm.state_ sm.choice event sm'.state_ sm'.choice := by
  cases event with
  | EvStop enq => exact turns_stop hr
  | EvConnectTimerExpired => exact turns_change (.inr h) rfl (toIdle_choice hr)
  | EvTcpClose s => exact turns_change (.inr h) rfl (toIdle_choice hr)
  | EvSandeshMessageRecv m =>
      simp only [ClientInit.react] at hr
      split at hr
      · obtain ⟨hstate, hchoice⟩ := toIdle_choice hr
        rw [hstate, hchoice]
        exact .ended rfl
      · split at hr
        · obtain ⟨hstate, hchoice⟩ := transit_choice (deref_some hr)
          rw [hstate, hchoice]
          exact .established h rfl
        · injection hr with hr
          exact turns_same (hr ▸ ⟨rfl, rfl⟩)
  | EvSandeshSend snh =>
      simp only [ClientInit.react] at hr
      split at hr
      · injection hr with hr
        exact turns_same (hr ▸ ⟨rfl, rfl⟩)
      · exact send_session_turns hr
  | EvCollectorUpdate collectors =>
      simp only [ClientInit.react] at hr
      split at hr
      · exact turns_update (toIdle_choice hr).2
      · injection hr with hr
        exact turns_update (hr ▸ rfl)
  | _ =>
      injection hr with hr
      exact turns_same (hr ▸ ⟨rfl, rfl⟩)

theorem established_turns (h : sm.state_ = .ESTABLISHED)
    (hr : Established.react ans event sm = some sm') :
    Turns sm.state_ sm.choice event sm'.state_ sm'.choice := by
  cases event with
  | EvStop enq => exact turns_stop hr
  | EvTcpClose s =>
      simp only [Established.react] at hr
      split at hr
      · obtain ⟨hstate, hchoice⟩ := toConnect_choice hr
        rw [hchoice, choice_collectorChange]
        exact .closed h (.inl hstate)
      · obtain ⟨hstate, hchoice⟩ := toIdle_choice hr
        rw [hchoice, choice_collectorChange]
        exact .closed h (.inr hstate)
  | EvSandeshMessageRecv m =>
      simp only [Established.react] at hr
      split at hr
      · obtain ⟨hstate, hchoice⟩ := toIdle_choice hr
        rw [hstate, hchoice]
        exact .ended rfl
      · injection hr with hr
        exact turns_same (hr ▸ ⟨rfl, rfl⟩)
  | EvSandeshSend snh => exact send_session_turns hr
  | EvCollectorUpdate collectors =>
      simp only [Established.react] at hr
      split at hr
      · exact turns_update (toConnect_choice hr).2
      · injection hr with hr
        exact turns_update (hr ▸ rfl)
  | _ =>
      injection hr with hr
      exact turns_same (hr ▸ ⟨rfl, rfl⟩)

/-- The event that is taken, whatever the state. -/
theorem dequeue_turns (hr : DequeueEvent ans event sm = some sm') :
    Turns sm.state_ sm.choice event sm'.state_ sm'.choice := by
  unfold DequeueEvent at hr
  split at hr
  · unfold process_event at hr
    split at hr <;> rename_i h
    · exact idle_turns h hr
    · exact disconnect_turns hr
    · exact connect_turns h hr
    · exact clientInit_turns h hr
    · exact established_turns h hr
  · injection hr with hr
    exact turns_same (hr ▸ ⟨rfl, rfl⟩)

end Reactions

-- ============================================================= one step

/-- The event an action takes from the queue. -/
def taken (sm : SandeshClientSMImpl T) : Action → Option Event
  | .dequeue _ => sm.work_queue_.head?
  | _ => none

/-- An action takes no event, or one event in a turn. -/
theorem step_turns {sm sm' : SandeshClientSMImpl T} {a : Action} (h : step sm a = some sm') :
    (sm'.state_ = sm.state_ ∧ sm'.choice = sm.choice)
      ∨ ∃ event, taken sm a = some event
        ∧ Turns sm.state_ sm.choice event sm'.state_ sm'.choice := by
  cases a with
  | dequeue ans =>
      simp only [step] at h
      cases hq : sm.work_queue_ with
      | nil => simp [hq] at h
      | cons event rest =>
          simp only [hq] at h
          have hturns := dequeue_turns h
          refine .inr ⟨event, ?_, hturns⟩
          rw [taken, hq, List.head?_cons]
  | SetAdminState down =>
      injection h with h
      cases down <;> exact .inl (h ▸ ⟨rfl, rfl⟩)
  | OnSessionEvent session event =>
      simp only [step] at h
      split at h
      · injection h with h
        cases event <;> exact .inl (h ▸ ⟨rfl, rfl⟩)
      · cases h
  | ConnectTimerExpired =>
      simp only [step] at h
      split at h
      · injection h with h
        exact .inl (h ▸ ⟨rfl, rfl⟩)
      · cases h
  | IdleHoldTimerExpired =>
      simp only [step] at h
      split at h
      · injection h with h
        exact .inl (h ▸ ⟨rfl, rfl⟩)
      · cases h
  | _ =>
      injection h with h
      exact .inl (h ▸ ⟨rfl, rfl⟩)

/-- A step keeps the selection. -/
theorem step_selected {sm sm' : SandeshClientSMImpl T} {a : Action}
    (hsel : sm.choice.Selected) (h : step sm a = some sm') : sm'.choice.Selected := by
  rcases step_turns h with ⟨-, hchoice⟩ | ⟨event, -, hturns⟩
  · exact hchoice ▸ hsel
  · generalize sm'.state_ = state', sm'.choice = c' at hturns
    cases hturns with
    | updated => exact Choice.selected_update _
    | failed _ _ => exact Choice.selected_change hsel
    | closed _ _ => exact Choice.selected_change hsel
    | _ => exact hsel

-- ======================================================== the attempts

/-- `Connect` is entered, so that a session to `server_` is asked for. -/
def attempted (sm sm' : SandeshClientSMImpl T) : List Endpoint :=
  if sm.state_ ≠ .CONNECT ∧ sm'.state_ = .CONNECT then [sm'.server_] else []

/-- The endpoints of the attempts in a run. -/
def tried : SandeshClientSMImpl T → List Action → List Endpoint
  | _, [] => []
  | sm, a :: as =>
      match step sm a with
      | none => []
      | some sm' => attempted sm sm' ++ tried sm' as

/-- No list arrives, and a pending attempt ends only by failing. -/
structure Failing (sm : SandeshClientSMImpl T) (a : Action) (sm' : SandeshClientSMImpl T) :
    Prop where
  update : ∀ collectors, taken sm a ≠ some (.EvCollectorUpdate collectors)
  attempt : sm.state_.Pending →
    sm'.state_.Pending ∨ ∃ event, taken sm a = some event ∧ event.failover = true

/-- Entries one behind the other, going round. -/
def goRound (collectors : List Endpoint) (i k : Nat) : List Endpoint :=
  (List.range k).map fun j => collectors.getD ((i + j) % collectors.length) .unset

/-- Going round begins with the collector at the index. -/
theorem goRound_succ {collectors : List Endpoint} {i : Nat} (hi : i < collectors.length)
    (k : Nat) : goRound collectors i (k + 1)
      = collectors.getD i .unset
        :: goRound collectors (Choice.following collectors.length i) k := by
  unfold goRound
  rw [List.range_succ_eq_map, List.map_cons, Nat.add_zero, Nat.mod_eq_of_lt hi, List.map_map,
    Choice.following_eq_mod hi]
  congr 1
  refine List.map_congr_left fun j _ => ?_
  show collectors.getD ((i + (j + 1)) % _) _ = collectors.getD (((i + 1) % _ + j) % _) _
  rw [Nat.mod_add_mod, Nat.add_assoc, Nat.add_comm j 1]

/-- The index of the next attempt, if what is pending fails. -/
def Choice.upcoming (state : State) (c : Choice) : Nat :=
  if state.Pending then following c.collectors_.length c.collector_index_
  else c.collector_index_

/-- A step that makes no attempt, or one that does, while attempts fail.
What happens to an established session is not told. -/
theorem failing_turns {state state' : State} {c c' : Choice} {event : Event}
    (hne : c.collectors_ ≠ []) (hturns : Turns state c event state' c')
    (hupdate : ∀ collectors, event ≠ .EvCollectorUpdate collectors)
    (hfails : state.Pending → state'.Pending ∨ event.failover = true) :
    c'.collectors_ = c.collectors_
      ∧ (state' = .CONNECT → state ≠ .CONNECT → state ≠ .ESTABLISHED →
          c'.collector_index_ = c.upcoming state)
      ∧ ((state' = .CONNECT → state = .CONNECT) → state ≠ .ESTABLISHED →
          state' ≠ .ESTABLISHED ∧ c'.upcoming state' = c.upcoming state) := by
  cases hturns with
  | ignored => exact ⟨rfl, fun h h' => absurd h h', fun _ h => ⟨h, rfl⟩⟩
  | updated => exact absurd rfl (hupdate _)
  | parted h =>
      subst h
      exact ⟨rfl, nofun, fun _ _ => ⟨nofun, rfl⟩⟩
  | began h =>
      subst h
      exact ⟨rfl, fun _ _ _ => rfl, fun h => absurd (h rfl) nofun⟩
  | connected h =>
      subst h
      exact ⟨rfl, nofun, fun _ _ => ⟨nofun, rfl⟩⟩
  | established h hevent =>
      rcases hfails (.inr h) with hp | hp
      · rcases hp with hp | hp <;> cases hp
      · rw [hevent] at hp
        cases hp
  | ended hevent =>
      refine ⟨rfl, nofun, fun _ _ => ⟨nofun, ?_⟩⟩
      have hp : ¬ state.Pending := by
        intro hp
        rcases hfails hp with hp | hp
        · rcases hp with hp | hp <;> cases hp
        · rw [hevent] at hp
          cases hp
      exact (if_neg hp).symm
  | failed hp _ =>
      refine ⟨c.change_collectors, nofun, fun _ _ => ⟨nofun, ?_⟩⟩
      exact (Choice.change_index hne).trans (if_pos hp).symm
  | closed h _ =>
      exact ⟨c.change_collectors, fun _ _ hest => absurd h hest, fun _ hest => absurd h hest⟩

/-- The same of a step of the machine. -/
theorem failing_step {sm sm' : SandeshClientSMImpl T} {a : Action}
    (hne : sm.collectors_ ≠ []) (h : step sm a = some sm') (hfails : Failing sm a sm') :
    sm'.collectors_ = sm.collectors_
      ∧ (sm'.state_ = .CONNECT → sm.state_ ≠ .CONNECT → sm.state_ ≠ .ESTABLISHED →
          sm'.collector_index_ = sm.choice.upcoming sm.state_)
      ∧ ((sm'.state_ = .CONNECT → sm.state_ = .CONNECT) → sm.state_ ≠ .ESTABLISHED →
          sm'.state_ ≠ .ESTABLISHED
            ∧ sm'.choice.upcoming sm'.state_ = sm.choice.upcoming sm.state_) := by
  rcases step_turns h with ⟨hstate, hchoice⟩ | ⟨event, htaken, hturns⟩
  · have hcollectors := congrArg Choice.collectors_ hchoice
    rw [hstate, hchoice]
    exact ⟨hcollectors, fun h h' => absurd h h', fun _ h => ⟨h, rfl⟩⟩
  · have hne' : sm.choice.collectors_ ≠ [] := hne
    apply failing_turns hne' hturns
    · intro collectors hevent
      exact hfails.update collectors (htaken.trans (congrArg some hevent))
    · intro hp
      refine (hfails.attempt hp).imp_right fun hex => ?_
      obtain ⟨event', htaken', hevent⟩ := hex
      obtain rfl := Option.some.inj (htaken.symm.trans htaken')
      exact hevent

/-- The collector that is tried next is one of the list. -/
theorem upcoming_lt {sm : SandeshClientSMImpl T} (hsel : sm.choice.Selected)
    (hne : sm.collectors_ ≠ []) : sm.choice.upcoming sm.state_ < sm.collectors_.length := by
  have hlt := hsel.lt hne
  unfold Choice.upcoming
  split
  · exact Choice.following_lt hlt
  · exact hlt

/-- While attempts fail, they go round, from the upcoming collector on. -/
theorem tried_goRound (as : List Action) : ∀ {sm : SandeshClientSMImpl T},
    sm.choice.Selected → sm.collectors_ ≠ [] → (machine T).Each Failing sm as →
    ∃ i < sm.collectors_.length, (∃ k, tried sm as = goRound sm.collectors_ i k)
      ∧ (sm.state_ ≠ .ESTABLISHED → i = sm.choice.upcoming sm.state_) := by
  induction as with
  | nil =>
      intro sm hsel hne _
      exact ⟨_, upcoming_lt hsel hne, ⟨0, rfl⟩, fun _ => rfl⟩
  | cons a as ih =>
      intro sm hsel hne heach
      cases hstep : step sm a with
      | none =>
          refine ⟨_, upcoming_lt hsel hne, ⟨0, ?_⟩, fun _ => rfl⟩
          rw [tried, hstep]
          rfl
      | some sm' =>
          obtain ⟨hfails, hrest⟩ := heach sm' hstep
          have hsel' := step_selected hsel hstep
          obtain ⟨hcollectors, hmade, hkept⟩ := failing_step hne hstep hfails
          have hne' : sm'.collectors_ ≠ [] := hcollectors ▸ hne
          obtain ⟨i, hi, ⟨k, hk⟩, hup⟩ := ih hsel' hne' hrest
          rw [hcollectors] at hi hk
          have htried : tried sm (a :: as) = attempted sm sm' ++ goRound sm.collectors_ i k := by
            rw [tried, hstep, ← hk]
          by_cases hmade' : sm.state_ ≠ .CONNECT ∧ sm'.state_ = .CONNECT
          · -- the next attempt is the one behind this one
            have hlt := hsel'.lt hne'
            have hserver : sm'.server_ = sm.collectors_.getD sm'.collector_index_ .unset := by
              have hget := hsel'.some hne'
              rw [List.getD_eq_getElem?_getD, ← hcollectors]
              exact (congrArg (Option.getD · .unset) hget).symm
            have hnext : i = Choice.following sm.collectors_.length sm'.collector_index_ := by
              rw [hup (by rw [hmade'.2]; exact nofun), Choice.upcoming, if_pos (.inl hmade'.2),
                ← hcollectors]
              rfl
            rw [← hcollectors] at hi
            refine ⟨sm'.collector_index_, hcollectors ▸ hlt, ⟨k + 1, ?_⟩, ?_⟩
            · rw [htried, attempted, if_pos hmade', goRound_succ (hcollectors ▸ hlt), hnext,
                hserver]
              rfl
            · exact hmade hmade'.2 hmade'.1
          · refine ⟨i, hi, ⟨k, ?_⟩, ?_⟩
            · rw [htried, attempted, if_neg hmade']
              rfl
            · intro hest
              have hkept' : sm'.state_ = .CONNECT → sm.state_ = .CONNECT := by
                intro h
                by_contra hne
                exact hmade' ⟨hne, h⟩
              obtain ⟨hest', hup'⟩ := hkept hkept' hest
              exact (hup hest').trans hup'

/-- Going round often enough reaches every entry. -/
theorem mem_goRound {collectors : List Endpoint} {i k : Nat} (hi : i < collectors.length)
    (hk : collectors.length ≤ k) {e : Endpoint} (he : e ∈ collectors) :
    e ∈ goRound collectors i k := by
  obtain ⟨m, hm, rfl⟩ := List.mem_iff_getElem.mp he
  have hpos : 0 < collectors.length := Nat.lt_of_le_of_lt (Nat.zero_le m) hm
  refine List.mem_map.mpr ⟨(m + (collectors.length - i)) % collectors.length, ?_, ?_⟩
  · exact List.mem_range.mpr ((Nat.mod_lt _ hpos).trans_le hk)
  · have hindex : i + (m + (collectors.length - i)) = m + collectors.length := by omega
    rw [Nat.add_mod_mod, hindex, Nat.add_mod_right, Nat.mod_eq_of_lt hm,
      List.getD_eq_getElem _ _ hm]

/-- **The collector in use.** In every run the server is the collector at
the index, or the default endpoint if there is no collector; the two
functions tell whether the server has changed; and as long as attempts fail
and no list arrives they go round, so that as many attempts as there are
collectors reach every one of them. -/
theorem collector_selected (T : Timers) (index : Nat) (as : List Action) :
    (machine T).Each (fun _ _ sm' => sm'.choice.Selected) (.new T index) as
      ∧ (∀ (sm : SandeshClientSMImpl T) collectors, (sm.CollectorUpdate collectors).1 = true
          ↔ (sm.CollectorUpdate collectors).2.server_ ≠ sm.server_)
      ∧ (∀ sm : SandeshClientSMImpl T,
          sm.CollectorChange.1 = true ↔ sm.CollectorChange.2.server_ ≠ sm.server_)
      ∧ ∀ sm bs, (machine T).run (.new T index) as = some sm → sm.collectors_ ≠ [] →
          (machine T).Each Failing sm bs →
          ∃ i < sm.collectors_.length, ∃ k, tried sm bs = goRound sm.collectors_ i k
            ∧ (sm.collectors_.length ≤ k → ∀ e ∈ sm.collectors_, e ∈ tried sm bs) := by
  have hnew : (SandeshClientSMImpl.new T index).choice.Selected :=
    ⟨fun hne => absurd rfl hne, fun _ => rfl⟩
  refine ⟨?_, collectorUpdate_iff, collectorChange_iff, ?_⟩
  · refine Machine.each_keeps (I := fun sm => sm.choice.Selected) ?_ as hnew
    intro sm a sm' hsel hstep
    exact ⟨step_selected hsel hstep, step_selected hsel hstep⟩
  · intro sm bs hrun hne hfails
    have hsel := Machine.run_keeps (I := fun sm => sm.choice.Selected) step_selected as hnew hrun
    obtain ⟨i, hi, ⟨k, hk⟩, -⟩ := tried_goRound bs hsel hne hfails
    refine ⟨i, hi, k, hk, fun hle e he => ?_⟩
    rw [hk]
    exact mem_goRound hi hle he

/-- A machine that is started, told of two collectors and has begun to
connect to the first. -/
def twoCollectors : List Action :=
  [.SetAdminState false, .dequeue ⟨true, true⟩,
    .SetCollectors [⟨1, 8086⟩, ⟨2, 8086⟩], .dequeue ⟨true, true⟩]

/-- The current attempt is refused, and after a while the next one begins;
the queue has the old session to delete first. -/
def refusedAndRetried (session : Nat) : List Action :=
  [.OnSessionEvent session .CONNECT_FAILED, .dequeue ⟨true, true⟩, .IdleHoldTimerExpired,
    .dequeue ⟨true, true⟩, .dequeue ⟨true, true⟩]

/-- Both collectors refuse. -/
def twoRefused : List Action := refusedAndRetried 0 ++ refusedAndRetried 1

/-- In the example both connections are refused. -/
theorem twoRefused_failing {sm : SandeshClientSMImpl .phases}
    (hrun : (machine .phases).run (.new .phases 0) twoCollectors = some sm) :
    (machine .phases).Each Failing sm twoRefused := by
  have hpending : ∀ {sm sm' : SandeshClientSMImpl .phases} {a : Action},
      sm'.state_.Pending → taken sm a = none → Failing sm a sm' :=
    fun hp htaken => ⟨by simp [htaken], fun _ => .inl hp⟩
  have hidle : ∀ {sm sm' : SandeshClientSMImpl .phases} {a : Action},
      ¬ sm.state_.Pending →
      (∀ collectors, taken sm a ≠ some (.EvCollectorUpdate collectors)) → Failing sm a sm' :=
    fun hp htaken => ⟨htaken, fun h => absurd h hp⟩
  have hrefused : ∀ {sm sm' : SandeshClientSMImpl .phases} {a : Action} {session : Nat},
      taken sm a = some (.EvTcpConnectFail session) → Failing sm a sm' :=
    fun htaken => ⟨by simp [htaken], fun _ => .inr ⟨_, htaken, rfl⟩⟩
  obtain rfl := Option.some.inj hrun
  refine Machine.each_step rfl (hpending (.inl rfl) rfl) ?_
  refine Machine.each_step rfl (hrefused rfl) ?_
  refine Machine.each_step rfl (hidle nofun nofun) ?_
  refine Machine.each_step rfl (hidle nofun nofun) ?_
  refine Machine.each_step rfl (hidle nofun nofun) ?_
  refine Machine.each_step rfl (hpending (.inl rfl) rfl) ?_
  refine Machine.each_step rfl (hrefused rfl) ?_
  refine Machine.each_step rfl (hidle nofun nofun) ?_
  refine Machine.each_step rfl (hidle nofun nofun) ?_
  exact Machine.each_step rfl (hidle nofun nofun) trivial

/-- Two collectors that refuse are tried in turn. -/
theorem collector_selected_two :
    ∃ sm, (machine .phases).run (.new .phases 0) twoCollectors = some sm
      ∧ (machine .phases).Each Failing sm twoRefused
      ∧ tried sm twoRefused = [⟨2, 8086⟩, ⟨1, 8086⟩]
      ∧ ∃ i < 2, ∃ k, tried sm twoRefused = goRound [⟨1, 8086⟩, ⟨2, 8086⟩] i k
          ∧ (2 ≤ k → ∀ e ∈ [⟨1, 8086⟩, ⟨2, 8086⟩], e ∈ tried sm twoRefused) := by
  refine ⟨_, rfl, twoRefused_failing rfl, rfl, ?_⟩
  exact (collector_selected .phases 0 twoCollectors).2.2.2 _ twoRefused rfl nofun
    (twoRefused_failing rfl)

end Sandesh.ClientSM
