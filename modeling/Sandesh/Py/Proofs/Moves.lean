/-
What one event does to the Python client.

`View` leaves out the queue and the messages. With the index in its list
nothing in the callbacks raises but a bad collector string, so what an
event does is short (`Moves`): it is dropped, it renews the list of
collectors, or it enters the state the table names, through `Enters`.
-/
import Sandesh.Py.StateMachine

namespace Sandesh.Py.StateMachine

open Lib SandeshStateMachine

-- ============================================================ the view

/-- The part of a machine that its invariant is about. -/
structure View where
  current : State
  session : Option Nat
  disable : Bool
  idle_hold_timer : Bool
  connect_timer : Option (Option Nat)
  collectors : List Bytes
  collector_index : Int
  raised : Option PyExc

/-- The view of a machine. -/
def SandeshStateMachine.view (sm : SandeshStateMachine) : View where
  current := sm.current
  session := sm.session
  disable := sm.disable
  idle_hold_timer := sm.idle_hold_timer
  connect_timer := sm.connect_timer
  collectors := sm.collectors
  collector_index := sm.collector_index
  raised := sm.raised

namespace View

variable (v : View)

/-- The index is -1 or one into the list. -/
def InList : Prop :=
  v.collector_index = -1
    ∨ (0 ≤ v.collector_index ∧ v.collector_index < v.collectors.length)

/-- The collector the index points to. -/
def active : Option Bytes :=
  if v.collector_index = -1 then none else v.collectors[v.collector_index.toNat]?

/-- A new state and nothing else. -/
def into (state : State) : View := { v with current := state }

/-- The callback, as it acts on the view. -/
def onIdle : View :=
  { v with
    session := none
    connect_timer := none
    idle_hold_timer := v.idle_hold_timer || !v.disable }

/-- `_on_connect` up to the choice of the collector. -/
def cleared : View := { v with session := none, idle_hold_timer := false }

/-- A changed list of collectors. -/
def listed (collectors : List Bytes) : View :=
  { v with collectors := collectors, collector_index := -1 }

/-- The first collector of a new list is the one in use. -/
def Keeps (collectors : List Bytes) : Prop :=
  collectors.head?.isSome ∧ collectors.head? = v.active

end View

/-- An index in range gives its item. -/
theorem getItem_in {l : List Bytes} {i : Int} (hpos : 0 ≤ i)
    (hlt : i < l.length) :
    ∃ c, getItem l i = some c ∧ l[i.toNat]? = some c := by
  have hnat : i.toNat < l.length := by omega
  refine ⟨l.get ⟨i.toNat, hnat⟩, ?_, List.getElem?_eq_getElem hnat⟩
  rw [getItem, if_pos hpos]
  exact List.getElem?_eq_getElem hnat

/-- The collector at an index in range. -/
theorem collector_eq {sm : SandeshStateMachine} (h : sm.view.InList) :
    sm.collector = some sm.view.active := by
  show (if sm.collector_index = -1 then _ else _)
    = some (if sm.collector_index = -1 then _ else _)
  split
  · rfl
  · rcases h with h | ⟨hpos, hlt⟩
    · exact absurd h ‹_›
    · obtain ⟨c, hget, hc⟩ := getItem_in hpos hlt
      have hget' : getItem sm.collectors sm.collector_index = some c := hget
      rw [hget', hc]
      rfl

/-- Naming the collector raises nothing then. -/
theorem withCollector_eq {sm : SandeshStateMachine} (h : sm.view.InList)
    (next : SandeshStateMachine) : sm.withCollector next = next := by
  simp only [withCollector, collector_eq h]

-- ========================================================= the callbacks

section Callbacks

variable {sm : SandeshStateMachine} (connected : Bool)

/-- `delete_session` on the view. -/
theorem view_delete_session (sm : SandeshStateMachine) :
    (sm.delete_session connected).view
      = { sm.view with session := none } := by
  unfold delete_session close
  cases h : sm.session with
  | none => simp [view, h]
  | some s => cases connected <;> simp [view, enqueue_event]

/-- Cancelling the connect timer, if there is one. -/
theorem view_cancel_connect_timer (sm : SandeshStateMachine) :
    (if sm.connect_timer.isSome then sm.cancel_connect_timer else sm).view
      = { sm.view with connect_timer := none } := by
  cases ht : sm.connect_timer with
  | none => simp [view, ht]
  | some s => simp [view, cancel_connect_timer]

/-- Starting the idle hold timer, unless disabled. -/
theorem view_start_idle_hold_timer (sm : SandeshStateMachine) :
    (if sm.disable then sm else sm.start_idle_hold_timer).view
      = { sm.view with
        idle_hold_timer := sm.view.idle_hold_timer || !sm.view.disable } := by
  cases hd : sm.disable with
  | true => simp [view, hd]
  | false =>
      cases ht : sm.idle_hold_timer <;>
        simp [view, hd, ht, start_idle_hold_timer, idleHoldTime]

/-- `_on_idle` on the view. -/
theorem view_on_idle (h : sm.view.InList) :
    (sm.on_idle connected).view = sm.view.onIdle := by
  unfold on_idle
  rw [withCollector_eq]
  · show (if _ then _ else _ : SandeshStateMachine).view = _
    rw [view_start_idle_hold_timer, view_delete_session,
      view_cancel_connect_timer]
    rfl
  · rw [view_start_idle_hold_timer, view_delete_session,
      view_cancel_connect_timer]
    exact h

/-- What `_on_connect` can do, from the cleared view on. -/
inductive Connects (v : View) : View → Prop
  /-- there is no collector -/
  | unknown (h : v.collector_index = -1) : Connects v v
  /-- the string of the collector is not `host:port` -/
  | malformed {index : Int} {e : PyExc} (he : e ≠ .AssertionError)
      (hindex : 0 ≤ index ∧ index < v.collectors.length) :
      Connects v { v with collector_index := index, raised := some e }
  | attempt {index : Int} {s : Nat}
      (hindex : 0 ≤ index ∧ index < v.collectors.length) :
      Connects v { v with
        collector_index := index
        session := some s
        connect_timer := some (v.connect_timer.getD (some s)) }

/-- Connecting to the collector at an index. -/
theorem connect_to_connects {index : Int} (collector : Bytes)
    (hindex : 0 ≤ index ∧ index < sm.view.collectors.length)
    (hnone : sm.session = none) (hraised : sm.raised = none) :
    Connects sm.view
      ({ sm with collector_index := index }.connect_to collector).view := by
  have hin : { sm with collector_index := index }.view.InList := .inr hindex
  unfold connect_to
  rw [withCollector_eq hin]
  simp only [create_session, hnone]
  cases hport : (splitColon collector)[1]? with
  | none =>
      have hbad := Connects.malformed (v := sm.view) (e := .IndexError) nofun
        hindex
      simpa [view, raising, hnone] using hbad
  | some port =>
      cases hint : int port with
      | none =>
          have hbad := Connects.malformed (v := sm.view) (e := .ValueError)
            nofun hindex
          simpa [view, raising, hnone, hint] using hbad
      | some n =>
          have hcon := Connects.attempt (v := sm.view) (s := sm.created) hindex
          cases ht : sm.connect_timer with
          | none =>
              simpa [view, start_connect_timer, hint, ht, hraised] using hcon
          | some t =>
              simpa [view, start_connect_timer, hint, ht, hraised] using hcon

/-- `_on_connect` from the choice of the collector on. -/
def tryNext (sm : SandeshStateMachine) : SandeshStateMachine :=
  match sm.get_next_collector with
  | none => sm.raising .IndexError
  | some (some collector, sm) => sm.connect_to collector
  | some (none, sm) => sm.enqueue_event .EvCollectorUnknown

/-- Trying the next collector. -/
theorem tryNext_connects (hin : sm.view.InList) (hnone : sm.session = none)
    (hraised : sm.raised = none) : Connects sm.view (tryNext sm).view := by
  unfold tryNext get_next_collector
  by_cases hidx : sm.collector_index = -1
  · rw [if_pos hidx]
    by_cases hempty : sm.collectors.isEmpty = true
    · rw [if_pos hempty]
      exact .unknown hidx
    · have hlen : sm.collectors ≠ [] := fun hc => hempty (by rw [hc]; rfl)
      have hindex : (0 : Int) ≤ 0 ∧ (0 : Int) < sm.collectors.length := by
        have hpos := List.length_pos_of_ne_nil hlen
        omega
      obtain ⟨c, hget, -⟩ := getItem_in hindex.1 hindex.2
      rw [if_neg hempty, hget]
      exact connect_to_connects c hindex hnone hraised
  · rw [if_neg hidx]
    rcases hin with hin | ⟨hpos, hlt⟩
    · exact absurd hin hidx
    · have hpos' : 0 ≤ sm.collector_index := hpos
      have hlt' : sm.collector_index < sm.collectors.length := hlt
      generalize hnext : (if sm.collector_index + 1 = sm.collectors.length
        then 0 else sm.collector_index + 1) = index
      have hindex : 0 ≤ index ∧ index < sm.collectors.length := by
        split at hnext <;> omega
      obtain ⟨c, hget, -⟩ := getItem_in hindex.1 hindex.2
      simp only [hget]
      exact connect_to_connects c hindex hnone hraised

/-- The machine before it chooses has no session and no hold timer. -/
theorem on_connect_split (sm : SandeshStateMachine) :
    ∃ sm₁, sm.on_connect connected = tryNext sm₁
      ∧ sm₁.view = sm.view.cleared := by
  refine ⟨_, rfl, ?_⟩
  rw [view_delete_session]
  cases ht : sm.idle_hold_timer <;>
    simp [view, ht, View.cleared, cancel_idle_hold_timer]

/-- Entering `Connect`. -/
theorem on_connect_connects (h : sm.view.InList) (hraised : sm.raised = none) :
    Connects sm.view.cleared (sm.on_connect connected).view := by
  obtain ⟨sm₁, hsm₁, hview⟩ := on_connect_split connected sm
  have hin : sm₁.view.InList := by
    rw [hview]
    exact h
  rw [hsm₁, ← hview]
  exact tryNext_connects hin (congrArg View.session hview)
    ((congrArg View.raised hview).trans hraised)

end Callbacks

-- ================================================================ events

namespace View

variable (v : View)

/-- A report on a session other than the current one. -/
def Stale (event : Event) : Prop :=
  event.session.isSome ∧ event.session ≠ v.session

/-- A new list that the machine need not move for. -/
def Keeping (event : Event) : Prop :=
  ∃ collectors, event = .EvCollectorChange collectors ∧ v.Keeps collectors

/-- What an event does before the state is looked at. -/
def relisted : Event → View
  | .EvCollectorChange collectors => v.listed collectors
  | _ => v

end View

/-- What entering a state does. -/
inductive Enters (v : View) : State → View → Prop
  | idle : Enters v .Idle (v.into .Idle).onIdle
  | disconnect : Enters v .Disconnect (v.into .Disconnect)
  | connect {v' : View} (h : Connects (v.into .Connect).cleared v') :
      Enters v .Connect v'
  | clientInit (h : v.session ≠ none) :
      Enters v .ClientInit (v.into .ClientInit)
  | established :
      Enters v .Established { v.into .Established with connect_timer := none }

/-- What the dequeue of an event does. -/
inductive Moves (v : View) (event : Event) : View → Prop
  | stale (h : v.Stale event) : Moves v event v
  | kept {collectors : List Bytes}
      (hev : event = .EvCollectorChange collectors) (h : v.Keeps collectors) :
      Moves v event { v with collectors := collectors, collector_index := 0 }
  | stayed (hfresh : ¬ v.Stale event) (hkeep : ¬ v.Keeping event)
      (hdst : dst event v.current = none) : Moves v event (v.relisted event)
  | moved {state : State} {v' : View} (hfresh : ¬ v.Stale event)
      (hkeep : ¬ v.Keeping event) (hdst : dst event v.current = some state)
      (h : Enters (v.relisted event) state v') : Moves v event v'

section Table

variable {event : Event} {s : State}

/-- No event leads back to the start. -/
theorem dst_unstarted : dst event s ≠ some .unstarted := by
  cases event <;> cases s <;> simp [dst]

/-- What leads to `Disconnect`. -/
theorem dst_disconnect (h : dst event s = some .Disconnect) :
    s = .Connect ∧ event = .EvCollectorUnknown := by
  revert h
  cases event <;> cases s <;> simp [dst]

/-- What leads to `Connect`. -/
theorem dst_connect (h : dst event s = some .Connect) :
    s = .Idle ∨ s = .Disconnect ∨ s = .Established := by
  revert h
  cases event <;> cases s <;> simp [dst]

/-- What leads to `ClientInit`. -/
theorem dst_clientInit (h : dst event s = some .ClientInit) :
    s = .Connect ∧ ∃ n, event = .EvTcpConnected n := by
  revert h
  cases event <;> cases s <;> simp [dst]

/-- What leads to `Established`. -/
theorem dst_established (h : dst event s = some .Established) :
    s = .ClientInit ∧ ∃ n msg source,
      event = .EvSandeshCtrlMessageRecv n msg source := by
  revert h
  cases event <;> cases s <;> simp [dst]

/-- The events that leave `Idle`. -/
theorem dst_idle {state : State} (h : dst event .Idle = some state) :
    state = .Connect ∧ (event = .EvStart ∨ event = .EvIdleHoldTimerExpired
      ∨ ∃ collectors, event = .EvCollectorChange collectors) := by
  revert h
  cases event <;> simp [dst, eq_comm]

end Table

section Dequeue

variable {sm : SandeshStateMachine} {connected : Bool} {event : Event}

/-- A new list of collectors leaves the session alone. -/
theorem relisted_session : (sm.view.relisted event).session = sm.session := by
  cases event <;> rfl

/-- A transition: what is done before, and on entry. -/
theorem enter_enters {state : State} (hin : sm.view.InList)
    (hraised : sm.raised = none) (hfresh : ¬ sm.view.Stale event)
    (hdst : dst event sm.current = some state) :
    Enters sm.view state (sm.enter connected event state).view := by
  have hin' : { sm with current := state }.view.InList := hin
  cases state with
  | unstarted => exact absurd hdst dst_unstarted
  | Idle =>
      have hidle := view_on_idle connected hin'
      simp only [enter, hidle]
      exact .idle
  | Disconnect => exact .disconnect
  | Connect => exact .connect (on_connect_connects connected hin' hraised)
  | ClientInit =>
      obtain ⟨-, n, rfl⟩ := dst_clientInit hdst
      have hsession : sm.session = some n := by
        by_contra hne
        exact hfresh ⟨rfl, fun h => hne h.symm⟩
      have hin₁ : { sm with current := .ClientInit, connects := sm.connects + 1
          }.view.InList := hin
      have henter := Enters.clientInit (v := sm.view)
        (by simp [view, hsession])
      simp only [enter, on_client_init, hsession]
      rw [withCollector_eq (by simpa [view, View.InList, hsession] using hin₁)]
      simpa [view, View.into, hsession] using henter
  | Established =>
      obtain ⟨-, n, msg, source, rfl⟩ := dst_established hdst
      simp only [enter, on_established]
      rw [withCollector_eq]
      · exact .established
      · exact hin

/-- The messages aside, the table decides. -/
theorem process_view : (sm.process connected event).view
    = match dst event sm.current with
      | none => sm.view
      | some state => (sm.enter connected event state).view := by
  cases event with
  | EvSandeshUVESend msg =>
      have hdst : dst (.EvSandeshUVESend msg) sm.current = none := by
        cases sm.current <;> rfl
      rw [hdst]
      simp only [process]
      split <;> rfl
  | EvSandeshCtrlMessageRecv n msg source =>
      simp only [process]
      by_cases hest : sm.current = .Established
      · have hdst : dst (.EvSandeshCtrlMessageRecv n msg source) sm.current
            = none := by
          rw [hest]
          rfl
        rw [if_pos hest, hdst]
        rfl
      · rw [if_neg hest]
        cases dst (.EvSandeshCtrlMessageRecv n msg source) sm.current <;> rfl
  | _ =>
      simp only [process]
      cases dst _ sm.current <;> rfl

/-- The machine with its new list, if there is one, looks at its state. -/
theorem process_moves {sm₁ : SandeshStateMachine}
    (hview : sm₁.view = sm.view.relisted event) (hin : sm₁.view.InList)
    (hraised : sm₁.raised = none) (hfresh : ¬ sm.view.Stale event)
    (hkeep : ¬ sm.view.Keeping event) :
    Moves sm.view event (sm₁.process connected event).view := by
  have hcur : sm₁.current = sm.current := by
    have hc := congrArg View.current hview
    cases event <;> exact hc
  have hses : sm₁.session = sm.session :=
    (congrArg View.session hview).trans relisted_session
  rw [process_view, hcur]
  cases hdst : dst event sm.current with
  | none =>
      rw [hview]
      exact .stayed hfresh hkeep hdst
  | some state =>
      refine .moved hfresh hkeep hdst ?_
      rw [← hview]
      refine enter_enters hin hraised ?_ (hcur ▸ hdst)
      intro hstale
      exact hfresh ⟨hstale.1, fun heq => hstale.2 (heq.trans hses.symm)⟩

/-- Every event, from the queue. -/
theorem dequeue_moves (hin : sm.view.InList) (hraised : sm.raised = none) :
    Moves sm.view event (sm.dequeue_event connected event).view := by
  unfold dequeue_event
  by_cases hstale : event.session.isSome ∧ event.session ≠ sm.session
  · rw [if_pos hstale]
    exact .stale hstale
  rw [if_neg hstale]
  cases event with
  | EvCollectorChange collectors =>
      simp only [collector_change, collector_eq hin]
      by_cases hkeep : sm.view.Keeps collectors
      · have hif : collectors.head?.isSome ∧
          collectors.head? = sm.view.active := hkeep
        rw [if_pos hif]
        exact .kept rfl hkeep
      · have hif : ¬ (collectors.head?.isSome ∧
          collectors.head? = sm.view.active) := hkeep
        rw [if_neg hif]
        refine process_moves rfl (.inl rfl) hraised hstale ?_
        intro hex
        obtain ⟨cs, hcs, hk⟩ := hex
        injection hcs with hcs
        exact hkeep (hcs ▸ hk)
  | _ =>
      refine process_moves rfl hin hraised hstale ?_
      intro hex
      obtain ⟨cs, hcs, -⟩ := hex
      cases hcs

end Dequeue

end Sandesh.Py.StateMachine
