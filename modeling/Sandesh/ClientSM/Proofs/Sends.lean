/-
The messages of the client, over whole runs.

`Mail` is the part of the machine that messages live in: those on the
work queue, those put on the send queue of a session and those released
unsent. A transition of the state machine moves none of them
(`transit_mail`); only the reactions to `EvSandeshSend` do, and each of
them moves the message that was just taken off the queue
(`dequeue_posts`). What a run adds to the two ends is therefore what it
takes off the front, one by one (`Kept`).

A session is the newest one for as long as it is the current one
(`Newest`), so the sessions that messages are put on never go back.
-/
import Sandesh.ClientSM.Proofs.Invariant

namespace Sandesh.ClientSM

open Lib SandeshClientSMImpl

variable {T : Timers}

/-- The message an event is to send. -/
def Event.send : Event → Option Snh
  | .EvSandeshSend snh => some snh
  | _ => none

/-- The message an action asks to send. -/
def Action.send : Action → Option Snh
  | .SendSandesh snh => some snh
  | _ => none

/-- Where the messages of a machine are. -/
structure Mail where
  pending : List Snh
  sent : List (Nat × Snh)
  released : List Snh

/-- The mail of a machine. -/
def SandeshClientSMImpl.mail (sm : SandeshClientSMImpl T) : Mail where
  pending := sm.work_queue_.filterMap Event.send
  sent := sm.sent
  released := sm.released

-- ====================================================== the operations

section Operations

variable (sm : SandeshClientSMImpl T)

/-- Sessions, timers and collectors leave the mail alone; only a message to
be sent is put behind what is pending. -/
@[simp] theorem mail_enqueue (event : Event) :
    (sm.Enqueue event).mail = { sm.mail with
      pending := sm.mail.pending ++ event.send.toList } := by
  cases event <;> simp [mail, Enqueue, Event.send]

/-- `set_session` touches no message. -/
@[simp] theorem mail_set_session (session : Option Nat) (enq : Bool) :
    (sm.set_session session enq).mail = sm.mail := by
  unfold set_session
  cases h : sm.session_ with
  | none => rfl
  | some old =>
      cases enq with
      | false => rfl
      | true =>
          refine (mail_enqueue sm (.EvTcpDeleteSession old)).trans ?_
          simp [Event.send]

/-- Nor does `OnIdle`. -/
@[simp] theorem mail_onIdle (enq : Bool) : (sm.OnIdle enq).mail = sm.mail := by
  unfold OnIdle
  rw [mail_set_session]
  rfl

/-- Nor does a timer. -/
@[simp] theorem mail_startIdleHoldTimer : sm.StartIdleHoldTimer.mail = sm.mail := by
  unfold StartIdleHoldTimer
  split <;> rfl

/-- Nor does leaving a state. -/
@[simp] theorem mail_leave : sm.leave.mail = sm.mail := by
  unfold SandeshClientSMImpl.leave
  cases sm.state_ <;> rfl

/-- Nor does a new list of collectors. -/
@[simp] theorem mail_collectorUpdate (collectors : List Endpoint) :
    (sm.CollectorUpdate collectors).2.mail = sm.mail := by
  unfold CollectorUpdate
  dsimp only
  split <;> rfl

/-- Nor does the next collector. -/
@[simp] theorem mail_collectorChange : sm.CollectorChange.2.mail = sm.mail := by
  unfold CollectorChange GetNextCollector
  by_cases h : sm.collectors_.length ≠ 0
  · simp only [if_pos h]
    split <;> rfl
  · simp only [if_neg h]
    split <;> rfl

/-- Nor does a new session. -/
theorem mail_startSession (created : Bool) :
    (sm.StartSession created).mail = sm.mail := by
  cases created with
  | true => exact mail_set_session { sm with created := sm.created + 1 } _ true
  | false => exact mail_set_session sm none true

end Operations

-- ========================================================= transitions

section Transitions

variable {sm sm' : SandeshClientSMImpl T} {ans : Answers} {state : State}

/-- No transition touches it. -/
theorem enter_mail (h : sm.enter ans state = some sm') : sm'.mail = sm.mail := by
  cases state with
  | IDLE =>
      injection h with h
      exact h ▸ rfl
  | DISCONNECT =>
      injection h with h
      exact h ▸ rfl
  | CONNECT =>
      injection h with h
      subst h
      exact mail_startSession { sm with state_ := .CONNECT } ans.CreateSMSession
  | CLIENT_INIT =>
      injection h with h
      exact h ▸ rfl
  | ESTABLISHED =>
      have h := deref_some h
      injection h with h
      exact h ▸ rfl

/-- A transition keeps the messages. -/
theorem transit_mail (h : sm.transit ans state = some sm') : sm'.mail = sm.mail :=
  (enter_mail h).trans (mail_leave sm)

/-- So does one to `Idle`. -/
theorem transitToIdle_mail {enq : Bool} (h : sm.transitToIdle ans enq = some sm') :
    sm'.mail = sm.mail := by
  rw [enter_mail h, mail_onIdle, mail_leave]

/-- So does `ToIdle`. -/
theorem toIdle_mail (h : sm.ToIdle ans = some sm') : sm'.mail = sm.mail := by
  rw [transit_mail (deref_some h), mail_startIdleHoldTimer, mail_onIdle]

/-- So does the way to `Connect`. -/
theorem toConnect_mail (h : sm.toConnect ans = some sm') : sm'.mail = sm.mail := by
  rw [transit_mail (deref_some h), mail_onIdle]

/-- And the one from `Connect` to `Idle`. -/
theorem connectToIdle_mail (h : Connect.ToIdle ans sm = some sm') :
    sm'.mail = sm.mail := by
  have hmail := toIdle_mail h
  exact hmail

end Transitions

-- ====================================================== what events do

/-- What becomes of the message of an event that has been taken off the
queue. -/
inductive Posts (sm : SandeshClientSMImpl T) : Event → Mail → Prop
  | other {event : Event} (h : event.send = none) : Posts sm event sm.mail
  | released (snh : Snh) : Posts sm (.EvSandeshSend snh)
      { sm.mail with released := sm.released ++ [snh] }
  | sent (snh : Snh) {session : Nat} (hsession : sm.session_ = some session)
      (huve : snh.isUVE = true → sm.state_ = .ESTABLISHED) :
      Posts sm (.EvSandeshSend snh)
        { sm.mail with sent := sm.sent ++ [(session, snh)] }

section Reactions

variable {ans : Answers} {event : Event} {sm sm' : SandeshClientSMImpl T}

/-- An event that is no message leaves the mail as it was. -/
theorem posts_other (hsame : sm'.mail = sm.mail) (h : event.send = none) :
    Posts sm event sm'.mail := by
  rw [hsame]
  exact .other h

/-- A message that is dropped, or that goes to a session, is dealt with. -/
theorem release_posts {snh : Snh} (hr : some (sm.ReleaseSandesh snh) = some sm') :
    Posts sm (.EvSandeshSend snh) sm'.mail := by
  injection hr with hr
  subst hr
  exact .released snh

/-- `send_session` puts a message into the session, or lets go of it. -/
theorem send_session_posts {snh : Snh}
    (huve : snh.isUVE = true → sm.state_ = .ESTABLISHED)
    (hr : sm.send_session snh = some sm') :
    Posts sm (.EvSandeshSend snh) sm'.mail := by
  unfold send_session at hr
  cases hsession : sm.session_ with
  | none =>
      rw [hsession] at hr
      cases hr
  | some session =>
      rw [hsession] at hr
      injection hr with hr
      subst hr
      exact .sent snh hsession huve

/-- Each reaction deals with the message it is given, and with no other. -/
theorem idle_posts (hr : Idle.react ans event sm = some sm') :
    Posts sm event sm'.mail := by
  cases event with
  | EvStart =>
      simp only [Idle.react] at hr
      split at hr
      · injection hr with hr
        exact posts_other (hr ▸ mail_startIdleHoldTimer sm) rfl
      · exact posts_other (transit_mail hr) rfl
  | EvIdleHoldTimerExpired => exact posts_other (transit_mail hr) rfl
  | EvCollectorUpdate collectors =>
      injection hr with hr
      exact posts_other (hr ▸ mail_collectorUpdate sm collectors) rfl
  | EvSandeshSend snh => exact release_posts hr
  | _ =>
      injection hr with hr
      exact posts_other (hr ▸ rfl) rfl

/-- Every reaction of `Disconnect`. -/
theorem disconnect_posts (hr : Disconnect.react ans event sm = some sm') :
    Posts sm event sm'.mail := by
  cases event with
  | EvStop enq => exact posts_other (transitToIdle_mail hr) rfl
  | EvCollectorUpdate collectors =>
      exact posts_other ((transit_mail hr).trans (mail_collectorUpdate sm collectors))
        rfl
  | EvSandeshSend snh => exact release_posts hr
  | _ =>
      injection hr with hr
      exact posts_other (hr ▸ rfl) rfl

/-- Every reaction of `Connect`. -/
theorem connect_posts (hr : Connect.react ans event sm = some sm') :
    Posts sm event sm'.mail := by
  have hfail : Connect.ToIdle ans sm.CollectorChange.2 = some sm' →
      sm'.mail = sm.mail := by
    intro h
    exact (connectToIdle_mail h).trans (mail_collectorChange sm)
  cases event with
  | EvStop enq => exact posts_other (transitToIdle_mail hr) rfl
  | EvConnectTimerExpired => exact posts_other (hfail hr) rfl
  | EvTcpConnectFail session => exact posts_other (hfail hr) rfl
  | EvTcpClose session => exact posts_other (hfail hr) rfl
  | EvTcpConnected session =>
      have hmail := transit_mail hr
      exact posts_other hmail rfl
  | EvCollectorUpdate collectors =>
      have hsame := mail_collectorUpdate sm collectors
      simp only [Connect.react] at hr
      split at hr
      · exact posts_other ((connectToIdle_mail hr).trans hsame) rfl
      · injection hr with hr
        exact posts_other (hr ▸ hsame) rfl
  | EvSandeshSend snh => exact release_posts hr
  | _ =>
      injection hr with hr
      exact posts_other (hr ▸ rfl) rfl

/-- Every reaction of `ClientInit`. -/
theorem clientInit_posts (hr : ClientInit.react ans event sm = some sm') :
    Posts sm event sm'.mail := by
  have hfail : sm.CollectorChange.2.ToIdle ans = some sm' →
      sm'.mail = sm.mail := by
    intro h
    exact (toIdle_mail h).trans (mail_collectorChange sm)
  cases event with
  | EvStop enq => exact posts_other (transitToIdle_mail hr) rfl
  | EvConnectTimerExpired => exact posts_other (hfail hr) rfl
  | EvTcpClose session => exact posts_other (hfail hr) rfl
  | EvSandeshMessageRecv m =>
      simp only [ClientInit.react] at hr
      split at hr
      · exact posts_other (toIdle_mail hr) rfl
      · split at hr
        · have hmail := transit_mail (deref_some hr)
          exact posts_other hmail rfl
        · injection hr with hr
          exact posts_other (hr ▸ rfl) rfl
  | EvSandeshSend snh =>
      simp only [ClientInit.react] at hr
      split at hr
      · exact release_posts hr
      · rename_i huve
        exact send_session_posts (fun h => absurd h huve) hr
  | EvCollectorUpdate collectors =>
      have hsame := mail_collectorUpdate sm collectors
      simp only [ClientInit.react] at hr
      split at hr
      · exact posts_other ((toIdle_mail hr).trans hsame) rfl
      · injection hr with hr
        exact posts_other (hr ▸ hsame) rfl
  | _ =>
      injection hr with hr
      exact posts_other (hr ▸ rfl) rfl

/-- Every reaction of `Established`. -/
theorem established_posts (h : sm.state_ = .ESTABLISHED)
    (hr : Established.react ans event sm = some sm') :
    Posts sm event sm'.mail := by
  cases event with
  | EvStop enq => exact posts_other (transitToIdle_mail hr) rfl
  | EvTcpClose session =>
      have hsame := mail_collectorChange sm
      simp only [Established.react] at hr
      split at hr
      · exact posts_other ((toConnect_mail hr).trans hsame) rfl
      · exact posts_other ((toIdle_mail hr).trans hsame) rfl
  | EvSandeshMessageRecv m =>
      simp only [Established.react] at hr
      split at hr
      · exact posts_other (toIdle_mail hr) rfl
      · injection hr with hr
        exact posts_other (hr ▸ rfl) rfl
  | EvSandeshSend snh => exact send_session_posts (fun _ => h) hr
  | EvCollectorUpdate collectors =>
      have hsame := mail_collectorUpdate sm collectors
      simp only [Established.react] at hr
      split at hr
      · exact posts_other ((toConnect_mail hr).trans hsame) rfl
      · injection hr with hr
        exact posts_other (hr ▸ hsame) rfl
  | _ =>
      injection hr with hr
      exact posts_other (hr ▸ rfl) rfl

/-- A dequeued event moves its own message, and no other. -/
theorem dequeue_posts (hr : DequeueEvent ans event sm = some sm') :
    Posts sm event sm'.mail := by
  by_cases hvalid : validate event sm = true
  · rw [DequeueEvent, if_pos hvalid, process_event] at hr
    cases h : sm.state_ with
    | IDLE => exact idle_posts (by simpa only [h] using hr)
    | DISCONNECT => exact disconnect_posts (by simpa only [h] using hr)
    | CONNECT => exact connect_posts (by simpa only [h] using hr)
    | CLIENT_INIT => exact clientInit_posts (by simpa only [h] using hr)
    | ESTABLISHED => exact established_posts h (by simpa only [h] using hr)
  · rw [DequeueEvent, if_neg hvalid] at hr
    injection hr with hr
    cases event with
    | EvConnectTimerExpired => exact posts_other (hr ▸ rfl) rfl
    | _ => exact absurd rfl hvalid

end Reactions

/-- What an action does to the messages. -/
theorem step_posts {sm sm' : SandeshClientSMImpl T} {a : Action}
    (h : step sm a = some sm') :
    (sm'.mail = { sm.mail with pending := sm.mail.pending ++ a.send.toList }
        ∧ ∀ ans, a ≠ .dequeue ans)
      ∨ ∃ ans event rest, a = .dequeue ans ∧ sm.work_queue_ = event :: rest
          ∧ Posts { sm with work_queue_ := rest } event sm'.mail := by
  have hquiet : ∀ (sm₁ : SandeshClientSMImpl T) {event : Event},
      sm₁.mail = sm.mail → event.send = none →
      (sm₁.Enqueue event).mail = { sm.mail with
        pending := sm.mail.pending ++ [] } := by
    intro sm₁ event hsame hnone
    rw [mail_enqueue, hsame, hnone]
    rfl
  cases a with
  | dequeue ans =>
      simp only [step] at h
      cases hq : sm.work_queue_ with
      | nil => simp [hq] at h
      | cons event rest =>
          simp only [hq] at h
          exact .inr ⟨ans, event, rest, rfl, rfl, dequeue_posts h⟩
  | SetAdminState down =>
      injection h with h
      subst h
      refine .inl ⟨?_, by simp⟩
      cases down with
      | true => exact hquiet sm rfl rfl
      | false => exact hquiet { sm with idle_hold_time_ := 0 } rfl rfl
  | SetCollectors collectors =>
      injection h with h
      subst h
      exact .inl ⟨hquiet sm rfl rfl, by simp⟩
  | SendSandesh snh =>
      injection h with h
      subst h
      exact .inl ⟨mail_enqueue sm _, by simp⟩
  | OnMessage m =>
      injection h with h
      subst h
      exact .inl ⟨hquiet sm rfl rfl, by simp⟩
  | OnSessionEvent session event =>
      simp only [step] at h
      split at h
      · injection h with h
        subst h
        refine .inl ⟨?_, by simp⟩
        cases event with
        | ACCEPT => simp [SandeshClientSMImpl.OnSessionEvent, Action.send]
        | CONNECT_COMPLETE => exact hquiet sm rfl rfl
        | CONNECT_FAILED => exact hquiet sm rfl rfl
        | CLOSE => exact hquiet sm rfl rfl
      · cases h
  | ConnectTimerExpired =>
      simp only [step] at h
      split at h
      · injection h with h
        subst h
        refine .inl ⟨?_, by simp⟩
        exact hquiet { sm with connect_timer_ := T.expired sm.connect_timer_ } rfl rfl
      · cases h
  | IdleHoldTimerExpired =>
      simp only [step] at h
      split at h
      · injection h with h
        subst h
        refine .inl ⟨?_, by simp⟩
        exact hquiet { sm with idle_hold_timer_ := T.expired sm.idle_hold_timer_ } rfl
          rfl
      · cases h

-- ================================================== the newest session

/-- The current session is the newest. -/
def View.Newest (v : View T) : Prop :=
  ∀ session, v.session_ = some session → session + 1 = v.created

/-- The session, if there is one, is the newest. -/
theorem newest_none {v : View T} (h : v.session_ = none) : v.Newest := by
  intro session hsome
  rw [h] at hsome
  cases hsome

/-- A new session is. -/
theorem newest_connect (v : View T) (created : Bool) :
    (v.connect created).Newest ∧ v.created ≤ (v.connect created).created := by
  cases created with
  | true =>
      refine ⟨?_, Nat.le_succ _⟩
      intro session hsome
      obtain rfl : v.created = session := Option.some.inj hsome
      rfl
  | false => exact ⟨newest_none rfl, Nat.le_refl _⟩

/-- Whatever an event does, the current session is the newest. -/
theorem moves_newest {v v' : View T} {event : Event} {created : Bool}
    (h : v.Newest) (hmove : Moves created v event v') :
    v'.Newest ∧ v.created ≤ v'.created := by
  cases hmove with
  | ignored _ _ => exact ⟨h, Nat.le_refl _⟩
  | held _ => exact ⟨h, Nat.le_refl _⟩
  | parted _ => exact ⟨h, Nat.le_refl _⟩
  | calmed _ => exact ⟨h, Nat.le_refl _⟩
  | retried _ => exact newest_connect v.leave created
  | found _ _ => exact newest_connect v.leave created
  | connected _ _ => exact ⟨h, Nat.le_refl _⟩
  | established _ _ => exact ⟨h, Nat.le_refl _⟩
  | stopped _ => exact ⟨newest_none rfl, Nat.le_refl _⟩
  | backedOff _ _ _ => exact ⟨newest_none rfl, Nat.le_refl _⟩
  | dropped _ _ => exact ⟨newest_none rfl, Nat.le_refl _⟩
  | failedOver _ _ => exact newest_connect (v.onIdle true).leave created

/-- What comes from outside creates no session. -/
theorem outside_newest {v v' : View T} (h : v.Newest) (hout : Outside v v') :
    v'.Newest ∧ v.created ≤ v'.created := by
  cases hout <;> exact ⟨h, Nat.le_refl _⟩

/-- A step keeps that, and sessions only become more. -/
theorem step_newest {sm sm' : SandeshClientSMImpl T} {a : Action}
    (hnew : sm.view.Newest) (h : step sm a = some sm') :
    sm'.view.Newest ∧ sm.created ≤ sm'.created := by
  rcases step_cases h with ⟨-, hout⟩ | ⟨ans, event, rest, -, -, hmoves⟩
  · exact outside_newest hnew hout
  · exact moves_newest (v := { sm.view with stops := rest.filterMap Event.stop })
      hnew hmoves

-- ================================================================ runs

/-- A message that was taken off the queue, with the session it was put
on; without one it was released. -/
abbrev Fate := Snh × Option Nat

/-- What became of a message, read as the two lists of the machine. -/
def Fate.sent (f : Fate) : Option (Nat × Snh) := f.2.map fun session => (session, f.1)

/-- The message, if no session took it. -/
def Fate.released (f : Fate) : Option Snh := if f.2 = none then some f.1 else none

/-- What has been asked for is what has been taken off the queue, followed
by what is still there; what has been taken off was put on a session, and
never on an older one than before, or was released. -/
structure Accounted (asked : List Snh) (fates : List Fate) (m : Mail)
    (created : Nat) : Prop where
  asked_eq : asked = fates.map Prod.fst ++ m.pending
  sent_eq : m.sent = fates.filterMap Fate.sent
  released_eq : m.released = fates.filterMap Fate.released
  sorted : (m.sent.map Prod.fst).Pairwise (· ≤ ·)
  bound : ∀ x ∈ m.sent, x.1 < created

/-- One more message taken off the queue, if the event was to send one. -/
theorem posts_accounted {asked : List Snh} {fates : List Fate} {event : Event}
    {rest : List Event} {sm : SandeshClientSMImpl T} {m : Mail}
    (hq : sm.work_queue_ = event :: rest) (hnew : sm.view.Newest)
    (h : Accounted asked fates sm.mail sm.created)
    (hposts : Posts { sm with work_queue_ := rest } event m) :
    ∃ fates', Accounted asked fates' m sm.created := by
  have hpending : sm.mail.pending = event.send.toList ++ rest.filterMap Event.send := by
    show sm.work_queue_.filterMap Event.send = _
    rw [hq]
    cases hs : event.send <;> simp [hs]
  have hasked := h.asked_eq
  rw [hpending] at hasked
  cases hposts with
  | other hnone =>
      rw [hnone] at hasked
      exact ⟨fates, hasked, h.sent_eq, h.released_eq, h.sorted, h.bound⟩
  | released snh =>
      refine ⟨fates ++ [(snh, none)], ?_, ?_, ?_, h.sorted, h.bound⟩
      · rw [hasked]
        simp [Event.send, mail]
      · rw [List.filterMap_append, ← h.sent_eq]
        exact (List.append_nil _).symm
      · rw [List.filterMap_append, ← h.released_eq]
        rfl
  | @sent snh session hsession huve =>
      have hlast : session + 1 = sm.created := hnew session hsession
      refine ⟨fates ++ [(snh, some session)], ?_, ?_, ?_, ?_, ?_⟩
      · rw [hasked]
        simp [Event.send, mail]
      · rw [List.filterMap_append, ← h.sent_eq]
        rfl
      · rw [List.filterMap_append, ← h.released_eq]
        exact (List.append_nil _).symm
      · rw [List.map_append, List.pairwise_append]
        refine ⟨h.sorted, List.pairwise_singleton _ _, ?_⟩
        intro k hk k' hk'
        obtain ⟨x, hx, rfl⟩ := List.mem_map.mp hk
        obtain rfl : k' = session := List.mem_singleton.mp hk'
        have hlt := h.bound x hx
        omega
      · intro x hx
        rcases List.mem_append.mp hx with hold | hnew'
        · exact h.bound x hold
        · rw [List.mem_singleton.mp hnew', ← hlast]
          exact Nat.lt_succ_self session

/-- A step keeps the account: the message that it deals with gets its fate.
-/
theorem step_accounted {asked : List Snh} {fates : List Fate}
    {sm sm' : SandeshClientSMImpl T} {a : Action} (hnew : sm.view.Newest)
    (h : Accounted asked fates sm.mail sm.created) (hstep : step sm a = some sm') :
    ∃ fates', Accounted (asked ++ a.send.toList) fates' sm'.mail sm'.created := by
  obtain ⟨-, hcreated⟩ := step_newest hnew hstep
  have hraise : ∀ {fates' : List Fate} {m : Mail} {asked' : List Snh},
      Accounted asked' fates' m sm.created → Accounted asked' fates' m sm'.created := by
    intro fates' m asked' hacc
    exact { hacc with bound := fun x hx => Nat.lt_of_lt_of_le (hacc.bound x hx) hcreated }
  rcases step_posts hstep with ⟨hmail, -⟩ | ⟨ans, event, rest, rfl, hq, hposts⟩
  · refine ⟨fates, hraise ?_⟩
    rw [hmail]
    refine { h with asked_eq := ?_ }
    rw [h.asked_eq, List.append_assoc]
  · obtain ⟨fates', hacc⟩ := posts_accounted hq hnew h hposts
    refine ⟨fates', hraise ?_⟩
    rwa [show (Action.dequeue ans).send = none from rfl, Option.toList_none,
      List.append_nil]

/-- A run keeps it, by induction on its steps. -/
theorem run_accounted (as : List Action) :
    ∀ {asked : List Snh} {fates : List Fate} {sm sm' : SandeshClientSMImpl T},
      sm.view.Newest → Accounted asked fates sm.mail sm.created →
      (machine T).run sm as = some sm' →
      ∃ fates', Accounted (asked ++ as.filterMap Action.send) fates' sm'.mail
        sm'.created := by
  induction as with
  | nil =>
      intro asked fates sm sm' _ h hrun
      injection hrun with hrun
      subst hrun
      refine ⟨fates, ?_⟩
      rwa [List.filterMap_nil, List.append_nil]
  | cons a as ih =>
      intro asked fates sm sm' hnew h hrun
      obtain ⟨sm₁, hstep, hrest⟩ := Option.bind_eq_some_iff.mp hrun
      obtain ⟨fates₁, h₁⟩ := step_accounted hnew h hstep
      obtain ⟨fates', h'⟩ := ih (step_newest hnew hstep).1 h₁ hrest
      refine ⟨fates', ?_⟩
      have hasked : asked ++ (a :: as).filterMap Action.send
          = asked ++ a.send.toList ++ as.filterMap Action.send := by
        cases hs : a.send <;> simp [hs]
      rwa [hasked]

/-- In every run, every message that was asked to be sent is still queued,
was put on exactly one session, or was released, once and in order; the
sessions messages are put on never go back to an older one; and a message
that is put on a session is put on the current one, a UVE only once the
session is established. -/
theorem sends_accounted (T : Timers) (index : Nat) (as : List Action)
    (sm : SandeshClientSMImpl T)
    (hrun : (machine T).run (.new T index) as = some sm) :
    (∃ fates : List Fate,
      as.filterMap Action.send
          = fates.map Prod.fst ++ sm.work_queue_.filterMap Event.send
        ∧ sm.sent = fates.filterMap Fate.sent
        ∧ sm.released = fates.filterMap Fate.released)
      ∧ (sm.sent.map Prod.fst).Pairwise (· ≤ ·)
      ∧ (∀ x ∈ sm.sent, x.1 < sm.created)
      ∧ (machine T).Each
          (fun s _ s' => s'.sent = s.sent ∨ ∃ session snh,
            s'.sent = s.sent ++ [(session, snh)] ∧ s.session_ = some session
              ∧ (snh.isUVE = true → s.state_ = .ESTABLISHED))
          (.new T index) as := by
  have hnew : (SandeshClientSMImpl.new T index).view.Newest := newest_none rfl
  have hstart : Accounted [] [] (SandeshClientSMImpl.new T index).mail 0 :=
    ⟨rfl, rfl, rfl, List.Pairwise.nil, by simp [mail, SandeshClientSMImpl.new]⟩
  obtain ⟨fates, h⟩ := run_accounted as hnew hstart hrun
  refine ⟨⟨fates, h.asked_eq, h.sent_eq, h.released_eq⟩, h.sorted, h.bound, ?_⟩
  refine Machine.each_keeps (I := fun _ => True) ?_ as trivial
  intro s a s' _ hstep
  refine ⟨trivial, ?_⟩
  rcases step_posts hstep with ⟨hmail, -⟩ | ⟨ans, event, rest, -, -, hposts⟩
  · exact .inl (congrArg Mail.sent hmail)
  · cases hm : s'.mail with
    | mk pending sent released =>
        have hsent : s'.sent = sent := congrArg Mail.sent hm
        rw [hm] at hposts
        cases hposts with
        | other _ => exact .inl hsent
        | released snh => exact .inl hsent
        | @sent snh session hsession huve =>
            exact .inr ⟨session, snh, hsent, hsession, huve⟩

/-- A message sent before there is a session, and one sent after it has
connected. -/
def twoSends : List Action :=
  [.SendSandesh ⟨lit "a", false⟩, .dequeue ⟨true, true⟩, .SetAdminState false,
    .dequeue ⟨true, true⟩, .SetCollectors [⟨1, 8086⟩], .dequeue ⟨true, true⟩,
    .OnSessionEvent 0 .CONNECT_COMPLETE, .dequeue ⟨true, true⟩,
    .SendSandesh ⟨lit "b", false⟩, .dequeue ⟨true, true⟩]

/-- A message before the connection is there is dropped, the one behind it
is sent. -/
theorem sends_accounted_two :
    ∃ sm, (machine .phases).run (.new .phases 0) twoSends = some sm
      ∧ (sm.sent, sm.released) = ([(0, ⟨lit "b", false⟩)], [⟨lit "a", false⟩])
      ∧ ∃ fates : List Fate,
        twoSends.filterMap Action.send
            = fates.map Prod.fst ++ sm.work_queue_.filterMap Event.send
          ∧ sm.sent = fates.filterMap Fate.sent
          ∧ sm.released = fates.filterMap Fate.released := by
  have hends : ((machine .phases).run (.new .phases 0) twoSends).map
      (fun sm => (sm.sent, sm.released))
      = some ([(0, ⟨lit "b", false⟩)], [⟨lit "a", false⟩]) := by rfl
  obtain ⟨sm, hrun, hbooks⟩ := Option.map_eq_some_iff.mp hends
  exact ⟨sm, hrun, hbooks, (sends_accounted .phases 0 twoSends sm hrun).1⟩

end Sandesh.ClientSM
