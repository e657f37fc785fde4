/-
Every message that is to be sent is counted once, or is still waiting.

A `Send` that does not reach the client counts the message where it drops
it. Behind that the books are those of the work queue: what is taken off it
is released and counted, or named on the send queue of a session
(`follow_balanced`), and the runner that takes it from there counts it
under that name, since names and messages are in step (`Named`).

The statistics are what a list of updates has made of nothing, and each of
these adds one either to the messages sent or to those dropped; so the
counters can be read off the names (`Balanced.counters`).
-/
import Sandesh.Delivery.Proofs.InOrder
import Sandesh.MessageStats.Proofs.AddUp
import Sandesh.Sender.Basic

namespace Sandesh.Sender

open Lib ClientSM MessageStats Delivery

variable {T : Timers} {memory : Nat → Memory} {send : Nat → List Bytes → Bool}

-- ============================================================ the books

/-- The messages that are on the work queue of the state machine or on the
send queue of a session. -/
def SandeshClient.waiting (c : SandeshClient T) : List Bytes :=
  (c.system.sm.work_queue_.filterMap Event.send).map Snh.Name ++ c.names.flatten

/-- The names of the messages that wait for the client. -/
def Process.waiting (p : Process T) : List Bytes :=
  (p.client_.map SandeshClient.waiting).getD []

/-- Names and messages on the send queues are in step. -/
def Named (c : SandeshClient T) : Prop :=
  c.names.map List.length
    = c.system.channels.map fun channel => channel.session.send_queue_.length

/-- The updates have made the statistics. Their names and those in `owed`
are the names of all messages that were to be sent. -/
structure Books (us : List Update) (p : Process T) (owed : List Bytes) : Prop where
  stats : us.foldlM Cpp.update Cpp.new = some p.msg_stats_
  names : p.requests.Perm (us.map Update.msg_name ++ owed)
  tx : ∀ u ∈ us, u.worth (.messages .sent) + u.worth (.messages .sent_dropped) = 1

/-- What is owed is what is waiting. -/
structure Balanced (p : Process T) : Prop where
  books : ∃ us, Books us p p.waiting
  client : ∀ c, p.client_ = some c →
    Named c ∧ ∃ asked fates, Delivering asked fates c.system

/-- A reason with a counter is one for a drop. -/
theorem drops_of_counter {r : SandeshTxDropReason} {c : Counter}
    (h : Cpp.sendDropped r = some c) : r.Drops := by
  refine ⟨?_, ?_, ?_⟩ <;> rintro rfl <;> cases h

section Counting

variable {us : List Update} {p : Process T} {owed owed' : List Bytes} {name : Bytes}

/-- The books do not care for the order. -/
theorem Books.perm (h : Books us p owed) (hp : owed.Perm owed') : Books us p owed' :=
  ⟨h.stats, h.names.trans (hp.append_left _), h.tx⟩

/-- Nothing else of the process is in the books. -/
theorem Books.same {p' : Process T} (h : Books us p owed) (hs : p'.msg_stats_ = p.msg_stats_)
    (hr : p'.requests = p.requests) : Books us p' owed :=
  ⟨hs ▸ h.stats, hr ▸ h.names, h.tx⟩

/-- One more update. -/
theorem Books.count (h : Books us p (name :: owed)) {u : Update} (hname : u.msg_name = name)
    (hu : u.worth (.messages .sent) + u.worth (.messages .sent_dropped) = 1) :
    ∃ s, Cpp.update p.msg_stats_ u = some s
      ∧ Books (us ++ [u]) { p with msg_stats_ := s } owed := by
  obtain ⟨s, hs⟩ : ∃ s, Cpp.update p.msg_stats_ u = some s := ⟨_, Cpp.update_eq _ u⟩
  refine ⟨s, hs, ?_, ?_, ?_⟩
  · rw [List.foldlM_append, h.stats]
    exact (Option.bind_some _ _).trans ((bind_pure _).trans hs)
  · rw [List.map_append, List.map_singleton, hname, List.append_assoc]
    exact h.names
  · intro v hv
    rcases List.mem_append.mp hv with hv | hv
    · exact h.tx v hv
    · rw [List.mem_singleton.mp hv]
      exact hu

/-- One message counts for its own name. -/
theorem one_self (c : Counter) (n : Int) : one c n (.messages c) = 1 := if_pos rfl

/-- And for nothing else. -/
theorem one_of_ne {c d : Counter} (h : d ≠ c) (n : Int) : one c n (.messages d) = 0 := if_neg h

/-- A drop is counted. -/
theorem Books.fail {reason : SandeshTxDropReason} (hr : reason.Drops)
    (h : Books us p (name :: owed)) :
    ∃ us' s, p.UpdateTxMsgFailStats name reason = some { p with msg_stats_ := s }
      ∧ Books us' { p with msg_stats_ := s } owed := by
  have hworth : (Update.mk (.sendFailed reason hr) name 0).worth (.messages .sent)
      + (Update.mk (.sendFailed reason hr) name 0).worth (.messages .sent_dropped) = 1 := by
    obtain ⟨c, hc, hcpp, -⟩ := txDropped_eq hr
    have hsent : Counter.sent ≠ c := by
      rintro rfl
      exact absurd hc (by decide)
    have hdropped : Counter.sent_dropped ≠ c := by
      rintro rfl
      exact absurd hc (by decide)
    simp only [Update.worth, hcpp, Option.getD_some, Pi.add_apply, one_self, one_of_ne hsent,
      one_of_ne hdropped]
    rfl
  obtain ⟨s, hs, hbooks⟩ := h.count (u := ⟨.sendFailed reason hr, name, 0⟩) rfl hworth
  exact ⟨_, s, congrArg (Option.map _) hs, hbooks⟩

/-- And so is a message sent. -/
theorem Books.sent (h : Books us p (name :: owed)) (bytes : U64) :
    ∃ us' s, p.UpdateTxMsgStats name bytes = some { p with msg_stats_ := s }
      ∧ Books us' { p with msg_stats_ := s } owed := by
  obtain ⟨s, hs, hbooks⟩ := h.count (u := ⟨.send, name, bytes⟩) rfl rfl
  exact ⟨_, s, congrArg (Option.map _) hs, hbooks⟩

/-- A message that is counted where it is dropped. -/
theorem fail_balanced {reason : SandeshTxDropReason} (hr : reason.Drops)
    (h : Books us p (name :: p.waiting)) (hclient : ∀ c, p.client_ = some c →
      Named c ∧ ∃ asked fates, Delivering asked fates c.system) :
    ∃ p', p.UpdateTxMsgFailStats name reason = some p' ∧ Balanced p' := by
  obtain ⟨us', s, hs, hbooks⟩ := h.fail hr
  exact ⟨_, hs, ⟨us', hbooks⟩, hclient⟩

end Counting

-- ============================================================ sending

section Sending

variable {us : List Update} {p : Process T} {name : Bytes}

/-- A message that is asked for is owed. -/
theorem request_books (h : Books us p p.waiting) :
    Books us (p.request name) (name :: (p.request name).waiting) := by
  refine ⟨h.stats, ?_, h.tx⟩
  show (p.requests ++ [name]).Perm (us.map Update.msg_name ++ name :: p.waiting)
  exact (List.perm_append_singleton name p.requests).trans
    ((h.names.cons name).trans List.perm_middle.symm)

/-- The work queue takes the message. -/
theorem enqueue_balanced {c : SandeshClient T} (hc : p.client_ = some c)
    (h : Books us p (name :: p.waiting)) (hnamed : Named c)
    (hdel : ∃ asked fates, Delivering asked fates c.system) (isUVE : Bool)
    (sandesh : Framing.Message) : Balanced (p.enqueue c ⟨name, isUVE⟩ sandesh) := by
  have hwaiting : (p.enqueue c ⟨name, isUVE⟩ sandesh).waiting
      = (c.system.sm.work_queue_.filterMap Event.send).map Snh.Name ++ name :: c.names.flatten := by
    show ((c.system.sm.work_queue_ ++ [Event.EvSandeshSend ⟨name, isUVE⟩]).filterMap
      Event.send).map Snh.Name ++ c.names.flatten = _
    rw [List.filterMap_append, List.map_append, List.append_assoc]
    rfl
  have hp : p.waiting = (c.system.sm.work_queue_.filterMap Event.send).map Snh.Name
      ++ c.names.flatten := by
    rw [Process.waiting, hc]
    rfl
  refine ⟨⟨us, ?_⟩, ?_⟩
  · rw [hwaiting]
    rw [hp] at h
    exact ⟨h.stats, h.names.trans (List.perm_middle.symm.append_left _), h.tx⟩
  · intro c' hc'
    obtain rfl := Option.some.inj hc'
    refine ⟨hnamed, ?_⟩
    obtain ⟨asked, fates, hdel⟩ := hdel
    let memory : Nat → Memory := fun _ =>
      ⟨List.replicate Framing.kDefaultSendSize 0, List.length_replicate⟩
    have hstep : Delivery.step memory (fun _ _ => true) c.system
        (.SendSandesh ⟨name, isUVE⟩ sandesh)
        = some { c.system with
            sm := c.system.sm.Enqueue (.EvSandeshSend ⟨name, isUVE⟩)
            submitted := c.system.submitted ++ [sandesh] } := rfl
    exact step_delivering hdel hstep

/-- What a `Send` ends with: it always ends. -/
theorem sendBelow_balanced (m : Outgoing) (h : Books us p (m.name :: p.waiting))
    (hclient : ∀ c, p.client_ = some c →
      Named c ∧ ∃ asked fates, Delivering asked fates c.system) :
    ∃ p', p.sendBelow m = some p' ∧ Balanced p' := by
  unfold Process.sendBelow
  split
  · exact fail_balanced (drops_of_counter rfl) h hclient
  · unfold Process.SendEnqueue
    cases hc : p.client_ with
    | none => exact fail_balanced (drops_of_counter rfl) h hclient
    | some c =>
        obtain ⟨hnamed, hdel⟩ := hclient c hc
        exact ⟨_, rfl, enqueue_balanced hc h hnamed hdel false m.sandesh⟩

/-- `Send` of each kind. -/
theorem sendKind_balanced (m : Outgoing) (t : Int) (h : Books us p (m.name :: p.waiting))
    (hclient : ∀ c, p.client_ = some c →
      Named c ∧ ∃ asked fates, Delivering asked fates c.system) :
    ∃ p', p.sendKind m t = some p' ∧ Balanced p' := by
  have hfail : ∀ reason : SandeshTxDropReason, reason.Drops →
      ∃ p', p.UpdateTxMsgFailStats m.name reason = some p' ∧ Balanced p' :=
    fun reason hr => fail_balanced hr h hclient
  have hbelow := sendBelow_balanced m h hclient
  unfold Process.sendKind
  cases m.kind with
  | system =>
      dsimp only
      split
      · exact hfail _ (drops_of_counter rfl)
      · unfold Process.sendLimited
        dsimp only
        have hlimits : ∀ limits, Books us { p with limits := limits } (m.name :: p.waiting) :=
          fun limits => h.same rfl rfl
        split
        · exact fail_balanced (drops_of_counter rfl) (hlimits _) hclient
        · exact sendBelow_balanced m (hlimits _) hclient
        · exact fail_balanced (drops_of_counter rfl) (hlimits _) hclient
  | object =>
      dsimp only
      split
      · exact hfail _ (drops_of_counter rfl)
      · exact hbelow
  | flow =>
      dsimp only
      split
      · exact hfail _ (drops_of_counter rfl)
      · split
        · exact hfail _ (drops_of_counter rfl)
        · exact hbelow

/-- `Send`, whatever the message. -/
theorem send_balanced (h : Balanced p) (m : Outgoing) (t : Int) :
    ∃ p', p.Send m t = some p' ∧ Balanced p' := by
  obtain ⟨us, hbooks⟩ := h.books
  unfold Process.Send
  split
  · exact ⟨p, rfl, h⟩
  · exact sendKind_balanced m t (request_books hbooks) h.client

/-- A UVE from the cache. -/
theorem dispatchUVE_balanced (h : Balanced p) (name : Bytes) (sandesh : Framing.Message) :
    ∃ p', p.DispatchUVE name sandesh = some p' ∧ Balanced p' := by
  obtain ⟨us, hbooks⟩ := h.books
  have hrequest : Books us (p.request name) (name :: (p.request name).waiting) :=
    request_books hbooks
  have hclient : ∀ c, (p.request name).client_ = some c →
      Named c ∧ ∃ asked fates, Delivering asked fates c.system := h.client
  unfold Process.DispatchUVE
  dsimp only
  cases hc : (p.request name).client_ with
  | none => exact fail_balanced (drops_of_counter rfl) hrequest hclient
  | some c =>
      dsimp only
      split
      · exact fail_balanced (drops_of_counter rfl) hrequest hclient
      · obtain ⟨hnamed, hdel⟩ := hclient c hc
        exact ⟨_, rfl, enqueue_balanced hc hrequest hnamed hdel true sandesh⟩

end Sending

-- =============================================================== queues

/-- The first name of one queue is taken. -/
theorem perm_set_tail {name : Bytes} {rest : List Bytes} :
    ∀ {l : List (List Bytes)} {k : Nat}, l[k]? = some (name :: rest) →
      l.flatten.Perm (name :: (l.set k rest).flatten) := by
  intro l
  induction l with
  | nil =>
      intro k h
      cases h
  | cons q l ih =>
      intro k h
      cases k with
      | zero =>
          obtain rfl := Option.some.inj h
          exact .refl _
      | succ k =>
          rw [List.flatten_cons, List.set_cons_succ, List.flatten_cons]
          exact ((ih h).append_left q).trans List.perm_middle

section Client

variable {us : List Update} {p : Process T} {c : SandeshClient T} {sys : Delivery.System T}

/-- What becomes of the message that a runner takes. -/
theorem dequeue_cases {Send : List Bytes → Bool} {s s' : Framing.SendSession}
    (h : Framing.sendStep Send s .dequeue = some s') :
    ∃ m rest, s.send_queue_ = m :: rest ∧ s'.send_queue_ = rest
      ∧ ((∃ reason, s'.drops = s.drops ++ [reason] ∧ s'.num_send_msg = s.num_send_msg)
        ∨ (s'.drops = s.drops ∧ s'.num_send_msg = s.num_send_msg + 1)) := by
  simp only [Framing.sendStep] at h
  cases hq : s.send_queue_ with
  | nil =>
      rw [hq] at h
      cases h
  | cons m rest =>
      rw [hq] at h
      refine ⟨m, rest, rfl, ?_⟩
      simp only [Framing.SendSession.SendMsg] at h
      split at h
      · simp only [Framing.SendSession.writerSendMsg] at h
        split at h
        · cases h
          exact ⟨rfl, .inl ⟨_, rfl, rfl⟩⟩
        · split at h
          · cases h
            exact ⟨rfl, .inl ⟨_, rfl, rfl⟩⟩
          · split at h
            · cases h
            · split at h
              · cases h
              · cases h
                exact ⟨rfl, .inr ⟨rfl, rfl⟩⟩
      · cases h
        exact ⟨rfl, .inl ⟨_, rfl, rfl⟩⟩

/-- What a step of the state machine does to the messages, if it does not
ask to send one. -/
inductive Mailed (sm sm' : SandeshClientSMImpl T) : Prop
  | kept (hpending : sm'.mail.pending = sm.mail.pending) (hsent : sm'.sent = sm.sent)
      (hreleased : sm'.released = sm.released)
  | released (snh : Snh) (hpending : sm.mail.pending = snh :: sm'.mail.pending)
      (hsent : sm'.sent = sm.sent) (hreleased : sm'.released = sm.released ++ [snh])
  | sent (session : Nat) (snh : Snh) (hpending : sm.mail.pending = snh :: sm'.mail.pending)
      (hsent : sm'.sent = sm.sent ++ [(session, snh)]) (hreleased : sm'.released = sm.released)
      (hsession : sm.session_ = some session)

/-- A step that sends nothing keeps the messages. -/
theorem step_mailed {sm sm' : SandeshClientSMImpl T} {a : ClientSM.Action}
    (ha : a.send = none) (h : ClientSM.step sm a = some sm') : Mailed sm sm' := by
  rcases step_posts h with ⟨hmail, -⟩ | ⟨ans, event, rest, -, hq, hposts⟩
  · rw [ha, Option.toList_none, List.append_nil] at hmail
    exact .kept (congrArg Mail.pending hmail) (congrArg Mail.sent hmail)
      (congrArg Mail.released hmail)
  · have hpending : sm.mail.pending = event.send.toList ++ rest.filterMap Event.send := by
      show sm.work_queue_.filterMap Event.send = _
      rw [hq]
      cases hs : event.send <;> simp [hs]
    cases hm : sm'.mail with
    | mk pending sent released =>
        have hp : sm'.mail.pending = pending := congrArg Mail.pending hm
        have hsent : sm'.sent = sent := congrArg Mail.sent hm
        have hreleased : sm'.released = released := congrArg Mail.released hm
        rw [hm] at hposts
        cases hposts with
        | other hnone =>
            rw [hnone] at hpending
            exact .kept (hp.trans hpending.symm) hsent hreleased
        | released snh => exact .released snh (hp ▸ hpending) hsent hreleased
        | @sent snh session hsession huve =>
            exact .sent session snh (hp ▸ hpending) hsent hreleased hsession

/-- Sessions that are new have nothing on their queues. -/
theorem opened_named (sm : SandeshClientSMImpl T) :
    (List.replicate (sys.opened memory sm).length ([] : List Bytes)).map List.length
      = (sys.opened memory sm).map fun channel => channel.session.send_queue_.length := by
  rw [List.map_replicate]
  refine (List.eq_replicate_iff.mpr ⟨List.length_map _, fun n hn => ?_⟩).symm
  obtain ⟨channel, hmem, rfl⟩ := List.mem_map.mp hn
  obtain ⟨session, -, rfl⟩ := List.mem_map.mp hmem
  rfl

/-- The sessions a step opens are those there are more of after it. -/
theorem follow_opened (sys : Delivery.System T) (sm : SandeshClientSMImpl T) :
    (sys.follow memory sm).channels.length - sys.channels.length
      = (sys.opened memory sm).length := by
  have hfold : ∀ (xs : List ((Nat × Snh) × Framing.Message)) (channels : List Channel),
      (xs.foldl (fun channels x => channels.modify x.1.1 fun c => c.post x.2) channels).length
        = channels.length := by
    intro xs
    induction xs with
    | nil =>
        intro channels
        rfl
    | cons x xs ih =>
        intro channels
        rw [List.foldl_cons, ih, List.length_modify]
  rw [Delivery.System.follow, hfold, List.length_append, Nat.add_sub_cancel_left]

/-- What waits after the client has followed its machine. -/
theorem waiting_follow (sm : SandeshClientSMImpl T) (names : List (List Bytes)) :
    SandeshClient.waiting { c with system := c.system.follow memory sm, names := names }
      = sm.mail.pending.map Snh.Name ++ names.flatten := rfl

/-- A step of the state machine: a message taken off its queue is counted
or named. -/
theorem follow_balanced {sm : SandeshClientSMImpl T} {a : ClientSM.Action}
    (hc : p.client_ = some c) (h : Books us p p.waiting) (hnamed : Named c)
    {asked : List Snh} {fates : List Fate} (hdel : Delivering asked fates c.system)
    (ha : a.send = none) (hstep : ClientSM.step c.system.sm a = some sm) :
    ∃ p', p.follow c (c.system.follow memory sm) = some p' ∧ Balanced p' := by
  obtain ⟨fates', hdel'⟩ : ∃ fates', Delivering asked fates' (c.system.follow memory sm) :=
    client_delivering ha hdel hstep
  have hwaiting : p.waiting = c.system.sm.mail.pending.map Snh.Name ++ c.names.flatten := by
    rw [Process.waiting, hc]
    rfl
  rw [hwaiting] at h
  -- a step that puts nothing on a session
  have hkept : ∀ {us' : List Update} {p' : Process T}, sm.sent = c.system.sm.sent →
      p'.client_ = some { c with
        system := c.system.follow memory sm
        names := c.names ++ List.replicate (c.system.opened memory sm).length [] } →
      Books us' p' (sm.mail.pending.map Snh.Name ++ c.names.flatten) → Balanced p' := by
    intro us' p' hsent hclient hbooks
    refine ⟨⟨us', ?_⟩, ?_⟩
    · rw [Process.waiting, hclient, Option.map_some, Option.getD_some, waiting_follow,
        List.flatten_append, List.flatten_replicate_nil, List.append_nil]
      exact hbooks
    · intro c' hc'
      rw [hclient] at hc'
      obtain rfl := Option.some.inj hc'
      refine ⟨?_, asked, fates', hdel'⟩
      show (c.names ++ List.replicate _ _).map List.length
        = (c.system.follow memory sm).channels.map _
      rw [channels_kept memory hsent, List.map_append, List.map_append, opened_named, hnamed]
  unfold Process.follow
  dsimp only
  cases step_mailed ha hstep with
  | kept hpending hsent hreleased =>
      rw [← hpending] at h
      have hs : (c.system.follow memory sm).sm.sent = c.system.sm.sent := hsent
      have hr : (c.system.follow memory sm).sm.released = c.system.sm.released := hreleased
      rw [follow_opened, hs, hr, List.drop_length, List.drop_length]
      exact ⟨_, rfl, hkept hsent rfl (h.same rfl rfl)⟩
  | released snh hpending hsent hreleased =>
      rw [hpending, List.map_cons, List.cons_append] at h
      have hs : (c.system.follow memory sm).sm.sent = c.system.sm.sent := hsent
      have hr : (c.system.follow memory sm).sm.released = c.system.sm.released ++ [snh] :=
        hreleased
      rw [follow_opened, hs, hr, List.drop_length, List.drop_left]
      have howed : Books us { p with
          client_ := some { c with
            system := c.system.follow memory sm
            names := c.names ++ List.replicate (c.system.opened memory sm).length [] } }
          (snh.Name :: (sm.mail.pending.map Snh.Name ++ c.names.flatten)) := h.same rfl rfl
      have hreason : SandeshTxDropReason.WrongClientSMState.Drops := drops_of_counter rfl
      obtain ⟨us', s, hs', hbooks⟩ := howed.fail hreason
      refine ⟨_, ?_, hkept hsent rfl hbooks⟩
      exact (bind_pure _).trans hs'
  | sent session snh hpending hsent hreleased hsession =>
      obtain ⟨init, channel, m, hcs, hinit, -, hchannels⟩ := channels_sent memory hdel
        hsent hsession (by rw [hpending]; exact Nat.succ_pos _)
      have hs : (c.system.follow memory sm).sm.sent = c.system.sm.sent ++ [(session, snh)] :=
        hsent
      have hr : (c.system.follow memory sm).sm.released = c.system.sm.released := hreleased
      rw [follow_opened, hs, hr, List.drop_length, List.drop_left]
      -- the names of the newest session come last
      have hsplit := hnamed
      rw [Named, hcs, List.map_append, List.map_singleton] at hsplit
      obtain ⟨front, back, hnames, hfront, hback⟩ := List.map_eq_append_iff.mp hsplit
      obtain ⟨queue, rfl, hqueue⟩ := List.map_eq_singleton_iff.mp hback
      have hlen : front.length = session := by
        have hlen := congrArg List.length hfront
        rw [List.length_map, List.length_map] at hlen
        exact hlen.trans hinit
      have hmodify : [(session, snh)].foldl
          (fun names x => names.modify x.1 fun l => l ++ [x.2.Name])
          (c.names ++ List.replicate (c.system.opened memory sm).length [])
          = front ++ (queue ++ [snh.Name])
            :: List.replicate (c.system.opened memory sm).length [] := by
        rw [hnames, List.append_assoc, ← hlen]
        exact modify_middle _ queue _ front
      rw [hmodify]
      refine ⟨_, rfl, ⟨us, ?_⟩, ?_⟩
      · rw [Process.waiting, Option.map_some, Option.getD_some, waiting_follow]
        refine Books.same (h.perm ?_) rfl rfl
        rw [hpending, hnames, List.flatten_append, List.flatten_append, List.flatten_cons,
          List.flatten_cons, List.flatten_replicate_nil, List.append_nil, List.flatten_nil,
          List.append_nil, List.map_cons, List.cons_append]
        refine List.perm_middle.symm.trans (List.Perm.append_left _ ?_)
        rw [← List.append_assoc, ← List.cons_append]
        exact (List.perm_append_singleton snh.Name _).symm
      · intro c' hc'
        obtain rfl := Option.some.inj hc'
        refine ⟨?_, asked, fates', hdel'⟩
        show (front ++ (queue ++ [snh.Name]) :: List.replicate _ _).map List.length
          = (c.system.follow memory sm).channels.map _
        rw [hchannels, List.map_append, List.map_append, List.map_cons, List.map_cons,
          opened_named, hfront, List.length_append, List.length_singleton, hqueue]
        congr 2
        show _ = (channel.session.send_queue_ ++ [m]).length
        rw [List.length_append]
        rfl

/-- What happens to one session leaves the others alone. -/
theorem at_cases {session : Nat} {f : Channel → Option Channel} {sys' : Delivery.System T}
    (h : sys.at_ session f = some sys') :
    ∃ before after, sys.channels[session]? = some before ∧ f before = some after
      ∧ sys' = { sys with channels := sys.channels.set session after } := by
  unfold Delivery.System.at_ at h
  cases hb : sys.channels[session]? with
  | none =>
      rw [hb] at h
      cases h
  | some before =>
      rw [hb] at h
      obtain ⟨after, hf, rfl⟩ := Option.map_eq_some_iff.mp h
      exact ⟨before, after, rfl, hf, rfl⟩

/-- The queue of one session is as long as its names. -/
theorem named_set {session : Nat} {after : Channel} {queue : List Bytes} (hnamed : Named c)
    (h : queue.length = after.session.send_queue_.length) :
    (c.names.set session queue).map List.length
      = (c.system.channels.set session after).map
          fun channel => channel.session.send_queue_.length := by
  rw [List.map_set, List.map_set, hnamed, h]

/-- What a runner has taken is counted under the name that comes first. -/
theorem countTaken_books {before after : Framing.SendSession} {name : Bytes}
    {owed : List Bytes} {Send : List Bytes → Bool}
    (hstep : Framing.sendStep Send before .dequeue = some after)
    (h : Books us p (name :: owed)) :
    ∃ us' s, p.countTaken before after name = some { p with msg_stats_ := s }
      ∧ Books us' { p with msg_stats_ := s } owed := by
  obtain ⟨m, rest, hq, -, hcases⟩ := dequeue_cases hstep
  unfold Process.countTaken
  rcases hcases with ⟨reason, hdrops, hnum⟩ | ⟨hdrops, hnum⟩
  · have hreason : (Process.dropReason reason).Drops := by
      cases reason <;> exact drops_of_counter rfl
    obtain ⟨us', s, hs, hbooks⟩ := h.fail hreason
    refine ⟨us', s, ?_, hbooks⟩
    have hno : ¬ before.num_send_msg < after.num_send_msg := by omega
    rw [hdrops, List.drop_left, hq, List.foldlM_cons, hs]
    exact if_neg hno
  · obtain ⟨us', s, hs, hbooks⟩ := h.sent (BitVec.ofNat 64 (Process.messageLength m))
    refine ⟨us', s, ?_, hbooks⟩
    have hyes : before.num_send_msg < after.num_send_msg := by omega
    rw [hdrops, List.drop_length, hq, List.foldlM_nil]
    exact (if_pos hyes).trans hs

/-- A runner takes a message. -/
theorem taken_balanced {session : Nat} {sys' : Delivery.System T} (hc : p.client_ = some c)
    (h : Books us p p.waiting) (hnamed : Named c)
    (hdel : ∃ asked fates, Delivering asked fates sys')
    (hat : c.system.at_ session (fun ch => ch.act (send session) .dequeue) = some sys') :
    ∃ p', p.taken c session sys' = some p' ∧ Balanced p' := by
  obtain ⟨before, after, hbefore, hact, rfl⟩ := at_cases hat
  obtain ⟨s', hstep, rfl⟩ := Option.map_eq_some_iff.mp hact
  obtain ⟨m, rest, hq, hrest, -⟩ := dequeue_cases hstep
  have hlen : (c.names.map List.length)[session]?
      = some before.session.send_queue_.length := by
    rw [hnamed, List.getElem?_map, hbefore]
    rfl
  rw [List.getElem?_map] at hlen
  obtain ⟨queue, hqueue, hlen⟩ := Option.map_eq_some_iff.mp hlen
  rw [hq] at hlen
  cases queue with
  | nil => cases hlen
  | cons name queue =>
      have hlen : queue.length = rest.length := Nat.succ.inj hlen
      have hafter : (c.system.channels.set session { before with session := s' })[session]?
          = some { before with session := s' } :=
        List.getElem?_set_self (List.getElem?_eq_some_iff.mp hbefore).choose
      have hwaiting : p.waiting = (c.system.sm.work_queue_.filterMap Event.send).map Snh.Name
          ++ c.names.flatten := by
        rw [Process.waiting, hc]
        rfl
      rw [hwaiting] at h
      have howed : Books us { p with
          client_ := some { c with
            system := { c.system with
              channels := c.system.channels.set session { before with session := s' } }
            names := c.names.set session queue } }
          (name :: ((c.system.sm.work_queue_.filterMap Event.send).map Snh.Name
            ++ (c.names.set session queue).flatten)) :=
        (h.perm (((perm_set_tail hqueue).append_left _).trans List.perm_middle)).same rfl rfl
      obtain ⟨us', s, hs, hbooks⟩ := countTaken_books hstep howed
      refine ⟨_, ?_, ⟨us', hbooks⟩, ?_⟩
      · unfold Process.taken
        rw [hbefore, hafter, hqueue]
        exact hs
      · intro c' hc'
        obtain rfl := Option.some.inj hc'
        exact ⟨named_set hnamed (hlen.trans (congrArg List.length hrest).symm), hdel⟩

end Client

-- ============================================================== a step

variable {p p' : Process T}

/-- A step of the client's that puts nothing on a send queue and takes
nothing off. -/
theorem quiet_balanced {c : SandeshClient T} {system : Delivery.System T}
    (hc : p.client_ = some c) (h : Balanced p)
    (hsm : system.sm = c.system.sm) (hdel : ∃ asked fates, Delivering asked fates system)
    (hqueues : (system.channels.map fun channel => channel.session.send_queue_.length)
      = c.system.channels.map fun channel => channel.session.send_queue_.length) :
    Balanced { p with client_ := some { c with system := system } } := by
  obtain ⟨us, hbooks⟩ := h.books
  refine ⟨⟨us, ?_⟩, ?_⟩
  · have hwaiting : p.waiting
        = Process.waiting { p with client_ := some { c with system := system } } := by
      unfold Process.waiting SandeshClient.waiting
      rw [hc]
      show _ = (system.sm.work_queue_.filterMap Event.send).map Snh.Name ++ c.names.flatten
      rw [hsm]
      rfl
    rw [← hwaiting]
    exact hbooks.same rfl rfl
  · intro c' hc'
    obtain rfl := Option.some.inj hc'
    exact ⟨(h.client c hc).1.trans hqueues.symm, hdel⟩

/-- A step of a channel that leaves its queue alone. -/
theorem quiet_queues {sys sys' : Delivery.System T} {session : Nat}
    {f : Channel → Option Channel}
    (hf : ∀ {before after}, f before = some after →
      after.session.send_queue_ = before.session.send_queue_)
    (h : sys.at_ session f = some sys') :
    sys'.sm = sys.sm
      ∧ (sys'.channels.map fun channel => channel.session.send_queue_.length)
        = sys.channels.map fun channel => channel.session.send_queue_.length := by
  obtain ⟨before, after, hbefore, hafter, rfl⟩ := at_cases h
  refine ⟨rfl, ?_⟩
  obtain ⟨hlt, hget⟩ := List.getElem?_eq_some_iff.mp hbefore
  show (sys.channels.set session after).map _ = _
  rw [List.map_set, hf hafter, ← hget]
  refine Eq.trans ?_ (List.set_getElem_self (i := session) (by simpa using hlt))
  rw [List.getElem_map]

/-- Everything that happens to the client: the counting stops nothing. -/
theorem clientStep_balanced {c : SandeshClient T} {system : Delivery.System T}
    {a : Delivery.Action} (h : Balanced p) (hc : p.client_ = some c)
    (hsystem : Delivery.step memory send c.system a = some system)
    (ha : ∀ snh sandesh, a ≠ .SendSandesh snh sandesh) :
    ∃ p', p.clientStep memory send a = some p' ∧ Balanced p' := by
  obtain ⟨hnamed, asked, fates, hdel⟩ := h.client c hc
  obtain ⟨us, hbooks⟩ := h.books
  have hdel' := step_delivering hdel hsystem
  have hquiet : ∀ {session : Nat} {f : Channel → Option Channel},
      (∀ {before after}, f before = some after →
        after.session.send_queue_ = before.session.send_queue_) →
      c.system.at_ session f = some system →
      Balanced { p with client_ := some { c with system := system } } := by
    intro session f hf hat
    obtain ⟨hsm, hqueues⟩ := quiet_queues hf hat
    exact quiet_balanced hc h hsm hdel' hqueues
  have hact : ∀ {session : Nat} {b : Framing.SendAction}, b = .establish ∨ b = .close →
      c.system.at_ session (fun ch => ch.act (send session) b) = some system →
      Balanced { p with client_ := some { c with system := system } } := by
    intro session b hb hat
    refine hquiet (fun {before after} hafter => ?_) hat
    obtain ⟨s', hs', rfl⟩ := Option.map_eq_some_iff.mp hafter
    rcases hb with rfl | rfl
    · cases hs'
      rfl
    · cases hs'
      rfl
  unfold Process.clientStep
  rw [hc, Option.bind_eq_bind, Option.bind_some, hsystem, Option.bind_eq_bind, Option.bind_some]
  cases a with
  | SendSandesh snh sandesh => exact absurd rfl (ha snh sandesh)
  | client b =>
      cases b with
      | SendSandesh snh => cases hsystem
      | _ =>
          simp only [Delivery.step] at hsystem
          obtain ⟨sm, hsm, rfl⟩ := Option.map_eq_some_iff.mp hsystem
          exact follow_balanced hc hbooks hnamed hdel rfl hsm
  | runner session => exact taken_balanced hc hbooks hnamed hdel' hsystem
  | established session => exact ⟨_, rfl, hact (.inl rfl) hsystem⟩
  | closed session => exact ⟨_, rfl, hact (.inr rfl) hsystem⟩
  | arrive session n =>
      refine ⟨_, rfl, hquiet (fun {before after} hafter => ?_) hsystem⟩
      obtain rfl := Option.some.inj hafter
      rfl

/-- Every step keeps the books. -/
theorem step_balanced {a : Action} (h : Balanced p) (hstep : step memory send p a = some p') :
    Balanced p' := by
  obtain ⟨us, hbooks⟩ := id h.books
  cases a with
  | set_flags flags =>
      obtain rfl := Option.some.inj hstep
      exact ⟨⟨us, hbooks.same rfl rfl⟩, h.client⟩
  | set_send_rate_limit rate_limit =>
      obtain rfl := Option.some.inj hstep
      exact ⟨⟨us, hbooks.same rfl rfl⟩, h.client⟩
  | ConnectToCollector index =>
      simp only [step] at hstep
      cases hc : p.client_ with
      | some c =>
          rw [hc] at hstep
          cases hstep
      | none =>
          rw [hc] at hstep
          obtain rfl := Option.some.inj hstep
          have hwaiting : p.waiting = [] := by
            rw [Process.waiting, hc]
            rfl
          rw [hwaiting] at hbooks
          refine ⟨⟨us, hbooks.same rfl rfl⟩, ?_⟩
          intro c' hc'
          obtain rfl := Option.some.inj hc'
          exact ⟨rfl, [], [], delivering_new T index⟩
  | SetSendingLevel session level =>
      obtain ⟨c, hc, rfl⟩ := Option.map_eq_some_iff.mp hstep
      have hwaiting : p.waiting = Process.waiting { p with
          client_ := some { c with
            sending_level_ := Function.update c.sending_level_ session level } } := by
        rw [Process.waiting, hc]
        rfl
      refine ⟨⟨us, hwaiting ▸ hbooks.same rfl rfl⟩, ?_⟩
      intro c' hc'
      obtain rfl := Option.some.inj hc'
      exact h.client c hc
  | Send m t =>
      obtain ⟨p₁, hp₁, hbalanced⟩ := send_balanced h m t
      obtain rfl : p₁ = p' := Option.some.inj (hp₁.symm.trans hstep)
      exact hbalanced
  | DispatchUVE name sandesh =>
      obtain ⟨p₁, hp₁, hbalanced⟩ := dispatchUVE_balanced h name sandesh
      obtain rfl : p₁ = p' := Option.some.inj (hp₁.symm.trans hstep)
      exact hbalanced
  | client a =>
      obtain ⟨c, hc, hrest⟩ := Option.bind_eq_some_iff.mp hstep
      obtain ⟨system, hsystem, hrest⟩ := Option.bind_eq_some_iff.mp hrest
      have ha : ∀ snh sandesh, a ≠ .SendSandesh snh sandesh := by
        rintro snh sandesh rfl
        cases hrest
      obtain ⟨p₁, hp₁, hbalanced⟩ := clientStep_balanced h hc hsystem ha
      obtain rfl : p₁ = p' := Option.some.inj (hp₁.symm.trans hstep)
      exact hbalanced

-- =========================================================== counters

/-- What was to be sent is sent, dropped or waiting. The statistics say so
for each name and altogether, and the counters of the reasons add up. -/
structure AddsUp (p : Process T) : Prop where
  types : ∀ name, (Cpp.view p.msg_stats_).stats name (.messages .sent)
      + (Cpp.view p.msg_stats_).stats name (.messages .sent_dropped)
      + (p.waiting.count name : U64) = (p.requests.count name : U64)
  agg : (Cpp.view p.msg_stats_).agg (.messages .sent)
      + (Cpp.view p.msg_stats_).agg (.messages .sent_dropped)
      + (p.waiting.length : U64) = (p.requests.length : U64)
  reasons : ∀ name, AddUpTo .sent_dropped txCounters ((Cpp.view p.msg_stats_).stats name)

variable (memory send) in
/-- The counting stops nothing: every message is taken, and what the client
can do it does. -/
structure GoesOn (p : Process T) : Prop where
  sends : ∀ m t, ∃ p', p.Send m t = some p'
  dispatches : ∀ name sandesh, ∃ p', p.DispatchUVE name sandesh = some p'
  client : ∀ c a system, p.client_ = some c →
    Delivery.step memory send c.system a = some system →
    (∀ snh sandesh, a ≠ .SendSandesh snh sandesh) →
    ∃ p', step memory send p (.client a) = some p'

/-- Every update adds one. -/
theorem total_tx {us : List Update}
    (h : ∀ u ∈ us, u.worth (.messages .sent) + u.worth (.messages .sent_dropped) = 1) :
    total Update.worth64 us (.messages .sent) + total Update.worth64 us (.messages .sent_dropped)
      = (us.length : U64) := by
  induction us with
  | nil => rfl
  | cons u us ih =>
      obtain ⟨hu, hus⟩ := List.forall_mem_cons.mp h
      have hone : u.worth64 (.messages .sent) + u.worth64 (.messages .sent_dropped) = 1 := by
        show ((u.worth (.messages .sent) : Int) : U64)
          + (u.worth (.messages .sent_dropped) : Int) = 1
        rw [← Int.cast_add, hu, Int.cast_one]
      rw [total_cons, Pi.add_apply, Pi.add_apply, add_add_add_comm, hone, ih hus,
        List.length_cons, Nat.cast_succ, add_comm]

/-- Balanced books add up. -/
theorem Balanced.addsUp (h : Balanced p) : AddsUp p := by
  obtain ⟨us, hstats, hnames, htx⟩ := h.books
  obtain ⟨s, hs, htypes, hagg⟩ := Cpp.run_eq us
  obtain rfl : p.msg_stats_ = s := Option.some.inj (hstats.symm.trans hs)
  have hbucket : ∀ name, (Cpp.view p.msg_stats_).stats name
      = total Update.worth64 (inBucket Update.msg_name us name) := by
    intro name
    show (p.msg_stats_.type_stats.lookup name).getD 0 = _
    rw [htypes name]
    split
    · rename_i hnil
      rw [hnil]
      rfl
    · rfl
  have hcount : ∀ name, (inBucket Update.msg_name us name).length
      = (us.map Update.msg_name).count name := by
    intro name
    rw [inBucket, List.count_eq_length_filter, List.filter_map, List.length_map]
    congr 2
    funext u
    exact (beq_eq_decide _ _).symm
  refine ⟨fun name => ?_, ?_, fun name => ?_⟩
  · have hin : ∀ u ∈ inBucket Update.msg_name us name,
        u.worth (.messages .sent) + u.worth (.messages .sent_dropped) = 1 :=
      fun u hu => htx u (List.mem_of_mem_filter hu)
    rw [hbucket, total_tx hin, hcount, ← Nat.cast_add, ← List.count_append,
      hnames.count_eq name]
  · have hlen : us.length = (us.map Update.msg_name).length := (List.length_map _).symm
    show p.msg_stats_.agg_stats (.messages .sent) + p.msg_stats_.agg_stats (.messages .sent_dropped)
      + _ = _
    rw [hagg, total_tx htx, ← Nat.cast_add, hlen, ← List.length_append,
      hnames.length_eq]
  · rw [hbucket]
    exact (DropsAddUp.total Update.worth64_drops _).sent

/-- And the process goes on. -/
theorem Balanced.goesOn (h : Balanced p) : GoesOn memory send p where
  sends m t := (send_balanced h m t).imp fun _ => And.left
  dispatches name sandesh := (dispatchUVE_balanced h name sandesh).imp fun _ => And.left
  client _ _ _ hc hsystem ha := (clientStep_balanced h hc hsystem ha).imp fun _ => And.left

/-- A new process owes nothing. -/
theorem new_balanced (flags : Flags) (send_rate_limit : Nat) (capacity : Bytes → Nat) :
    Balanced (Process.new flags send_rate_limit capacity : Process T) := by
  refine ⟨⟨[], rfl, .nil, ?_⟩, ?_⟩
  · intro u hu
    cases hu
  · intro c hc
    cases hc

/-- Whatever happens, every message that was to be sent is counted once as
sent or as dropped, or still waits on a queue; and the counting never gets
in the way. -/
theorem sends_counted (T : Timers) (memory : Nat → Memory) (send : Nat → List Bytes → Bool)
    (flags : Flags) (send_rate_limit : Nat) (capacity : Bytes → Nat) (as : List Action) :
    (machine T memory send).Each (fun _ _ p => AddsUp p ∧ GoesOn memory send p)
      (.new flags send_rate_limit capacity) as := by
  refine Machine.each_keeps (I := Balanced) ?_ as (new_balanced flags send_rate_limit capacity)
  intro p a p' h hstep
  have h' := step_balanced h hstep
  exact ⟨h', h'.addsUp, h'.goesOn⟩

end Sandesh.Sender
