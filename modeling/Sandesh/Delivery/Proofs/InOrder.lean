/-
What the collectors receive is what was submitted, with gaps.

A message leaves the work queue of the state machine as the next one of
`submitted`, and where it is put on a session, that is the newest one
(`ClientSM.Proofs.Sends`). So what was put on the sessions, session by
session, is a part of what was submitted, in order (`Delivering.in_order`);
and what each collector is handed is a front part of what its session
could write (`Carries.reads`).
-/
import Mathlib.Data.List.Forall2
import Sandesh.ClientSM.Proofs.Sends
import Sandesh.Delivery.Proofs.Channel

namespace Sandesh.Delivery

open Lib Framing ClientSM

variable {T : Timers}

-- ==================================================== the state machine

/-- The messages that have been taken off the work queue. -/
def processed (sm : SandeshClientSMImpl T) : Nat := sm.sent.length + sm.released.length

theorem processed_eq {asked : List Snh} {fates : List Fate}
    {sm : SandeshClientSMImpl T} {created : Nat}
    (h : Accounted asked fates sm.mail created) : processed sm = fates.length := by
  have hsent : sm.sent = fates.filterMap Fate.sent := h.sent_eq
  have hreleased : sm.released = fates.filterMap Fate.released := h.released_eq
  rw [processed, hsent, hreleased]
  clear h hsent hreleased
  induction fates with
  | nil => rfl
  | cons f fates ih =>
      obtain ⟨snh, session⟩ := f
      cases session with
      | none =>
          have hsent : Fate.sent (snh, none) = none := rfl
          have hreleased : Fate.released (snh, none) = some snh := rfl
          rw [List.filterMap_cons_none hsent, List.filterMap_cons_some hreleased,
            List.length_cons, ← Nat.add_assoc, ih, List.length_cons]
      | some k =>
          have hsent : Fate.sent (snh, some k) = some (k, snh) := rfl
          have hreleased : Fate.released (snh, some k) = none := rfl
          rw [List.filterMap_cons_some hsent, List.filterMap_cons_none hreleased,
            List.length_cons, Nat.add_right_comm, ih, List.length_cons]

/-- What a step does to the messages that have been taken off. -/
inductive Takes (sm sm' : SandeshClientSMImpl T) : Prop
  | kept (h : sm'.sent = sm.sent) (hle : processed sm ≤ processed sm')
  | sent (session : Nat) (snh : Snh) (h : sm'.sent = sm.sent ++ [(session, snh)])
      (hsession : sm.session_ = some session) (hone : processed sm' = processed sm + 1)
      (hpending : 0 < sm.mail.pending.length)

theorem step_takes {sm sm' : SandeshClientSMImpl T} {a : ClientSM.Action}
    (h : ClientSM.step sm a = some sm') : Takes sm sm' := by
  rcases step_posts h with ⟨hmail, -⟩ | ⟨ans, event, rest, -, hq, hposts⟩
  · have hsent : sm'.sent = sm.sent := congrArg Mail.sent hmail
    have hreleased : sm'.released = sm.released := congrArg Mail.released hmail
    refine .kept hsent ?_
    rw [processed, processed, hsent, hreleased]
  · cases hm : sm'.mail with
    | mk pending sent released =>
        have hsent : sm'.sent = sent := congrArg Mail.sent hm
        have hreleased : sm'.released = released := congrArg Mail.released hm
        rw [hm] at hposts
        cases hposts with
        | other _ =>
            refine .kept hsent ?_
            rw [processed, processed, hsent, hreleased]
        | released snh =>
            refine .kept hsent ?_
            rw [processed, processed, hsent, hreleased, List.length_append]
            exact Nat.add_le_add_left (Nat.le_add_right _ _) _
        | @sent snh session hsession huve =>
            refine .sent session snh hsent hsession ?_ ?_
            · rw [processed, processed, hsent, hreleased, List.length_append,
                List.length_singleton]
              exact Nat.add_right_comm _ _ _
            · show 0 < (sm.work_queue_.filterMap Event.send).length
              rw [hq]
              exact Nat.succ_pos _

-- ========================================================= the sessions

theorem modify_middle {α : Type} (f : α → α) (a : α) (l₂ : List α) :
    ∀ l₁ : List α, (l₁ ++ a :: l₂).modify l₁.length f = l₁ ++ f a :: l₂ := by
  intro l₁
  induction l₁ with
  | nil => rfl
  | cons x l₁ ih => exact congrArg (x :: ·) ih

/-- A message goes to the last of the sessions there were. -/
theorem exists_post {cs : List Channel} {session : Nat} (hlast : session + 1 = cs.length)
    (cs' : List Channel) (m : Framing.Message) :
    ∃ init c, cs = init ++ [c] ∧ init.length = session
      ∧ (cs ++ cs').modify session (fun c => c.post m) = init ++ c.post m :: cs' := by
  have hne : cs ≠ [] := by
    intro hnil
    rw [hnil] at hlast
    cases hlast
  obtain ⟨init, c, rfl⟩ : ∃ init c, cs = init ++ [c] :=
    ⟨_, _, (List.dropLast_concat_getLast hne).symm⟩
  have hinit : init.length = session := by
    rw [List.length_append, List.length_singleton] at hlast
    exact (Nat.succ.inj hlast).symm
  refine ⟨init, c, rfl, hinit, ?_⟩
  rw [← hinit, List.append_assoc]
  exact modify_middle _ c cs' init

/-- What has been submitted, put on sessions and read. -/
structure Delivering (asked : List Snh) (fates : List Fate) (sys : System T) : Prop where
  newest : sys.sm.view.Newest
  accounted : Accounted asked fates sys.sm.mail sys.sm.created
  asked_length : asked.length = sys.submitted.length
  channels_length : sys.channels.length = sys.sm.created
  carries : ∀ c ∈ sys.channels, ∃ taken ps b, Carries taken ps b c
  in_order : (sys.channels.flatMap Channel.posted).Sublist
    (sys.submitted.take (processed sys.sm))
  posted_length : (sys.channels.flatMap Channel.posted).length = sys.sm.sent.length

theorem delivering_new (T : Timers) (index : Nat) :
    Delivering [] [] (System.new T index) where
  newest := newest_none rfl
  accounted := ⟨rfl, rfl, rfl, List.Pairwise.nil,
    by simp [SandeshClientSMImpl.mail, SandeshClientSMImpl.new, System.new]⟩
  asked_length := rfl
  channels_length := rfl
  carries := by simp [System.new]
  in_order := List.Sublist.refl []
  posted_length := rfl

section Steps

variable {memory : Nat → Memory} {Send : Nat → List Bytes → Bool}
  {asked : List Snh} {fates : List Fate} {sys sys' : System T}

theorem opened_posted {sm : SandeshClientSMImpl T} {c : Channel}
    (h : c ∈ sys.opened memory sm) : c.posted = [] ∧ Carries [] [] ⟨[], []⟩ c := by
  obtain ⟨session, -, rfl⟩ := List.mem_map.mp h
  exact ⟨rfl, carries_new (memory session)⟩

theorem flatMap_opened (sm : SandeshClientSMImpl T) :
    (sys.opened memory sm).flatMap Channel.posted = [] := by
  rw [List.flatMap_eq_nil_iff]
  intro c hc
  exact (opened_posted hc).1

variable (memory) in
theorem opened_length {sm : SandeshClientSMImpl T} (h : sys.sm.created ≤ sm.created)
    (hlen : sys.channels.length = sys.sm.created) :
    (sys.channels ++ sys.opened memory sm).length = sm.created := by
  rw [List.length_append, System.opened, List.length_map, List.length_range', hlen]
  omega

variable (memory) in
/-- A step of the state machine that puts no message on a session. -/
theorem channels_kept {sm : SandeshClientSMImpl T} (hsent : sm.sent = sys.sm.sent) :
    (sys.follow memory sm).channels = sys.channels ++ sys.opened memory sm := by
  rw [System.follow, System.postings, hsent, List.drop_length]
  rfl

theorem follow_kept {sm : SandeshClientSMImpl T} {fates' : List Fate}
    (h : Delivering asked fates sys) (hnew : sm.view.Newest)
    (hcreated : sys.sm.created ≤ sm.created)
    (hacc : Accounted asked fates' sm.mail sm.created) (hsent : sm.sent = sys.sm.sent)
    (hle : processed sys.sm ≤ processed sm) :
    Delivering asked fates' (sys.follow memory sm) := by
  have hchannels := channels_kept memory hsent
  refine ⟨hnew, hacc, h.asked_length, ?_, ?_, ?_, ?_⟩
  · rw [hchannels]
    exact opened_length memory hcreated h.channels_length
  · intro c hc
    rw [hchannels] at hc
    rcases List.mem_append.mp hc with hold | hopened
    · exact h.carries c hold
    · exact ⟨_, _, _, (opened_posted hopened).2⟩
  · rw [hchannels, List.flatMap_append, flatMap_opened, List.append_nil]
    exact h.in_order.trans (List.take_sublist_take_left hle)
  · show ((sys.follow memory sm).channels.flatMap Channel.posted).length = sm.sent.length
    rw [hchannels, List.flatMap_append, flatMap_opened, List.append_nil, hsent]
    exact h.posted_length

variable (memory) in
/-- A step that puts the next message on the current session, which is the
newest. -/
theorem channels_sent {sm : SandeshClientSMImpl T} {session : Nat} {snh : Snh}
    (h : Delivering asked fates sys) (hsent : sm.sent = sys.sm.sent ++ [(session, snh)])
    (hsession : sys.sm.session_ = some session) (hpending : 0 < sys.sm.mail.pending.length) :
    ∃ init c m, sys.channels = init ++ [c] ∧ init.length = session
      ∧ sys.submitted[processed sys.sm]? = some m
      ∧ (sys.follow memory sm).channels = init ++ (c.post m :: sys.opened memory sm) := by
  have hnext : processed sys.sm < sys.submitted.length := by
    rw [← h.asked_length, h.accounted.asked_eq, processed_eq h.accounted,
      List.length_append, List.length_map]
    omega
  obtain ⟨m, hm⟩ : ∃ m, sys.submitted[processed sys.sm]? = some m :=
    ⟨_, List.getElem?_eq_getElem hnext⟩
  have hlast : session + 1 = sys.channels.length := by
    rw [h.channels_length]
    exact h.newest session hsession
  obtain ⟨init, c, hcs, hinit, hpost⟩ := exists_post hlast (sys.opened memory sm) m
  refine ⟨init, c, m, hcs, hinit, hm, ?_⟩
  have hdrop : sys.submitted.drop (processed sys.sm)
      = m :: sys.submitted.drop (processed sys.sm + 1) := by
    obtain ⟨hlt, hget⟩ := List.getElem?_eq_some_iff.mp hm
    rw [List.drop_eq_getElem_cons hlt, hget]
  rw [System.follow, System.postings, hsent, List.drop_left, ← processed, hdrop]
  exact hpost

theorem follow_sent {sm : SandeshClientSMImpl T} {fates' : List Fate} {session : Nat}
    {snh : Snh} (h : Delivering asked fates sys) (hnew : sm.view.Newest)
    (hcreated : sys.sm.created ≤ sm.created)
    (hacc : Accounted asked fates' sm.mail sm.created)
    (hsent : sm.sent = sys.sm.sent ++ [(session, snh)])
    (hsession : sys.sm.session_ = some session)
    (hone : processed sm = processed sys.sm + 1)
    (hpending : 0 < sys.sm.mail.pending.length) :
    Delivering asked fates' (sys.follow memory sm) := by
  obtain ⟨init, c, m, hcs, -, hm, hchannels⟩ :=
    channels_sent memory h hsent hsession hpending
  have hall : (sys.follow memory sm).channels.flatMap Channel.posted
      = sys.channels.flatMap Channel.posted ++ [m] := by
    rw [hchannels, hcs, List.flatMap_append, List.flatMap_cons, flatMap_opened,
      List.append_nil, List.flatMap_append, List.flatMap_singleton, List.append_assoc]
    rfl
  refine ⟨hnew, hacc, h.asked_length, ?_, ?_, ?_, ?_⟩
  · have hlen := opened_length memory hcreated h.channels_length
    rw [hcs] at hlen
    rw [hchannels]
    refine Eq.trans ?_ hlen
    simp
  · intro c' hc'
    rw [hchannels] at hc'
    rcases List.mem_append.mp hc' with hmem | hmem
    · exact h.carries c' (hcs ▸ List.mem_append_left _ hmem)
    · rcases List.mem_cons.mp hmem with rfl | hmem
      · obtain ⟨taken, ps, b, hcarries⟩ :=
          h.carries c (hcs ▸ List.mem_append_right _ List.mem_cons_self)
        exact ⟨taken, ps, b, carries_post hcarries m⟩
      · exact ⟨_, _, _, (opened_posted hmem).2⟩
  · have htake : sys.submitted.take (processed sys.sm + 1)
        = sys.submitted.take (processed sys.sm) ++ [m] := by
      rw [List.take_add_one, hm]
      rfl
    show ((sys.follow memory sm).channels.flatMap Channel.posted).Sublist
      (sys.submitted.take (processed sm))
    rw [hall, hone, htake]
    exact h.in_order.append (List.Sublist.refl [m])
  · show ((sys.follow memory sm).channels.flatMap Channel.posted).length = sm.sent.length
    rw [hall, hsent, List.length_append, h.posted_length, List.length_append]
    rfl

theorem client_delivering {a : ClientSM.Action} {sm : SandeshClientSMImpl T}
    (ha : a.send = none) (h : Delivering asked fates sys)
    (hstep : ClientSM.step sys.sm a = some sm) :
    ∃ fates', Delivering asked fates' (sys.follow memory sm) := by
  obtain ⟨hnew, hcreated⟩ := step_newest h.newest hstep
  obtain ⟨fates', hacc⟩ := step_accounted h.newest h.accounted hstep
  rw [ha, Option.toList_none, List.append_nil] at hacc
  refine ⟨fates', ?_⟩
  cases step_takes hstep with
  | kept hsent hle => exact follow_kept h hnew hcreated hacc hsent hle
  | sent session snh hsent hsession hone hpending =>
      exact follow_sent h hnew hcreated hacc hsent hsession hone hpending

/-- Something that happens to one session and posts nothing. -/
theorem at_delivering {session : Nat} {f : Channel → Option Channel}
    (hf : ∀ {c c' taken ps b}, Carries taken ps b c → f c = some c' →
      (∃ taken' ps' b', Carries taken' ps' b' c') ∧ c'.posted = c.posted)
    (h : Delivering asked fates sys) (hat : sys.at_ session f = some sys') :
    Delivering asked fates sys' := by
  unfold System.at_ at hat
  cases hc : sys.channels[session]? with
  | none =>
      rw [hc] at hat
      cases hat
  | some c =>
      rw [hc] at hat
      obtain ⟨c', hfc, rfl⟩ := Option.map_eq_some_iff.mp hat
      obtain ⟨hlt, hget⟩ := List.getElem?_eq_some_iff.mp hc
      obtain ⟨taken, ps, b, hcarries⟩ := h.carries c (List.mem_of_getElem? hc)
      obtain ⟨hcarries', hposted⟩ := hf hcarries hfc
      have hsame : (sys.channels.set session c').map Channel.posted
          = sys.channels.map Channel.posted := by
        rw [List.map_set, hposted, ← hget, ← List.getElem_map Channel.posted]
        exact List.set_getElem_self (by simpa using hlt)
      refine ⟨h.newest, h.accounted, h.asked_length, ?_, ?_, ?_, ?_⟩
      · rw [List.length_set]
        exact h.channels_length
      · intro d hd
        rcases List.mem_or_eq_of_mem_set hd with hold | rfl
        · exact h.carries d hold
        · exact hcarries'
      · show ((sys.channels.set session c').flatMap Channel.posted).Sublist _
        rw [List.flatMap_def, hsame, ← List.flatMap_def]
        exact h.in_order
      · show ((sys.channels.set session c').flatMap Channel.posted).length = _
        rw [List.flatMap_def, hsame, ← List.flatMap_def]
        exact h.posted_length

/-- One action. -/
theorem step_delivering {a : Action} (h : Delivering asked fates sys)
    (hstep : step memory Send sys a = some sys') :
    ∃ asked' fates', Delivering asked' fates' sys' := by
  have hact : ∀ (k : Nat) (b : SendAction), (∀ sandesh, b ≠ .Enqueue sandesh) →
      sys.at_ k (fun c => c.act (Send k) b) = some sys' →
      ∃ asked' fates', Delivering asked' fates' sys' := by
    intro k b hb hat
    refine ⟨asked, fates, at_delivering ?_ h hat⟩
    intro c c' taken ps b' hcarries hc
    exact carries_act hb hcarries hc
  cases a with
  | SendSandesh snh sandesh =>
      simp only [step] at hstep
      obtain ⟨sm, hsm, rfl⟩ := Option.map_eq_some_iff.mp hstep
      obtain ⟨hnew, hcreated⟩ := step_newest h.newest hsm
      injection hsm with hsm
      subst hsm
      refine ⟨asked ++ [snh], fates, hnew, ?_, ?_, h.channels_length, h.carries, ?_,
        h.posted_length⟩
      · refine { h.accounted with asked_eq := ?_ }
        show asked ++ [snh] = fates.map Prod.fst
          ++ (sys.sm.work_queue_ ++ [Event.EvSandeshSend snh]).filterMap Event.send
        rw [List.filterMap_append, ← List.append_assoc]
        exact congrArg (· ++ [snh]) h.accounted.asked_eq
      · rw [List.length_append, List.length_append, h.asked_length]
        rfl
      · refine h.in_order.trans ?_
        show (sys.submitted.take (processed sys.sm)).Sublist
          ((sys.submitted ++ [sandesh]).take (processed sys.sm))
        rw [List.take_append]
        exact List.sublist_append_left _ _
  | client b =>
      cases b with
      | SendSandesh snh => cases hstep
      | _ =>
          simp only [step] at hstep
          obtain ⟨sm, hsm, rfl⟩ := Option.map_eq_some_iff.mp hstep
          exact ⟨asked, client_delivering rfl h hsm⟩
  | established k => exact hact k .establish nofun hstep
  | closed k => exact hact k .close nofun hstep
  | runner k => exact hact k .dequeue nofun hstep
  | arrive k n =>
      refine ⟨asked, fates, at_delivering ?_ h hstep⟩
      intro c c' taken ps b hcarries hc
      injection hc with hc
      subst hc
      exact ⟨⟨taken, ps, b, carries_arrive hcarries n⟩, rfl⟩

end Steps

-- ================================================================ runs

/-- The collector of a session has been handed `msgs`. -/
structure Channel.Receives (c : Channel) (msgs : List Bytes) : Prop where
  reads : c.Reads msgs
  at_most : msgs.length ≤ c.session.num_send_msg
  all : c.Drained → msgs.length = c.session.num_send_msg

/-- Each session hands over a part of what was put on it. -/
theorem exists_received {channels : List Channel}
    (h : ∀ c ∈ channels, ∃ taken ps b, Carries taken ps b c) :
    ∃ received : List (List Bytes), List.Forall₂ Channel.Receives channels received
      ∧ received.flatten.Sublist
        ((channels.flatMap Channel.posted).filterMap payload) := by
  induction channels with
  | nil => exact ⟨[], .nil, List.Sublist.refl []⟩
  | cons c channels ih =>
      obtain ⟨taken, ps, b, hc⟩ := h c List.mem_cons_self
      obtain ⟨received, hall, hsub⟩ := ih fun d hd => h d (List.mem_cons_of_mem c hd)
      obtain ⟨done, hpre, hreads, hdrained⟩ := hc.reads
      refine ⟨done.map Payload.bytes :: received, .cons ⟨hreads, ?_, ?_⟩ hall, ?_⟩
      · rw [List.length_map, hc.count]
        exact hpre.length_le
      · intro hd
        rw [List.length_map, hc.count, hdrained hd]
      · rw [List.flatten_cons, List.flatMap_cons, List.filterMap_append]
        refine List.Sublist.append ?_ hsub
        have hfront : (done.map Payload.bytes).Sublist (ps.map Payload.bytes) :=
          (hpre.map Payload.bytes).sublist
        refine (hfront.trans hc.payloads).trans ?_
        rw [hc.posted_eq, List.filterMap_append]
        exact List.sublist_append_left _ _

/-- In every state of every run, the readers of the sessions, whatever TCP
has made of their bytes, have found nothing wrong and together, session
after session, have handed over a part of what was submitted, in order and
nothing twice; a session from which nothing is under way has delivered
everything it wrote; and every message submitted is on the work queue,
released, waiting in a session, dropped by one or written by one. -/
theorem delivered_in_order (T : Timers) (memory : Nat → Memory)
    (Send : Nat → List Bytes → Bool) (index : Nat) (as : List Action) :
    (machine T memory Send).Each
      (fun _ _ sys =>
        (∃ received : List (List Bytes),
          List.Forall₂ Channel.Receives sys.channels received
            ∧ received.flatten.Sublist (sys.submitted.filterMap payload))
          ∧ (∀ c ∈ sys.channels, c.session.num_send_msg + c.session.num_send_msg_fail
              + c.session.send_queue_.length = c.posted.length)
          ∧ (sys.channels.flatMap Channel.posted).length + sys.sm.released.length
              + (sys.sm.work_queue_.filterMap Event.send).length
            = sys.submitted.length)
      (System.new T index) as := by
  refine Machine.each_keeps
    (I := fun sys => ∃ asked fates, Delivering asked fates sys) ?_ as
    ⟨[], [], delivering_new T index⟩
  intro sys a sys' hdel hstep
  obtain ⟨asked₀, fates₀, hdel⟩ := hdel
  obtain ⟨asked, fates, h⟩ := step_delivering hdel hstep
  refine ⟨⟨asked, fates, h⟩, ?_, ?_, ?_⟩
  · obtain ⟨received, hall, hsub⟩ := exists_received h.carries
    refine ⟨received, hall, hsub.trans ?_⟩
    exact (h.in_order.trans (List.take_sublist _ _)).filterMap payload
  · intro c hc
    obtain ⟨taken, ps, b, hcarries⟩ := h.carries c hc
    rw [hcarries.fails, hcarries.posted_eq, List.length_append]
  · have hpending : sys'.sm.mail.pending
        = sys'.sm.work_queue_.filterMap Event.send := rfl
    rw [h.posted_length, ← processed, processed_eq h.accounted, ← hpending,
      ← h.asked_length, h.accounted.asked_eq, List.length_append, List.length_map]

end Sandesh.Delivery
