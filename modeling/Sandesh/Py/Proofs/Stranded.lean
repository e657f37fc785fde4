/-
What is left in the batch buffer, in both writers.

A writer keeps encoded messages back as long as more are queued, and
relies on the last of them to take everything along. The last message is
also the one that may fail to encode, and both writers return before they
look at the buffer then. So nothing is stranded exactly when a last
message that cannot be encoded finds nothing pending (`stranded_iff`).
-/
import Sandesh.Framing.Proofs.Send
import Sandesh.Framing.Send
import Sandesh.Py.Session

namespace Sandesh

open Lib

-- ================================================================= C++

namespace Framing

variable {Send : List Bytes → Bool}

/-- Both writes of the message succeed. -/
def Message.Encodes (m : Message) : Prop :=
  m.header.isSome = true ∧ m.body.isSome = true

/-- The message an established session takes off its queue, if it is the
last there. -/
def lastMessage (s : SendSession) : SendAction → Option Message
  | .dequeue =>
      match s.established, s.send_queue_ with
      | true, [m] => some m
      | _, _ => none
  | _ => none

theorem lastMessage_eq {s : SendSession} {a : SendAction} {m : Message}
    (h : lastMessage s a = some m) :
    a = .dequeue ∧ s.established = true ∧ s.send_queue_ = [m] := by
  cases a with
  | dequeue =>
      simp only [lastMessage] at h
      split at h
      · injection h with h
        subst h
        exact ⟨rfl, ‹_›, ‹_›⟩
      · cases h
  | _ => cases h

section Last

variable {s s' : SendSession} {a : SendAction} {m : Message}

/-- The last message of an established session. -/
theorem sendStep_last (hstep : sendStep Send s a = some s')
    (hlast : lastMessage s a = some m) :
    { s with send_queue_ := [] }.writerSendMsg Send m false = some s' := by
  obtain ⟨rfl, hest, hq⟩ := lastMessage_eq hlast
  simp only [sendStep, hq, SendSession.SendMsg] at hstep
  rwa [if_pos hest] at hstep

theorem sendStep_sends (hstep : sendStep Send s a = some s')
    (hlast : lastMessage s a = some m) (henc : m.Encodes) :
    s'.writer_.send_buf_offset_ = 0 := by
  have hsend := sendStep_last hstep hlast
  obtain ⟨header, hheader⟩ := Option.isSome_iff_exists.mp henc.1
  obtain ⟨body, hbody⟩ := Option.isSome_iff_exists.mp henc.2
  simp only [SendSession.writerSendMsg, hheader, hbody] at hsend
  split at hsend
  · cases hsend
  · simp only [SandeshWriter.SendMsg, Bool.false_eq_true, if_false] at hsend
    injection hsend with hsend
    subst hsend
    exact sendMsgAll_offset Send _ _

theorem sendStep_skips (hstep : sendStep Send s a = some s')
    (hlast : lastMessage s a = some m) (henc : ¬ m.Encodes) :
    s'.writer_.send_buf_offset_ = s.writer_.send_buf_offset_ := by
  have hsend := sendStep_last hstep hlast
  unfold SendSession.writerSendMsg at hsend
  cases hheader : m.header with
  | none =>
      rw [hheader] at hsend
      injection hsend with hsend
      subst hsend
      rfl
  | some header =>
      cases hbody : m.body with
      | none =>
          rw [hheader, hbody] at hsend
          injection hsend with hsend
          subst hsend
          rfl
      | some body => exact absurd ⟨by rw [hheader]; rfl, by rw [hbody]; rfl⟩ henc

end Last

/-- `send_buf_offset_` is 0. -/
def Unbuffered (s : SendSession) : Prop := s.writer_.send_buf_offset_ = 0

end Framing

-- ============================================================== Python

namespace Py.Session

/-- Both writes of the message succeed. -/
def Message.Encodes (m : Message) : Prop :=
  m.header.isSome = true ∧ m.body.isSome = true

/-- The message a connected session takes off its queue, if it is the
last there. -/
def lastMessage (s : SandeshSession) : Action → Option Message
  | .dequeue _ =>
      match s.connected, s.send_queue with
      | true, [m] => some m
      | _, _ => none
  | _ => none

theorem lastMessage_eq {s : SandeshSession} {a : Action} {m : Message}
    (h : lastMessage s a = some m) :
    (∃ accepts, a = .dequeue accepts) ∧ s.connected = true
      ∧ s.send_queue = [m] := by
  cases a with
  | dequeue accepts =>
      simp only [lastMessage] at h
      split at h
      · injection h with h
        subst h
        exact ⟨⟨accepts, rfl⟩, ‹_›, ‹_›⟩
      · cases h
  | _ => cases h

/-- `_send_buf_cache` is `''`. -/
def Unbuffered (s : SandeshSession) : Prop := s.send_buf_cache = []

section Last

variable {s s' : SandeshSession} {a : Action} {m : Message}

theorem step_last (hstep : step s a = some s')
    (hlast : lastMessage s a = some m) :
    ∃ accepts,
      s' = ({ s with send_queue := [] }.send_msg accepts m false).2 := by
  obtain ⟨⟨accepts, rfl⟩, hcon, hq⟩ := lastMessage_eq hlast
  simp only [step, hq, SandeshSession.send_sandesh] at hstep
  rw [if_pos hcon] at hstep
  exact ⟨accepts, (Option.some.inj hstep).symm⟩

theorem step_sends (hstep : step s a = some s')
    (hlast : lastMessage s a = some m) (henc : m.Encodes) :
    Unbuffered s' := by
  obtain ⟨accepts, rfl⟩ := step_last hstep hlast
  obtain ⟨header, hheader⟩ := Option.isSome_iff_exists.mp henc.1
  obtain ⟨body, hbody⟩ := Option.isSome_iff_exists.mp henc.2
  simp only [SandeshSession.send_msg, encode_sandesh, hheader, hbody]
  rfl

theorem step_skips (hstep : step s a = some s')
    (hlast : lastMessage s a = some m) (henc : ¬ m.Encodes) :
    Unbuffered s' ↔ Unbuffered s := by
  obtain ⟨accepts, rfl⟩ := step_last hstep hlast
  have hnone : encode_sandesh m = none := by
    unfold encode_sandesh
    cases hheader : m.header with
    | none => rfl
    | some header =>
        cases hbody : m.body with
        | none => rfl
        | some body =>
            exact absurd ⟨by rw [hheader]; rfl, by rw [hbody]; rfl⟩ henc
  simp only [SandeshSession.send_msg, hnone]
  exact Iff.rfl

end Last

end Py.Session

-- ============================================================== results

/-- In either writer the last message of a queue leaves nothing in the
buffer, along a run of an established session, exactly when it can be
encoded or finds nothing there. -/
theorem stranded_iff (Send : List Bytes → Bool)
    (memory : { m : Bytes // m.length = Framing.kDefaultSendSize })
    (as : List Framing.SendAction) (bs : List Py.Session.Action) :
    ((Framing.sending Send).Each
          (Machine.Drains Framing.lastMessage Framing.Unbuffered)
          (Framing.SendSession.new memory) as
        ↔ (Framing.sending Send).Each
          (fun s a _ => Machine.Flushes Framing.lastMessage Framing.Unbuffered
            Framing.Message.Encodes s a)
          (Framing.SendSession.new memory) as)
      ∧ (Py.Session.sending.Each
          (Machine.Drains Py.Session.lastMessage Py.Session.Unbuffered)
          Py.Session.SandeshSession.new bs
        ↔ Py.Session.sending.Each
          (fun s a _ => Machine.Flushes Py.Session.lastMessage
            Py.Session.Unbuffered Py.Session.Message.Encodes s a)
          Py.Session.SandeshSession.new bs) := by
  constructor
  · refine Machine.drains_iff_flushes ?_ ?_ _ as
    · exact fun hstep hlast henc => Framing.sendStep_sends hstep hlast henc
    · intro s a s' m hstep hlast henc
      unfold Framing.Unbuffered
      rw [Framing.sendStep_skips hstep hlast henc]
  · refine Machine.drains_iff_flushes ?_ ?_ _ bs
    · exact fun hstep hlast henc => Py.Session.step_sends hstep hlast henc
    · exact fun hstep hlast henc => Py.Session.step_skips hstep hlast henc

/-- Two messages are queued, and the second cannot be written. -/
def strandedRun : List Framing.SendAction :=
  [.establish, .Enqueue ⟨some (lit "h"), some (lit "b")⟩,
    .Enqueue ⟨some (lit "h"), none⟩, .dequeue]

/-- The same, in Python. -/
def strandedPyRun : List Py.Session.Action :=
  [.connect, .enqueue_sandesh ⟨some (lit "h"), some (lit "b")⟩,
    .enqueue_sandesh ⟨some (lit "h"), none⟩, .dequeue true]

theorem first_message_stranded :
    ¬ (Framing.sending fun _ => true).Each
        (Machine.Drains Framing.lastMessage Framing.Unbuffered)
        (Framing.SendSession.new
          ⟨List.replicate 16384 0, List.length_replicate⟩)
        (strandedRun ++ [.dequeue])
      ∧ ¬ Py.Session.sending.Each
        (Machine.Drains Py.Session.lastMessage Py.Session.Unbuffered)
        Py.Session.SandeshSession.new (strandedPyRun ++ [.dequeue true]) := by
  constructor
  · intro h
    have hlast := Machine.each_last strandedRun h rfl rfl
    have hzero := hlast _ rfl
    cases hzero
  · intro h
    have hlast := Machine.each_last strandedPyRun h rfl rfl
    have hnil := hlast _ rfl
    cases hnil

end Sandesh
