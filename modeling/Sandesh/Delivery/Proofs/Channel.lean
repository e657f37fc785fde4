/-
One session, from its send queue to the reader at the other end.

`Carries` says what the messages taken off the queue have become: `ps` are
those that could be written while the session was up. The writer holds
their frames (`Holds`, of the batching), so the wire is a run of whole
frames and what has been read is the front of a stream of frames; the
reader's own invariant (`Settled`, of the chunking) does the rest.
-/
import Sandesh.Delivery.Basic
import Sandesh.Framing.Proofs.Chunking
import Sandesh.Framing.Proofs.Send

namespace Sandesh.Delivery

open Lib Framing

-- ========================================================== the writer

/-- `taken` has come off the send queue, `ps` of it was written. -/
structure Carries (taken : List Framing.Message) (ps : List Payload) (b : Batches)
    (c : Channel) : Prop where
  posted_eq : c.posted = taken ++ c.session.send_queue_
  payloads : (ps.map Payload.bytes).Sublist (taken.filterMap payload)
  count : c.session.num_send_msg = ps.length
  fails : c.session.num_send_msg + c.session.num_send_msg_fail = taken.length
  holds : Holds b c.session.writer_
  messages : b.messages = ps.map fun p => envelope p.bytes
  carried : c.chunks.flatten <+: c.wire

theorem carries_new (memory : Memory) : Carries [] [] ⟨[], []⟩ (Channel.new memory) where
  posted_eq := rfl
  payloads := List.Sublist.refl []
  count := rfl
  fails := rfl
  holds := holds_new memory.1 memory.2
  messages := rfl
  carried := List.nil_prefix

section Step

variable {Send : List Bytes → Bool} {taken : List Framing.Message} {ps : List Payload}
  {b : Batches} {c c' : Channel}

theorem carries_post (h : Carries taken ps b c) (sandesh : Framing.Message) :
    Carries taken ps b (c.post sandesh) := by
  refine ⟨?_, h.payloads, h.count, h.fails, h.holds, h.messages, h.carried⟩
  show c.posted ++ [sandesh] = taken ++ (c.session.send_queue_ ++ [sandesh])
  rw [h.posted_eq, List.append_assoc]

theorem carries_arrive (h : Carries taken ps b c) (n : Nat) :
    Carries taken ps b (c.arrive n) := by
  refine ⟨h.posted_eq, h.payloads, h.count, h.fails, h.holds, h.messages, ?_⟩
  obtain ⟨rest, hrest⟩ := h.carried
  have hflight : c.inFlight = rest := by
    rw [Channel.inFlight, ← hrest, List.drop_left]
  show (c.chunks ++ [c.inFlight.take n]).flatten <+: c.wire
  rw [List.flatten_append, List.flatten_singleton, hflight, ← hrest]
  exact (List.prefix_append_right_inj _).mpr (List.take_prefix n rest)

/-- A message that is dropped. -/
theorem carries_fail {s : SendSession} {sandesh : Framing.Message}
    (h : Carries taken ps b { c with
      session := { s with send_queue_ := sandesh :: s.send_queue_ } })
    (reason : TxDropReason) :
    Carries (taken ++ [sandesh]) ps b { c with session := s.fail reason } := by
  refine ⟨?_, ?_, h.count, ?_, h.holds, h.messages, h.carried⟩
  · have hposted : c.posted = taken ++ sandesh :: s.send_queue_ := h.posted_eq
    show c.posted = taken ++ [sandesh] ++ s.send_queue_
    rw [hposted, List.append_assoc]
    rfl
  · rw [List.filterMap_append]
    exact h.payloads.trans (List.sublist_append_left _ _)
  · have hfails : s.num_send_msg + s.num_send_msg_fail = taken.length := h.fails
    show s.num_send_msg + (s.num_send_msg_fail + 1) = (taken ++ [sandesh]).length
    rw [List.length_append, List.length_singleton, ← hfails, Nat.add_assoc]

/-- A message that is written. -/
theorem carries_written {s : SendSession} {sandesh : Framing.Message} {b' : Batches}
    {writer : SandeshWriter} {p : Payload}
    (h : Carries taken ps b { c with
      session := { s with send_queue_ := sandesh :: s.send_queue_ } })
    (hp : payload sandesh = some p.bytes) (hholds : Holds b' writer)
    (hmsgs : b'.messages = b.messages ++ [envelope p.bytes])
    (hsent : s.writer_.sent <+: writer.sent) :
    Carries (taken ++ [sandesh]) (ps ++ [p]) b' { c with
      session := { s with writer_ := writer, num_send_msg := s.num_send_msg + 1 } } := by
  have hcount : s.num_send_msg = ps.length := h.count
  have hfails : s.num_send_msg + s.num_send_msg_fail = taken.length := h.fails
  refine ⟨?_, ?_, ?_, ?_, hholds, ?_, ?_⟩
  · have hposted : c.posted = taken ++ sandesh :: s.send_queue_ := h.posted_eq
    show c.posted = taken ++ [sandesh] ++ s.send_queue_
    rw [hposted, List.append_assoc]
    rfl
  · rw [List.map_append, List.filterMap_append]
    refine h.payloads.append ?_
    rw [List.filterMap_cons_some hp]
    exact List.Sublist.refl _
  · rw [List.length_append, List.length_singleton, ← hcount]
  · show s.num_send_msg + 1 + s.num_send_msg_fail = (taken ++ [sandesh]).length
    rw [List.length_append, List.length_singleton]
    omega
  · rw [hmsgs, h.messages, List.map_append]
    rfl
  · have hold : c.chunks.flatten <+: s.writer_.sent.flatten := h.carried
    obtain ⟨more, hmore⟩ := hsent
    show c.chunks.flatten <+: writer.sent.flatten
    rw [← hmore, List.flatten_append]
    exact hold.trans (List.prefix_append _ _)

/-- What has been passed to TCP stays passed. -/
theorem sendMsg_sent {w w' : SandeshWriter} {buf : Bytes} {more : Bool}
    (h : w.SendMsg Send buf more = .ok w') : w.sent <+: w'.sent := by
  unfold SandeshWriter.SendMsg SandeshWriter.SendMsgMore SandeshWriter.SendMsgAll
    SandeshWriter.append_send_buf SandeshWriter.set_send_buf at h
  dsimp only at h
  split_ifs at h <;> cases h <;>
    first
      | exact List.prefix_refl _
      | exact List.prefix_append _ _
      | exact (List.prefix_append _ _).trans (List.prefix_append _ _)

/-- `SandeshWriter::SendMsg`. -/
theorem carries_writer {s s' : SendSession} {sandesh : Framing.Message} {more : Bool}
    (h : Carries taken ps b { c with
      session := { s with send_queue_ := sandesh :: s.send_queue_ } })
    (hsend : s.writerSendMsg Send sandesh more = some s') :
    ∃ ps' b', Carries (taken ++ [sandesh]) ps' b' { c with session := s' } := by
  unfold SendSession.writerSendMsg at hsend
  cases hheader : sandesh.header with
  | none =>
      rw [hheader] at hsend
      cases hsend
      exact ⟨ps, b, carries_fail h _⟩
  | some header =>
      rw [hheader] at hsend
      dsimp only at hsend
      cases hbody : sandesh.body with
      | none =>
          rw [hbody] at hsend
          cases hsend
          exact ⟨ps, b, carries_fail h _⟩
      | some body =>
          rw [hbody] at hsend
          dsimp only at hsend
          split at hsend
          · cases hsend
          · rename_i hsanity
            -- the assert on the sizes leaves only what fits in 32 bits
            have hfits : sandesh_open_.length + (header ++ body).length
                + sandesh_close_.length < 2 ^ 32 := by
              rw [not_not] at hsanity
              rw [List.length_append, hsanity]
              exact Nat.mod_lt _ (by decide)
            have hholds : Holds b s.writer_ := h.holds
            have hne : envelope (header ++ body) ≠ [] := by
              intro hnil
              have hlen := envelope_length ⟨header ++ body, hfits⟩
              rw [hnil, List.length_nil] at hlen
              omega
            obtain ⟨b', w', hok, hholds', hmsgs, -⟩ :=
              sendMsg_holds Send hholds hne more
            rw [hok] at hsend
            cases hsend
            refine ⟨ps ++ [⟨header ++ body, hfits⟩], b', ?_⟩
            refine carries_written h ?_ hholds' hmsgs (sendMsg_sent hok)
            rw [payload, hheader, hbody]

theorem carries_act {a : SendAction} (ha : ∀ sandesh, a ≠ .Enqueue sandesh)
    (h : Carries taken ps b c) (hact : c.act Send a = some c') :
    (∃ taken' ps' b', Carries taken' ps' b' c') ∧ c'.posted = c.posted := by
  obtain ⟨s', hstep, rfl⟩ := Option.map_eq_some_iff.mp hact
  refine ⟨?_, rfl⟩
  cases a with
  | establish =>
      cases hstep
      exact ⟨taken, ps, b, h.posted_eq, h.payloads, h.count, h.fails, h.holds,
        h.messages, h.carried⟩
  | close =>
      cases hstep
      exact ⟨taken, ps, b, h.posted_eq, h.payloads, h.count, h.fails, h.holds,
        h.messages, h.carried⟩
  | Enqueue sandesh => exact absurd rfl (ha sandesh)
  | dequeue =>
      simp only [sendStep] at hstep
      cases hq : c.session.send_queue_ with
      | nil =>
          rw [hq] at hstep
          cases hstep
      | cons sandesh rest =>
          rw [hq] at hstep
          dsimp only at hstep
          have h₀ : Carries taken ps b { c with
              session := { c.session with
                send_queue_ := sandesh :: rest } } := by
            rw [← hq]
            exact h
          refine ⟨taken ++ [sandesh], ?_⟩
          unfold SendSession.SendMsg at hstep
          split at hstep
          · exact carries_writer
              (s := { c.session with send_queue_ := rest }) h₀ hstep
          · cases hstep
            exact ⟨ps, b, carries_fail
              (s := { c.session with send_queue_ := rest }) h₀ _⟩

end Step

-- ========================================================== the reader

section Reading

variable {taken : List Framing.Message} {ps : List Payload} {b : Batches} {c : Channel}

/-- The wire and what the writer has kept back are the frames of `ps`. -/
theorem Carries.stream_eq (h : Carries taken ps b c) :
    c.wire ++ c.session.writer_.unsent = stream ps := by
  rw [Channel.wire, h.holds.sent, h.holds.unsent, ← List.flatten_flatten,
    ← List.flatten_append]
  exact congrArg List.flatten h.messages

/-- A reader that has been given all of a stream is done with it. -/
theorem settled_done {done todo : List Payload} {rest : Bytes} {s : Session}
    (h : Settled strtoul done todo rest s)
    (hall : stream done ++ rest = stream (done ++ todo)) : todo = [] := by
  rw [stream_append, List.append_cancel_left_eq] at hall
  cases todo with
  | nil => rfl
  | cons p todo' =>
      have hless := h.less p todo' rfl
      rw [hall, stream_cons, List.length_append] at hless
      omega

/-- What the reader hands over is the front of what was written, and all
of it once nothing is under way. -/
theorem Carries.reads (h : Carries taken ps b c) :
    ∃ done, done <+: ps ∧ c.Reads (done.map Payload.bytes)
      ∧ (c.Drained → done = ps) := by
  have hpre : c.chunks.flatten <+: stream ps := by
    rw [← h.stream_eq]
    exact h.carried.trans (List.prefix_append _ _)
  obtain ⟨s, done, todo, rest, hruns, hps, hst, hsettled⟩ :=
    settled_run parsesDigits_strtoul c.chunks (settled_fresh ps) hpre
  have hps' : ps = done ++ todo := hps
  refine ⟨done, ?_, ⟨s, hruns, hsettled.at_.received, hsettled.no_fail⟩, ?_⟩
  · rw [hps']
    exact List.prefix_append _ _
  · intro hdrained
    obtain ⟨hoffset, hflight⟩ := hdrained
    -- the collector has read the whole wire, and the writer keeps nothing
    have hwire : c.chunks.flatten = c.wire := by
      obtain ⟨more, hmore⟩ := h.carried
      rw [Channel.inFlight, ← hmore, List.drop_left] at hflight
      rw [← hmore, hflight, List.append_nil]
    have hunsent : c.session.writer_.unsent = [] := by
      rw [SandeshWriter.unsent, hoffset, List.take_zero]
    have hall : stream done ++ rest = stream (done ++ todo) := by
      rw [← hst, ← hps', ← h.stream_eq, hunsent, hwire, stream_nil, List.nil_append,
        List.nil_append, List.append_nil]
    rw [hps', settled_done hsettled hall, List.append_nil]

end Reading

end Sandesh.Delivery
