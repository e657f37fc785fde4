/-
Batching loses and reorders nothing.

The abstract view of a writer is a list of batches already sent and a
pending batch, each a list of whole messages (`Batches`). `Holds` says
that the bytes of the writer are that view, flattened; every path of
`SendMsg` moves the view one message on (`sendMsg_holds`), and the rest is
read off it.
-/
import Sandesh.Framing.Send

namespace Sandesh.Framing

open Lib SandeshWriter

variable (Send : List Bytes → Bool)

/-- Batches of whole messages: those sent, and the one being collected. -/
structure Batches where
  gone : List (List Bytes)
  pending : List Bytes

/-- All messages of the view, in order. -/
def Batches.messages (b : Batches) : List Bytes := b.gone.flatten ++ b.pending

/-- The writer holds these batches. -/
structure Holds (b : Batches) (w : SandeshWriter) : Prop where
  sent : w.sent = b.gone.map List.flatten
  unsent : w.unsent = b.pending.flatten
  room : w.send_buf_offset_ < kDefaultSendSize

theorem sendSize_pos : 0 < kDefaultSendSize := by decide

theorem holds_new (memory : Bytes) (h : memory.length = kDefaultSendSize) :
    Holds ⟨[], []⟩ (SandeshWriter.new memory h) :=
  ⟨rfl, rfl, sendSize_pos⟩

-- ======================================================== the buffer

/-- Copying to `pos` extends the first `pos` bytes. -/
theorem take_memcpy (buffer src : Bytes) (pos : Nat)
    (h : pos + src.length ≤ buffer.length) :
    (memcpy buffer pos src).take (pos + src.length)
      = buffer.take pos ++ src := by
  have hlen : (buffer.take pos ++ src).length = pos + src.length := by
    rw [List.length_append, List.length_take]
    omega
  rw [memcpy]
  exact List.take_left' hlen

theorem set_send_buf_ok {w : SandeshWriter} {buf : Bytes} (hne : buf ≠ [])
    (hroom : buf.length < kDefaultSendSize) :
    ∃ w', w.set_send_buf buf = .ok w' ∧ w'.sent = w.sent ∧ w'.unsent = buf
      ∧ w'.send_buf_offset_ < kDefaultSendSize := by
  have hlen : buf.length ≠ 0 := by simpa using hne
  have hassert : buf.length ≠ 0 ∧ buf.length < kDefaultSendSize :=
    ⟨hlen, hroom⟩
  refine ⟨_, dif_pos hassert, rfl, ?_, hroom⟩
  have htake := take_memcpy w.send_buf_ buf 0 (by rw [w.size]; omega)
  rw [Nat.zero_add, List.take_zero, List.nil_append] at htake
  exact htake

theorem append_send_buf_ok {w : SandeshWriter} {buf : Bytes} (hne : buf ≠ [])
    (hroom : w.send_buf_offset_ + buf.length < kDefaultSendSize) :
    ∃ w', w.append_send_buf buf = .ok w' ∧ w'.sent = w.sent
      ∧ w'.unsent = w.unsent ++ buf
      ∧ w'.send_buf_offset_ < kDefaultSendSize := by
  have hlen : buf.length ≠ 0 := by simpa using hne
  have hassert : buf.length ≠ 0
      ∧ buf.length + w.send_buf_offset_ < kDefaultSendSize := by
    refine ⟨hlen, ?_⟩
    rw [Nat.add_comm]
    exact hroom
  refine ⟨_, dif_pos hassert, rfl, ?_, hroom⟩
  exact take_memcpy _ _ _ (by rw [w.size]; omega)

-- ======================================================== one message

section Step

variable {b : Batches} {w : SandeshWriter}

/-- A writer whose offset is 0 has nothing pending to lose. -/
theorem Holds.flatten_nil (h : Holds b w) (h0 : w.send_buf_offset_ = 0) :
    b.pending.flatten = [] := by
  have hunsent : w.send_buf_.take w.send_buf_offset_ = b.pending.flatten :=
    h.unsent
  rw [← hunsent, h0, List.take_zero]

/-- Everything pending goes out in a block of its own, then the message. -/
theorem holds_flush (h : Holds b w) (buf : Bytes) :
    Holds ⟨b.gone ++ [b.pending] ++ [[buf]], []⟩
      ((w.SendInternal Send w.unsent).reset_send_buf.SendInternal Send
        buf) := by
  refine ⟨?_, rfl, sendSize_pos⟩
  show w.sent ++ [w.unsent] ++ [buf] = _
  rw [h.sent, h.unsent]
  simp

/-- The message goes out at once; nothing was pending. -/
theorem holds_alone (h : Holds b w) (h0 : w.send_buf_offset_ = 0)
    (buf : Bytes) :
    Holds ⟨b.gone ++ [b.pending ++ [buf]], []⟩ (w.SendInternal Send buf) := by
  have hnil := h.flatten_nil h0
  refine ⟨?_, ?_, h.room⟩
  · show w.sent ++ [buf] = _
    rw [h.sent]
    simp [hnil]
  · show w.send_buf_.take w.send_buf_offset_ = _
    rw [h0]
    rfl

theorem sendMsgMore_holds (h : Holds b w) {buf : Bytes} (hne : buf ≠ []) :
    ∃ b' w', w.SendMsgMore Send buf = .ok w' ∧ Holds b' w'
      ∧ b'.messages = b.messages ++ [buf] := by
  by_cases h0 : w.send_buf_offset_ = 0
  · by_cases hbig : kDefaultSendSize ≤ buf.length
    · refine ⟨_, _, ?_, holds_alone Send h h0 buf,
        by simp [Batches.messages]⟩
      rw [SendMsgMore, if_neg (not_not.mpr h0), if_pos hbig]
    · obtain ⟨w', hset, hsent, hunsent, hroom⟩ :=
        set_send_buf_ok (w := w) hne (Nat.lt_of_not_le hbig)
      refine ⟨⟨b.gone, b.pending ++ [buf]⟩, w', ?_, ⟨?_, ?_, hroom⟩,
        by simp [Batches.messages]⟩
      · rw [SendMsgMore, if_neg (not_not.mpr h0), if_neg hbig, hset]
      · rw [hsent, h.sent]
      · rw [hunsent]
        simp [h.flatten_nil h0]
  · by_cases hfit : w.send_buf_offset_ + buf.length < kDefaultSendSize
    · obtain ⟨w', happend, hsent, hunsent, hroom⟩ :=
        append_send_buf_ok hne hfit
      refine ⟨⟨b.gone, b.pending ++ [buf]⟩, w', ?_, ⟨?_, ?_, hroom⟩,
        by simp [Batches.messages]⟩
      · rw [SendMsgMore, if_pos h0]
        dsimp only
        rw [if_pos hfit, happend]
      · rw [hsent, h.sent]
      · rw [hunsent, h.unsent]
        simp
    · refine ⟨_, _, ?_, holds_flush Send h buf,
        by simp [Batches.messages]⟩
      rw [SendMsgMore, if_pos h0]
      dsimp only
      rw [if_neg hfit]

/-- Without `more` nothing is left in the buffer. -/
theorem sendMsgAll_offset (w : SandeshWriter) (buf : Bytes) :
    (w.SendMsgAll Send buf).send_buf_offset_ = 0 := by
  unfold SendMsgAll
  by_cases h0 : w.send_buf_offset_ = 0
  · rw [if_neg (not_not.mpr h0)]
    exact h0
  · rw [if_pos h0]
    dsimp only
    split <;> rfl

theorem sendMsgAll_holds (h : Holds b w) (buf : Bytes) :
    ∃ b', Holds b' (w.SendMsgAll Send buf)
      ∧ b'.messages = b.messages ++ [buf] := by
  by_cases h0 : w.send_buf_offset_ = 0
  · have hall : w.SendMsgAll Send buf = w.SendInternal Send buf := by
      rw [SendMsgAll, if_neg (not_not.mpr h0)]
    rw [hall]
    exact ⟨_, holds_alone Send h h0 buf, by simp [Batches.messages]⟩
  · by_cases hfit : w.send_buf_offset_ + buf.length ≤ kDefaultSendSize
    · have hall : w.SendMsgAll Send buf
          = (w.SendInternal Send (w.unsent ++ buf)).reset_send_buf := by
        rw [SendMsgAll, if_pos h0]
        dsimp only
        rw [if_pos hfit]
      rw [hall]
      refine ⟨⟨b.gone ++ [b.pending ++ [buf]], []⟩, ⟨?_, rfl, sendSize_pos⟩,
        by simp [Batches.messages]⟩
      show w.sent ++ [w.unsent ++ buf] = _
      rw [h.sent, h.unsent]
      simp
    · have hall : w.SendMsgAll Send buf
          = (w.SendInternal Send w.unsent).reset_send_buf.SendInternal Send
            buf := by
        rw [SendMsgAll, if_pos h0]
        dsimp only
        rw [if_neg hfit]
      rw [hall]
      exact ⟨_, holds_flush Send h buf, by simp [Batches.messages]⟩

/-- One message, on either path. -/
theorem sendMsg_holds (h : Holds b w) {buf : Bytes} (hne : buf ≠ [])
    (more : Bool) :
    ∃ b' w', w.SendMsg Send buf more = .ok w' ∧ Holds b' w'
      ∧ b'.messages = b.messages ++ [buf]
      ∧ (more = false → w'.send_buf_offset_ = 0) := by
  cases more with
  | true =>
      obtain ⟨b', w', hok, hholds, hmsgs⟩ := sendMsgMore_holds Send h hne
      refine ⟨b', w', ?_, hholds, hmsgs, ?_⟩
      · rw [SendMsg, if_pos rfl, hok]
      · intro hmore
        cases hmore
  | false =>
      obtain ⟨b', hholds, hmsgs⟩ := sendMsgAll_holds Send h buf
      refine ⟨b', _, ?_, hholds, hmsgs, fun _ => sendMsgAll_offset Send w buf⟩
      rw [SendMsg, if_neg Bool.false_ne_true]

end Step

-- ================================================================ runs

/-- A run from any state of the invariant. -/
theorem sendMsgs_holds (steps : List (Bytes × Bool)) :
    ∀ {b : Batches} {w : SandeshWriter}, Holds b w →
      (∀ x ∈ steps, x.1 ≠ []) →
      ∃ b' w', SendMsgs Send steps w = .ok w' ∧ Holds b' w'
        ∧ b'.messages = b.messages ++ steps.map Prod.fst
        ∧ ∀ x, steps.getLast? = some x → x.2 = false →
          w'.send_buf_offset_ = 0 := by
  induction steps with
  | nil =>
      intro b w h _
      refine ⟨b, w, rfl, h, by simp, ?_⟩
      intro x hx
      cases hx
  | cons step steps ih =>
      intro b w h hne
      obtain ⟨buf, more⟩ := step
      obtain ⟨b₁, w₁, hok, h₁, hmsgs₁, hlast₁⟩ :=
        sendMsg_holds Send h (hne (buf, more) List.mem_cons_self)
          more
      obtain ⟨b', w', hruns, h', hmsgs, hlast⟩ :=
        ih h₁ (fun x hx => hne x (List.mem_cons_of_mem _ hx))
      refine ⟨b', w', ?_, h', ?_, ?_⟩
      · rw [SendMsgs, hok]
        exact hruns
      · rw [hmsgs, hmsgs₁]
        simp
      · intro x hx hflag
        cases steps with
        | nil =>
            -- the step just made was the last one
            cases hruns
            cases hx
            exact hlast₁ hflag
        | cons y ys =>
            rw [List.getLast?_cons_cons] at hx
            exact hlast x hx hflag

/-- After any sequence of non-empty messages no assert has failed; what
was sent and what is pending are the messages in order; every block is a
run of whole messages; and a message without `more` leaves nothing
pending. -/
theorem batching_lossless (memory : Bytes)
    (hmem : memory.length = kDefaultSendSize) (steps : List (Bytes × Bool))
    (hne : ∀ x ∈ steps, x.1 ≠ []) :
    ∃ w, SendMsgs Send steps (SandeshWriter.new memory hmem) = .ok w
      ∧ w.sent.flatten ++ w.send_buf_.take w.send_buf_offset_
          = (steps.map Prod.fst).flatten
      ∧ (∃ batches : List (List Bytes), w.sent = batches.map List.flatten
          ∧ batches.flatten <+: steps.map Prod.fst)
      ∧ w.send_buf_offset_ < kDefaultSendSize
      ∧ ∀ x, steps.getLast? = some x → x.2 = false →
          w.send_buf_offset_ = 0 := by
  obtain ⟨b, w, hruns, h, hmsgs, hlast⟩ :=
    sendMsgs_holds Send steps (holds_new memory hmem) hne
  have hmsgs' : b.gone.flatten ++ b.pending = steps.map Prod.fst := hmsgs
  refine ⟨w, hruns, ?_, ⟨b.gone, h.sent, ?_⟩, h.room, hlast⟩
  · have hunsent : w.send_buf_.take w.send_buf_offset_ = b.pending.flatten :=
      h.unsent
    rw [hunsent, h.sent, ← hmsgs', List.flatten_append, List.flatten_flatten]
  · rw [← hmsgs']
    exact List.prefix_append _ _

/-- Two messages collected, the second flushing both. -/
theorem batching_lossless_two :
    ∃ w, SendMsgs (fun _ => true) [(lit "ab", true), (lit "c", false)]
        (SandeshWriter.new (List.replicate 16384 0) List.length_replicate)
          = .ok w
      ∧ w.sent.flatten ++ w.send_buf_.take w.send_buf_offset_
          = ([lit "ab", lit "c"]).flatten
      ∧ (∃ batches : List (List Bytes), w.sent = batches.map List.flatten
          ∧ batches.flatten <+: [lit "ab", lit "c"])
      ∧ w.send_buf_offset_ < kDefaultSendSize
      ∧ ∀ x, [(lit "ab", true), (lit "c", false)].getLast? = some x →
          x.2 = false → w.send_buf_offset_ = 0 :=
  batching_lossless _ _ _ [(lit "ab", true), (lit "c", false)] (by decide)

end Sandesh.Framing
