/-
The reader on a stream of well-formed frames.

`At done todo rest s` is the invariant: the callback has been handed
exactly the messages `done`, the frames `todo` are still to come, and
`rest`, the bytes of `buf_` from `offset_` on, is what has arrived of
them. It does not say that `offset_` is 0 nor that `rest` is less than a
frame, because a rejected message leaves `OnRead` with neither.

The size test of `ExtractMsg` compares the whole buffer with the length,
so it may say "entire" for a frame that is still incomplete when
`offset_` is not 0. Everything here is therefore conditional on the first
extraction of a call being covered by the buffer (`Covers`); the later
ones of the same call start from `offset_ = 0`, where the test is right.
`loop_at` is the induction over the turns of `OnRead`, on the frames
still to come.
-/
import Sandesh.Framing.Proofs.OpenTag

namespace Sandesh.Framing

open Lib SandeshReader

variable {stringToInteger : Bytes → Nat} {cb : List Bytes → Bool}

-- ==================================================== one ExtractMsg

section Extract

variable {r : SandeshReader}

/-- The remembered length, when there is one, is the declared one. -/
def SandeshReader.LengthOk (stringToInteger : Bytes → Nat)
    (r : SandeshReader) : Prop :=
  r.msg_length_ ≠ npos →
    Declares stringToInteger (r.buf_.drop r.offset_) r.msg_length_

theorem extractMsgLength_eq (hin : r.offset_ ≤ r.buf_.length)
    (hlen : 29 ≤ (r.buf_.drop r.offset_).length) :
    r.ExtractMsgLength stringToInteger
      = .ok (openTagLength stringToInteger (r.buf_.drop r.offset_)) := by
  rw [List.length_drop] at hlen
  rw [ExtractMsgLength, sizeSub, if_pos hin, sandesh_open_length,
    if_neg (by omega), if_neg (by omega)]

/-- A complete open tag: the length is learned (or remembered) and
compared with the size of the buffer. -/
theorem extractMsg_declared (hin : r.offset_ ≤ r.buf_.length)
    (hok : r.LengthOk stringToInteger) {n : Nat}
    (hn : Declares stringToInteger (r.buf_.drop r.offset_) n) :
    r.ExtractMsg stringToInteger
      = .ok ((decide (n ≤ r.buf_.length), 0), r.set_msg_length n) := by
  by_cases hk : r.msg_length_ = npos
  · have hknown : r.MsgLengthKnown = false := by simp [MsgLengthKnown, hk]
    rw [ExtractMsg, hknown, extractMsgLength_eq hin (by simpa using hn.1), hn.2]
    rfl
  · have hknown : r.MsgLengthKnown = true := by simp [MsgLengthKnown, hk]
    obtain rfl := (hok hk).unique hn
    rw [ExtractMsg, hknown]
    rfl

/-- An incomplete open tag: nothing happens. -/
theorem extractMsg_short (hin : r.offset_ ≤ r.buf_.length)
    (hok : r.LengthOk stringToInteger)
    (hlen : (r.buf_.drop r.offset_).length < 29) :
    r.ExtractMsg stringToInteger = .ok ((false, 0), r) := by
  have hk : r.msg_length_ = npos := by
    by_contra hk
    have := (hok hk).1
    rw [sandesh_open_length] at this
    omega
  have hknown : r.MsgLengthKnown = false := by simp [MsgLengthKnown, hk]
  rw [List.length_drop] at hlen
  have hmore : r.ExtractMsgLength stringToInteger = .ok .more := by
    rw [ExtractMsgLength, sizeSub, if_pos hin, sandesh_open_length,
      if_pos (by omega)]
  rw [ExtractMsg, hknown, hmore]
  rfl

end Extract

/-- With `offset_` inside the buffer, `SetBuf` appends: an empty buffer
has `offset_` 0 already. -/
theorem setBuf_eq {r : SandeshReader} (hin : r.offset_ ≤ r.buf_.length)
    (chunk : Bytes) :
    r.SetBuf chunk = { r with buf_ := r.buf_ ++ chunk } := by
  cases hb : r.buf_ with
  | nil =>
      rw [hb, List.length_nil, Nat.le_zero] at hin
      simp [SetBuf, ReplaceBuf, hb, hin]
  | cons b t => simp [SetBuf, hb]

-- ======================================================= the invariant

/-- The frame at this extraction lies inside the buffer. -/
def Cut.Complete (c : Cut) : Prop := c.offset_ + c.msg_length ≤ c.size

/-- `done` is handed over, `rest` of the frames `todo` is buffered. -/
structure At (stringToInteger : Bytes → Nat) (done todo : List Payload)
    (rest : Bytes) (s : Session) : Prop where
  received : s.received = done.map Payload.bytes
  inside : s.reader_.offset_ ≤ s.reader_.buf_.length
  buffered : s.reader_.buf_.drop s.reader_.offset_ = rest
  pending : rest <+: stream todo
  length_ok : s.reader_.LengthOk stringToInteger
  complete : ∀ c ∈ s.cuts, c.Complete

theorem at_fresh (ps : List Payload) :
    At stringToInteger [] ps [] Session.fresh := by
  refine ⟨rfl, Nat.le_refl _, rfl, List.nil_prefix, ?_, ?_⟩
  · intro h
    exact absurd rfl h
  · intro c hc
    exact absurd hc (List.not_mem_nil)

/-- What `ExtractMsg` answered, read against the frames to come: "entire"
names the first of them, "not entire" says why. -/
def Answers (stringToInteger : Bytes → Nat) (t : Bool × Int)
    (todo : List Payload) (rest : Bytes) (s : Session) : Prop :=
  t.2 = 0 ∧ match t.1 with
    | true => ∃ p todo', todo = p :: todo'
        ∧ Declares stringToInteger rest (envelope p.bytes).length
        ∧ s.reader_.msg_length_ = (envelope p.bytes).length
        ∧ (envelope p.bytes).length ≤ s.reader_.buf_.length
    | false => ∀ p todo', todo = p :: todo' →
        rest.length < 29 ∨ s.reader_.buf_.length < (envelope p.bytes).length

/-- One `ExtractMsg` on a stream. -/
theorem extract_at (hsti : ParsesDigits stringToInteger)
    {done todo : List Payload} {rest : Bytes} {s : Session}
    (h : At stringToInteger done todo rest s) :
    ∃ t n, s.reader_.ExtractMsg stringToInteger
        = .ok (t, s.reader_.set_msg_length n)
      ∧ At stringToInteger done todo rest
          { s with reader_ := s.reader_.set_msg_length n }
      ∧ Answers stringToInteger t todo rest
          { s with reader_ := s.reader_.set_msg_length n } := by
  by_cases hlen : rest.length < 29
  · refine ⟨(false, 0), s.reader_.msg_length_, ?_, h, rfl, ?_⟩
    · exact extractMsg_short h.inside h.length_ok (by rwa [h.buffered])
    · intro p todo' _
      exact .inl hlen
  · obtain ⟨p, todo', rfl⟩ := exists_frame_of_prefix h.pending (by omega)
    have hdecl := declares_of_stream hsti h.pending (by omega)
    have hdecl' := hdecl
    rw [← h.buffered] at hdecl'
    refine ⟨_, _, extractMsg_declared h.inside h.length_ok hdecl', ?_, ?_⟩
    · exact ⟨h.received, h.inside, h.buffered, h.pending, fun _ => hdecl',
        h.complete⟩
    · refine ⟨rfl, ?_⟩
      by_cases hsize : (envelope p.bytes).length ≤ s.reader_.buf_.length
      · rw [decide_eq_true hsize]
        exact ⟨p, todo', rfl, hdecl, rfl, hsize⟩
      · rw [decide_eq_false hsize]
        intro p' todo'' heq
        injection heq with hp _
        subst hp
        exact .inr (Nat.lt_of_not_le hsize)

-- ===================================================== one delivery

/-- The buffered bytes are a complete frame and what follows it. -/
theorem At.split {done todo : List Payload} {p : Payload} {rest : Bytes}
    {s : Session} (h : At stringToInteger done (p :: todo) rest s)
    (hfull : s.reader_.offset_ + (envelope p.bytes).length
      ≤ s.reader_.buf_.length) :
    rest = envelope p.bytes ++ rest.drop (envelope p.bytes).length := by
  have hpre := h.pending
  rw [stream_cons] at hpre
  have hle : (envelope p.bytes).length ≤ rest.length := by
    rw [← h.buffered, List.length_drop]
    omega
  have hprefix := List.prefix_of_prefix_length_le (List.prefix_append _ _) hpre
    hle
  exact (List.prefix_iff_eq_append.mp hprefix).symm

/-- Cutting a complete frame hands over its message and moves on to the
next frame. -/
theorem deliver_at {done todo : List Payload} {p : Payload} {rest : Bytes}
    {s : Session} (h : At stringToInteger done (p :: todo) rest s)
    (hn : s.reader_.msg_length_ = (envelope p.bytes).length)
    (hfull : s.reader_.offset_ + (envelope p.bytes).length
      ≤ s.reader_.buf_.length) :
    s.nextCut.InRange
      ∧ At stringToInteger (done ++ [p]) todo
          (rest.drop (envelope p.bytes).length) s.delivered := by
  have hlen := envelope_length p
  obtain ⟨tail, htail⟩ : ∃ tail, rest = envelope p.bytes ++ tail :=
    ⟨_, h.split hfull⟩
  have hxml : s.xml = p.bytes := by
    rw [Session.xml, sandesh_open_length, sandesh_close_length, hn,
      List.drop_take, ← List.drop_drop, h.buffered, htail, hlen]
    have hfront : (sandesh_open_attr_length_ ++ (lengthText p
        ++ lit "\">")).length = 29 := by
      simp only [List.length_append, lengthText_length,
        sandesh_open_attr_length_length]
      rfl
    have hsplit : envelope p.bytes ++ tail = (sandesh_open_attr_length_
        ++ (lengthText p ++ lit "\">")) ++ (p.bytes ++ (sandesh_close_
          ++ tail)) := by
      rw [envelope_eq]
      simp only [List.append_assoc]
    rw [hsplit, List.drop_left' hfront]
    exact List.take_left' (by omega)
  refine ⟨?_, ?_, ?_, ?_, ?_, ?_, ?_⟩
  · simp only [Cut.InRange, Session.nextCut, sandesh_open_length,
      sandesh_close_length, hn, hlen] at hfull ⊢
    omega
  · rw [Session.delivered, List.map_append, ← h.received, hxml]
    rfl
  · show s.reader_.offset_ + s.reader_.msg_length_ ≤ s.reader_.buf_.length
    rw [hn]
    exact hfull
  · show s.reader_.buf_.drop (s.reader_.offset_ + s.reader_.msg_length_) = _
    rw [hn, ← List.drop_drop, h.buffered]
  · have hpre := h.pending
    rw [stream_cons, htail, List.prefix_append_right_inj] at hpre
    rw [htail, List.drop_left]
    exact hpre
  · intro hk
    exact absurd rfl hk
  · intro c hc
    rcases List.mem_append.mp hc with hc | hc
    · exact h.complete c hc
    · obtain rfl := List.mem_singleton.mp hc
      show s.reader_.offset_ + s.reader_.msg_length_ ≤ s.reader_.buf_.length
      rw [hn]
      exact hfull

-- ============================================================ the loop

/-- How a call leaves the session: no failure counted, and, if the frames
start at `offset_` 0, less than a frame left there; or the callback has
rejected a message. -/
def Leaves (cb : List Bytes → Bool) (s : Session) (todo : List Payload)
    (rest : Bytes) (s' : Session) : Prop :=
  (s'.num_recv_fail = s.num_recv_fail
      ∧ (s.reader_.offset_ = 0 → s'.reader_.offset_ = 0
        ∧ ∀ p todo', todo = p :: todo' →
          rest.length < (envelope p.bytes).length))
    ∨ ∃ l, cb l = false

/-- The frame an "entire" answer is about lies inside the buffer. -/
def Covered (t : Bool × Int) (s : Session) : Prop :=
  t.1 = true → s.reader_.offset_ + s.reader_.msg_length_
    ≤ s.reader_.buf_.length

theorem leftOver_iff {r : SandeshReader} (hin : r.offset_ ≤ r.buf_.length) :
    r.LeftOver = true ↔ r.buf_.drop r.offset_ ≠ [] := by
  rw [Ne, List.drop_eq_nil_iff]
  cases hb : r.buf_ with
  | nil => simp [LeftOver, hb]
  | cons b t =>
      rw [hb] at hin
      simp only [LeftOver, hb, List.isEmpty_cons, Bool.false_eq_true,
        if_false, bne_iff_ne, ne_eq]
      omega

/-- After a delivery with nothing left over the buffer is cleared. -/
theorem afterMsg_done {done todo : List Payload} {s : Session}
    (h : At stringToInteger done todo [] s) (hn : s.reader_.msg_length_ = npos) :
    s.afterMsg stringToInteger
        = (.ok (.inr ()), { s with reader_ := s.reader_.clear })
      ∧ At stringToInteger done todo []
          { s with reader_ := s.reader_.clear } := by
  have hleft : s.reader_.LeftOver = false := by
    rw [← Bool.not_eq_true, leftOver_iff h.inside, h.buffered]
    simp
  refine ⟨?_, h.received, Nat.le_refl _, rfl, h.pending, ?_, h.complete⟩
  · rw [Session.afterMsg, hleft]
    rfl
  · intro hk
    exact absurd hn hk

/-- After a delivery with something left over, that becomes the buffer,
with `offset_` 0, and the next `ExtractMsg` answers for it. -/
theorem afterMsg_more (hsti : ParsesDigits stringToInteger)
    {done todo : List Payload} {rest : Bytes} {s : Session}
    (h : At stringToInteger done todo rest s)
    (hn : s.reader_.msg_length_ = npos) (hrest : rest ≠ []) :
    ∃ t r, s.afterMsg stringToInteger
        = (.ok (.inl t), { s with reader_ := r })
      ∧ At stringToInteger done todo rest { s with reader_ := r }
      ∧ Answers stringToInteger t todo rest { s with reader_ := r }
      ∧ Covered t { s with reader_ := r } ∧ r.offset_ = 0 := by
  have hleft : s.reader_.LeftOver = true := by
    rw [leftOver_iff h.inside, h.buffered]
    exact hrest
  have h₀ : At stringToInteger done todo rest
      { s with reader_ := s.reader_.ReplaceBuf rest } := by
    refine ⟨h.received, Nat.zero_le _, rfl, h.pending, ?_, h.complete⟩
    intro hk
    exact absurd hn hk
  obtain ⟨t, n, hext, hat, hans⟩ := extract_at hsti h₀
  refine ⟨t, _, ?_, hat, hans, ?_, rfl⟩
  · have hin := h.inside
    rw [Session.afterMsg, hleft, if_pos rfl, if_neg (by omega)]
    simp only [h.buffered, hext]
  · -- from `offset_` 0 the size test is the right one
    intro hflag
    obtain ⟨-, hans⟩ := hans
    rw [hflag] at hans
    obtain ⟨p, todo', -, -, hlen, hsize⟩ := hans
    rw [hlen]
    show 0 + _ ≤ _
    rw [Nat.zero_add]
    exact hsize

/-- A turn that is not told of a complete frame leaves the loop. -/
theorem loop_waits {todo done : List Payload} {rest : Bytes} {s : Session}
    {result : Int} (hat : At stringToInteger done todo rest s)
    (hans : Answers stringToInteger (false, result) todo rest s) :
    (Prog.loop (fun t => Prog.act (turn stringToInteger cb t))
        (false, result)).Runs s (.ok ()) s
      ∧ Leaves cb s todo rest s := by
  obtain ⟨rfl, hans⟩ := hans
  refine ⟨Prog.Runs.leave (by simp [turn]), .inl ⟨rfl, fun h0 => ⟨h0, ?_⟩⟩⟩
  intro p todo' heq
  have hbuf : s.reader_.buf_ = rest := by
    rw [← hat.buffered, h0, List.drop_zero]
  have hlen := envelope_length p
  rcases hans p todo' heq with hshort | hshort
  · omega
  · rwa [hbuf] at hshort

/-- The turns of `OnRead` from a state of the stream. -/
theorem loop_at (hsti : ParsesDigits stringToInteger) (todo : List Payload) :
    ∀ (done : List Payload) (rest : Bytes) (s : Session) (t : Bool × Int),
      At stringToInteger done todo rest s →
      Answers stringToInteger t todo rest s → Covered t s →
      ∃ s' done' todo' rest',
        (Prog.loop (fun t => Prog.act (turn stringToInteger cb t)) t).Runs s
          (.ok ()) s'
        ∧ done ++ todo = done' ++ todo'
        ∧ stream done ++ rest = stream done' ++ rest'
        ∧ At stringToInteger done' todo' rest' s' ∧ s'.cb_ = s.cb_
        ∧ Leaves cb s todo' rest' s' := by
  induction todo with
  | nil =>
      intro done rest s t hat hans hcov
      obtain ⟨flag, result⟩ := t
      cases flag with
      | true =>
          obtain ⟨-, p, todo', heq, -⟩ := hans
          cases heq
      | false =>
          obtain ⟨hruns, hleaves⟩ := loop_waits hat hans
          exact ⟨s, done, [], rest, hruns, rfl, rfl, hat, rfl, hleaves⟩
  | cons p todo ih =>
      intro done rest s t hat hans hcov
      obtain ⟨flag, result⟩ := t
      cases flag with
      | false =>
          obtain ⟨hruns, hleaves⟩ := loop_waits hat hans
          exact ⟨s, done, p :: todo, rest, hruns, rfl, rfl, hat, rfl, hleaves⟩
      | true =>
          obtain ⟨rfl, p', todo', heq, hdecl, hn, hsize⟩ := hans
          injection heq with hp htodo
          subst hp htodo
          have hfull := hcov rfl
          rw [hn] at hfull
          obtain ⟨hrange, hat'⟩ := deliver_at hat hn hfull
          have hturn : turn stringToInteger cb (true, 0) s
              = if cb s.delivered.received then
                  s.delivered.afterMsg stringToInteger
                else (.ok (.inr ()), s.delivered.fail) := by
            simp [turn, hrange]
          have hdone : done ++ p :: todo = (done ++ [p]) ++ todo := by simp
          have hstream : stream done ++ rest = stream (done ++ [p])
              ++ rest.drop (envelope p.bytes).length := by
            rw [stream_append, stream_cons, stream_nil, List.append_nil,
              List.append_assoc, ← hat.split hfull]
          by_cases hcb : cb s.delivered.received = true
          · rw [if_pos hcb] at hturn
            by_cases hrest : rest.drop (envelope p.bytes).length = []
            · -- nothing left over
              rw [hrest] at hat' hstream
              obtain ⟨hafter, hat''⟩ := afterMsg_done hat' rfl
              refine ⟨_, done ++ [p], todo, [], Prog.Runs.leave ?_, hdone,
                hstream, hat'', rfl, .inl ⟨rfl, fun _ => ⟨rfl, ?_⟩⟩⟩
              · rw [Prog.runs_act, hturn, hafter]
              · intro q todo' _
                rw [List.length_nil, envelope_length]
                omega
            · -- another turn, on the next frame
              obtain ⟨t, r, hafter, hat'', hans', hcov', hzero⟩ :=
                afterMsg_more hsti hat' rfl hrest
              obtain ⟨s', done', todo', rest', hruns, hps, hst, hat₃, hcb₃,
                hleaves⟩ := ih (done ++ [p]) _ _ t hat'' hans' hcov'
              refine ⟨s', done', todo', rest', Prog.Runs.again ?_ hruns,
                hdone.trans hps, hstream.trans hst, hat₃, hcb₃, ?_⟩
              · rw [Prog.runs_act, hturn, hafter]
              · refine hleaves.imp ?_ id
                intro ⟨hfail, hsettled⟩
                exact ⟨hfail, fun _ => hsettled hzero⟩
          · -- a rejected message: the loop is left as it stands
            rw [if_neg hcb] at hturn
            refine ⟨s.delivered.fail, done ++ [p], todo, _,
              Prog.Runs.leave ?_, hdone, hstream, ?_, rfl,
              .inr ⟨_, Bool.eq_false_iff.mpr hcb⟩⟩
            · rw [Prog.runs_act, hturn]
            · exact ⟨hat'.received, hat'.inside, hat'.buffered, hat'.pending,
                hat'.length_ok, hat'.complete⟩

-- ============================================================ one call

/-- The condition on a call, in terms of the session before it and the
bytes that arrive: if the buffer with these bytes is as long as the frame
at `offset_` declares, the whole frame is in it. It is automatic when
`offset_` is 0. -/
def Covers (stringToInteger : Bytes → Nat) (s : Session) : Event → Prop
  | .read buffer => s.cb_ = true → ∀ n,
      Declares stringToInteger
        ((s.reader_.buf_ ++ buffer).drop s.reader_.offset_) n →
      n ≤ (s.reader_.buf_ ++ buffer).length →
      s.reader_.offset_ + n ≤ (s.reader_.buf_ ++ buffer).length
  | .removeCb => True

theorem covers_of_offset_zero {s : Session} (h : s.reader_.offset_ = 0)
    (ev : Event) : Covers stringToInteger s ev := by
  cases ev with
  | removeCb => trivial
  | read buffer =>
      intro _ n _ hn
      rw [h, Nat.zero_add]
      exact hn

/-- The data of a call, appended. -/
def Session.append (s : Session) (buffer : Bytes) : Session :=
  { s with reader_ := { s.reader_ with buf_ := s.reader_.buf_ ++ buffer } }

/-- New data does not change a length already read. -/
theorem lengthOk_append {s : Session}
    (hin : s.reader_.offset_ ≤ s.reader_.buf_.length)
    (hok : s.reader_.LengthOk stringToInteger) (buffer : Bytes) :
    (s.append buffer).reader_.LengthOk stringToInteger := by
  intro hk
  have hold := (hok hk).append buffer
  rwa [← List.drop_append_of_le_length hin] at hold

theorem inside_append {s : Session}
    (hin : s.reader_.offset_ ≤ s.reader_.buf_.length) (buffer : Bytes) :
    (s.append buffer).reader_.offset_
      ≤ (s.append buffer).reader_.buf_.length := by
  show s.reader_.offset_ ≤ (s.reader_.buf_ ++ buffer).length
  rw [List.length_append]
  omega

theorem At.append {done todo : List Payload} {rest buffer : Bytes}
    {s : Session} (h : At stringToInteger done todo rest s)
    (hpre : rest ++ buffer <+: stream todo) :
    At stringToInteger done todo (rest ++ buffer) (s.append buffer) := by
  refine ⟨h.received, inside_append h.inside buffer, ?_, hpre,
    lengthOk_append h.inside h.length_ok buffer, h.complete⟩
  show (s.reader_.buf_ ++ buffer).drop s.reader_.offset_ = rest ++ buffer
  rw [List.drop_append_of_le_length h.inside, h.buffered]

/-- The first `ExtractMsg` of a call works on the appended data. -/
theorem newBuf_eq {s : Session}
    (hin : s.reader_.offset_ ≤ s.reader_.buf_.length) (buffer : Bytes)
    {t : Bool × Int} {r : SandeshReader}
    (hext : (s.append buffer).reader_.ExtractMsg stringToInteger
      = .ok (t, r)) :
    newBuf stringToInteger buffer s = (.ok t, { s with reader_ := r }) := by
  simp only [newBuf, setBuf_eq hin]
  rw [show ({ s.reader_ with buf_ := s.reader_.buf_ ++ buffer } :
    SandeshReader) = (s.append buffer).reader_ from rfl, hext]

/-- The first `ExtractMsg` of a call. -/
theorem newBuf_at (hsti : ParsesDigits stringToInteger)
    {done todo : List Payload} {rest buffer : Bytes} {s : Session}
    (h : At stringToInteger done todo rest s)
    (hpre : rest ++ buffer <+: stream todo) :
    ∃ t n, newBuf stringToInteger buffer s = (.ok t, { s.append buffer with
          reader_ := (s.append buffer).reader_.set_msg_length n })
      ∧ At stringToInteger done todo (rest ++ buffer) { s.append buffer with
          reader_ := (s.append buffer).reader_.set_msg_length n }
      ∧ Answers stringToInteger t todo (rest ++ buffer) { s.append buffer with
          reader_ := (s.append buffer).reader_.set_msg_length n } := by
  obtain ⟨t, n, hext, hat, hans⟩ := extract_at hsti (h.append hpre)
  exact ⟨t, n, newBuf_eq h.inside buffer hext, hat, hans⟩

/-- A call with the callback installed. -/
theorem onRead_at (hsti : ParsesDigits stringToInteger)
    {done todo : List Payload} {rest buffer : Bytes} {s : Session}
    (h : At stringToInteger done todo rest s) (hcb : s.cb_ = true)
    (hpre : rest ++ buffer <+: stream todo)
    (hcov : Covers stringToInteger s (.read buffer)) :
    ∃ s' done' todo' rest',
      (OnRead stringToInteger cb buffer).Runs s (.ok ()) s'
      ∧ done ++ todo = done' ++ todo'
      ∧ stream done ++ (rest ++ buffer) = stream done' ++ rest'
      ∧ At stringToInteger done' todo' rest' s' ∧ s'.cb_ = true
      ∧ Leaves cb s todo' rest' s' := by
  obtain ⟨t, n, hnew, hat, hans⟩ := newBuf_at hsti h hpre
  have hcovered : Covered t { s.append buffer with
      reader_ := (s.append buffer).reader_.set_msg_length n } := by
    intro hflag
    obtain ⟨-, hans⟩ := hans
    rw [hflag] at hans
    obtain ⟨p, todo', -, hdecl, hlen, hsize⟩ := hans
    rw [hlen]
    refine hcov hcb _ ?_ hsize
    rw [List.drop_append_of_le_length h.inside, h.buffered]
    exact hdecl
  obtain ⟨s', done', todo', rest', hloop, hps, hst, hat', hcb', hleaves⟩ :=
    loop_at hsti todo done _ _ t hat hans hcovered
  refine ⟨s', done', todo', rest', ?_, hps, hst, hat', hcb'.trans hcb, hleaves⟩
  show (OnRead stringToInteger cb buffer s).Ends _
  rw [OnRead, if_pos hcb]
  have hact : (Prog.act (newBuf stringToInteger buffer)).Runs s (.ok t)
      { s.append buffer with
        reader_ := (s.append buffer).reader_.set_msg_length n } := by
    rw [Prog.runs_act, hnew]
  exact hact.bind_ok hloop

end Sandesh.Framing
