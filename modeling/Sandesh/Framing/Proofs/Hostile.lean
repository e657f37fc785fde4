/-
Any bytes at all: what the reader cuts out of data that no writer framed.

The only length `ExtractMsgLength` refuses is 0, and the bounds of a
message are taken from the declared length without looking at it again:
a length below the 39 bytes of the two tags puts the end of the message
before its start. `HidesShortFrame` says of the bytes in the buffer that
the walk from frame to frame meets such a length. A run stays in range
exactly when no call finds a buffer that hides one: along the walk every
complete frame is cut in range (`loop_in_range`), and a short one is cut
backwards (`loop_short`). Nothing is assumed of `stringToInteger`.
-/
import Sandesh.Framing.Proofs.Log
import Sandesh.Framing.Proofs.Stream

namespace Sandesh.Framing

open Lib SandeshReader

variable {stringToInteger : Bytes → Nat}

-- ======================================================== short frames

/-- Following the declared lengths from the front of the buffer, one
meets a frame that is complete and shorter than its own two tags. -/
inductive HidesShortFrame (stringToInteger : Bytes → Nat) : Bytes → Prop
  | here {buf : Bytes} {n : Nat} (hn : Declares stringToInteger buf n)
      (short : n < sandesh_open_.length + sandesh_close_.length)
      (arrived : n ≤ buf.length) : HidesShortFrame stringToInteger buf
  | later {buf : Bytes} {n : Nat} (hn : Declares stringToInteger buf n)
      (room : sandesh_open_.length + sandesh_close_.length ≤ n)
      (arrived : n ≤ buf.length)
      (next : HidesShortFrame stringToInteger (buf.drop n)) :
      HidesShortFrame stringToInteger buf

/-- The condition on one call: the buffer with the new bytes hides no
short frame. -/
def NoShortFrame (stringToInteger : Bytes → Nat) (s : Session) :
    Event → Prop
  | .read buffer => s.cb_ = true →
      ¬ HidesShortFrame stringToInteger (s.reader_.buf_ ++ buffer)
  | .removeCb => True

-- ===================================================== one ExtractMsg

/-- What `ExtractMsg` answers about a buffer of any bytes, and the length
it leaves in the reader. -/
inductive Verdict (stringToInteger : Bytes → Nat) (r : SandeshReader) :
    Bool × Int → Prop
  | bad {result : Int} (neg : result < 0)
      (none : ∀ n, ¬ Declares stringToInteger r.buf_ n) :
      Verdict stringToInteger r (false, result)
  | entire (hn : Declares stringToInteger r.buf_ r.msg_length_)
      (arrived : r.msg_length_ ≤ r.buf_.length) :
      Verdict stringToInteger r (true, 0)
  | part (missing : ∀ n, Declares stringToInteger r.buf_ n →
      r.buf_.length < n) : Verdict stringToInteger r (false, 0)

/-- A reader between two frames of any bytes. -/
structure Clean (stringToInteger : Bytes → Nat) (r : SandeshReader) :
    Prop where
  start : r.offset_ = 0
  length_ok : r.LengthOk stringToInteger

theorem Clean.inside {r : SandeshReader} (h : Clean stringToInteger r) :
    r.offset_ ≤ r.buf_.length := by
  rw [h.start]
  exact Nat.zero_le _

theorem Clean.drop_eq {r : SandeshReader} (h : Clean stringToInteger r) :
    r.buf_.drop r.offset_ = r.buf_ := by
  rw [h.start, List.drop_zero]

/-- A reader that does not know the next length yet. -/
theorem clean_of_unknown {r : SandeshReader} (h : r.offset_ = 0)
    (hn : r.msg_length_ = npos) : Clean stringToInteger r := by
  refine ⟨h, ?_⟩
  intro hk
  exact absurd hn hk

theorem openTagLength_bad_neg {tag : Bytes} {result : Int}
    (h : openTagLength stringToInteger tag = .bad result) : result < 0 := by
  simp only [openTagLength] at h
  split at h
  · cases h
    decide
  · split at h
    · cases h
      decide
    · split at h
      · cases h
        decide
      · cases h

theorem extract_verdict {r : SandeshReader} (h : Clean stringToInteger r) :
    ∃ t n, r.ExtractMsg stringToInteger = .ok (t, r.set_msg_length n)
      ∧ Clean stringToInteger (r.set_msg_length n)
      ∧ Verdict stringToInteger (r.set_msg_length n) t := by
  by_cases hlen : r.buf_.length < 29
  · refine ⟨_, r.msg_length_, extractMsg_short h.inside h.length_ok ?_, h,
      .part ?_⟩
    · rwa [h.drop_eq]
    · intro n hn
      have := hn.1
      rw [sandesh_open_length] at this
      exact absurd hlen (Nat.not_lt.mpr this)
  · cases htag : openTagLength stringToInteger r.buf_ with
    | known n =>
        have hn : Declares stringToInteger r.buf_ n :=
          ⟨by rw [sandesh_open_length]; omega, htag⟩
        have hn' : Declares stringToInteger (r.buf_.drop r.offset_) n := by
          rwa [h.drop_eq]
        refine ⟨_, n, extractMsg_declared h.inside h.length_ok hn',
          ⟨h.start, fun _ => hn'⟩, ?_⟩
        by_cases hsize : n ≤ r.buf_.length
        · rw [decide_eq_true hsize]
          exact .entire hn hsize
        · rw [decide_eq_false hsize]
          refine .part ?_
          intro m hm
          obtain rfl := hm.unique hn
          exact Nat.lt_of_not_le hsize
    | bad result =>
        have hnone : ∀ n, ¬ Declares stringToInteger r.buf_ n := by
          intro n hn
          have := hn.2.symm.trans htag
          cases this
        -- a remembered length would have been declared
        have hk : r.msg_length_ = npos := by
          by_contra hk
          have := h.length_ok hk
          rw [h.drop_eq] at this
          exact hnone _ this
        have hknown : r.MsgLengthKnown = false := by
          simp [MsgLengthKnown, hk]
        have hext : r.ExtractMsgLength stringToInteger = .ok (.bad result) := by
          rw [extractMsgLength_eq h.inside (by rw [h.drop_eq]; omega),
            h.drop_eq, htag]
        refine ⟨(false, result), r.msg_length_, ?_, h,
          .bad (openTagLength_bad_neg htag) hnone⟩
        rw [ExtractMsg, hknown, hext]
        rfl
    | more =>
        -- the tag function never asks for more
        simp only [openTagLength] at htag
        split at htag
        · cases htag
        · split at htag
          · cases htag
          · split at htag
            · cases htag
            · cases htag

-- ============================================================ the loop

/-- An accepted message: the buffer is cleared, or what is left over is
the next buffer. -/
theorem afterMsg_clean {s : Session}
    (hin : s.reader_.offset_ ≤ s.reader_.buf_.length)
    (hn : s.reader_.msg_length_ = npos) :
    (∃ r, s.afterMsg stringToInteger = (.ok (.inr ()), { s with reader_ := r })
        ∧ s.reader_.buf_.drop s.reader_.offset_ = []
        ∧ Clean stringToInteger r)
      ∨ ∃ t r, s.afterMsg stringToInteger
          = (.ok (.inl t), { s with reader_ := r })
        ∧ r.buf_ = s.reader_.buf_.drop s.reader_.offset_
        ∧ Clean stringToInteger r ∧ Verdict stringToInteger r t := by
  by_cases hleft : s.reader_.LeftOver = true
  · have hnext : Clean stringToInteger (s.reader_.ReplaceBuf
        (s.reader_.buf_.drop s.reader_.offset_)) := clean_of_unknown rfl hn
    obtain ⟨t, n, hext, hclean, hverdict⟩ := extract_verdict hnext
    refine .inr ⟨t, _, ?_, rfl, hclean, hverdict⟩
    rw [Session.afterMsg, if_pos hleft, if_neg (by omega)]
    simp only [hext]
  · refine .inl ⟨s.reader_.clear, ?_, ?_, clean_of_unknown rfl hn⟩
    · rw [Session.afterMsg, if_neg hleft]
    · rw [leftOver_iff hin, ne_eq, not_not] at hleft
      exact hleft

/-- A turn on a complete frame with room for its tags. -/
theorem turn_entire {s : Session} (h : Clean stringToInteger s.reader_)
    (room : 39 ≤ s.reader_.msg_length_)
    (arrived : s.reader_.msg_length_ ≤ s.reader_.buf_.length) :
    s.nextCut.InRange
      ∧ ((∃ r, turn stringToInteger (fun _ => true) (true, 0) s
            = (.ok (.inr ()), { s.delivered with reader_ := r })
          ∧ s.reader_.buf_.drop s.reader_.msg_length_ = []
          ∧ Clean stringToInteger r)
        ∨ ∃ t r, turn stringToInteger (fun _ => true) (true, 0) s
            = (.ok (.inl t), { s.delivered with reader_ := r })
          ∧ r.buf_ = s.reader_.buf_.drop s.reader_.msg_length_
          ∧ Clean stringToInteger r ∧ Verdict stringToInteger r t) := by
  have hrange : s.nextCut.InRange := by
    simp only [Cut.InRange, Session.nextCut, h.start, sandesh_open_length,
      sandesh_close_length]
    omega
  have hturn : turn stringToInteger (fun _ => true) (true, 0) s
      = s.delivered.afterMsg stringToInteger := by
    simp [turn, hrange]
  have hoffset : s.delivered.reader_.offset_ = s.reader_.msg_length_ := by
    show s.reader_.offset_ + s.reader_.msg_length_ = _
    rw [h.start, Nat.zero_add]
  refine ⟨hrange, ?_⟩
  rw [hturn, ← hoffset]
  exact afterMsg_clean (by rw [hoffset]; exact arrived) rfl

/-- The turns of a call on a buffer that hides no short frame. The buffer
shrinks with every frame. -/
theorem loop_in_range (n : Nat) :
    ∀ {s : Session} {t : Bool × Int}, s.reader_.buf_.length = n →
      Clean stringToInteger s.reader_ → Verdict stringToInteger s.reader_ t →
      ¬ HidesShortFrame stringToInteger s.reader_.buf_ →
      (∀ c ∈ s.cuts, c.InRange) →
      ∃ s', (Prog.loop (fun t => Prog.act
          (turn stringToInteger (fun _ => true) t)) t).Runs s (.ok ()) s'
        ∧ Clean stringToInteger s'.reader_ ∧ ∀ c ∈ s'.cuts, c.InRange := by
  induction n using Nat.strongRecOn with
  | ind n ih =>
      intro s t hlen hclean hverdict hhides hcuts
      cases hverdict with
      | bad neg none =>
          refine ⟨{ s with reader_ := s.reader_.clear }.fail,
            Prog.Runs.leave (Prog.runs_act.mpr (by rw [turn, if_pos neg])),
            clean_of_unknown rfl ?_, hcuts⟩
          by_contra hk
          have := hclean.length_ok hk
          rw [hclean.drop_eq] at this
          exact none _ this
      | part missing =>
          exact ⟨s, Prog.Runs.leave (Prog.runs_act.mpr (by simp [turn])),
            hclean, hcuts⟩
      | entire hn arrived =>
          have room : 39 ≤ s.reader_.msg_length_ := by
            by_contra hshort
            exact hhides (.here hn (by simpa using hshort) arrived)
          obtain ⟨hrange, hnext⟩ := turn_entire hclean room arrived
          have hcuts' : ∀ c ∈ s.delivered.cuts, c.InRange := by
            intro c hc
            rcases List.mem_append.mp hc with hc | hc
            · exact hcuts c hc
            · rwa [List.mem_singleton.mp hc]
          rcases hnext with ⟨r, hturn, -, hclean'⟩
            | ⟨t', r, hturn, hbuf, hclean', hverdict'⟩
          · exact ⟨_, Prog.Runs.leave (Prog.runs_act.mpr hturn.symm), hclean',
              hcuts'⟩
          · have hhides' : ¬ HidesShortFrame stringToInteger r.buf_ := by
              intro h
              rw [hbuf] at h
              exact hhides (.later hn (by simpa using room) arrived h)
            obtain ⟨s', hruns, hrest⟩ := ih r.buf_.length
              (by rw [hbuf, List.length_drop]; omega)
              (s := { s.delivered with reader_ := r }) rfl hclean' hverdict'
              hhides' hcuts'
            exact ⟨s', Prog.Runs.again (Prog.runs_act.mpr hturn.symm) hruns,
              hrest⟩

/-- A hidden short frame is cut out of range. -/
theorem loop_short {buf : Bytes}
    (h : HidesShortFrame stringToInteger buf) :
    ∀ {s s' : Session} {t : Bool × Int} {res : Except Fault Unit},
      s.reader_.buf_ = buf → Clean stringToInteger s.reader_ →
      Verdict stringToInteger s.reader_ t →
      (Prog.loop (fun t => Prog.act
        (turn stringToInteger (fun _ => true) t)) t).Runs s res s' →
      ∃ c ∈ s'.cuts, ¬ c.InRange := by
  induction h with
  | here hn short arrived =>
      intro s s' t res hbuf hclean hverdict hruns
      subst hbuf
      cases hverdict with
      | bad neg none => exact absurd hn (none _)
      | part missing => exact absurd (missing _ hn) (Nat.not_lt.mpr arrived)
      | entire hn' arrived' =>
          obtain rfl := hn.unique hn'
          have hbad : ¬ s.nextCut.InRange := by
            simp only [sandesh_open_length, sandesh_close_length] at short
            simp only [Cut.InRange, Session.nextCut, hclean.start,
              sandesh_open_length, sandesh_close_length]
            omega
          have hturn : (Prog.act (turn stringToInteger (fun _ => true)
              (true, 0))).Runs s (.error (.cut s.nextCut))
              { s with cuts := s.cuts ++ [s.nextCut] } := by
            rw [Prog.runs_act]
            simp [turn, hbad]
          obtain ⟨-, rfl⟩ := hruns.unique hturn.stop
          exact ⟨s.nextCut, by simp, hbad⟩
  | later hn room arrived next ih =>
      intro s s' t res hbuf hclean hverdict hruns
      subst hbuf
      cases hverdict with
      | bad neg none => exact absurd hn (none _)
      | part missing => exact absurd (missing _ hn) (Nat.not_lt.mpr arrived)
      | entire hn' arrived' =>
          obtain rfl := hn.unique hn'
          obtain ⟨-, hnext⟩ := turn_entire hclean (by simpa using room) arrived
          rcases hnext with ⟨r, -, hempty, -⟩
            | ⟨t', r, hturn, hbuf, hclean', hverdict'⟩
          · -- nothing is left over that could hide anything
            rw [hempty] at next
            cases next with
            | here hn => exact absurd hn.1 (by simp)
            | later hn => exact absurd hn.1 (by simp)
          · rcases Prog.runs_loop.mp hruns with ⟨t₁, s₁, hb, hl⟩ | ⟨_, hb, -⟩
              | ⟨_, hb, -⟩
            · rw [Prog.runs_act, hturn, Prod.mk.injEq] at hb
              obtain ⟨ht, rfl⟩ := hb
              injection ht with ht
              injection ht with ht
              subst ht
              exact ih hbuf hclean' hverdict' hl
            · rw [Prog.runs_act, hturn] at hb
              cases hb
            · rw [Prog.runs_act, hturn] at hb
              cases hb

-- =========================================================== one call

/-- Between two calls. -/
def InRangeSoFar (stringToInteger : Bytes → Nat) (s : Session) : Prop :=
  Clean stringToInteger s.reader_ ∧ ∀ c ∈ s.cuts, c.InRange

/-- The first `ExtractMsg` of a call. -/
theorem newBuf_verdict {s : Session} (h : Clean stringToInteger s.reader_)
    (buffer : Bytes) :
    ∃ t r, newBuf stringToInteger buffer s = (.ok t, { s with reader_ := r })
      ∧ r.buf_ = s.reader_.buf_ ++ buffer ∧ Clean stringToInteger r
      ∧ Verdict stringToInteger r t := by
  obtain ⟨t, n, hext, hclean, hverdict⟩ := extract_verdict
    (r := (s.append buffer).reader_)
    ⟨h.start, lengthOk_append h.inside h.length_ok buffer⟩
  exact ⟨t, _, newBuf_eq h.inside buffer hext, rfl, hclean, hverdict⟩

theorem in_range_step {ev : Event} {s : Session}
    (h : InRangeSoFar stringToInteger s)
    (hshort : NoShortFrame stringToInteger s ev) :
    ∃ s', (handle stringToInteger (fun _ => true) ev).Runs s (.ok ()) s'
      ∧ InRangeSoFar stringToInteger s' := by
  obtain ⟨hclean, hcuts⟩ := h
  cases ev with
  | removeCb =>
      refine ⟨{ s with cb_ := false }, ?_, hclean, hcuts⟩
      rw [handle, Prog.runs_act]
  | read buffer =>
      by_cases hcb : s.cb_ = true
      · obtain ⟨t, r, hnew, hbuf, hclean', hverdict⟩ :=
          newBuf_verdict hclean buffer
        have hact : (Prog.act (newBuf stringToInteger buffer)).Runs s (.ok t)
            { s with reader_ := r } := by
          rw [Prog.runs_act, hnew]
        obtain ⟨s', hloop, hs'⟩ := loop_in_range r.buf_.length
          (s := { s with reader_ := r }) rfl hclean' hverdict
          (by rw [hbuf]; exact hshort hcb) hcuts
        exact ⟨s', (onRead_installed hcb).mpr (hact.bind_ok hloop), hs'⟩
      · exact ⟨_, onRead_removed hcb, hclean, hcuts⟩

theorem short_step {ev : Event} {s s' : Session} {res : Except Fault Unit}
    (h : InRangeSoFar stringToInteger s)
    (hshort : ¬ NoShortFrame stringToInteger s ev)
    (hruns : (handle stringToInteger (fun _ => true) ev).Runs s res s') :
    ∃ c ∈ s'.cuts, ¬ c.InRange := by
  cases ev with
  | removeCb => exact absurd trivial hshort
  | read buffer =>
      simp only [NoShortFrame, not_forall, not_not] at hshort
      obtain ⟨hcb, hhides⟩ := hshort
      obtain ⟨t, r, hnew, hbuf, hclean', hverdict⟩ :=
        newBuf_verdict h.1 buffer
      rw [onRead_installed hcb] at hruns
      rcases Prog.runs_bind.mp hruns with ⟨t', s₁, hact, hloop⟩ | ⟨f, hact, -⟩
      · rw [Prog.runs_act, hnew, Prod.mk.injEq] at hact
        obtain ⟨ht, rfl⟩ := hact
        injection ht with ht
        subst ht
        exact loop_short hhides hbuf hclean' hverdict hloop
      · rw [Prog.runs_act, hnew] at hact
        cases hact

-- ================================================================ runs

/-- Whatever bytes arrive in whatever chunks, a run of a session that
accepts everything is cut in range throughout exactly when no call finds
a short frame in its buffer. -/
theorem hostile_in_range_iff (stringToInteger : Bytes → Nat)
    (evs : List Event) :
    (∃ s, (run stringToInteger (fun _ => true) evs).Runs Session.fresh
        (.ok ()) s ∧ ∀ c ∈ s.cuts, c.InRange)
      ↔ EachStep stringToInteger (fun _ => true)
          (NoShortFrame stringToInteger) evs Session.fresh := by
  have hfresh : InRangeSoFar stringToInteger Session.fresh := by
    refine ⟨clean_of_unknown rfl rfl, ?_⟩
    intro c hc
    exact absurd hc List.not_mem_nil
  constructor
  · intro hex
    obtain ⟨s, hruns, hall⟩ := hex
    exact eachStep_of_run (I := fun _ s => InRangeSoFar stringToInteger s)
      in_range_step short_step evs hfresh hruns hall
  · intro hshort
    obtain ⟨s, hruns, -, hcuts⟩ := run_of_eachStep
      (I := fun _ s => InRangeSoFar stringToInteger s) in_range_step evs
      hfresh hshort
    exact ⟨s, hruns, hcuts⟩

/-- An open tag that declares 5 bytes: the message would run from 29 back
to -5. -/
theorem hostile_runs_backwards :
    ∃ s, (run strtoul (fun _ => true)
        [.read (lit "<sandesh length=\"0000000005\">")]).Runs Session.fresh
          (.error (.cut ⟨0, 5, 29⟩)) s
      ∧ ⟨0, 5, 29⟩ ∈ s.cuts ∧ ¬ Cut.InRange ⟨0, 5, 29⟩ := by
  refine ⟨_, ⟨2, rfl⟩, ?_, by decide⟩
  exact List.mem_append_right _ (List.mem_singleton_self _)

end Sandesh.Framing
