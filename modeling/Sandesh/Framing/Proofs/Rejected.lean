/-
Rejected messages: a callback that may refuse any message, data that
keeps arriving after a refusal, and the close that at some point removes
the callback.

A refusal leaves `OnRead` with the buffer uncleared and `offset_` past
the refused frame. The next call appends to that buffer and compares its
size with the length of the frame at `offset_`, without subtracting
`offset_`, so it may cut a frame that has not arrived. `Covers`
(Stream.lean) is the condition on one call that excludes this; here a run
is shown to be in order and inside its buffer exactly when every call
meets it. One direction is the invariant `Follows`; the other is that an
uncovered call logs an incomplete extraction, and the log only grows.
-/
import Sandesh.Framing.Proofs.Log
import Sandesh.Framing.Proofs.Stream

namespace Sandesh.Framing

open Lib SandeshReader

variable {stringToInteger : Bytes → Nat} {cb : List Bytes → Bool}

-- ======================================================= covered calls

/-- The session follows the stream `ps`, the bytes of `evs` to come. Once
the callback is removed no more of the stream is kept. -/
def Follows (stringToInteger : Bytes → Nat) (ps : List Payload)
    (evs : List Event) (s : Session) : Prop :=
  ∃ done todo rest, ps = done ++ todo ∧ At stringToInteger done todo rest s
    ∧ (s.cb_ = true → rest ++ arriving evs <+: stream todo)

theorem follows_fresh {ps : List Payload} {evs : List Event}
    (h : arriving evs <+: stream ps) :
    Follows stringToInteger ps evs Session.fresh :=
  ⟨[], ps, [], rfl, at_fresh ps, fun _ => h⟩

/-- A covered event. -/
theorem follows_step (hsti : ParsesDigits stringToInteger)
    {ps : List Payload} {ev : Event} {evs : List Event} {s : Session}
    (h : Follows stringToInteger ps (ev :: evs) s)
    (hcov : Covers stringToInteger s ev) :
    ∃ s', (handle stringToInteger cb ev).Runs s (.ok ()) s'
      ∧ Follows stringToInteger ps evs s' := by
  obtain ⟨done, todo, rest, hps, hat, hpre⟩ := h
  cases ev with
  | removeCb =>
      refine ⟨{ s with cb_ := false }, ?_, done, todo, rest, hps, ?_, ?_⟩
      · rw [handle, Prog.runs_act]
      · exact ⟨hat.received, hat.inside, hat.buffered, hat.pending,
          hat.length_ok, hat.complete⟩
      · intro hcb
        cases hcb
  | read buffer =>
      by_cases hcb : s.cb_ = true
      · have hpre := hpre hcb
        rw [arriving, ← List.append_assoc] at hpre
        obtain ⟨s', done', todo', rest', hread, hps', hst, hat', -, -⟩ :=
          onRead_at hsti hat hcb ((List.prefix_append _ _).trans hpre) hcov
        refine ⟨s', hread, done', todo', rest', hps.trans hps', hat', ?_⟩
        intro _
        have hall : stream done ++ (rest ++ buffer ++ arriving evs)
            <+: stream done ++ stream todo :=
          (List.prefix_append_right_inj _).mpr hpre
        rw [← List.append_assoc, hst, ← stream_append, hps', stream_append,
          List.append_assoc, List.prefix_append_right_inj] at hall
        exact hall
      · refine ⟨_, onRead_removed hcb, done, todo, rest, hps, ?_, ?_⟩
        · exact ⟨hat.received, hat.inside, hat.buffered, hat.pending,
            hat.length_ok, hat.complete⟩
        · intro h
          exact absurd h hcb

-- ===================================================== uncovered calls

/-- An uncovered call logs an extraction that runs past its buffer. -/
theorem uncovered_cut {ps : List Payload} {ev : Event} {evs : List Event}
    {s s' : Session} {res : Except Fault Unit}
    (h : Follows stringToInteger ps (ev :: evs) s)
    (hcov : ¬ Covers stringToInteger s ev)
    (hruns : (handle stringToInteger cb ev).Runs s res s') :
    ∃ c ∈ s'.cuts, ¬ c.Complete := by
  obtain ⟨done, todo, rest, -, hat, -⟩ := h
  cases ev with
  | removeCb => exact absurd trivial hcov
  | read buffer =>
      simp only [Covers, not_forall] at hcov
      obtain ⟨hcb, n, hdecl, hsize, hout⟩ := hcov
      have hext := extractMsg_declared (inside_append hat.inside buffer)
        (lengthOk_append hat.inside hat.length_ok buffer) hdecl
      rw [show decide (n ≤ (s.append buffer).reader_.buf_.length) = true
        from decide_eq_true hsize] at hext
      have hnew := newBuf_eq hat.inside buffer hext
      let s₁ : Session := { s with
        reader_ := (s.append buffer).reader_.set_msg_length n }
      rw [onRead_installed hcb] at hruns
      have hact : (Prog.act (newBuf stringToInteger buffer)).Runs s
          (.ok (true, 0)) s₁ := by
        rw [Prog.runs_act, hnew]
      -- the first turn logs the cut, whatever comes of it
      have hlog : s₁.nextCut ∈ (turn stringToInteger cb (true, 0) s₁).2.cuts := by
        rw [turn_cuts]
        simp
      refine ⟨s₁.nextCut, ?_, hout⟩
      rcases Prog.runs_bind.mp hruns with ⟨t, s₂, hact', hloop⟩ | ⟨f, hact', -⟩
      · obtain ⟨ht, hs₂⟩ := hact'.unique hact
        injection ht with ht
        subst ht hs₂
        rcases Prog.runs_loop.mp hloop with ⟨t', s₃, hturn, hmore⟩
          | ⟨_, hturn, -⟩ | ⟨f, hturn, -⟩
        · rw [Prog.runs_act] at hturn
          rw [← hturn] at hlog
          exact (loop_cuts hmore).subset hlog
        · rw [Prog.runs_act] at hturn
          rwa [← hturn] at hlog
        · rw [Prog.runs_act] at hturn
          rwa [← hturn] at hlog
      · have := (hact'.unique hact).1
        cases this

-- ================================================================ runs

/-- On a stream of frames, with any answers of the callback, frames are
handed over in order and at most once, and every extraction lies inside
the buffer, exactly in the runs whose calls are all covered. -/
theorem rejected_in_order_iff (hsti : ParsesDigits stringToInteger)
    (ps : List Payload) (evs : List Event)
    (hstream : arriving evs <+: stream ps) :
    (∃ s, (run stringToInteger cb evs).Runs Session.fresh (.ok ()) s
        ∧ s.received <+: ps.map Payload.bytes ∧ ∀ c ∈ s.cuts, c.Complete)
      ↔ EachStep stringToInteger cb (Covers stringToInteger) evs
          Session.fresh := by
  have hfresh : Follows stringToInteger ps evs Session.fresh :=
    follows_fresh hstream
  constructor
  · intro hex
    obtain ⟨s, hruns, -, hall⟩ := hex
    exact eachStep_of_run (follows_step hsti) uncovered_cut evs hfresh hruns
      hall
  · intro hcov
    obtain ⟨s, hruns, done, todo, rest, hps, hat, -⟩ :=
      run_of_eachStep (follows_step hsti) evs hfresh hcov
    refine ⟨s, hruns, ?_, hat.complete⟩
    rw [hat.received, hps, List.map_append]
    exact List.prefix_append _ _

/-- A refusal of the first of two frames that arrive together, and then
the close. -/
theorem rejected_in_order_two :
    ∃ s, (run strtoul (fun _ => false)
        [.read (stream [⟨lit "a", by decide⟩, ⟨lit "bc", by decide⟩]),
          .removeCb]).Runs Session.fresh (.ok ()) s
      ∧ s.received <+: [lit "a", lit "bc"] ∧ ∀ c ∈ s.cuts, c.Complete :=
  (rejected_in_order_iff parsesDigits_strtoul
    [⟨lit "a", by decide⟩, ⟨lit "bc", by decide⟩] _
    (by simp [arriving])).mpr
    ⟨covers_of_offset_zero rfl _, fun _ _ => ⟨trivial, fun _ _ => trivial⟩⟩

/-- The first frame is refused; of the second only the open tag has
arrived. The buffer of 68 bytes is longer than the 40 declared, and the
cut from 39 on runs past its end. -/
theorem rejected_overruns :
    arriving [.read (envelope []), .read ((envelope (lit "a")).take 29)]
        <+: stream [⟨[], by decide⟩, ⟨lit "a", by decide⟩]
      ∧ ∃ s, (run strtoul (fun _ => false)
          [.read (envelope []), .read ((envelope (lit "a")).take 29)]).Runs
            Session.fresh (.error (.cut ⟨39, 40, 68⟩)) s
        ∧ ⟨39, 40, 68⟩ ∈ s.cuts ∧ ¬ Cut.Complete ⟨39, 40, 68⟩ := by
  refine ⟨by decide, _, ⟨2, rfl⟩, ?_, ?_⟩
  · exact List.mem_append_right _ (List.mem_singleton_self _)
  · show ¬ 39 + 40 ≤ 68
    omega

end Sandesh.Framing
