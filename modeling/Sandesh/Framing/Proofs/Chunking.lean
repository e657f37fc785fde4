/-
Chunking independence: however TCP cuts the bytes of a stream of frames,
a reader whose callback accepts everything hands over exactly the
messages, in order, and ends as it began.

The run invariant is `At` (Stream.lean) with the two facts that a
rejection would break: `offset_` is 0 between calls, so the size test of
`ExtractMsg` is exact, and what is buffered is less than the next frame.
When all bytes have arrived the second leaves no frame to come.
-/
import Sandesh.Framing.Proofs.Stream

namespace Sandesh.Framing

open Lib SandeshReader

variable {stringToInteger : Bytes → Nat}

/-- Between two calls of a session that rejects nothing. -/
structure Settled (stringToInteger : Bytes → Nat) (done todo : List Payload)
    (rest : Bytes) (s : Session) : Prop where
  at_ : At stringToInteger done todo rest s
  installed : s.cb_ = true
  start : s.reader_.offset_ = 0
  no_fail : s.num_recv_fail = 0
  less : ∀ p todo', todo = p :: todo' →
    rest.length < (envelope p.bytes).length

theorem settled_fresh (ps : List Payload) :
    Settled stringToInteger [] ps [] Session.fresh := by
  refine ⟨at_fresh ps, rfl, rfl, rfl, ?_⟩
  intro p todo' _
  rw [envelope_length, List.length_nil]
  omega

/-- One chunk. -/
theorem settled_step (hsti : ParsesDigits stringToInteger)
    {done todo : List Payload} {rest chunk : Bytes} {s : Session}
    (h : Settled stringToInteger done todo rest s)
    (hpre : rest ++ chunk <+: stream todo) :
    ∃ s' done' todo' rest',
      (OnRead stringToInteger (fun _ => true) chunk).Runs s (.ok ()) s'
      ∧ done ++ todo = done' ++ todo'
      ∧ stream done ++ (rest ++ chunk) = stream done' ++ rest'
      ∧ Settled stringToInteger done' todo' rest' s' := by
  obtain ⟨s', done', todo', rest', hruns, hps, hst, hat, hcb, hleaves⟩ :=
    onRead_at hsti h.at_ h.installed hpre (covers_of_offset_zero h.start _)
  rcases hleaves with ⟨hfail, hsettled⟩ | ⟨_, hrej⟩
  · obtain ⟨hzero, hless⟩ := hsettled h.start
    exact ⟨s', done', todo', rest', hruns, hps, hst, hat, hcb, hzero,
      hfail.trans h.no_fail, hless⟩
  · cases hrej

/-- A whole run: the invariant accounts for every byte that arrived. -/
theorem settled_run (hsti : ParsesDigits stringToInteger)
    (chunks : List Bytes) :
    ∀ {done todo : List Payload} {rest : Bytes} {s : Session},
      Settled stringToInteger done todo rest s →
      rest ++ chunks.flatten <+: stream todo →
      ∃ s' done' todo' rest',
        (run stringToInteger (fun _ => true) (chunks.map .read)).Runs s
          (.ok ()) s'
        ∧ done ++ todo = done' ++ todo'
        ∧ stream done ++ (rest ++ chunks.flatten) = stream done' ++ rest'
        ∧ Settled stringToInteger done' todo' rest' s' := by
  induction chunks with
  | nil =>
      intro done todo rest s h _
      refine ⟨s, done, todo, rest, ?_, rfl, by simp, h⟩
      exact Prog.runs_pure.mpr ⟨rfl, rfl⟩
  | cons chunk chunks ih =>
      intro done todo rest s h hpre
      rw [List.flatten_cons, ← List.append_assoc] at hpre
      obtain ⟨s₁, done₁, todo₁, rest₁, hread, hps₁, hst₁, h₁⟩ :=
        settled_step hsti h ((List.prefix_append _ _).trans hpre)
      have hpre₁ : rest₁ ++ chunks.flatten <+: stream todo₁ := by
        have hall : stream done ++ (rest ++ chunk ++ chunks.flatten)
            <+: stream done ++ stream todo :=
          (List.prefix_append_right_inj _).mpr hpre
        rw [← List.append_assoc, hst₁, ← stream_append, hps₁, stream_append,
          List.append_assoc, List.prefix_append_right_inj] at hall
        exact hall
      obtain ⟨s', done', todo', rest', hruns, hps, hst, h'⟩ := ih h₁ hpre₁
      refine ⟨s', done', todo', rest', ?_, hps₁.trans hps, ?_, h'⟩
      · exact hread.bind_ok hruns
      · rw [← hst, List.flatten_cons, ← List.append_assoc rest,
          ← List.append_assoc, hst₁, List.append_assoc]

/-- Every frame of the stream, cut anywhere, is handed to the callback
once and in order; no failure is counted; and the reader is fresh again.
Chunks may even be empty. -/
theorem chunking_independent (hsti : ParsesDigits stringToInteger)
    (ps : List Payload) (chunks : List Bytes)
    (hcut : chunks.flatten = stream ps) :
    ∃ s, (run stringToInteger (fun _ => true) (chunks.map .read)).Runs
        Session.fresh (.ok ()) s
      ∧ s.received = ps.map Payload.bytes
      ∧ s.num_recv_fail = 0
      ∧ s.reader_ = { buf_ := [], offset_ := 0, msg_length_ := npos } := by
  obtain ⟨s, done, todo, rest, hruns, hps, hst, h⟩ :=
    settled_run hsti chunks (settled_fresh ps)
      (by rw [List.nil_append, hcut])
  rw [stream_nil, List.nil_append, List.nil_append, hcut, show ps
    = done ++ todo from hps, stream_append, List.append_cancel_left_eq] at hst
  -- all bytes have arrived, so nothing can be to come
  have htodo : todo = [] := by
    cases todo with
    | nil => rfl
    | cons p todo' =>
        have hless := h.less p todo' rfl
        rw [← hst, stream_cons, List.length_append] at hless
        omega
  subst htodo
  rw [stream_nil] at hst
  subst hst
  have hdone : ps = done := by rw [show ps = done ++ [] from hps, List.append_nil]
  have hbuf : s.reader_.buf_ = [] := by
    have := h.at_.buffered
    rwa [h.start, List.drop_zero] at this
  have hlen : s.reader_.msg_length_ = npos := by
    by_contra hk
    have := (h.at_.length_ok hk).1
    rw [hbuf] at this
    simp at this
  refine ⟨s, hruns, ?_, h.no_fail, ?_⟩
  · rw [hdone]
    exact h.at_.received
  · calc s.reader_ = ⟨s.reader_.buf_, s.reader_.offset_,
          s.reader_.msg_length_⟩ := rfl
      _ = _ := by rw [hbuf, h.start, hlen]

/-- Two frames in three chunks, the first cut inside the open tag and the
second inside a payload. -/
theorem chunking_independent_three :
    ∃ s, (run strtoul (fun _ => true)
        (([(stream [⟨lit "a", by decide⟩, ⟨lit "bc", by decide⟩]).take 20,
          ((stream [⟨lit "a", by decide⟩, ⟨lit "bc", by decide⟩]).drop 20).take
            50,
          (stream [⟨lit "a", by decide⟩, ⟨lit "bc", by decide⟩]).drop 70]).map
          .read)).Runs Session.fresh (.ok ()) s
      ∧ s.received = [lit "a", lit "bc"]
      ∧ s.num_recv_fail = 0
      ∧ s.reader_ = { buf_ := [], offset_ := 0, msg_length_ := npos } :=
  chunking_independent parsesDigits_strtoul
    [⟨lit "a", by decide⟩, ⟨lit "bc", by decide⟩] _ (by decide)

end Sandesh.Framing
