/-
What becomes of a binary message that is cut short.

The reader cannot tell the end of its buffer from the bytes that its
variables held before. So when these happen to be the rest of the message,
a cut message is read as if it were whole, and its whole length is counted,
which is more than there was (`receive_accepts`). A buffer that ends with a
message is read exactly (`receive_exact`). Hence the results are as they
should be exactly where nothing is cut.

For a buffer of any bytes, `Leads` says how far the loop of
`ReceiveBinaryMsg` can get in it, by the grammar of the messages that the
receiver knows: a name that it does not know and a negative sum end the loop,
and only the last message can go over the end of the buffer
(`receive_bounded`).
-/
import Sandesh.Binary.Proofs.Grammar

namespace Sandesh.Binary.Cpp

open Lib C
open Lib.Prog (Runs runs_act runs_pure runs_throw runs_bind)

-- ============================================================= messages

/-- A sandesh as it is written: its name, and the pieces after it. -/
structure Message where
  name : Bytes
  pieces : List Piece

/-- Every piece of a message, the name first. -/
def Message.all (m : Message) : List Piece := .sandeshBegin m.name :: m.pieces

/-- A message as bytes. -/
def Message.wire (m : Message) : Bytes := m.all.flatMap Piece.wire

/-- Messages in a row. -/
def wires (ms : List Message) : Bytes := ms.flatMap Message.wire

/-- After these values the reader makes the calls that go with the pieces,
and is done. -/
def Follows (next : Next) : List Value → List Piece → Prop
  | vals, [] => next vals = none
  | vals, p :: ps => next vals = some p.call ∧ Follows next (vals ++ [p.value]) ps

/-- The reader makes the calls that go with the message, and every piece
fits. -/
structure Readable (next : Next) (m : Message) : Prop where
  follows : Follows next [] m.all
  fits : ∀ p ∈ m.all, p.Fits

/-- The receiver knows the message. -/
def Known (factory : Bytes → Option Next) (m : Message) : Prop :=
  ∃ next, factory m.name = some next ∧ Readable next m

/-- A message that is known is one that its `Read` goes over. -/
theorem Follows.reading {next : Next} {ps : List Piece} (hfits : ∀ p ∈ ps, p.Fits)
    {vals : List Value} (h : Follows next vals ps) :
    Reading next vals (ps.flatMap Piece.wire) := by
  induction ps generalizing vals with
  | nil => exact .done h
  | cons p ps ih =>
      obtain ⟨hnext, hfollows⟩ := h
      have hp := hfits p List.mem_cons_self
      rw [List.flatMap_cons]
      exact .call hnext (Piece.takes_wire hp) (p.wire_lt hp)
        (ih (fun q hq => hfits q (List.mem_cons_of_mem p hq)) hfollows)

/-- A readable message is read from its bytes. -/
theorem Readable.reading {next : Next} {m : Message} (h : Readable next m) :
    Reading next [] m.wire :=
  h.follows.reading h.fits

-- ====================================================== from the buffer

/-- Where the bytes come from when the buffer ends early: `fill` is what is
left of `bs`. -/
theorem comparable_append {buf bs : Bytes} (h : Comparable buf bs) :
    buf ++ bs.drop buf.length = bs ++ buf.drop bs.length := by
  rcases h with ⟨t, rfl⟩ | ⟨t, rfl⟩
  · rw [List.drop_left, List.drop_of_length_le, List.append_nil]
    rw [List.length_append]
    exact Nat.le_add_right _ _
  · rw [List.drop_left, List.drop_of_length_le, List.append_nil]
    rw [List.length_append]
    exact Nat.le_add_right _ _

/-- The buffer the reader starts with. -/
theorem runs_openBuffer (buf : Bytes) (s : Input) :
    (openBuffer buf).Runs s (.ok ()) { s with buffer := .ofBytes buf } :=
  runs_act.mpr rfl

/-- What is taken past the end of the buffer is taken from the stale bytes. -/
theorem taken_stale {buf bs w : Bytes} {s : Input}
    (hcmp : Comparable buf bs) (hbuf : s.buffer = .ofBytes buf)
    (hstale : s.stale = bs.drop buf.length ++ w) :
    inputSource.stream s = bs ++ (buf.drop bs.length ++ w) ∧
      ∀ s', inputSource.taken s bs s' → s'.stale = w := by
  have hstream : inputSource.stream s = bs ++ (buf.drop bs.length ++ w) := by
    show s.buffer.unread ++ s.stale = _
    rw [hbuf, Buffer.unread_ofBytes, hstale, ← List.append_assoc,
      comparable_append hcmp, List.append_assoc]
  refine ⟨hstream, ?_⟩
  rintro s' ⟨htaken, hleft⟩
  change inputSource.stream s = _ at htaken
  rw [hbuf, Buffer.unread_ofBytes] at hleft
  rw [hstream, hleft] at htaken
  exact (List.append_cancel_left (List.append_cancel_left htaken)).symm

/-- A generated `Read` over a buffer that agrees with bytes of its grammar. -/
theorem read_buffer {next : Next} {buf bs w : Bytes} {s : Input}
    (hbs : Reading next [] bs) (hcmp : Comparable buf bs)
    (hbuf : s.buffer = .ofBytes buf) (hstale : s.stale = bs.drop buf.length ++ w) :
    ∃ s', (Read next).Runs s (.ok (i32 bs.length)) s' ∧ s'.stale = w := by
  obtain ⟨hstream, hrest⟩ := taken_stale hcmp hbuf hstale
  have hzero : i32 0 = 0 := i32_eq (by decide) (by decide)
  obtain ⟨s', hrun, ht⟩ := hbs.runs (x := 0) hstream
  rw [hzero, Int.zero_add] at hrun
  exact ⟨s', hrun, hrest s' ht⟩

/-- The end of `ReadBinary` and of `ReceiveBinaryMsgOne`. -/
theorem runs_returned {xfer : Int} {s : Input} (h : 0 ≤ xfer) :
    (if xfer < 0 then Prog.throw xfer else pure xfer : Prog Input Int Int).Runs s
      (.ok xfer) s := by
  rw [if_neg (Int.not_lt.mpr h)]
  exact runs_pure.mpr ⟨rfl, rfl⟩

/-- A message that agrees with the buffer is read whole, past the buffer's
end where need be. -/
theorem readBinary_buffer {next : Next} {buf bs w : Bytes} {s : Input}
    (hbs : Reading next [] bs) (hpos : 0 ≤ i32 bs.length)
    (hcmp : Comparable buf bs) (hstale : s.stale = bs.drop buf.length ++ w) :
    ∃ s', (ReadBinary next buf).Runs s (.ok (i32 bs.length)) s' ∧ s'.stale = w := by
  obtain ⟨s', hrun, hw⟩ := read_buffer hbs hcmp
    (s := { s with buffer := .ofBytes buf }) rfl hstale
  exact ⟨s', (runs_openBuffer buf s).bind_ok (hrun.bind_ok (runs_returned hpos)), hw⟩

/-- The name and the message that `ReceiveBinaryMsgOne` reads from the start
of a buffer, where they may go over its end. -/
structure Turn (factory : Bytes → Option Next) (buf name bs : Bytes) : Prop where
  short : (be 4 name.length ++ name).length < 2 ^ 31
  here : Comparable buf (be 4 name.length ++ name)
  known : ∃ next, factory name = some next ∧ Reading next [] bs
  agrees : Comparable buf bs
  pos : 0 ≤ i32 bs.length

/-- The bytes that a turn misses: those of the name, and then those of all
of the message. -/
def missed (buf name bs : Bytes) : Bytes :=
  (be 4 name.length ++ name).drop buf.length ++ bs.drop buf.length

/-- One turn reads the name and the message, past the end where need be. -/
theorem Turn.runs {factory : Bytes → Option Next} {buf name bs w : Bytes}
    {s : Input} (h : Turn factory buf name bs)
    (hstale : s.stale = missed buf name bs ++ w) :
    ∃ s', (ReceiveBinaryMsgOne factory buf).Runs s (.ok (i32 bs.length)) s' ∧
      s'.stale = w := by
  obtain ⟨next, hnext, hbs⟩ := h.known
  have hshort := h.short
  rw [List.length_append, length_be] at hshort
  -- the name is read from the start of the buffer, then all of it is again
  obtain ⟨hstream, hrest⟩ := taken_stale (s := { s with buffer := .ofBytes buf })
    h.here rfl (hstale.trans (List.append_assoc _ _ _))
  obtain ⟨s₁, hrun₁, ht⟩ := perform_reads (reads_string (by omega)) hstream h.short
  obtain ⟨s₂, hrun₂, hw⟩ := read_buffer hbs h.agrees
    (s := { s₁ with buffer := .ofBytes buf }) rfl (hrest s₁ ht)
  refine ⟨s₂, (runs_openBuffer buf s).bind_ok (hrun₁.bind_ok ?_), hw⟩
  simp only [hnext]
  exact (runs_openBuffer buf s₁).bind_ok (hrun₂.bind_ok (runs_returned h.pos))

/-- The name is the first piece of the message. -/
theorem Message.wire_eq (m : Message) :
    m.wire = (be 4 m.name.length ++ m.name) ++ m.pieces.flatMap Piece.wire :=
  List.flatMap_cons

/-- A message that is known, at a buffer that agrees with it. -/
theorem Known.turn {factory : Bytes → Option Next} {m : Message} {buf : Bytes}
    (hm : Known factory m) (hlt : m.wire.length < 2 ^ 31)
    (hcmp : Comparable buf m.wire) : Turn factory buf m.name m.wire := by
  obtain ⟨next, hnext, hread⟩ := hm
  have hfits := hread.fits (.sandeshBegin m.name) List.mem_cons_self
  refine ⟨Piece.wire_lt hfits, ?_, ⟨next, hnext, hread.reading⟩, hcmp, ?_⟩
  · rw [m.wire_eq] at hcmp
    exact hcmp.left
  · rw [i32_eq (by omega) (by omega)]
    exact Int.natCast_nonneg _

-- ============================================================= the loop

section Loop

variable {factory : Bytes → Option Next} {buf : Bytes}

/-- The first message and the rest. -/
theorem wires_cons (m : Message) (ms : List Message) :
    wires (m :: ms) = m.wire ++ wires ms := List.flatMap_cons

/-- Two sequences of messages. -/
theorem wires_append (ms₁ ms₂ : List Message) :
    wires (ms₁ ++ ms₂) = wires ms₁ ++ wires ms₂ := List.flatMap_append

/-- No message is empty. -/
theorem Message.wire_pos (m : Message) : 0 < m.wire.length := by
  rw [m.wire_eq, List.length_append, List.length_append, length_be]
  omega

/-- A turn of the loop. -/
theorem Turn.again {xfer : Nat} {name bs w : Bytes} {s : Input}
    (h : Turn factory (buf.drop xfer) name bs) (hx : xfer < buf.length)
    (hstale : s.stale = missed (buf.drop xfer) name bs ++ w) :
    ∃ s', (receiveNext factory buf xfer).Runs s
        (.ok (.inl (u32 (xfer + i32 bs.length)))) s' ∧ s'.stale = w := by
  obtain ⟨s', hrun, hw⟩ := h.runs hstale
  refine ⟨s', ?_, hw⟩
  unfold receiveNext
  rw [if_pos hx]
  refine hrun.bind_ok ?_
  rw [if_neg (Int.not_lt.mpr h.pos)]
  exact runs_pure.mpr ⟨rfl, rfl⟩

/-- A turn at a place where a known message starts. -/
theorem receive_turn {m : Message} {xfer : Nat} {w : Bytes} {s : Input}
    (hm : Known factory m) (hx : xfer < buf.length)
    (hlt : xfer + m.wire.length < 2 ^ 31)
    (hcmp : Comparable (buf.drop xfer) m.wire)
    (hstale : s.stale = missed (buf.drop xfer) m.name m.wire ++ w) :
    ∃ s', (receiveNext factory buf xfer).Runs s
        (.ok (.inl (xfer + m.wire.length))) s' ∧ s'.stale = w := by
  have hsum : u32 (xfer + i32 m.wire.length) = xfer + m.wire.length := by
    rw [i32_eq (by omega) (by omega)]
    exact u32_nat (n := xfer + m.wire.length) (by omega)
  rw [← hsum]
  exact (hm.turn (by omega) hcmp).again hx hstale

/-- Nothing is missed of a message that is there. -/
theorem Message.missed_whole {m : Message} {buf : Bytes} (h : m.wire <+: buf) :
    missed buf m.name m.wire = [] := by
  have hle := h.length_le
  have hname : (be 4 m.name.length ++ m.name).length ≤ m.wire.length := by
    rw [m.wire_eq]
    exact (List.prefix_append _ _).length_le
  rw [missed, List.drop_of_length_le (Nat.le_trans hname hle),
    List.drop_of_length_le hle, List.append_nil]

/-- The loop goes past messages that are there. -/
theorem receive_messages {ms : List Message} (hms : ∀ m ∈ ms, Known factory m)
    {xfer : Nat} {rest : Bytes} {s : Input}
    (hbuf : buf.drop xfer = wires ms ++ rest)
    (hlt : xfer + (wires ms).length < 2 ^ 31) :
    ∃ s₁, s₁.stale = s.stale ∧ ∀ res s',
      (Prog.loop (receiveNext factory buf) (xfer + (wires ms).length)).Runs s₁ res s' →
      (Prog.loop (receiveNext factory buf) xfer).Runs s res s' := by
  induction ms generalizing xfer s with
  | nil => exact ⟨s, rfl, fun _ _ h => h⟩
  | cons m ms ih =>
      rw [wires_cons, List.append_assoc] at hbuf
      rw [wires_cons, List.length_append] at hlt
      have hpre : m.wire <+: buf.drop xfer := ⟨_, hbuf.symm⟩
      have hx : xfer < buf.length := by
        have hle := hpre.length_le
        have hpos := m.wire_pos
        rw [List.length_drop] at hle
        omega
      obtain ⟨s₁, hturn, hs₁⟩ := receive_turn (s := s) (w := s.stale)
        (hms m List.mem_cons_self) hx (by omega) (.inr hpre)
        (by rw [Message.missed_whole hpre, List.nil_append])
      have hbuf₁ : buf.drop (xfer + m.wire.length) = wires ms ++ rest := by
        rw [← List.drop_drop, hbuf, List.drop_left]
      obtain ⟨s₂, hs₂, hgo⟩ := ih (fun q hq => hms q (List.mem_cons_of_mem m hq))
        (s := s₁) hbuf₁ (by omega)
      refine ⟨s₂, hs₂.trans hs₁, fun res s' h => hturn.again (hgo res s' ?_)⟩
      rwa [wires_cons, List.length_append, ← Nat.add_assoc] at h

/-- The loop ends once the whole buffer has been counted. -/
theorem receive_leaves {xfer : Nat} {s : Input} (hx : buf.length ≤ xfer)
    (hlt : xfer < 2 ^ 31) :
    (Prog.loop (receiveNext factory buf) xfer).Runs s (.ok (xfer : Int)) s := by
  refine Runs.leave ?_
  unfold receiveNext
  rw [if_neg (Nat.not_lt.mpr hx), i32_eq (by omega) (by omega)]
  exact runs_pure.mpr ⟨rfl, rfl⟩

/-- Messages that are all there are read exactly. -/
theorem receive_exact {ms : List Message} (hms : ∀ m ∈ ms, Known factory m)
    (hlt : (wires ms).length < 2 ^ 31) (s : Input) :
    ∃ s', (ReceiveBinaryMsg factory (wires ms)).Runs s
      (.ok ((wires ms).length : Int)) s' := by
  have hbuf : (wires ms).drop 0 = wires ms ++ [] := by
    rw [List.drop_zero, List.append_nil]
  obtain ⟨s₁, -, hgo⟩ := receive_messages (s := s) hms hbuf (by omega)
  rw [Nat.zero_add] at hgo
  exact ⟨s₁, hgo _ _ (receive_leaves (Nat.le_refl _) hlt)⟩

/-- A last message that is cut is read as if it were whole, where the stale
bytes are the missed ones. -/
theorem receive_accepts {ms : List Message} {m : Message}
    (hms : ∀ q ∈ ms, Known factory q) (hm : Known factory m) {k : Nat}
    (hpos : 0 < k) (hk : k < m.wire.length)
    (hlt : (wires ms).length + m.wire.length < 2 ^ 31) :
    ∃ s s', (ReceiveBinaryMsg factory (wires ms ++ m.wire.take k)).Runs s
      (.ok (((wires ms).length + m.wire.length : Nat) : Int)) s' := by
  let s : Input := ⟨.ofBytes [], missed (m.wire.take k) m.name m.wire⟩
  have hbuf : (wires ms ++ m.wire.take k).drop 0 = wires ms ++ m.wire.take k :=
    List.drop_zero
  obtain ⟨s₁, hs₁, hgo⟩ := receive_messages (s := s) hms hbuf (by omega)
  rw [Nat.zero_add] at hgo
  have hlen : (wires ms ++ m.wire.take k).length = (wires ms).length + k := by
    rw [List.length_append, List.length_take_of_le (by omega)]
  have hcmp : Comparable ((wires ms ++ m.wire.take k).drop (wires ms).length)
      m.wire := by
    rw [List.drop_left]
    exact .inl (List.take_prefix _ _)
  obtain ⟨s₂, hturn, -⟩ := receive_turn (s := s₁) (w := []) hm
    (by omega) hlt hcmp (by rw [List.drop_left, List.append_nil]; exact hs₁)
  refine ⟨s, s₂, hgo _ _ (hturn.again (receive_leaves ?_ hlt))⟩
  omega

end Loop

-- ============================================================ the results

/-- The buffer is refused, whatever the stale bytes are. -/
def Rejects (f : Prog Input Int Int) : Prop :=
  ∀ s res s', f.Runs s res s' → result res < 0

/-- No more is counted than there was. -/
def Bounded (f : Prog Input Int Int) (n : Nat) : Prop :=
  ∀ s res s', f.Runs s res s' → 0 ≤ result res → result res ≤ n

/-- The first `k` bytes end with a message. -/
def Boundary (ms : List Message) (k : Nat) : Prop :=
  ∃ j, k = (wires (ms.take j)).length

/-- A result that is a count of bytes is a bound. -/
theorem bounded_of_runs {f : Prog Input Int Int} {n : Nat}
    (h : ∀ s, ∃ s', f.Runs s (.ok (n : Int)) s') : Bounded f n := by
  intro s res s' hrun _
  obtain ⟨s₁, hexact⟩ := h s
  rw [(hrun.unique hexact).1]
  exact Int.le_refl _

/-- And no smaller one will do. -/
theorem not_bounded_of_runs {f : Prog Input Int Int} {n k : Nat} (hlt : k < n)
    (h : ∃ s s', f.Runs s (.ok (n : Int)) s') : ¬ Bounded f k := by
  intro hbounded
  obtain ⟨s, s', hrun⟩ := h
  have hle : (n : Int) ≤ k := hbounded s _ s' hrun (Int.natCast_nonneg n)
  omega

/-- A result that is not negative rejects nothing. -/
theorem not_rejects_of_runs {f : Prog Input Int Int} {n : Nat}
    (h : ∃ s s', f.Runs s (.ok (n : Int)) s') : ¬ Rejects f := by
  intro hrejects
  obtain ⟨s, s', hrun⟩ := h
  have hneg : (n : Int) < 0 := hrejects s _ s' hrun
  omega

/-- A prefix ends with a message or inside one. -/
theorem boundary_or_cut {ms : List Message} {k : Nat} (hk : k ≤ (wires ms).length) :
    Boundary ms k ∨ ∃ ms₁ m ms₂ j, ms = ms₁ ++ m :: ms₂ ∧ 0 < j ∧
      j < m.wire.length ∧ k = (wires ms₁).length + j := by
  induction ms generalizing k with
  | nil =>
      refine .inl ⟨0, ?_⟩
      exact Nat.le_zero.mp hk
  | cons m ms ih =>
      rw [wires_cons, List.length_append] at hk
      by_cases hzero : k = 0
      · exact .inl ⟨0, hzero⟩
      · by_cases hin : k < m.wire.length
        · exact .inr ⟨[], m, ms, k, rfl, Nat.pos_of_ne_zero hzero, hin,
            (Nat.zero_add k).symm⟩
        · rcases ih (k := k - m.wire.length) (by omega) with
            ⟨j, hj⟩ | ⟨ms₁, q, ms₂, j, rfl, hpos, hlt, hj⟩
          · refine .inl ⟨j + 1, ?_⟩
            rw [List.take_succ_cons, wires_cons, List.length_append]
            omega
          · refine .inr ⟨m :: ms₁, q, ms₂, j, rfl, hpos, hlt, ?_⟩
            rw [wires_cons, List.length_append]
            omega

/-- A cut between two messages. -/
theorem take_boundary (ms : List Message) (j : Nat) :
    (wires ms).take (wires (ms.take j)).length = wires (ms.take j) := by
  have hsplit : wires ms = wires (ms.take j) ++ wires (ms.drop j) := by
    rw [← wires_append, List.take_append_drop]
  conv => lhs; arg 2; rw [hsplit]
  exact List.take_left

/-- The bytes of a cut inside a message. -/
theorem take_cut {ms₁ ms₂ : List Message} {m : Message} {j : Nat}
    (hj : j < m.wire.length) :
    (wires (ms₁ ++ m :: ms₂)).take ((wires ms₁).length + j)
      = wires ms₁ ++ m.wire.take j := by
  rw [wires_append, wires_cons, List.take_length_add_append,
    List.take_append_of_le_length (by omega)]

/-- Both halves hold of a prefix of known messages exactly where it ends
with one of them. -/
theorem receive_bounded_iff {factory : Bytes → Option Next} {ms : List Message}
    (hms : ∀ m ∈ ms, Known factory m) (hlt : (wires ms).length < 2 ^ 31)
    {k : Nat} (hk : k ≤ (wires ms).length) :
    ((¬ Boundary ms k → Rejects (ReceiveBinaryMsg factory ((wires ms).take k))) ∧
      Bounded (ReceiveBinaryMsg factory ((wires ms).take k)) k) ↔ Boundary ms k := by
  constructor
  · rintro ⟨-, hbounded⟩
    rcases boundary_or_cut hk with hb | ⟨ms₁, m, ms₂, j, rfl, hpos, hj, rfl⟩
    · exact hb
    · rw [wires_append, wires_cons, List.length_append, List.length_append] at hlt
      rw [take_cut hj] at hbounded
      refine absurd hbounded (not_bounded_of_runs (Nat.add_lt_add_left hj _)
        (receive_accepts (fun q hq => hms q ?_) (hms m ?_) hpos hj (by omega)))
      · exact List.mem_append_left _ hq
      · exact List.mem_append_right _ List.mem_cons_self
  · rintro ⟨j, rfl⟩
    refine ⟨fun hb => absurd ⟨j, rfl⟩ hb, ?_⟩
    rw [take_boundary]
    refine bounded_of_runs (receive_exact (fun m hm => hms m ?_) (by omega))
    exact List.mem_of_mem_take hm

/-- A cut of one message: rejected if short and never counted for more,
exactly if all of it is there. -/
theorem readBinary_bounded_iff {next : Next} {m : Message} (hm : Readable next m)
    (hlt : m.wire.length < 2 ^ 31) {k : Nat} (hk : k ≤ m.wire.length) :
    ((k < m.wire.length → Rejects (ReadBinary next (m.wire.take k))) ∧
      Bounded (ReadBinary next (m.wire.take k)) k) ↔ k = m.wire.length := by
  have hcut : (m.wire.take k).length = k := List.length_take_of_le hk
  have hruns : ∀ s : Input, s.stale.take (m.wire.length - k) = m.wire.drop k →
      ∃ s', (ReadBinary next (m.wire.take k)).Runs s (.ok (m.wire.length : Int)) s' := by
    intro s hstale
    have hlen : i32 (m.wire.length : Int) = m.wire.length :=
      i32_eq (by omega) (by omega)
    obtain ⟨s', hrun, -⟩ := readBinary_buffer (s := s)
      (w := s.stale.drop (m.wire.length - k)) hm.reading
      (by rw [hlen]; exact Int.natCast_nonneg _)
      (.inl (List.take_prefix k m.wire))
      (by rw [hcut, ← hstale, List.take_append_drop])
    rw [hlen] at hrun
    exact ⟨s', hrun⟩
  constructor
  · rintro ⟨-, hbounded⟩
    by_contra hne
    have hlt : k < m.wire.length := Nat.lt_of_le_of_ne hk hne
    obtain ⟨s', hrun⟩ := hruns ⟨.ofBytes [], m.wire.drop k⟩
      (by rw [← List.length_drop, List.take_length])
    exact not_bounded_of_runs hlt ⟨_, s', hrun⟩ hbounded
  · rintro rfl
    refine ⟨fun h => absurd h (Nat.lt_irrefl _), bounded_of_runs fun s => hruns s ?_⟩
    rw [Nat.sub_self, List.take_zero, List.drop_length]

/-- What the write functions write for messages. -/
theorem writes_wires {ps : List Piece} (hfits : ∀ p ∈ ps, p.Fits) {b : Buffer}
    (hroom : (ps.flatMap Piece.wire).length ≤ b.room) :
    ps.foldl (fun b p => (p.write b).2) b = b.append (ps.flatMap Piece.wire) := by
  induction ps generalizing b with
  | nil => exact (Buffer.append_nil b).symm
  | cons p ps ih =>
      rw [List.flatMap_cons, List.length_append] at hroom
      have hp := hfits p List.mem_cons_self
      have hwrite : p.write b = ((p.wire.length : Int), b.append p.wire) :=
        Piece.writes_wire hp b (show p.wire.length ≤ b.room by omega) (p.wire_lt hp)
      rw [List.foldl_cons, hwrite, List.flatMap_cons, ← Buffer.append_append]
      refine ih (fun q hq => hfits q (List.mem_cons_of_mem p hq)) ?_
      rw [Buffer.room_append]
      omega

-- ========================================================== any buffer

section AnyBuffer

variable {factory : Bytes → Option Next}

/-- How far the loop can get in a buffer: over messages that the receiver
knows, each with a name that it knows, the last of which may go over the end
of the buffer. A sum that is negative ends the loop. -/
inductive Leads (factory : Bytes → Option Next) (buf : Bytes) : Nat → Nat → Prop
  | refl {x : Nat} : Leads factory buf x x
  | turn {x y : Nat} {name bs : Bytes} : x < buf.length →
      Turn factory (buf.drop x) name bs →
      Leads factory buf (u32 (x + i32 bs.length)) y → Leads factory buf x y

/-- The loop gets there, where the stale bytes are the missed ones. -/
theorem Leads.runs {buf : Bytes} {x y : Nat} (h : Leads factory buf x y) (w : Bytes) :
    ∃ stale : Bytes, ∀ s : Input, s.stale = stale → ∃ s₁ : Input, s₁.stale = w ∧
      ∀ res s', (Prog.loop (receiveNext factory buf) y).Runs s₁ res s' →
        (Prog.loop (receiveNext factory buf) x).Runs s res s' := by
  induction h with
  | refl => exact ⟨w, fun s hs => ⟨s, hs, fun _ _ hrun => hrun⟩⟩
  | @turn x y name bs hx hturn _ ih =>
      obtain ⟨stale, hgo⟩ := ih
      refine ⟨missed (buf.drop x) name bs ++ stale, fun s hs => ?_⟩
      obtain ⟨s₁, hrun₁, hs₁⟩ := hturn.again hx hs
      obtain ⟨s₂, hs₂, hgo₂⟩ := hgo s₁ hs₁
      exact ⟨s₂, hs₂, fun res s' hrun => hrun₁.again (hgo₂ res s' hrun)⟩

/-- A `Read` over a buffer that was just opened, and what is made of its
result. -/
theorem opened_cases {next : Next} {buf : Bytes} {s s' : Input}
    {res : Except Int Int} (hrun : (ReadBinary next buf).Runs s res s') :
    (∃ bs, Reading next [] bs ∧ Comparable buf bs ∧ 0 ≤ i32 bs.length ∧
        res = .ok (i32 bs.length)) ∨ ∃ e < 0, res = .error e := by
  have hzero : i32 0 = 0 := i32_eq (by decide) (by decide)
  rcases runs_bind.mp hrun with ⟨_, s₁, hopen, hrun⟩ | ⟨e, hopen, -⟩
  · obtain ⟨-, rfl⟩ := hopen.unique (runs_openBuffer buf s)
    rcases runs_bind.mp hrun with ⟨n, s₂, hread, hrun⟩ | ⟨e, hread, rfl⟩
    · rw [Read, ← hzero] at hread
      rcases read_cases hread with ⟨bs, hbs, hn, hpass, -⟩ | ⟨e, -, hres⟩
      · have hn := Except.ok.inj hn
        rw [Int.zero_add] at hn
        rw [Buffer.unread_ofBytes] at hpass
        split at hrun
        · exact .inr ⟨n, ‹n < 0›, (runs_throw.mp hrun).1⟩
        · refine .inl ⟨bs, hbs, hpass, ?_, ?_⟩
          · rw [← hn]
            exact Int.not_lt.mp ‹¬ n < 0›
          · rw [← hn]
            exact (runs_pure.mp hrun).1
      · cases hres
    · rw [Read, ← hzero] at hread
      rcases read_cases hread with ⟨bs, -, hn, -⟩ | ⟨e', hneg, hres⟩
      · cases hn
      · obtain rfl := Except.error.inj hres
        exact .inr ⟨e, hneg, rfl⟩
  · cases (hopen.unique (runs_openBuffer buf s)).1

/-- What `ReceiveBinaryMsgOne` counts is a turn, or its result is negative. -/
theorem receiveOne_cases {buf : Bytes} {s s' : Input} {res : Except Int Int}
    (h : (ReceiveBinaryMsgOne factory buf).Runs s res s') :
    (∃ name bs, Turn factory buf name bs ∧ res = .ok (i32 bs.length)) ∨
      ∃ e < 0, res = .error e := by
  have hlong : ∀ {bs name : Bytes}, name.length < 2 ^ 31 ∧ bs = be 4 name.length ++ name →
      bs.length < 2 ^ 32 := by
    rintro bs name ⟨hlt, rfl⟩
    rw [List.length_append, length_be]
    omega
  rcases runs_bind.mp h with ⟨_, s₁, hopen, h⟩ | ⟨e, hopen, -⟩
  · obtain ⟨-, rfl⟩ := hopen.unique (runs_openBuffer buf s)
    rcases runs_bind.mp h with ⟨⟨name, n⟩, s₂, hname, h⟩ | ⟨e, hname, rfl⟩
    · obtain ⟨a, ⟨-, rfl⟩, hshort, -, hhere, -⟩ :=
        perform_sound sound_string hlong hname
      rw [Buffer.unread_ofBytes] at hhere
      simp only at h
      split at h
      · -- the factory does not know the name
        obtain ⟨rfl, -⟩ := runs_throw.mp h
        exact .inr ⟨-1, by decide, rfl⟩
      · rename_i next hnext
        rcases opened_cases h with ⟨bs, hbs, hcmp, hpos, hres⟩ | herror
        · exact .inl ⟨name, bs, ⟨hshort, hhere, ⟨next, hnext, hbs⟩, hcmp, hpos⟩, hres⟩
        · exact .inr herror
    · rcases perform_cases hname with ⟨v, ret, -, -, hres⟩ | ⟨e', hneg, hres⟩
      · cases hres
      · obtain rfl := Except.error.inj hres
        exact .inr ⟨e, hneg, rfl⟩
  · cases (hopen.unique (runs_openBuffer buf s)).1

/-- What one turn of the loop can do. -/
theorem receiveNext_cases {buf : Bytes} {x : Nat} {s s' : Input}
    {res : Except Int (Nat ⊕ Int)} (h : (receiveNext factory buf x).Runs s res s') :
    (buf.length ≤ x ∧ res = .ok (.inr (i32 x))) ∨
      (∃ name bs, x < buf.length ∧ Turn factory (buf.drop x) name bs ∧
        res = .ok (.inl (u32 (x + i32 bs.length)))) ∨ ∃ e < 0, res = .error e := by
  unfold receiveNext at h
  split at h
  · rename_i hx
    rcases runs_bind.mp h with ⟨n, s₁, hone, h⟩ | ⟨e, hone, rfl⟩
    · rcases receiveOne_cases hone with ⟨name, bs, hturn, hn⟩ | ⟨e, -, hres⟩
      · rw [Except.ok.inj hn, if_neg (Int.not_lt.mpr hturn.pos)] at h
        exact .inr (.inl ⟨name, bs, hx, hturn, (runs_pure.mp h).1⟩)
      · cases hres
    · rcases receiveOne_cases hone with ⟨name, bs, -, hn⟩ | ⟨e', hneg, hres⟩
      · cases hn
      · obtain rfl := Except.error.inj hres
        exact .inr (.inr ⟨e, hneg, rfl⟩)
  · rename_i hx
    exact .inl ⟨Nat.not_lt.mp hx, (runs_pure.mp h).1⟩

/-- Where the loop is left, it has gone over messages to past the end of the
buffer. -/
theorem leads_of_runs {buf : Bytes} {x : Nat} {s s' : Input} {res : Except Int Int}
    (h : (Prog.loop (receiveNext factory buf) x).Runs s res s') :
    (∃ y, Leads factory buf x y ∧ res = .ok (i32 y)) ∨ ∃ e < 0, res = .error e := by
  refine Prog.loop_rec (P := fun x _ res _ =>
    (∃ y, Leads factory buf x y ∧ res = .ok (i32 y)) ∨ ∃ e < 0, res = .error e)
    ?_ ?_ ?_ h
  · intro x s n s' hturn
    rcases receiveNext_cases hturn with ⟨-, hres⟩ | ⟨name, bs, -, -, hres⟩ | ⟨e, -, hres⟩
    · exact .inl ⟨x, .refl, congrArg Except.ok (Sum.inr.inj (Except.ok.inj hres))⟩
    · cases Except.ok.inj hres
    · cases hres
  · intro x s e s' hturn
    rcases receiveNext_cases hturn with ⟨-, hres⟩ | ⟨name, bs, -, -, hres⟩ |
      ⟨e', hneg, hres⟩
    · cases hres
    · cases hres
    · obtain rfl := Except.error.inj hres
      exact .inr ⟨e, hneg, rfl⟩
  · intro x s x₁ s₁ res s' hturn ih
    rcases receiveNext_cases hturn with ⟨-, hres⟩ | ⟨name, bs, hx, hnext, hres⟩ |
      ⟨e, -, hres⟩
    · cases Except.ok.inj hres
    · rw [Sum.inl.inj (Except.ok.inj hres)] at ih
      rcases ih with ⟨y, hy, hres⟩ | herror
      · exact .inl ⟨y, .turn hx hnext hy, hres⟩
      · exact .inr herror
    · cases hres

/-- Wrapping a natural number never makes it larger. -/
theorem i32_le (n : Nat) : i32 n ≤ n := by
  unfold i32
  rw [Int.bmod_def]
  split <;> omega

/-- No more is counted than there was exactly where the loop cannot get past
the end of the buffer, but for sums that are negative. -/
theorem receive_bounded {buf : Bytes} :
    Bounded (ReceiveBinaryMsg factory buf) buf.length ↔
      ∀ y, Leads factory buf 0 y → i32 y ≤ buf.length := by
  constructor
  · intro hbounded y hy
    by_cases hneg : i32 y < 0
    · omega
    · by_cases hin : y < buf.length
      · have hle := i32_le y
        omega
      · obtain ⟨stale, hgo⟩ := hy.runs []
        obtain ⟨s₁, -, hgo₁⟩ := hgo ⟨.ofBytes [], stale⟩ rfl
        have hleave : (receiveNext factory buf y).Runs s₁
            (.ok (.inr (i32 y))) s₁ := by
          unfold receiveNext
          rw [if_neg hin]
          exact runs_pure.mpr ⟨rfl, rfl⟩
        have hle := hbounded _ _ s₁ (hgo₁ _ s₁ (Runs.leave hleave))
        rw [result_ok] at hle
        exact hle (Int.not_lt.mp hneg)
  · intro hall s res s' hrun hpos
    rcases leads_of_runs hrun with ⟨y, hy, hres⟩ | ⟨e, hneg, rfl⟩
    · rw [hres, result_ok]
      exact hall y hy
    · exact absurd hpos (Int.not_le.mpr hneg)

/-- No string on the wire is a proper prefix of another. -/
theorem string_of_comparable {s t : Bytes} (hs : s.length < 2 ^ 31)
    (ht : t.length < 2 ^ 31)
    (h : be 4 s.length ++ s <+: be 4 t.length ++ t) : s = t := by
  obtain ⟨rest, hrest⟩ := h
  rw [List.append_assoc] at hrest
  obtain ⟨hsize, htail⟩ := List.append_inj hrest (by rw [length_be, length_be])
  have hlen : s.length = t.length := by
    have hval := congrArg ofBe hsize
    rw [ofBe_be, ofBe_be] at hval
    omega
  have hall : s ++ rest = t ++ [] := by rw [htail, List.append_nil]
  exact (List.append_inj hall hlen).1

/-- A name that the factory does not know ends the loop. -/
theorem unknown_bounded {buf : Bytes} (name : Bytes) (hlt : name.length + 4 < 2 ^ 31)
    (hname : be 4 name.length ++ name <+: buf) (hnone : factory name = none) :
    Bounded (ReceiveBinaryMsg factory buf) buf.length := by
  refine receive_bounded.mpr fun y hy => ?_
  cases hy with
  | refl => exact Int.le_trans (i32_le 0) (Int.natCast_nonneg _)
  | @turn _ _ name' bs _ hturn _ =>
      exfalso
      have hshort := hturn.short
      rw [List.length_append, length_be] at hshort
      have hhere := hturn.here
      rw [List.drop_zero] at hhere
      have heq : name = name' := by
        rcases hhere with h | h
        · exact string_of_comparable (by omega) (by omega) (hname.trans h)
        · rcases List.prefix_or_prefix_of_prefix hname h with hp | hp
          · exact string_of_comparable (by omega) (by omega) hp
          · exact (string_of_comparable (by omega) (by omega) hp).symm
      obtain ⟨next, hnext, -⟩ := hturn.known
      rw [← heq, hnone] at hnext
      cases hnext

example : Bounded (ReceiveBinaryMsg (fun _ => none) [0, 0, 0, 1, 66]) 5 :=
  unknown_bounded [66] (by decide) (List.prefix_refl _) rfl

/-- The same of `ReadBinary`: it goes wrong with the messages of its grammar
that the buffer is cut from. -/
theorem readBinary_bounded {next : Next} {buf : Bytes} :
    Bounded (ReadBinary next buf) buf.length ↔
      ∀ bs, Reading next [] bs → buf <+: bs → i32 bs.length ≤ buf.length := by
  constructor
  · intro hbounded bs hbs hcut
    by_cases hneg : i32 bs.length < 0
    · omega
    · have hpos := Int.not_lt.mp hneg
      obtain ⟨s', hrun, -⟩ := readBinary_buffer (w := []) hbs hpos (.inl hcut)
        (s := ⟨.ofBytes [], bs.drop buf.length⟩) (List.append_nil _).symm
      have hle := hbounded _ _ s' hrun
      rw [result_ok] at hle
      exact hle hpos
  · intro hall s res s' hrun hpos
    rcases opened_cases hrun with ⟨bs, hbs, hcut | hwhole, -, hres⟩ | ⟨e, hneg, rfl⟩
    · rw [hres, result_ok]
      exact hall bs hbs hcut
    · have hle := hwhole.length_le
      have hself := i32_le bs.length
      rw [hres, result_ok]
      omega
    · exact absurd hpos (Int.not_le.mpr hneg)

end AnyBuffer

/-- For messages that are written with the C++ write functions and known to
the receiver, the results are as they should be exactly where nothing is
cut. For a buffer of any bytes, no more than these are counted exactly where
no messages of the receiver's grammar go over its end. -/
theorem truncated_rejected_iff {factory : Bytes → Option Next}
    {ms : List Message} (hms : ∀ m ∈ ms, Known factory m)
    (hlt : (wires ms).length < 2 ^ 31) :
    (∀ b : Buffer, (wires ms).length ≤ b.room →
      (ms.flatMap Message.all).foldl (fun b p => (p.write b).2) b
        = b.append (wires ms)) ∧
    (∀ k ≤ (wires ms).length,
      ((¬ Boundary ms k → Rejects (ReceiveBinaryMsg factory ((wires ms).take k))) ∧
        Bounded (ReceiveBinaryMsg factory ((wires ms).take k)) k) ↔ Boundary ms k) ∧
    (∀ m ∈ ms, ∀ next, factory m.name = some next → ∀ k ≤ m.wire.length,
      ((k < m.wire.length → Rejects (ReadBinary next (m.wire.take k))) ∧
        Bounded (ReadBinary next (m.wire.take k)) k) ↔ k = m.wire.length) ∧
    (∀ buf : Bytes, Bounded (ReceiveBinaryMsg factory buf) buf.length ↔
      ∀ y, Leads factory buf 0 y → i32 y ≤ buf.length) ∧
    (∀ (next : Next) (buf : Bytes), Bounded (ReadBinary next buf) buf.length ↔
      ∀ bs, Reading next [] bs → buf <+: bs → i32 bs.length ≤ buf.length) := by
  have hflat : wires ms = (ms.flatMap Message.all).flatMap Piece.wire := by
    rw [List.flatMap_assoc]
    rfl
  refine ⟨fun b hroom => ?_, fun k hk => receive_bounded_iff hms hlt hk, ?_,
    fun buf => receive_bounded, fun next buf => readBinary_bounded⟩
  · rw [hflat] at hroom ⊢
    refine writes_wires (fun p hp => ?_) hroom
    obtain ⟨m, hm, hpm⟩ := List.mem_flatMap.mp hp
    obtain ⟨next, -, hread⟩ := hms m hm
    exact hread.fits p hpm
  · intro m hm next hnext k hk
    obtain ⟨next', hnext', hread⟩ := hms m hm
    obtain rfl : next' = next := Option.some.inj (hnext'.symm.trans hnext)
    have hle : m.wire.length ≤ (wires ms).length := by
      obtain ⟨ms₁, ms₂, rfl⟩ := List.append_of_mem hm
      rw [wires_append, wires_cons, List.length_append, List.length_append]
      omega
    exact readBinary_bounded_iff hread (Nat.lt_of_le_of_lt hle hlt) hk

-- ========================================================== an instance

/-- The `Read` of a sandesh without fields. -/
def readEmpty : Next
  | [] => some .readSandeshBegin
  | [_] => some .readFieldBegin
  | _ => none

/-- A sandesh `A` without fields: 00 00 00 01 41 00. -/
def emptyA : Message := ⟨[65], [.fieldStop]⟩

/-- The empty message is one of the factory's. -/
theorem emptyA_known : Known (fun _ => some readEmpty) emptyA := by
  refine ⟨readEmpty, rfl, ⟨rfl, rfl, rfl⟩, ?_⟩
  intro p hp
  simp only [Message.all, emptyA, List.mem_cons, List.not_mem_nil, or_false] at hp
  rcases hp with rfl | rfl
  · show 1 + 4 < 2 ^ 31
    decide
  · trivial

theorem truncated_rejected_emptyA :
    Bounded (ReceiveBinaryMsg (fun _ => some readEmpty) (wires [emptyA])) 6 := by
  have hknown : ∀ m ∈ [emptyA], Known (fun _ => some readEmpty) m := by
    intro m hm
    rw [List.mem_singleton.mp hm]
    exact emptyA_known
  have h := (truncated_rejected_iff hknown (by decide)).2.1 6 (by decide)
  exact (h.mpr ⟨1, by decide⟩).2

/-- Without its last byte the message is still read, as six bytes of five. -/
theorem cut_message_accepted :
    ¬ Rejects (ReceiveBinaryMsg (fun _ => some readEmpty) [0, 0, 0, 1, 65]) ∧
      ¬ Bounded (ReceiveBinaryMsg (fun _ => some readEmpty) [0, 0, 0, 1, 65]) 5 := by
  have hnone : ∀ q ∈ ([] : List Message), Known (fun _ => some readEmpty) q := nofun
  have h := receive_accepts (k := 5) hnone emptyA_known (by decide) (by decide)
    (by decide)
  exact ⟨not_rejects_of_runs h, not_bounded_of_runs (by decide) h⟩

end Sandesh.Binary.Cpp
