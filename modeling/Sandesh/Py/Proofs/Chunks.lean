/-
However the bytes of a stream of Python frames are cut, the reader hands
over exactly the messages, in order, and ends as it began.

Between two calls the buffer and the bytes still to come are the frames
still to come, and the buffer is shorter than the first of them
(`Settled`). When nothing is to come the second leaves no frame.
-/
import Sandesh.Py.Proofs.Turns

namespace Sandesh.Py.Session

open Lib SandeshReader

/-- A message whose frame has a length of ten digits at most. -/
structure Payload where
  bytes : Bytes
  nonempty : bytes ≠ []
  fits : 39 + bytes.length < 10 ^ 10

/-- The frames of a list of messages. -/
def stream (ps : List Payload) : Bytes :=
  (ps.map fun p => envelope p.bytes).flatten

@[simp] theorem stream_nil : stream [] = [] := rfl

@[simp] theorem stream_cons (p : Payload) (ps : List Payload) :
    stream (p :: ps) = envelope p.bytes ++ stream ps := rfl

-- ============================================================ one frame

section Frame

variable (p : Payload)

/-- The length field of a frame. -/
def lengthText : Bytes := zfill 10 (decimal (39 + p.bytes.length))

theorem lengthText_length : (lengthText p).length = 10 :=
  zfill_length (decimal_length_le (by decide) p.fits)

theorem int_lengthText : int (lengthText p) = some (39 + p.bytes.length) := by
  have hne : lengthText p ≠ [] := by
    intro hnil
    have hlen := lengthText_length p
    rw [hnil] at hlen
    cases hlen
  have hdigits : ∀ c ∈ lengthText p, isDigit c = true := fun _ hc =>
    isDigit_of_mem_zfill hc
  rw [int_of_takeSign (fun c hc => isSpace_of_isDigit (hdigits c hc))
    (takeSign_digits hdigits) hne hdigits, lengthText, decVal_zfill]
  rfl

theorem envelope_eq : envelope p.bytes = XML_SANDESH_OPEN_ATTR_LEN
    ++ (lengthText p ++ (XML_SANDESH_OPEN_END
      ++ (p.bytes ++ XML_SANDESH_CLOSE))) := by
  have hlen : 29 + p.bytes.length + 10 = 39 + p.bytes.length := by omega
  simp only [envelope, open_length, attr_length, end_length, close_length,
    Nat.reduceAdd, Nat.reduceSub, hlen, lengthText, List.append_assoc]

theorem envelope_length :
    (envelope p.bytes).length = 39 + p.bytes.length := by
  rw [envelope_eq]
  simp only [List.length_append, attr_length, lengthText_length, end_length,
    close_length]
  omega

theorem declares_envelope :
    Declares (envelope p.bytes) (39 + p.bytes.length) := by
  have hlen := lengthText_length p
  have h17 : (envelope p.bytes).take 17 = XML_SANDESH_OPEN_ATTR_LEN := by
    rw [envelope_eq]
    exact List.take_left' attr_length
  have h27 : (envelope p.bytes).take 27
      = XML_SANDESH_OPEN_ATTR_LEN ++ lengthText p := by
    rw [envelope_eq, ← List.append_assoc]
    refine List.take_left' ?_
    rw [List.length_append, attr_length, hlen]
  have h29 : (envelope p.bytes).take 29
      = XML_SANDESH_OPEN_ATTR_LEN ++ lengthText p ++ XML_SANDESH_OPEN_END := by
    rw [envelope_eq, ← List.append_assoc, ← List.append_assoc]
    refine List.take_left' ?_
    rw [List.length_append, List.length_append, attr_length, hlen, end_length]
  refine ⟨?_, h17, ?_, ?_⟩
  · rw [envelope_length]
    omega
  · rw [h27, List.drop_left' attr_length]
    exact int_lengthText p
  · rw [h29, List.drop_left']
    rw [List.length_append, attr_length, hlen]

/-- The message, with its envelope around it and anything behind. -/
theorem envelope_split :
    ∃ tag, tag.length = 29
      ∧ envelope p.bytes = tag ++ p.bytes ++ XML_SANDESH_CLOSE := by
  refine ⟨XML_SANDESH_OPEN_ATTR_LEN ++ lengthText p ++ XML_SANDESH_OPEN_END,
    ?_, ?_⟩
  · simp only [List.length_append, attr_length, lengthText_length, end_length]
  · rw [envelope_eq]
    simp only [List.append_assoc]

theorem closed_envelope (rest : Bytes) :
    Closed (envelope p.bytes ++ rest) (39 + p.bytes.length)
      ∧ payload (envelope p.bytes ++ rest) (39 + p.bytes.length)
        = p.bytes := by
  have hlen := envelope_length p
  obtain ⟨tag, htag, hsplit⟩ := envelope_split p
  have hbody : (tag ++ p.bytes).length = 39 + p.bytes.length - 10 := by
    rw [List.length_append, htag]
    omega
  refine ⟨⟨by omega, ?_, ?_⟩, ?_⟩
  · rw [List.length_append, hlen]
    omega
  · rw [List.take_left' hlen, hsplit, List.drop_left' hbody]
  · rw [payload, hsplit, List.append_assoc, List.take_left' hbody,
      List.drop_left' htag]

end Frame

-- ============================================================ the front

section Front

variable {p : Payload} {ps : List Payload} {b rest : Bytes}

theorem declares_front (h : b ++ rest = stream (p :: ps))
    (hsize : 29 ≤ b.length) : Declares b (39 + p.bytes.length) := by
  have hdecl := declares_envelope p
  refine hdecl.congr hsize ?_
  have htake := congrArg (List.take 29) h
  rwa [stream_cons, List.take_append_of_le_length hsize,
    List.take_append_of_le_length hdecl.size] at htake

theorem front_split (h : b ++ rest = stream (p :: ps))
    (hle : 39 + p.bytes.length ≤ b.length) :
    ∃ b', b = envelope p.bytes ++ b' ∧ b' ++ rest = stream ps := by
  rw [← envelope_length] at hle
  rw [stream_cons] at h
  have htake := congrArg (List.take (envelope p.bytes).length) h
  have hdrop := congrArg (List.drop (envelope p.bytes).length) h
  rw [List.take_append_of_le_length hle, List.take_left] at htake
  rw [List.drop_append_of_le_length hle, List.drop_left] at hdrop
  refine ⟨b.drop (envelope p.bytes).length, ?_, hdrop⟩
  conv_lhs => rw [← List.take_append_drop (envelope p.bytes).length b, htake]

theorem sliceIndex_length (b : Bytes) (p : Payload) :
    sliceIndex b (39 + p.bytes.length) = 39 + p.bytes.length := by
  rw [sliceIndex_of_nonneg (by omega)]
  omega

/-- What is declared at the front of a stream is the first frame. -/
theorem front_declares {todo : List Payload} {n : Int}
    (h : b ++ rest = stream todo) (hdecl : Declares b n) :
    ∃ p todo', todo = p :: todo' ∧ n = 39 + p.bytes.length := by
  cases todo with
  | nil =>
      have hsize := hdecl.size
      have hnil : b = [] := (List.append_eq_nil_iff.mp h).1
      rw [hnil, List.length_nil] at hsize
      omega
  | cons p todo' =>
      exact ⟨p, todo', rfl, hdecl.unique (declares_front h hdecl.size)⟩

/-- A frame that passes is the first of the stream. -/
theorem front_passes {todo : List Payload} {n : Int}
    (h : b ++ rest = stream todo) (hdecl : Declares b n)
    (hclosed : Closed b (sliceIndex b n)) :
    ∃ p todo', todo = p :: todo' ∧ payload b (sliceIndex b n) = p.bytes
      ∧ b.drop (sliceIndex b n) ++ rest = stream todo' := by
  obtain ⟨p, todo', rfl, rfl⟩ := front_declares h hdecl
  have hhigh := hclosed.high
  rw [sliceIndex_length] at hhigh ⊢
  obtain ⟨b', rfl, hrest⟩ := front_split h hhigh
  refine ⟨p, todo', rfl, (closed_envelope p b').2, ?_⟩
  rwa [List.drop_left' (envelope_length p)]

end Front

-- =============================================================== a call

/-- Between two calls. -/
structure Settled (todo : List Payload) (rest : Bytes) (r : SandeshReader) :
    Prop where
  bytes : r.read_buf ++ rest = stream todo
  remembers : Remembers r
  less : ∀ p todo', todo = p :: todo' →
    r.read_buf.length < 39 + p.bytes.length

/-- From `r` to `r'` the messages `done` are handed over. -/
def Hands (r r' : SandeshReader) (done : List Payload) : Prop :=
  r'.handled = r.handled ++ done.map Payload.bytes

section Call

variable {r : SandeshReader} {todo : List Payload} {rest : Bytes}

/-- A turn that leaves the loop. -/
theorem turns_settles {ret : Ret} {r' : SandeshReader}
    (h : Turns r (.inl (ret, r'))) (hrem : Remembers r)
    (hbytes : r.read_buf ++ rest = stream todo) :
    ret = .READ_OK ∧ ∃ done todo', todo = done ++ todo' ∧ Hands r r' done
      ∧ Settled todo' rest r' := by
  have hnone : Hands r r [] := (List.append_nil _).symm
  cases h with
  | short hsize _ =>
      refine ⟨rfl, [], todo, rfl, hnone, hbytes, hrem, ?_⟩
      intro p todo' _
      omega
  | malformed hsize hbad =>
      cases todo with
      | nil =>
          have hnil : r.read_buf = [] := (List.append_eq_nil_iff.mp hbytes).1
          rw [hnil, List.length_nil] at hsize
          omega
      | cons p ps => exact absurd (declares_front hbytes hsize) (hbad _)
  | zero hdecl _ =>
      obtain ⟨p, todo', -, hzero⟩ := front_declares hbytes hdecl
      omega
  | partly hdecl hless =>
      obtain ⟨p, todo', rfl, rfl⟩ := front_declares hbytes hdecl
      refine ⟨rfl, [], p :: todo', rfl, hnone, hbytes, fun _ => hdecl, ?_⟩
      intro p' todo'' heq
      injection heq with heq
      subst heq
      show r.read_buf.length < _
      omega
  | unclosed hdecl _ hle hopen =>
      obtain ⟨p, todo', rfl, rfl⟩ := front_declares hbytes hdecl
      obtain ⟨b', hb, -⟩ := front_split hbytes (by omega)
      rw [sliceIndex_length, hb] at hopen
      exact absurd (closed_envelope p b').1 hopen
  | empty hdecl _ _ hend =>
      obtain ⟨p, todo', -, rfl⟩ := front_declares hbytes hdecl
      rw [sliceIndex_length] at hend
      have hpos := List.length_pos_of_ne_nil p.nonempty
      omega
  | last hdecl _ hclosed _ hrest =>
      obtain ⟨p, todo', rfl, hpay, hbytes'⟩ :=
        front_passes hbytes hdecl hclosed
      rw [hrest] at hbytes'
      refine ⟨rfl, [p], todo', rfl, ?_, hbytes', fun hne => absurd rfl hne, ?_⟩
      · show r.handled ++ [_] = _
        rw [hpay]
        rfl
      · intro p' todo'' _
        show 0 < _
        omega

theorem loop_settles (hrem : Remembers r)
    (hbytes : r.read_buf ++ rest = stream todo) :
    r.loop.1 = .READ_OK ∧ ∃ done todo', todo = done ++ todo'
      ∧ Hands r r.loop.2 done ∧ Settled todo' rest r.loop.2 := by
  induction r using loop.induct generalizing todo with
  | case1 r done h =>
      have hturn := turn_turns hrem
      rw [h] at hturn
      rw [loop_inl h]
      exact turns_settles hturn hrem hbytes
  | case2 r r' h ih =>
      have hturn := turn_turns hrem
      rw [h] at hturn
      rw [loop_inr h]
      cases hturn with
      | again hdecl _ hclosed _ _ =>
          obtain ⟨p, todo', rfl, hpay, hbytes'⟩ :=
            front_passes hbytes hdecl hclosed
          obtain ⟨hok, done, todo'', rfl, hhands, hsettled⟩ :=
            ih (fun hne => absurd rfl hne) hbytes'
          refine ⟨hok, p :: done, todo'', rfl, ?_, hsettled⟩
          unfold Hands at hhands ⊢
          rw [hhands, hpay]
          simp

/-- One chunk. -/
theorem read_msg_settles {chunk : Bytes}
    (h : Settled todo (chunk ++ rest) r) :
    (r.read_msg chunk).1 = .READ_OK ∧ ∃ done todo', todo = done ++ todo'
      ∧ Hands r (r.read_msg chunk).2 done
      ∧ Settled todo' rest (r.read_msg chunk).2 := by
  refine loop_settles (remembers_append h.remembers chunk) ?_
  rw [List.append_assoc]
  exact h.bytes

end Call

-- ================================================================ runs

theorem reads_settles (chunks : List Bytes) :
    ∀ {r : SandeshReader} {todo : List Payload},
      Settled todo chunks.flatten r →
      reading.run r chunks = some
          { read_buf := []
            sandesh_len := 0
            handled := r.handled ++ todo.map Payload.bytes }
        ∧ reading.Each (fun r chunk _ => (r.read_msg chunk).1 = .READ_OK) r
          chunks := by
  induction chunks with
  | nil =>
      intro r todo h
      refine ⟨?_, trivial⟩
      have hbytes : r.read_buf = stream todo := by
        rw [← h.bytes, List.flatten_nil, List.append_nil]
      cases todo with
      | nil =>
          have hlen : r.sandesh_len = 0 := by
            by_contra hne
            have hsize := (h.remembers hne).size
            rw [hbytes, stream_nil, List.length_nil] at hsize
            omega
          obtain ⟨read_buf, sandesh_len, handled⟩ := r
          subst hbytes hlen
          simp [Machine.run]
      | cons p ps =>
          have hless := h.less p ps rfl
          rw [hbytes, stream_cons, List.length_append, envelope_length] at hless
          omega
  | cons chunk chunks ih =>
      intro r todo h
      rw [List.flatten_cons] at h
      obtain ⟨hok, done, todo', rfl, hhands, hsettled⟩ := read_msg_settles h
      obtain ⟨hrun, heach⟩ := ih hsettled
      constructor
      · show reading.run (r.read_msg chunk).2 chunks = _
        rw [hrun, hhands]
        simp
      · intro r' hstep
        injection hstep with hstep
        subst hstep
        exact ⟨hok, heach⟩

/-- Chunking independence of the Python reader. -/
theorem read_msg_chunking (ps : List Payload) (chunks : List Bytes)
    (h : chunks.flatten = stream ps) :
    reading.run new chunks = some
        { read_buf := [], sandesh_len := 0, handled := ps.map Payload.bytes }
      ∧ reading.Each (fun r chunk _ => (r.read_msg chunk).1 = .READ_OK) new
        chunks := by
  have hsettled : Settled ps chunks.flatten new := by
    refine ⟨h, fun hne => absurd rfl hne, ?_⟩
    intro p todo' _
    show 0 < _
    omega
  exact reads_settles chunks hsettled

/-- Two messages, cut within the tag of the second. -/
theorem read_msg_chunking_two :
    reading.run new [(stream [⟨lit "ab", by decide, by decide⟩,
          ⟨lit "c", by decide, by decide⟩]).take 50,
        (stream [⟨lit "ab", by decide, by decide⟩,
          ⟨lit "c", by decide, by decide⟩]).drop 50]
      = some { read_buf := [], sandesh_len := 0, handled := [lit "ab", lit "c"] }
    := by
  refine (read_msg_chunking [⟨lit "ab", by decide, by decide⟩,
    ⟨lit "c", by decide, by decide⟩] _ ?_).1
  rw [List.flatten_cons, List.flatten_cons, List.flatten_nil, List.append_nil,
    List.take_append_drop]

end Sandesh.Py.Session
