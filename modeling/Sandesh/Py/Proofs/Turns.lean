/-
What one turn of the Python reader's loop does.

What the buffer declares is read from its first 29 bytes (`Declares`),
and a declared length that is not beyond the buffer stands for one
position in it, whatever its sign: the end of the frame. The close tag
must lie before that end (`Closed`), and since there is no bracket inside
an open tag it cannot lie within one (`closed_end`): a frame that passes
is never shorter than its envelope. With that, `Turns` lists what a turn
can do by the bytes at the front of the buffer alone.
-/
import Sandesh.Py.Session

namespace Sandesh.Py.Session

open Lib SandeshReader

-- ============================================================== lengths

/-- The lengths of the parts of the envelope. -/
@[simp] theorem open_length : XML_SANDESH_OPEN.length = 29 := by decide

@[simp] theorem attr_length : XML_SANDESH_OPEN_ATTR_LEN.length = 17 := by
  decide

@[simp] theorem end_length : XML_SANDESH_OPEN_END.length = 2 := by decide

@[simp] theorem close_length : XML_SANDESH_CLOSE.length = 10 := by decide

/-- An index that is not negative is the one from the start. -/
theorem sliceIndex_of_nonneg {s : Bytes} {i : Int} (h : 0 ≤ i) :
    sliceIndex s i = i.toNat := if_neg (by omega)

/-- A slice between two of them. -/
theorem slice_nat (s : Bytes) (i j : Nat) :
    slice s i j = (s.take j).drop i := by
  rw [slice, sliceIndex_of_nonneg (by omega), sliceIndex_of_nonneg (by omega)]
  simp only [Int.toNat_natCast]

-- ============================================================ open tags

/-- The front of the buffer is an open tag that declares `n`. -/
structure Declares (b : Bytes) (n : Int) : Prop where
  size : 29 ≤ b.length
  attr : b.take 17 = XML_SANDESH_OPEN_ATTR_LEN
  number : int ((b.take 27).drop 17) = some n
  quote : (b.take 29).drop 27 = XML_SANDESH_OPEN_END

/-- A buffer declares one length. -/
theorem Declares.unique {b : Bytes} {n m : Int} (h : Declares b n)
    (h' : Declares b m) : n = m :=
  Option.some.inj (h.number.symm.trans h'.number)

/-- The tag is the first 29 bytes. -/
theorem Declares.congr {b c : Bytes} {n : Int} (h : Declares b n)
    (hsize : 29 ≤ c.length) (heq : c.take 29 = b.take 29) : Declares c n := by
  have htake : ∀ k, k ≤ 29 → c.take k = b.take k := by
    intro k hk
    have hmin : min k 29 = k := Nat.min_eq_left hk
    rw [← hmin, ← List.take_take, heq, List.take_take]
  refine ⟨hsize, ?_, ?_, ?_⟩
  · rw [htake 17 (by omega)]
    exact h.attr
  · rw [htake 27 (by omega)]
    exact h.number
  · rw [heq]
    exact h.quote

/-- And declares it with more bytes behind. -/
theorem Declares.append {b : Bytes} {n : Int} (h : Declares b n) (c : Bytes) :
    Declares (b ++ c) n := by
  refine h.congr ?_ (List.take_append_of_le_length h.size)
  rw [List.length_append]
  exact Nat.le_add_right_of_le h.size

/-- What `int` reads is made of these. -/
def isNumeric (c : UInt8) : Bool :=
  isSpace c || c == 43 || c == 45 || isDigit c

/-- A character is passed over or left. -/
theorem mem_dropWhile_or {p : UInt8 → Bool} {c : UInt8} {s : Bytes}
    (hc : c ∈ s) : p c = true ∨ c ∈ s.dropWhile p := by
  rw [← List.takeWhile_append_dropWhile (p := p) (l := s)] at hc
  rcases List.mem_append.mp hc with hc | hc
  · exact .inl (List.mem_takeWhile_imp hc)
  · exact .inr hc

theorem mem_takeSign_or {c : UInt8} {s : Bytes} (hc : c ∈ s) :
    (c = 45 ∨ c = 43) ∨ c ∈ (takeSign s).2 := by
  cases s with
  | nil => cases hc
  | cons b t =>
      rw [takeSign]
      by_cases hminus : b = 45
      · rw [if_pos hminus]
        rcases List.mem_cons.mp hc with rfl | hc
        · exact .inl (.inl hminus)
        · exact .inr hc
      · rw [if_neg hminus]
        by_cases hplus : b = 43
        · rw [if_pos hplus]
          rcases List.mem_cons.mp hc with rfl | hc
          · exact .inl (.inr hplus)
          · exact .inr hc
        · rw [if_neg hplus]
          exact .inr hc

/-- What `int` takes has digits, a sign, blanks and underscores only. -/
theorem int_numeric {s : Bytes} {n : Int} (h : int s = some n) {c : UInt8}
    (hc : c ∈ s) : isNumeric c = true := by
  have hspace : isSpace c = true → isNumeric c = true := by
    intro hs
    simp [isNumeric, hs]
  -- peel off the blanks on both sides, the sign and the blanks behind it
  rcases mem_dropWhile_or (p := isSpace) hc with hs | hc
  · exact hspace hs
  rcases mem_dropWhile_or (p := isSpace) (List.mem_reverse.mpr hc) with hs | hc
  · exact hspace hs
  rcases mem_takeSign_or (List.mem_reverse.mpr hc) with hsign | hc
  · rcases hsign with rfl | rfl <;> decide
  rcases mem_dropWhile_or (p := isSpace) hc with hs | hc
  · exact hspace hs
  unfold int at h
  dsimp only at h
  split at h
  · next hdigits =>
    have hd := List.all_eq_true.mp hdigits.2 c hc
    simp [isNumeric, hd]
  · cases h

/-- The tag, piece by piece. -/
theorem Declares.tag {b : Bytes} {n : Int} (h : Declares b n) :
    b.take 29 = XML_SANDESH_OPEN_ATTR_LEN ++ (b.take 27).drop 17
      ++ XML_SANDESH_OPEN_END := by
  have h17 : b.take 27 = b.take 17 ++ (b.take 27).drop 17 := by
    have hsplit := List.take_append_drop 17 (b.take 27)
    rw [List.take_take] at hsplit
    exact hsplit.symm
  have h27 : b.take 29 = b.take 27 ++ (b.take 29).drop 27 := by
    have hsplit := List.take_append_drop 27 (b.take 29)
    rw [List.take_take] at hsplit
    exact hsplit.symm
  rw [h27, h.quote, h17, h.attr]
  simp

/-- Behind its first byte there is no bracket in an open tag. -/
theorem Declares.no_lt {b : Bytes} {n : Int} (h : Declares b n) :
    60 ∉ (b.take 29).drop 1 := by
  have hnum : (60 : UInt8) ∉ (b.take 27).drop 17 := by
    intro hmem
    have hc := int_numeric h.number hmem
    revert hc
    decide
  rw [h.tag, List.append_assoc,
    List.drop_append_of_le_length (by rw [attr_length]; decide)]
  simp only [List.mem_append, not_or]
  exact ⟨by decide, hnum, by decide⟩

-- =========================================================== close tags

/-- A close tag lies before the position `e`. -/
structure Closed (b : Bytes) (e : Nat) : Prop where
  low : 10 ≤ e
  high : e ≤ b.length
  tag : (b.take e).drop (e - 10) = XML_SANDESH_CLOSE

/-- Ten bytes before the end of the frame, from either side. -/
theorem sliceIndex_sub {b : Bytes} {n : Int} (h : 10 ≤ sliceIndex b n) :
    sliceIndex b (n - 10) = sliceIndex b n - 10 := by
  unfold sliceIndex at h ⊢
  by_cases hn : n < 0
  · rw [if_pos hn] at h
    rw [if_pos hn, if_pos (by omega)]
    omega
  · rw [if_neg hn] at h
    rw [if_neg hn, if_neg (by omega)]
    omega

/-- The end of a message is where the closing tag is. -/
theorem close_slice {b : Bytes} {n : Int} (hle : n ≤ b.length) :
    slice b (n - 10) n = XML_SANDESH_CLOSE ↔ Closed b (sliceIndex b n) := by
  constructor
  · intro h
    have hlen := congrArg List.length h
    rw [slice, List.length_drop, List.length_take, close_length] at hlen
    have hlow : 10 ≤ sliceIndex b n := by omega
    refine ⟨hlow, ?_, ?_⟩
    · unfold sliceIndex
      split <;> omega
    · rw [← sliceIndex_sub hlow]
      exact h
  · intro h
    rw [slice, sliceIndex_sub h.low]
    exact h.tag

/-- A close tag does not lie within the open tag. -/
theorem closed_end {b : Bytes} {n : Int} {e : Nat} (h : Declares b n)
    (hclosed : Closed b e) : 39 ≤ e := by
  by_contra hlt
  have hlow := hclosed.low
  have hbracket : b[e - 10]? = some 60 := by
    have hget : ((b.take e).drop (e - 10))[0]? = some 60 := by
      rw [hclosed.tag]
      rfl
    rw [List.getElem?_drop, Nat.add_zero] at hget
    rwa [List.getElem?_take_of_lt (by omega)] at hget
  by_cases hfirst : e = 10
  · have htag := hclosed.tag
    have hattr : b.take 10 = XML_SANDESH_OPEN_ATTR_LEN.take 10 := by
      rw [← h.attr, List.take_take]
      rfl
    rw [hfirst, Nat.sub_self, List.drop_zero, hattr] at htag
    revert htag
    decide
  · refine h.no_lt (List.mem_of_getElem? (i := e - 11) ?_)
    have hidx : 1 + (e - 11) = e - 10 := by omega
    rw [List.getElem?_drop, hidx, List.getElem?_take_of_lt (by omega)]
    exact hbracket

-- ============================================================= the turn

/-- A length that is remembered is the one the buffer declares. -/
def Remembers (r : SandeshReader) : Prop :=
  r.sandesh_len ≠ 0 → Declares r.read_buf r.sandesh_len

/-- The length that is known stays right with more bytes. -/
theorem remembers_append {r : SandeshReader} (hrem : Remembers r)
    (chunk : Bytes) :
    Remembers { r with read_buf := r.read_buf ++ chunk } := by
  intro hne
  exact (hrem hne).append chunk

/-- The message between open tag and close tag. -/
def payload (b : Bytes) (e : Nat) : Bytes := (b.take (e - 10)).drop 29

/-- What a turn does. -/
inductive Turns (r : SandeshReader) :
    (Ret × SandeshReader) ⊕ SandeshReader → Prop
  | short (hsize : r.read_buf.length < 29) (hlen : r.sandesh_len = 0) :
      Turns r (.inl (.READ_OK, r))
  | malformed (hsize : 29 ≤ r.read_buf.length)
      (hbad : ∀ n, ¬ Declares r.read_buf n) : Turns r (.inl (.READ_ERR, r))
  | zero (hdecl : Declares r.read_buf 0) (hlen : r.sandesh_len = 0) :
      Turns r (.inl (.READ_OK, r))
  | partly {n : Int} (hdecl : Declares r.read_buf n)
      (hless : r.read_buf.length < n) :
      Turns r (.inl (.READ_OK, { r with sandesh_len := n }))
  | unclosed {n : Int} (hdecl : Declares r.read_buf n) (hne : n ≠ 0)
      (hle : n ≤ r.read_buf.length)
      (hopen : ¬ Closed r.read_buf (sliceIndex r.read_buf n)) :
      Turns r (.inl (.READ_ERR, { r with sandesh_len := n }))
  | empty {n : Int} (hdecl : Declares r.read_buf n) (hne : n ≠ 0)
      (hclosed : Closed r.read_buf (sliceIndex r.read_buf n))
      (hend : sliceIndex r.read_buf n = 39) :
      Turns r (.inl (.READ_OK, { r with sandesh_len := n }))
  | last {n : Int} (hdecl : Declares r.read_buf n) (hne : n ≠ 0)
      (hclosed : Closed r.read_buf (sliceIndex r.read_buf n))
      (hend : 39 < sliceIndex r.read_buf n)
      (hrest : r.read_buf.drop (sliceIndex r.read_buf n) = []) :
      Turns r (.inl (.READ_OK,
        { read_buf := []
          sandesh_len := 0
          handled := r.handled
            ++ [payload r.read_buf (sliceIndex r.read_buf n)] }))
  | again {n : Int} (hdecl : Declares r.read_buf n) (hne : n ≠ 0)
      (hclosed : Closed r.read_buf (sliceIndex r.read_buf n))
      (hend : 39 < sliceIndex r.read_buf n)
      (hrest : r.read_buf.drop (sliceIndex r.read_buf n) ≠ []) :
      Turns r (.inr
        { read_buf := r.read_buf.drop (sliceIndex r.read_buf n)
          sandesh_len := 0
          handled := r.handled
            ++ [payload r.read_buf (sliceIndex r.read_buf n)] })

section Turn

variable {r : SandeshReader}

/-- A declared length is found. -/
theorem extract_sandesh_len_declares {n : Int} (h : Declares r.read_buf n) :
    r.extract_sandesh_len = (.READ_OK, n) := by
  have hsize := h.size
  have h0 : slice r.read_buf 0 (17 : Nat) = XML_SANDESH_OPEN_ATTR_LEN := by
    rw [show (0 : Int) = (0 : Nat) from rfl, slice_nat]
    exact h.attr
  have h27 : ((29 : Nat) : Int) - (2 : Nat) = (27 : Nat) := by decide
  simp only [extract_sandesh_len, open_length, attr_length, end_length]
  rw [if_neg (by omega), h0, if_neg (not_not.mpr rfl), h27, slice_nat, h.quote,
    if_neg (not_not.mpr rfl), slice_nat, h.number]

/-- A buffer that is long enough and declares none is refused. -/
theorem extract_sandesh_len_malformed (hsize : 29 ≤ r.read_buf.length)
    (hbad : ∀ n, ¬ Declares r.read_buf n) :
    r.extract_sandesh_len = (.READ_ERR, 0) := by
  have h27 : ((29 : Nat) : Int) - (2 : Nat) = (27 : Nat) := by decide
  simp only [extract_sandesh_len, open_length, attr_length, end_length]
  rw [if_neg (by omega), show (0 : Int) = (0 : Nat) from rfl, slice_nat, h27,
    slice_nat, slice_nat]
  split
  · rfl
  · split
    · rfl
    · cases hint : int ((r.read_buf.take 27).drop 17) with
      | none => rfl
      | some n =>
          exact absurd ⟨hsize, not_not.mp ‹_›, hint, not_not.mp ‹_›⟩ (hbad n)

/-- Once the length is known. -/
theorem extract_sandesh_declares {n : Int} (hrem : Remembers r)
    (h : Declares r.read_buf n) (hne : n ≠ 0) :
    r.extract_sandesh = ({ r with sandesh_len := n }.extract_frame,
      { r with sandesh_len := n }) := by
  unfold extract_sandesh
  by_cases hlen : r.sandesh_len = 0
  · rw [if_pos hlen, extract_sandesh_len_declares h]
    simp only [if_neg hne]
  · have hn : r.sandesh_len = n := (hrem hlen).unique h
    subst hn
    rw [if_neg hlen]

/-- A message that is not there in full is waited for. -/
theorem extract_frame_partly (h : r.read_buf.length < r.sandesh_len) :
    r.extract_frame = (.READ_OK, none) := if_pos h

/-- One that is not closed is refused. -/
theorem extract_frame_unclosed (hle : r.sandesh_len ≤ r.read_buf.length)
    (hopen : ¬ Closed r.read_buf (sliceIndex r.read_buf r.sandesh_len)) :
    r.extract_frame = (.READ_ERR, none) := by
  have hslice := mt (close_slice hle).mp hopen
  unfold extract_frame
  rw [if_neg (by omega)]
  exact if_pos hslice

/-- One that is closed is returned without its tags. -/
theorem extract_frame_closed (hle : r.sandesh_len ≤ r.read_buf.length)
    (hclosed : Closed r.read_buf (sliceIndex r.read_buf r.sandesh_len)) :
    r.extract_frame = (.READ_OK,
      some (payload r.read_buf (sliceIndex r.read_buf r.sandesh_len))) := by
  have hslice : slice r.read_buf (r.sandesh_len - (10 : Nat)) r.sandesh_len
      = XML_SANDESH_CLOSE := (close_slice hle).mpr hclosed
  have hpay : slice r.read_buf (29 : Nat) (r.sandesh_len - (10 : Nat))
      = payload r.read_buf (sliceIndex r.read_buf r.sandesh_len) := by
    have hsub := sliceIndex_sub hclosed.low
    rw [slice, sliceIndex_of_nonneg (i := (29 : Nat)) (by omega)]
    show (r.read_buf.take (sliceIndex r.read_buf (r.sandesh_len - 10))).drop _
      = _
    rw [hsub]
    rfl
  unfold extract_frame
  rw [if_neg (by omega)]
  dsimp only
  rw [open_length, close_length, if_neg (not_not.mpr hslice), hpay]

/-- Without the two tags, that is. -/
theorem payload_length {b : Bytes} {e : Nat} (h : Closed b e) :
    (payload b e).length = e - 39 := by
  have hhigh := h.high
  rw [payload, List.length_drop, List.length_take]
  omega

/-- A turn over a frame whose close tag is in its place. -/
theorem turn_closed {n : Int} (hrem : Remembers r)
    (hdecl : Declares r.read_buf n) (hne : n ≠ 0)
    (hle : n ≤ r.read_buf.length)
    (hclosed : Closed r.read_buf (sliceIndex r.read_buf n)) :
    Turns r r.turn := by
  have hframe := extract_frame_closed (r := { r with sandesh_len := n }) hle
    hclosed
  have hend := closed_end hdecl hclosed
  have hlen := payload_length hclosed
  unfold turn
  rw [extract_sandesh_declares hrem hdecl hne, hframe]
  dsimp only
  cases hpay : payload r.read_buf (sliceIndex r.read_buf n) with
  | nil =>
      rw [hpay, List.length_nil] at hlen
      exact .empty hdecl hne hclosed (by omega)
  | cons c cs =>
      rw [hpay, List.length_cons] at hlen
      simp only [List.length_eq_zero_iff, sliceFrom]
      by_cases hrest : r.read_buf.drop (sliceIndex r.read_buf n) = []
      · rw [if_pos hrest, ← hpay, hrest]
        exact .last hdecl hne hclosed (by omega) hrest
      · rw [if_neg hrest, ← hpay]
        exact .again hdecl hne hclosed (by omega) hrest

/-- A turn of the loop, case by case. -/
theorem turn_turns (hrem : Remembers r) : Turns r r.turn := by
  by_cases hsize : r.read_buf.length < 29
  · have hlen : r.sandesh_len = 0 := by
      by_contra hne
      have hdecl := (hrem hne).size
      omega
    have hex : r.extract_sandesh = ((.READ_OK, none), r) := by
      simp [extract_sandesh, extract_sandesh_len, hlen, hsize]
    rw [turn, hex]
    exact .short hsize hlen
  by_cases hdecl : ∃ n, Declares r.read_buf n
  · obtain ⟨n, hdecl⟩ := hdecl
    by_cases hne : n = 0
    · subst hne
      have hlen : r.sandesh_len = 0 := by
        by_contra hne
        exact hne ((hrem hne).unique hdecl)
      have hex : r.extract_sandesh = ((.READ_OK, none), r) := by
        simp [extract_sandesh, extract_sandesh_len_declares hdecl, hlen]
      rw [turn, hex]
      exact .zero hdecl hlen
    by_cases hless : r.read_buf.length < n
    · rw [turn, extract_sandesh_declares hrem hdecl hne,
        extract_frame_partly hless]
      exact .partly hdecl hless
    by_cases hclosed : Closed r.read_buf (sliceIndex r.read_buf n)
    · exact turn_closed hrem hdecl hne (Int.not_lt.mp hless) hclosed
    · rw [turn, extract_sandesh_declares hrem hdecl hne,
        extract_frame_unclosed (Int.not_lt.mp hless) hclosed]
      exact .unclosed hdecl hne (Int.not_lt.mp hless) hclosed
  · have hbad : ∀ n, ¬ Declares r.read_buf n := fun n h => hdecl ⟨n, h⟩
    have hlen : r.sandesh_len = 0 := by
      by_contra hne
      exact hbad _ (hrem hne)
    have hex : r.extract_sandesh = ((.READ_ERR, none), r) := by
      simp [extract_sandesh, hlen,
        extract_sandesh_len_malformed (Nat.not_lt.mp hsize) hbad]
    rw [turn, hex]
    exact .malformed (Nat.not_lt.mp hsize) hbad

/-- The loop ends with a turn that leaves it. -/
theorem loop_inl {done : Ret × SandeshReader} (h : r.turn = .inl done) :
    r.loop = done := by
  rw [loop]
  split
  · next heq =>
    rw [h] at heq
    injection heq with heq
    exact heq.symm
  · next heq =>
    rw [h] at heq
    cases heq

/-- And goes on with one that does not. -/
theorem loop_inr {r' : SandeshReader} (h : r.turn = .inr r') :
    r.loop = r'.loop := by
  rw [loop]
  split
  · next heq =>
    rw [h] at heq
    cases heq
  · next heq =>
    rw [h] at heq
    injection heq with heq
    rw [heq]

end Turn

end Sandesh.Py.Session
