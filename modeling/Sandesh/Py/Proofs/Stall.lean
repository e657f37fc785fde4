/-
When the Python reader stalls.

After a call that returned `READ_OK` the reader should be waiting for the
rest of a frame (`Waiting`). The exit "read more data" is also taken by
three fronts that no further data completes or that are complete already
(`Stuck`): a declared length of zero, a declared length within the
envelope that is not yet there, and a frame with nothing between its
tags. A call that does not come upon one of these does what it should,
and one that does leaves it at the front of the buffer; `stalls_iff` says
so of every sequence of chunks.
-/
import Mathlib.Logic.Relation
import Sandesh.Py.Proofs.Turns

namespace Sandesh.Py.Session

open Lib SandeshReader

/-- A proper prefix of a frame is buffered. -/
def Waiting (r : SandeshReader) : Prop :=
  r.read_buf.length < XML_SANDESH_OPEN.length
    ∨ (Declares r.read_buf r.sandesh_len
      ∧ (XML_SANDESH_OPEN.length + XML_SANDESH_CLOSE.length : Int)
        ≤ r.sandesh_len
      ∧ r.read_buf.length < r.sandesh_len)

/-- A frame with a message in it is complete, and `b'` is behind it. -/
def Passes (b b' : Bytes) : Prop :=
  ∃ n, Declares b n ∧ n ≠ 0 ∧ Closed b (sliceIndex b n)
    ∧ 39 < sliceIndex b n ∧ b' = b.drop (sliceIndex b n)

/-- Where a call comes to, from what is buffered on. -/
abbrev FrameStart : Bytes → Bytes → Prop := Relation.ReflTransGen Passes

/-- The front is taken for one to be completed, and is not. -/
def Stuck (b : Bytes) : Prop :=
  ∃ n, Declares b n ∧ (n = 0 ∨ (b.length < n ∧ n < 39)
    ∨ (n ≠ 0 ∧ Closed b (sliceIndex b n) ∧ sliceIndex b n = 39))

/-- A call with these bytes comes upon no such front. -/
def Clear (b : Bytes) : Prop := ∀ b', FrameStart b b' → ¬ Stuck b'

-- ============================================================== fronts

section Fronts

variable {b b' : Bytes} {n : Int}

theorem passes_iff (h : Declares b n) :
    Passes b b' ↔ n ≠ 0 ∧ Closed b (sliceIndex b n) ∧ 39 < sliceIndex b n
      ∧ b' = b.drop (sliceIndex b n) := by
  constructor
  · intro hex
    obtain ⟨m, hm, hpass⟩ := hex
    obtain rfl := h.unique hm
    exact hpass
  · intro hpass
    exact ⟨n, h, hpass⟩

theorem stuck_iff (h : Declares b n) :
    Stuck b ↔ n = 0 ∨ (b.length < n ∧ n < 39)
      ∨ (n ≠ 0 ∧ Closed b (sliceIndex b n) ∧ sliceIndex b n = 39) := by
  constructor
  · intro hex
    obtain ⟨m, hm, hstuck⟩ := hex
    obtain rfl := h.unique hm
    exact hstuck
  · intro hstuck
    exact ⟨n, h, hstuck⟩

/-- Nothing beyond the buffer is closed. -/
theorem not_closed_beyond (h : b.length < n) :
    ¬ Closed b (sliceIndex b n) := by
  intro hclosed
  have hhigh := hclosed.high
  rw [sliceIndex_of_nonneg (by omega)] at hhigh
  omega

/-- A front that does not pass. -/
theorem clear_iff_of_blocked (h : ∀ b', ¬ Passes b b') :
    Clear b ↔ ¬ Stuck b := by
  constructor
  · intro hclear
    exact hclear b .refl
  · intro hstuck b' hreach
    rcases hreach.cases_head with rfl | ⟨b₁, hpass, -⟩
    · exact hstuck
    · exact absurd hpass (h b₁)

/-- A front that passes is not stuck, and the call goes on behind it. -/
theorem clear_iff_of_declares (h : Declares b n) (hne : n ≠ 0)
    (hclosed : Closed b (sliceIndex b n)) (hend : 39 < sliceIndex b n) :
    Clear b ↔ Clear (b.drop (sliceIndex b n)) := by
  have hpass := (passes_iff h).mpr ⟨hne, hclosed, hend, rfl⟩
  have hstuck : ¬ Stuck b := by
    rw [stuck_iff h]
    intro hbad
    rcases hbad with hbad | ⟨hbad, -⟩ | ⟨-, -, hbad⟩
    · exact hne hbad
    · exact not_closed_beyond hbad hclosed
    · omega
  constructor
  · intro hclear b' hreach
    exact hclear b' (hreach.head hpass)
  · intro hclear b' hreach
    rcases hreach.cases_head with rfl | ⟨b₁, hpass₁, hreach⟩
    · exact hstuck
    · obtain ⟨-, -, -, rfl⟩ := (passes_iff h).mp hpass₁
      exact hclear b' hreach

theorem clear_of_undeclared (h : ∀ n, ¬ Declares b n) : Clear b := by
  rw [clear_iff_of_blocked]
  · intro hex
    obtain ⟨n, hn, -⟩ := hex
    exact h n hn
  · intro b' hex
    obtain ⟨n, hn, -⟩ := hex
    exact h n hn

theorem not_declares_short (h : b.length < 29) (n : Int) : ¬ Declares b n := by
  intro hdecl
  have hsize := hdecl.size
  omega

end Fronts

-- =============================================================== a call

section Call

variable {r : SandeshReader}

theorem loop_remembers (hrem : Remembers r) : Remembers r.loop.2 := by
  induction r using loop.induct with
  | case1 r done h =>
      have hturn := turn_turns hrem
      rw [h] at hturn
      rw [loop_inl h]
      cases hturn with
      | short _ _ => exact hrem
      | malformed _ _ => exact hrem
      | zero _ _ => exact hrem
      | partly hdecl _ => exact fun _ => hdecl
      | unclosed hdecl _ _ _ => exact fun _ => hdecl
      | empty hdecl _ _ _ => exact fun _ => hdecl
      | last _ _ _ _ _ => exact fun hne => absurd rfl hne
  | case2 r r' h ih =>
      have hturn := turn_turns hrem
      rw [h] at hturn
      rw [loop_inr h]
      cases hturn with
      | again _ _ _ _ _ => exact ih fun hne => absurd rfl hne

/-- Behind an open tag. -/
theorem waiting_iff (hsize : 29 ≤ r.read_buf.length) :
    Waiting r ↔ Declares r.read_buf r.sandesh_len ∧ 39 ≤ r.sandesh_len
      ∧ r.read_buf.length < r.sandesh_len := by
  unfold Waiting
  rw [open_length, close_length]
  constructor
  · intro hwait
    rcases hwait with hshort | hwait
    · omega
    · exact hwait
  · intro hwait
    exact .inr hwait

theorem waiting_short (hsize : r.read_buf.length < 29) : Waiting r := by
  refine .inl ?_
  rw [open_length]
  exact hsize

/-- A frame that is not complete. -/
theorem waiting_partly_iff {n : Int} (hdecl : Declares r.read_buf n)
    (hless : r.read_buf.length < n) :
    Waiting { r with sandesh_len := n } ↔ Clear r.read_buf := by
  have hopen := not_closed_beyond hless
  have hblocked : ∀ b', ¬ Passes r.read_buf b' := by
    intro b' hpass
    exact hopen ((passes_iff hdecl).mp hpass).2.1
  rw [waiting_iff (r := { r with sandesh_len := n }) hdecl.size,
    clear_iff_of_blocked hblocked, stuck_iff hdecl]
  dsimp only
  constructor
  · intro hwait hstuck
    obtain ⟨-, hlong, -⟩ := hwait
    rcases hstuck with hbad | ⟨-, hbad⟩ | ⟨-, hbad, -⟩
    · omega
    · omega
    · exact hopen hbad
  · intro hstuck
    refine ⟨hdecl, ?_, hless⟩
    by_contra hlong
    exact hstuck (.inr (.inl ⟨hless, by omega⟩))

/-- A front that is refused is not stuck. -/
theorem clear_of_unclosed {b : Bytes} {n : Int} (hdecl : Declares b n)
    (hne : n ≠ 0) (hle : n ≤ b.length)
    (hopen : ¬ Closed b (sliceIndex b n)) : Clear b := by
  rw [clear_iff_of_blocked, stuck_iff hdecl]
  · intro hstuck
    rcases hstuck with hbad | ⟨hbad, -⟩ | ⟨-, hbad, -⟩
    · exact hne hbad
    · omega
    · exact hopen hbad
  · intro b' hpass
    exact hopen ((passes_iff hdecl).mp hpass).2.1

/-- A turn that leaves the loop. -/
theorem turns_waiting_iff {ret : Ret} {r' : SandeshReader}
    (h : Turns r (.inl (ret, r'))) :
    (ret = .READ_OK → Waiting r') ↔ Clear r.read_buf := by
  cases h with
  | short hsize _ =>
      refine ⟨fun _ => ?_, fun _ _ => waiting_short hsize⟩
      exact clear_of_undeclared (not_declares_short hsize)
  | malformed _ hbad =>
      exact ⟨fun _ => clear_of_undeclared hbad, fun _ => nofun⟩
  | zero hdecl hlen =>
      constructor
      · intro hwait
        have hlong := ((waiting_iff hdecl.size).mp (hwait rfl)).2.1
        omega
      · intro hclear
        exact absurd ((stuck_iff hdecl).mpr (.inl rfl)) (hclear _ .refl)
  | partly hdecl hless =>
      rw [← waiting_partly_iff hdecl hless]
      exact ⟨fun hwait => hwait rfl, fun hwait _ => hwait⟩
  | unclosed hdecl hne hle hopen =>
      exact ⟨fun _ => clear_of_unclosed hdecl hne hle hopen, fun _ => nofun⟩
  | @empty n hdecl hne hclosed hend =>
      constructor
      · intro hwait
        have hless := ((waiting_iff (r := { r with sandesh_len := n })
          hdecl.size).mp (hwait rfl)).2.2
        exact absurd hclosed (not_closed_beyond hless)
      · intro hclear
        have hstuck : Stuck r.read_buf :=
          (stuck_iff hdecl).mpr (.inr (.inr ⟨hne, hclosed, hend⟩))
        exact absurd hstuck (hclear _ .refl)
  | last hdecl hne hclosed hend hrest =>
      rw [clear_iff_of_declares hdecl hne hclosed hend, hrest]
      refine ⟨fun _ => ?_, fun _ _ => waiting_short (Nat.zero_lt_succ 28)⟩
      exact clear_of_undeclared (not_declares_short (by decide))

/-- The loop, from any front. -/
theorem loop_waiting_iff (hrem : Remembers r) :
    (r.loop.1 = .READ_OK → Waiting r.loop.2) ↔ Clear r.read_buf := by
  induction r using loop.induct with
  | case1 r done h =>
      have hturn := turn_turns hrem
      rw [h] at hturn
      rw [loop_inl h]
      exact turns_waiting_iff hturn
  | case2 r r' h ih =>
      have hturn := turn_turns hrem
      rw [h] at hturn
      rw [loop_inr h]
      cases hturn with
      | again hdecl hne hclosed hend _ =>
          rw [clear_iff_of_declares hdecl hne hclosed hend]
          exact ih fun hlen => absurd rfl hlen

end Call

/-- Over any sequence of chunks every call that returns `READ_OK` waits
for the rest of a frame exactly when no call comes upon a front that is
stuck. -/
theorem stalls_iff (chunks : List Bytes) :
    reading.Each (fun r chunk r' =>
        (r.read_msg chunk).1 = .READ_OK → Waiting r') new chunks
      ↔ reading.Each (fun r chunk _ => Clear (r.read_buf ++ chunk)) new
        chunks := by
  refine Machine.each_iff (I := Remembers) ?_ ?_ chunks (fun hne => absurd rfl hne)
  · intro r chunk r' hrem hstep
    injection hstep with hstep
    subst hstep
    exact loop_waiting_iff (remembers_append hrem chunk)
  · intro r chunk r' hrem hstep _
    injection hstep with hstep
    subst hstep
    exact loop_remembers (remembers_append hrem chunk)

/-- A frame of the right length with nothing in it: neither delivered nor
refused. -/
theorem empty_frame_stalls :
    ¬ reading.Each (fun r chunk r' =>
        (r.read_msg chunk).1 = .READ_OK → Waiting r') new
      [lit "<sandesh length=\"0000000039\"></sandesh>"] := by
  intro h
  have hturn : turn { new with
      read_buf := lit "<sandesh length=\"0000000039\"></sandesh>" }
      = .inl (.READ_OK, { new with
        read_buf := lit "<sandesh length=\"0000000039\"></sandesh>"
        sandesh_len := 39 }) := by decide
  have hloop := loop_inl hturn
  obtain ⟨hwait, -⟩ := h _ rfl
  have hread : new.read_msg (lit "<sandesh length=\"0000000039\"></sandesh>")
      = (.READ_OK, { new with
        read_buf := lit "<sandesh length=\"0000000039\"></sandesh>"
        sandesh_len := 39 }) := hloop
  rw [hread] at hwait
  rcases hwait rfl with hshort | ⟨-, -, hless⟩
  · revert hshort
    decide
  · revert hless
    decide

end Sandesh.Py.Session
