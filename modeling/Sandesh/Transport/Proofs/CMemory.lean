/-
The C memory buffer as a queue.

An owning buffer (`Ok`) is the window of `Binary.Buffer` over its memory.
`ensure_can_write` grows the memory and keeps the window as long as the
doubled size is not below the write offset; a write then appends to the
window, a read takes from its front.
-/
import Sandesh.Binary.Basic
import Sandesh.Transport.Proofs.Growth

namespace Sandesh.Transport

open Lib Binary

-- ============================================================== the fields

section State

variable {σ α : Type} {s s' t : σ} {res : Except Fault α}

theorem runs_fields {f : σ → Prog σ Fault α} :
    (fields >>= f).Runs s res s' ↔ (f s).Runs s res s' := by
  rw [Prog.runs_bind]
  constructor
  · intro h
    rcases h with ⟨a, s₁, ha, hf⟩ | ⟨e, he, -⟩
    · injection Prog.runs_act.mp ha with ha hs
      injection ha with ha
      rwa [ha, hs] at hf
    · injection Prog.runs_act.mp he with he
      cases he
  · intro h
    exact .inl ⟨s, s, Prog.runs_act.mpr rfl, h⟩

theorem runs_assign {f : Unit → Prog σ Fault α} :
    (assign t >>= f).Runs s res s' ↔ (f ()).Runs t res s' := by
  rw [Prog.runs_bind]
  constructor
  · intro h
    rcases h with ⟨a, s₁, ha, hf⟩ | ⟨e, he, -⟩
    · injection Prog.runs_act.mp ha with ha hs
      rwa [hs] at hf
    · injection Prog.runs_act.mp he with he
      cases he
  · intro h
    exact .inl ⟨(), t, Prog.runs_act.mpr rfl, h⟩

theorem runs_checked {β : Type} {b : β} {f : β → Prog σ Fault α} :
    (checked (some b) >>= f).Runs s res s' ↔ (f b).Runs s res s' := by
  rw [Prog.runs_bind]
  constructor
  · intro h
    rcases h with ⟨a, s₁, ha, hf⟩ | ⟨e, he, -⟩
    · obtain ⟨hab, rfl⟩ := Prog.runs_pure.mp ha
      injection hab with hab
      rwa [hab] at hf
    · cases (Prog.runs_pure.mp he).1
  · intro h
    exact .inl ⟨b, s, Prog.runs_pure.mpr ⟨rfl, rfl⟩, h⟩

end State

-- ============================================================= the memory

/-- What is between two offsets, copied out. -/
theorem copyOut_window {mem : Bytes} {r w len : Nat} (hlen : r + len ≤ w)
    (hw : w ≤ mem.length) :
    copyOut mem r len = some (((mem.take w).drop r).take len) := by
  unfold copyOut
  rw [if_pos (by omega), List.drop_take, List.take_take, Nat.min_eq_left (by omega)]

/-- `realloc` keeps what is before both sizes. -/
theorem Allocator.take_eq {os : Allocator} {buf new_buf : Bytes} {n w : Nat}
    (h : os.realloc buf n = some new_buf) (hw : w ≤ buf.length) (hn : w ≤ n) :
    new_buf.take w = buf.take w := by
  have hkeeps := congrArg (List.take w) (os.keeps h)
  rwa [List.take_take, List.take_take, Nat.min_eq_left hw, Nat.min_eq_left hn] at hkeeps

-- ========================================================== the invariant

namespace ThriftMemoryBuffer

variable {t t' : ThriftMemoryBuffer} {os : Allocator} {len n : Nat} {buf : Bytes}

/-- An owning buffer with its offsets in order. -/
structure Ok (t : ThriftMemoryBuffer) : Prop where
  owner : t.owner = true
  length : t.buf.length = t.buf_size
  read : t.buf_roffset ≤ t.buf_woffset
  write : t.buf_woffset ≤ t.buf_size
  small : t.buf_size < 2 ^ 32

/-- The buffer as a window of its memory. -/
def Ok.window (h : t.Ok) : Buffer where
  buf := t.buf
  roffset := t.buf_roffset
  woffset := t.buf_woffset
  le := h.read
  bound := h.length ▸ h.write

/-- What is written and not yet read. -/
def unread (t : ThriftMemoryBuffer) : Bytes :=
  (t.buf.take t.buf_woffset).drop t.buf_roffset

theorem Ok.unread_window (h : t.Ok) : h.window.unread = t.unread := rfl

theorem Ok.length_unread (h : t.Ok) :
    t.unread.length = t.buf_woffset - t.buf_roffset :=
  h.window.length_unread

theorem Ok.available_write_eq (h : t.Ok) : t.available_write = t.buf_size - t.buf_woffset :=
  free_of_le h.write h.small

theorem Ok.available_read_eq (h : t.Ok) : t.available_read = t.unread.length := by
  rw [h.length_unread]
  have hwrite := h.write
  have hsmall := h.small
  exact free_of_le h.read (by omega)

-- ============================================================== growing

/-- The buffer after `realloc`. -/
def resized (t : ThriftMemoryBuffer) (n : Nat) (new_buf : Bytes) : ThriftMemoryBuffer :=
  { t with buf_size := n, buf := new_buf }

/-- What is done with the size that the loop ends with. -/
def Resizes (os : Allocator) (t : ThriftMemoryBuffer) (n error : Nat)
    (t' : ThriftMemoryBuffer) : Prop :=
  match os.realloc t.buf n with
  | none => error = ENOMEM ∧ t' = t
  | some new_buf => error = 0 ∧ t' = t.resized n new_buf

theorem runs_ensure_can_write (h : t.Ok) {error : Nat} :
    (ensure_can_write os len).Runs t (.ok error) t'
      ↔ ∃ n, Stops t.buf_woffset len t.buf_size n ∧ Resizes os t n error t' := by
  have hloop : ∀ {m : Nat} {s' : ThriftMemoryBuffer},
      (growLoop t.buf_size t.available_write len (t.buf_size, t.available_write)).Runs
        t (.ok m) s' ↔ s' = t ∧ Stops t.buf_woffset len t.buf_size m :=
    runs_growLoop h.write h.small
  have hrest : ∀ n, (match os.realloc t.buf n with
        | none => (pure ENOMEM : Prog ThriftMemoryBuffer Fault Nat)
        | some new_buf => do
            assign { t with buf_size := n, buf := new_buf }
            pure 0).Runs t (.ok error) t' ↔ Resizes os t n error t' := by
    intro n
    unfold Resizes
    cases os.realloc t.buf n with
    | none =>
        simp only []
        rw [Prog.runs_pure, Except.ok.injEq]
    | some new_buf =>
        simp only []
        rw [runs_assign, Prog.runs_pure, Except.ok.injEq]
        rfl
  unfold ensure_can_write
  rw [runs_fields, if_neg (by rw [h.owner]; decide), Prog.runs_bind]
  constructor
  · intro hruns
    rcases hruns with ⟨n, s₁, hn, hend⟩ | ⟨e, -, he⟩
    · obtain ⟨rfl, hstops⟩ := hloop.mp hn
      exact ⟨n, hstops, (hrest n).mp hend⟩
    · cases he
  · intro hex
    obtain ⟨n, hstops, hend⟩ := hex
    exact .inl ⟨n, t, hloop.mpr ⟨rfl, hstops⟩, (hrest n).mpr hend⟩

/-- Growing that leaves enough space keeps what is in the buffer. -/
theorem Ok.resized (h : t.Ok) {new_buf : Bytes} (halloc : os.realloc t.buf n = some new_buf)
    (hn : t.buf_woffset ≤ n) (hsmall : n < 2 ^ 32) :
    (t.resized n new_buf).Ok ∧ (t.resized n new_buf).unread = t.unread := by
  refine ⟨⟨h.owner, os.length halloc, h.read, hn, hsmall⟩, ?_⟩
  show (new_buf.take t.buf_woffset).drop t.buf_roffset = _
  rw [Allocator.take_eq halloc (h.length ▸ h.write) hn]
  rfl

-- ============================================================== the calls

theorem runs_put (h : t.Ok) (hfits : t.buf_woffset + buf.length ≤ t.buf_size) :
    ∃ t', (put buf).Runs t (.ok true) t' ∧ t'.Ok ∧ t'.unread = t.unread ++ buf := by
  have hlength := h.length
  have hsmall := h.small
  have hoffset : u32 ((t.buf_woffset : Int) + buf.length) = t.buf_woffset + buf.length :=
    u32_nat (by omega)
  have hcopy : copyIn t.buf t.buf_woffset buf = some (h.window.append buf).buf :=
    if_pos (by omega)
  let t' : ThriftMemoryBuffer :=
    { t with buf := (h.window.append buf).buf, buf_woffset := t.buf_woffset + buf.length }
  refine ⟨t', ?_, ⟨h.owner, ?_, ?_, hfits, h.small⟩, ?_⟩
  · unfold put
    rw [runs_fields, hcopy, runs_checked, runs_assign, hoffset]
    exact Prog.runs_pure.mpr ⟨rfl, rfl⟩
  · show (t.buf.take t.buf_woffset ++ buf
      ++ t.buf.drop (t.buf_woffset + buf.length)).length = t.buf_size
    rw [List.length_append, List.length_append, List.length_take, List.length_drop]
    omega
  · exact Nat.le_trans h.read (Nat.le_add_right _ _)
  · exact h.window.unread_append buf

/-- What a write does: it appends, or is turned down and changes
nothing. -/
structure Wrote (buf : Bytes) (t : ThriftMemoryBuffer) (accepted : Bool)
    (t' : ThriftMemoryBuffer) : Prop where
  ok : t'.Ok
  appends : accepted = true → t'.unread = t.unread ++ buf
  refuses : accepted = false → t' = t

theorem wrote_put (h : t.Ok) (hfits : t.buf_woffset + buf.length ≤ t.buf_size)
    {t₀ : ThriftMemoryBuffer} (hsame : t.unread = t₀.unread) :
    ∃ t', (put buf).Runs t (.ok true) t' ∧ Wrote buf t₀ true t' := by
  obtain ⟨t', hruns, hok, hunread⟩ := runs_put h hfits
  refine ⟨t', hruns, hok, fun _ => ?_, nofun⟩
  rw [hunread, hsame]

/-- A write for which the sizes reach far enough. -/
theorem runs_write (os : Allocator) (h : t.Ok)
    (hreach : Reaches t.buf_size t.buf_woffset buf.length) :
    ∃ accepted t', (write os buf).Runs t (.ok accepted) t' ∧ Wrote buf t accepted t' := by
  have hwrite := h.write
  unfold write
  by_cases hfull : buf.length > t.available_write
  · obtain ⟨n, hstops, hn⟩ := stops_of_reaches h.small hreach
    have hsmall : n < 2 ^ 32 := by
      obtain ⟨k, rfl, -, -⟩ := hstops
      exact sizeAfter_lt h.small k
    cases halloc : os.realloc t.buf n with
    | none =>
        have hensure : (ensure_can_write os buf.length).Runs t (.ok ENOMEM) t := by
          refine (runs_ensure_can_write h).mpr ⟨n, hstops, ?_⟩
          unfold Resizes
          rw [halloc]
          exact ⟨rfl, rfl⟩
        refine ⟨false, t, ?_, h, nofun, fun _ => rfl⟩
        rw [runs_fields, if_pos hfull]
        refine Prog.Runs.bind_ok hensure ?_
        exact Prog.runs_pure.mpr ⟨rfl, rfl⟩
    | some new_buf =>
        obtain ⟨hok, hunread⟩ := h.resized halloc (by omega) hsmall
        have hensure : (ensure_can_write os buf.length).Runs t (.ok 0)
            (t.resized n new_buf) := by
          refine (runs_ensure_can_write h).mpr ⟨n, hstops, ?_⟩
          unfold Resizes
          rw [halloc]
          exact ⟨rfl, rfl⟩
        obtain ⟨t', hput, hwrote⟩ := wrote_put hok hn hunread
        refine ⟨true, t', ?_, hwrote⟩
        rw [runs_fields, if_pos hfull]
        exact Prog.Runs.bind_ok hensure hput
  · rw [h.available_write_eq] at hfull
    have hfits : t.buf_woffset + buf.length ≤ t.buf_size := by omega
    obtain ⟨t', hput, hwrote⟩ := wrote_put h hfits rfl
    refine ⟨true, t', ?_, hwrote⟩
    rw [runs_fields, h.available_write_eq, if_neg hfull]
    exact hput

/-- What a read does: it takes from the front, or fails and changes
nothing. -/
structure Got (len : Nat) (t : ThriftMemoryBuffer) (data : Option Bytes)
    (t' : ThriftMemoryBuffer) : Prop where
  ok : t'.Ok
  takes : ∀ bytes, data = some bytes → bytes.length = len ∧ t.unread = bytes ++ t'.unread
  fails : data = none ↔ t.unread.length < len
  keeps : data = none → t' = t

/-- Starting over loses nothing. -/
theorem Ok.startOver (h : t.Ok) : t.startOver.Ok ∧ t.startOver.unread = t.unread := by
  unfold ThriftMemoryBuffer.startOver
  split
  · next hempty =>
      refine ⟨⟨h.owner, h.length, Nat.le_refl 0, Nat.zero_le _, h.small⟩, ?_⟩
      have hnone : t.unread = [] := by
        apply List.eq_nil_of_length_eq_zero
        rw [h.length_unread, hempty, Nat.sub_self]
      rw [hnone]
      exact h.window.unread_reset
  · exact ⟨h, rfl⟩

theorem runs_read (h : t.Ok) (len : Nat) :
    ∃ data t', (read len).Runs t (.ok data) t' ∧ Got len t data t' := by
  have havail := h.available_read_eq
  unfold read
  by_cases hshort : t.available_read < len
  · refine ⟨none, t, ?_, h, nofun, ?_, fun _ => rfl⟩
    · rw [runs_fields, if_pos hshort]
      exact Prog.runs_pure.mpr ⟨rfl, rfl⟩
    · rw [← havail]
      exact iff_of_true rfl hshort
  · have hlen : len ≤ h.window.unread.length := by
      rw [h.unread_window]
      omega
    have hwindow := h.window.length_unread
    have hread := h.read
    have hoffset : u32 ((t.buf_roffset : Int) + len) = t.buf_roffset + len := by
      have hwrite := h.write
      have hsmall := h.small
      refine u32_nat ?_
      change _ = t.buf_woffset - t.buf_roffset at hwindow
      omega
    have hcopy : copyOut t.buf t.buf_roffset len = some (t.unread.take len) := by
      refine copyOut_window ?_ (h.length ▸ h.write)
      change _ = t.buf_woffset - t.buf_roffset at hwindow
      omega
    have hmoved : ({ t with buf_roffset := t.buf_roffset + len } : ThriftMemoryBuffer).Ok :=
      ⟨h.owner, h.length, (h.window.consume len hlen).le, h.write, h.small⟩
    obtain ⟨hok, hunread⟩ := hmoved.startOver
    refine ⟨some (t.unread.take len), _, ?_, hok, ?_, ?_, nofun⟩
    · rw [runs_fields, if_neg hshort, hcopy, runs_checked, runs_assign, hoffset]
      exact Prog.runs_pure.mpr ⟨rfl, rfl⟩
    · intro bytes hbytes
      injection hbytes with hbytes
      subst hbytes
      refine ⟨?_, ?_⟩
      · rw [List.length_take]
        exact Nat.min_eq_left hlen
      · rw [hunread]
        have hrest : ({ t with buf_roffset := t.buf_roffset + len }
            : ThriftMemoryBuffer).unread = t.unread.drop len :=
          h.window.unread_consume len hlen
        rw [hrest, List.take_append_drop]
    · refine iff_of_false nofun ?_
      rw [← havail]
      exact hshort

end ThriftMemoryBuffer

end Sandesh.Transport
