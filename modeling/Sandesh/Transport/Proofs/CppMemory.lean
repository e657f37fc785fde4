/-
The C++ memory buffer as a queue.

The same window as in C, with pointers: `rBound_` is somewhere before
`wBase_` and only decides between the fast and the slow path of a read;
`wBound_` is the end of the memory. A read gives what there is, if that is
less than what was asked for. `readEnd` starts an empty buffer over.
-/
import Sandesh.Transport.Proofs.CMemory

namespace Sandesh.Transport.TMemoryBuffer

open Lib Binary

variable {b b' : TMemoryBuffer} {std : Allocator} {len n : Nat} {buf : Bytes}

-- ========================================================== the invariant

/-- An owning buffer with its pointers in order. -/
structure Ok (b : TMemoryBuffer) : Prop where
  owner : b.owner_ = true
  length : b.buffer_.length = b.bufferSize_
  read : b.rBase_ ≤ b.wBase_
  bound : b.rBound_ ≤ b.wBase_
  write : b.wBase_ ≤ b.bufferSize_
  wBound : b.wBound_ = b.bufferSize_
  small : b.bufferSize_ < 2 ^ 32

def Ok.window (h : b.Ok) : Buffer where
  buf := b.buffer_
  roffset := b.rBase_
  woffset := b.wBase_
  le := h.read
  bound := h.length ▸ h.write

/-- What is written and not yet read. -/
def unread (b : TMemoryBuffer) : Bytes := (b.buffer_.take b.wBase_).drop b.rBase_

theorem Ok.length_unread (h : b.Ok) : b.unread.length = b.wBase_ - b.rBase_ :=
  h.window.length_unread

theorem Ok.available_write_eq (h : b.Ok) :
    b.available_write = free b.wBase_ b.bufferSize_ := by
  unfold available_write
  rw [h.wBound]
  rfl

theorem Ok.available_read_eq (h : b.Ok) : b.available_read = b.unread.length := by
  rw [h.length_unread]
  have hwrite := h.write
  have hsmall := h.small
  exact free_of_le h.read (by omega)

-- ============================================================== growing

/-- The buffer after `realloc`. -/
def resized (b : TMemoryBuffer) (n : Nat) (new_buffer : Bytes) : TMemoryBuffer :=
  { b with bufferSize_ := n, buffer_ := new_buffer, wBound_ := n }

/-- What is done with the size that the loop ends with. -/
def Resizes (std : Allocator) (b : TMemoryBuffer) (n error : Nat)
    (b' : TMemoryBuffer) : Prop :=
  match std.realloc b.buffer_ n with
  | none => error = ENOMEM ∧ b' = b
  | some new_buffer => error = 0 ∧ b' = b.resized n new_buffer

/-- There is enough space. -/
theorem runs_ensureCanWrite_fits (h : len ≤ b.available_write) {error : Nat} :
    (ensureCanWrite std len).Runs b (.ok error) b' ↔ error = 0 ∧ b' = b := by
  unfold ensureCanWrite
  rw [runs_fields, if_pos h, Prog.runs_pure, Except.ok.injEq]

/-- There is not. -/
theorem runs_ensureCanWrite_full (h : b.Ok) (hfull : ¬ len ≤ b.available_write)
    {error : Nat} :
    (ensureCanWrite std len).Runs b (.ok error) b'
      ↔ ∃ n, Stops b.wBase_ len b.bufferSize_ n ∧ Resizes std b n error b' := by
  have hloop : ∀ {m : Nat} {s' : TMemoryBuffer},
      (growLoop b.bufferSize_ b.available_write len (b.bufferSize_, b.available_write)).Runs
        b (.ok m) s' ↔ s' = b ∧ Stops b.wBase_ len b.bufferSize_ m := by
    rw [h.available_write_eq]
    exact runs_growLoop h.write h.small
  have hrest : ∀ n, (match std.realloc b.buffer_ n with
        | none => (pure ENOMEM : Prog TMemoryBuffer Fault Nat)
        | some new_buffer => do
            assign (b.resized n new_buffer)
            pure 0).Runs b (.ok error) b' ↔ Resizes std b n error b' := by
    intro n
    unfold Resizes
    cases std.realloc b.buffer_ n with
    | none =>
        simp only []
        rw [Prog.runs_pure, Except.ok.injEq]
    | some new_buffer =>
        simp only []
        rw [runs_assign, Prog.runs_pure, Except.ok.injEq]
  unfold ensureCanWrite
  rw [runs_fields, if_neg hfull, if_neg (by rw [h.owner]; decide), Prog.runs_bind]
  constructor
  · intro hruns
    rcases hruns with ⟨n, s₁, hn, hend⟩ | ⟨e, -, he⟩
    · obtain ⟨rfl, hstops⟩ := hloop.mp hn
      exact ⟨n, hstops, (hrest n).mp hend⟩
    · cases he
  · intro hex
    obtain ⟨n, hstops, hend⟩ := hex
    exact .inl ⟨n, b, hloop.mpr ⟨rfl, hstops⟩, (hrest n).mpr hend⟩

/-- Growing that leaves enough space keeps what is in the buffer. -/
theorem Ok.resized (h : b.Ok) {new_buffer : Bytes}
    (halloc : std.realloc b.buffer_ n = some new_buffer) (hn : b.wBase_ ≤ n)
    (hsmall : n < 2 ^ 32) :
    (b.resized n new_buffer).Ok ∧ (b.resized n new_buffer).unread = b.unread := by
  refine ⟨⟨h.owner, std.length halloc, h.read, h.bound, hn, rfl, hsmall⟩, ?_⟩
  show (new_buffer.take b.wBase_).drop b.rBase_ = _
  rw [Allocator.take_eq halloc (h.length ▸ h.write) hn]
  rfl

-- ============================================================== the calls

theorem runs_put (h : b.Ok) (hfits : b.wBase_ + buf.length ≤ b.bufferSize_) :
    ∃ b', (put buf).Runs b (.ok 0) b' ∧ b'.Ok ∧ b'.unread = b.unread ++ buf := by
  have hlength := h.length
  have hcopy : copyIn b.buffer_ b.wBase_ buf = some (h.window.append buf).buf :=
    if_pos (by omega)
  let b' : TMemoryBuffer :=
    { b with buffer_ := (h.window.append buf).buf, wBase_ := b.wBase_ + buf.length }
  refine ⟨b', ?_, ⟨h.owner, ?_, ?_, ?_, hfits, h.wBound, h.small⟩, ?_⟩
  · unfold put
    rw [runs_fields, hcopy, runs_checked, runs_assign]
    exact Prog.runs_pure.mpr ⟨rfl, rfl⟩
  · show (b.buffer_.take b.wBase_ ++ buf
      ++ b.buffer_.drop (b.wBase_ + buf.length)).length = b.bufferSize_
    rw [List.length_append, List.length_append, List.length_take, List.length_drop]
    omega
  · exact Nat.le_trans h.read (Nat.le_add_right _ _)
  · exact Nat.le_trans h.bound (Nat.le_add_right _ _)
  · exact h.window.unread_append buf

/-- What a write does: it appends, or fails and changes nothing. -/
structure Wrote (buf : Bytes) (b : TMemoryBuffer) (error : Nat) (b' : TMemoryBuffer) :
    Prop where
  ok : b'.Ok
  appends : error = 0 → b'.unread = b.unread ++ buf
  refuses : error ≠ 0 → b' = b

theorem wrote_put (h : b.Ok) (hfits : b.wBase_ + buf.length ≤ b.bufferSize_)
    {b₀ : TMemoryBuffer} (hsame : b.unread = b₀.unread) :
    ∃ b', (put buf).Runs b (.ok 0) b' ∧ Wrote buf b₀ 0 b' := by
  obtain ⟨b', hruns, hok, hunread⟩ := runs_put h hfits
  refine ⟨b', hruns, hok, fun _ => ?_, fun hne => absurd rfl hne⟩
  rw [hunread, hsame]

/-- A write for which the sizes reach far enough. -/
theorem runs_write (std : Allocator) (h : b.Ok)
    (hreach : Reaches b.bufferSize_ b.wBase_ buf.length) :
    ∃ error b', (write std buf).Runs b (.ok error) b' ∧ Wrote buf b error b' := by
  have hwBound := h.wBound
  have hwrite := h.write
  unfold write
  by_cases hfast : b.wBase_ + buf.length ≤ b.wBound_
  · have hfits : b.wBase_ + buf.length ≤ b.bufferSize_ := by omega
    obtain ⟨b', hput, hwrote⟩ := wrote_put h hfits rfl
    refine ⟨0, b', ?_, hwrote⟩
    rw [runs_fields, if_pos hfast]
    exact hput
  · have hfull : ¬ buf.length ≤ b.available_write := by
      rw [h.available_write_eq, free_of_le h.write h.small]
      omega
    obtain ⟨n, hstops, hn⟩ := stops_of_reaches h.small hreach
    have hsmall : n < 2 ^ 32 := by
      obtain ⟨k, rfl, -, -⟩ := hstops
      exact sizeAfter_lt h.small k
    cases halloc : std.realloc b.buffer_ n with
    | none =>
        have hensure : (ensureCanWrite std buf.length).Runs b (.ok ENOMEM) b := by
          refine (runs_ensureCanWrite_full h hfull).mpr ⟨n, hstops, ?_⟩
          unfold Resizes
          rw [halloc]
          exact ⟨rfl, rfl⟩
        refine ⟨ENOMEM, b, ?_, h, nofun, fun _ => rfl⟩
        rw [runs_fields, if_neg hfast]
        refine Prog.Runs.bind_ok hensure ?_
        exact Prog.runs_pure.mpr ⟨rfl, rfl⟩
    | some new_buffer =>
        obtain ⟨hok, hunread⟩ := h.resized halloc (by omega) hsmall
        have hensure : (ensureCanWrite std buf.length).Runs b (.ok 0)
            (b.resized n new_buffer) := by
          refine (runs_ensureCanWrite_full h hfull).mpr ⟨n, hstops, ?_⟩
          unfold Resizes
          rw [halloc]
          exact ⟨rfl, rfl⟩
        obtain ⟨b', hput, hwrote⟩ := wrote_put hok hn hunread
        refine ⟨0, b', ?_, hwrote⟩
        rw [runs_fields, if_neg hfast]
        exact Prog.Runs.bind_ok hensure hput

/-- What a read does: it takes from the front, as much as there is. -/
structure Got (len : Nat) (b : TMemoryBuffer) (data : Bytes) (b' : TMemoryBuffer) :
    Prop where
  ok : b'.Ok
  takes : b.unread = data ++ b'.unread
  length : data.length = min len b.unread.length

/-- The fast path, and the end of the slow one. -/
theorem runs_take (h : b.Ok) (hlen : len ≤ b.unread.length) (b₀ : TMemoryBuffer) :
    ∃ b', (take b len).Runs b₀ (.ok (b.unread.take len)) b' ∧ b'.Ok
      ∧ b'.unread = b.unread.drop len := by
  have hle := h.length_unread
  have hread := h.read
  have hcopy : copyOut b.buffer_ b.rBase_ len = some (b.unread.take len) :=
    copyOut_window (by omega) (h.length ▸ h.write)
  let b' : TMemoryBuffer := { b with rBase_ := b.rBase_ + len }
  refine ⟨b', ?_, ⟨h.owner, h.length, ?_, h.bound, h.write, h.wBound, h.small⟩, ?_⟩
  · unfold take
    rw [hcopy, runs_checked, runs_assign]
    exact Prog.runs_pure.mpr ⟨rfl, rfl⟩
  · exact (h.window.consume len hlen).le
  · exact h.window.unread_consume len hlen

theorem runs_read (h : b.Ok) (len : Nat) :
    ∃ data b', (read len).Runs b (.ok data) b' ∧ Got len b data b' := by
  have hle := h.length_unread
  have hbound := h.bound
  unfold read
  by_cases hfast : b.rBase_ + len ≤ b.rBound_
  · have hlen : len ≤ b.unread.length := by omega
    obtain ⟨b', htake, hok, hrest⟩ := runs_take h hlen b
    refine ⟨_, b', ?_, hok, ?_, List.length_take⟩
    · rw [runs_fields, if_pos hfast]
      exact htake
    · rw [hrest, List.take_append_drop]
  · have hok : ({ b with rBound_ := b.wBase_ } : TMemoryBuffer).Ok :=
      ⟨h.owner, h.length, h.read, Nat.le_refl _, h.write, h.wBound, h.small⟩
    have hgive : min len b.available_read ≤ b.unread.length := by
      rw [h.available_read_eq]
      exact Nat.min_le_right _ _
    obtain ⟨b', htake, hok', hrest⟩ := runs_take hok hgive b
    refine ⟨b.unread.take (min len b.available_read), b', ?_, hok', ?_, ?_⟩
    · rw [runs_fields, if_neg hfast]
      unfold readSlow
      rw [runs_fields]
      exact htake
    · rw [hrest]
      exact (List.take_append_drop _ _).symm
    · rw [List.length_take, h.available_read_eq]
      omega

theorem runs_readEnd (h : b.Ok) :
    ∃ count b', readEnd.Runs b (.ok count) b' ∧ b'.Ok ∧ b'.unread = b.unread := by
  let b' : TMemoryBuffer := if b.rBase_ = b.wBase_ then b.resetBuffer else b
  refine ⟨u32 b.rBase_, b', ?_, ?_⟩
  · unfold readEnd
    rw [runs_fields, runs_assign]
    exact Prog.runs_pure.mpr ⟨rfl, rfl⟩
  · by_cases hempty : b.rBase_ = b.wBase_
    · have hb' : b' = { b with rBase_ := 0, rBound_ := 0, wBase_ := 0 } := by
        show (if b.rBase_ = b.wBase_ then b.resetBuffer else b) = _
        rw [if_pos hempty]
        exact if_pos h.owner
      have hnone : b.unread = [] := by
        apply List.eq_nil_of_length_eq_zero
        rw [h.length_unread, hempty, Nat.sub_self]
      rw [hb', hnone]
      exact ⟨⟨h.owner, h.length, Nat.le_refl 0, Nat.le_refl 0, Nat.zero_le _, h.wBound,
        h.small⟩, h.window.unread_reset⟩
    · have hb' : b' = b := if_neg hempty
      rw [hb']
      exact ⟨h, rfl⟩

end Sandesh.Transport.TMemoryBuffer
