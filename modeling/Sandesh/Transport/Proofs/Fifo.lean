/-
Memory buffers are queues as long as they grow right.

- Growing ends, and leaves enough space where it reports success, exactly
  if the doubled sizes reach far enough (`c_grows_iff`, `cpp_grows_iff`).
- In every run whose writes are made under that condition every call
  returns, and what is read is what was written, in order (`c_fifo`,
  `cpp_fifo`).

The smallest failure is a buffer of one byte that is full: 2^31 more bytes
double it to 2^31, then to 0, where the 32-bit difference to the offset
looks like enough space (`full_byte_not_grown`).
-/
import Sandesh.Transport.Proofs.CppMemory

namespace Sandesh.Transport

open Lib QueueEvent

/-- `realloc` does not return `NULL`. -/
def Allocator.Succeeds (os : Allocator) : Prop :=
  ∀ buf n, ∃ new_buf, os.realloc buf n = some new_buf

-- ================================================================== C

section C

open ThriftMemoryBuffer

variable {t : ThriftMemoryBuffer} {os : Allocator} {len : Nat}

/-- The loop ends, and where success is reported there is enough space. -/
def CGrows (os : Allocator) (t : ThriftMemoryBuffer) (len : Nat) : Prop :=
  (∃ error t', (ensure_can_write os len).Runs t (.ok error) t')
  ∧ ∀ t', (ensure_can_write os len).Runs t (.ok 0) t' →
    t'.buf_woffset + len ≤ t'.buf_size

theorem c_resizes (hos : os.Succeeds) (t : ThriftMemoryBuffer) (n : Nat) :
    ∃ new_buf, Resizes os t n 0 (t.resized n new_buf) := by
  obtain ⟨new_buf, halloc⟩ := hos t.buf n
  refine ⟨new_buf, ?_⟩
  unfold Resizes
  rw [halloc]
  exact ⟨rfl, rfl⟩

theorem c_size_of_resizes {n : Nat} {t' : ThriftMemoryBuffer} (h : Resizes os t n 0 t') :
    t'.buf_size = n ∧ t'.buf_woffset = t.buf_woffset := by
  unfold Resizes at h
  split at h
  · exact absurd h.1 (by decide)
  · rw [h.2]
    exact ⟨rfl, rfl⟩

theorem c_grows_iff (hos : os.Succeeds) (h : t.Ok) :
    CGrows os t len ↔ Reaches t.buf_size t.buf_woffset len := by
  rw [← stops_right_iff h.write h.small]
  unfold CGrows
  constructor
  · intro hgrows
    obtain ⟨⟨error, t', hruns⟩, hright⟩ := hgrows
    obtain ⟨n, hstops, -⟩ := (runs_ensure_can_write h).mp hruns
    refine ⟨⟨n, hstops⟩, fun m hm => ?_⟩
    obtain ⟨new_buf, hresizes⟩ := c_resizes hos t m
    exact hright _ ((runs_ensure_can_write h).mpr ⟨m, hm, hresizes⟩)
  · intro hstops
    obtain ⟨⟨n, hn⟩, hright⟩ := hstops
    obtain ⟨new_buf, hresizes⟩ := c_resizes hos t n
    refine ⟨⟨0, _, (runs_ensure_can_write h).mpr ⟨n, hn, hresizes⟩⟩, fun t' hruns => ?_⟩
    obtain ⟨m, hm, hresizes'⟩ := (runs_ensure_can_write h).mp hruns
    obtain ⟨hsize, hwoffset⟩ := c_size_of_resizes hresizes'
    rw [hsize, hwoffset]
    exact hright m hm

/-- What a call does to the queue. -/
def COp.event : COp → CResult → QueueEvent UInt8
  | .write _ buf, .wrote true => .push buf
  | .read _, .got (some data) => .pop data
  | _, _ => .idle

/-- A write is made where the sizes reach far enough. -/
def CRoom (t : ThriftMemoryBuffer) : COp → Prop
  | .write _ buf => Reaches t.buf_size t.buf_woffset buf.length
  | .read _ => True

/-- A call on the queue; a read of more than there is fails and changes
nothing. -/
structure CStep (t : ThriftMemoryBuffer) (op : COp) (x : CResult)
    (t' : ThriftMemoryBuffer) : Prop where
  moves : (op.event x).Moves t.unread t'.unread
  whole : ∀ len data, op = .read len → x = .got (some data) → data.length = len
  short : ∀ len, op = .read len → (x = .got none ↔ t.unread.length < len)
  keeps : ∀ len, op = .read len → x = .got none → t' = t

theorem c_call {op : COp} (h : t.Ok) (hroom : CRoom t op) :
    ∃ x t', op.code.Runs t (.ok x) t' ∧ t'.Ok ∧ CStep t op x t' := by
  cases op with
  | write os buf =>
      obtain ⟨accepted, t', hruns, hwrote⟩ := runs_write os h hroom
      refine ⟨.wrote accepted, t', Prog.Runs.bind_ok hruns ?_, hwrote.ok, ?_, nofun, nofun,
        nofun⟩
      · exact Prog.runs_pure.mpr ⟨rfl, rfl⟩
      · cases accepted with
        | true => exact hwrote.appends rfl
        | false => exact congrArg ThriftMemoryBuffer.unread (hwrote.refuses rfl)
  | read len =>
      obtain ⟨data, t', hruns, hgot⟩ := runs_read h len
      have hnone : CResult.got data = .got none ↔ data = none :=
        ⟨CResult.got.inj, congrArg CResult.got⟩
      refine ⟨.got data, t', Prog.Runs.bind_ok hruns ?_, hgot.ok, ?_, ?_, ?_, ?_⟩
      · exact Prog.runs_pure.mpr ⟨rfl, rfl⟩
      · cases data with
        | none => exact congrArg ThriftMemoryBuffer.unread (hgot.keeps rfl)
        | some bytes => exact (hgot.takes bytes rfl).2
      · intro len' bytes hop hx
        injection hop with hop
        injection hx with hx
        rw [← hop]
        exact (hgot.takes bytes hx).1
      · intro len' hop
        injection hop with hop
        rw [← hop, hnone]
        exact hgot.fails
      · intro len' _ hx
        exact hgot.keeps (hnone.mp hx)

/-- A run of calls: all of them return, and the bytes keep their order. -/
def CFifo (t : ThriftMemoryBuffer) (ops : List COp) : Prop :=
  ∃ log t', log.map Prod.fst = ops ∧ Served COp.code CStep t log t'
    ∧ t.unread ++ pushed (log.map fun c => c.1.event c.2)
      = popped (log.map fun c => c.1.event c.2) ++ t'.unread

theorem c_fifo (h : t.Ok) (ops : List COp) (hroom : CallsMeet COp.code CRoom t ops) :
    CFifo t ops := by
  obtain ⟨log, t', hlog, hserved, -⟩ := served_of_meets @c_call ops h hroom
  exact ⟨log, t', hlog, hserved, served_fifo (fun hstep => hstep.moves) log hserved⟩

end C

-- ================================================================ C++

section Cpp

open TMemoryBuffer

variable {b : TMemoryBuffer} {std : Allocator} {len : Nat}

/-- Growth comes to an end, with room or with an error. -/
def CppGrows (std : Allocator) (b : TMemoryBuffer) (len : Nat) : Prop :=
  (∃ error b', (ensureCanWrite std len).Runs b (.ok error) b')
  ∧ ∀ b', (ensureCanWrite std len).Runs b (.ok 0) b' →
    b'.wBase_ + len ≤ b'.bufferSize_

theorem cpp_resizes (hstd : std.Succeeds) (b : TMemoryBuffer) (n : Nat) :
    ∃ new_buffer, Resizes std b n 0 (b.resized n new_buffer) := by
  obtain ⟨new_buffer, halloc⟩ := hstd b.buffer_ n
  refine ⟨new_buffer, ?_⟩
  unfold Resizes
  rw [halloc]
  exact ⟨rfl, rfl⟩

theorem cpp_size_of_resizes {n : Nat} {b' : TMemoryBuffer} (h : Resizes std b n 0 b') :
    b'.bufferSize_ = n ∧ b'.wBase_ = b.wBase_ := by
  unfold Resizes at h
  split at h
  · exact absurd h.1 (by decide)
  · rw [h.2]
    exact ⟨rfl, rfl⟩

theorem cpp_grows_iff (hstd : std.Succeeds) (h : b.Ok) :
    CppGrows std b len ↔ Reaches b.bufferSize_ b.wBase_ len := by
  have hwrite := h.write
  unfold CppGrows
  by_cases hfits : len ≤ b.available_write
  · -- nothing is grown
    have hspace : b.wBase_ + len ≤ b.bufferSize_ := by
      rw [h.available_write_eq, free_of_le h.write h.small] at hfits
      omega
    refine iff_of_true ⟨⟨0, b, (runs_ensureCanWrite_fits hfits).mpr ⟨rfl, rfl⟩⟩, ?_⟩ ?_
    · intro b' hruns
      obtain ⟨-, rfl⟩ := (runs_ensureCanWrite_fits hfits).mp hruns
      exact hspace
    · exact ⟨0, hspace, fun j hj => absurd hj (Nat.not_lt_zero j)⟩
  · rw [← stops_right_iff h.write h.small]
    constructor
    · intro hgrows
      obtain ⟨⟨error, b', hruns⟩, hright⟩ := hgrows
      obtain ⟨n, hstops, -⟩ := (runs_ensureCanWrite_full h hfits).mp hruns
      refine ⟨⟨n, hstops⟩, fun m hm => ?_⟩
      obtain ⟨new_buffer, hresizes⟩ := cpp_resizes hstd b m
      exact hright _ ((runs_ensureCanWrite_full h hfits).mpr ⟨m, hm, hresizes⟩)
    · intro hstops
      obtain ⟨⟨n, hn⟩, hright⟩ := hstops
      obtain ⟨new_buffer, hresizes⟩ := cpp_resizes hstd b n
      refine ⟨⟨0, _, (runs_ensureCanWrite_full h hfits).mpr ⟨n, hn, hresizes⟩⟩,
        fun b' hruns => ?_⟩
      obtain ⟨m, hm, hresizes'⟩ := (runs_ensureCanWrite_full h hfits).mp hruns
      obtain ⟨hsize, hwBase⟩ := cpp_size_of_resizes hresizes'
      rw [hsize, hwBase]
      exact hright m hm

/-- What a call does to the queue. -/
def CppOp.event : CppOp → CppResult → QueueEvent UInt8
  | .write _ buf, .wrote 0 => .push buf
  | .read _, .got data => .pop data
  | _, _ => .idle

/-- The size that a write needs can be reached. -/
def CppRoom (b : TMemoryBuffer) : CppOp → Prop
  | .write _ buf => Reaches b.bufferSize_ b.wBase_ buf.length
  | .read _ => True
  | .readEnd => True

/-- A call on the queue; a read gives what there is. -/
structure CppStep (b : TMemoryBuffer) (op : CppOp) (x : CppResult)
    (b' : TMemoryBuffer) : Prop where
  moves : (op.event x).Moves b.unread b'.unread
  gives : ∀ len data, op = .read len → x = .got data → data.length = min len b.unread.length

theorem cpp_call {op : CppOp} (h : b.Ok) (hroom : CppRoom b op) :
    ∃ x b', op.code.Runs b (.ok x) b' ∧ b'.Ok ∧ CppStep b op x b' := by
  cases op with
  | write std buf =>
      obtain ⟨error, b', hruns, hwrote⟩ := runs_write std h hroom
      refine ⟨.wrote error, b', Prog.Runs.bind_ok hruns ?_, hwrote.ok, ?_, nofun⟩
      · exact Prog.runs_pure.mpr ⟨rfl, rfl⟩
      · cases error with
        | zero => exact hwrote.appends rfl
        | succ error =>
            exact congrArg TMemoryBuffer.unread (hwrote.refuses (Nat.succ_ne_zero error))
  | read len =>
      obtain ⟨data, b', hruns, hgot⟩ := runs_read h len
      refine ⟨.got data, b', Prog.Runs.bind_ok hruns ?_, hgot.ok, hgot.takes, ?_⟩
      · exact Prog.runs_pure.mpr ⟨rfl, rfl⟩
      · intro len' data' hop hx
        injection hop with hop
        injection hx with hx
        rw [← hop, ← hx]
        exact hgot.length
  | readEnd =>
      obtain ⟨count, b', hruns, hok, hunread⟩ := runs_readEnd h
      refine ⟨.bytes count, b', Prog.Runs.bind_ok hruns ?_, hok, hunread, nofun⟩
      exact Prog.runs_pure.mpr ⟨rfl, rfl⟩

/-- The calls are served as a queue serves them. -/
def CppFifo (b : TMemoryBuffer) (ops : List CppOp) : Prop :=
  ∃ log b', log.map Prod.fst = ops ∧ Served CppOp.code CppStep b log b'
    ∧ b.unread ++ pushed (log.map fun c => c.1.event c.2)
      = popped (log.map fun c => c.1.event c.2) ++ b'.unread

theorem cpp_fifo (h : b.Ok) (ops : List CppOp)
    (hroom : CallsMeet CppOp.code CppRoom b ops) : CppFifo b ops := by
  obtain ⟨log, b', hlog, hserved, -⟩ := served_of_meets @cpp_call ops h hroom
  exact ⟨log, b', hlog, hserved, served_fifo (fun hstep => hstep.moves) log hserved⟩

end Cpp

-- =============================================================== both

/-- From any two buffers: growing is right exactly where the doubled sizes
reach far enough, and runs whose writes are made there are first in, first
out. -/
theorem memory_buffers_fifo (t : ThriftMemoryBuffer) (b : TMemoryBuffer) (ht : t.Ok)
    (hb : b.Ok) :
    (∀ os len, os.Succeeds → (CGrows os t len ↔ Reaches t.buf_size t.buf_woffset len))
    ∧ (∀ std len, std.Succeeds → (CppGrows std b len ↔ Reaches b.bufferSize_ b.wBase_ len))
    ∧ (∀ ops, CallsMeet COp.code CRoom t ops → CFifo t ops)
    ∧ ∀ ops, CallsMeet CppOp.code CppRoom b ops → CppFifo b ops := by
  refine ⟨?_, ?_, ?_, ?_⟩
  · intro os len hos
    exact c_grows_iff hos ht
  · intro std len hstd
    exact cpp_grows_iff hstd hb
  · intro ops hroom
    exact c_fifo ht ops hroom
  · intro ops hroom
    exact cpp_fifo hb ops hroom

/-- An allocator that always succeeds and clears the new memory. -/
def clearing : Allocator where
  realloc buf n := some (buf.take n ++ List.replicate (n - buf.length) 0)
  length := by
    intro buf n new_buf h
    injection h with h
    rw [← h, List.length_append, List.length_take, List.length_replicate]
    omega
  keeps := by
    intro buf n new_buf h
    injection h with h
    rw [← h, List.take_append, List.take_take, List.length_take]
    rcases Nat.le_total n buf.length with hle | hle
    · rw [Nat.sub_eq_zero_of_le hle, List.replicate_zero, List.take_nil, List.append_nil,
        Nat.min_eq_right hle]
    · rw [Nat.min_eq_left hle, Nat.min_eq_right hle, Nat.sub_self, List.take_zero,
        List.append_nil, List.take_length, List.take_of_length_le hle]

theorem clearing_succeeds : clearing.Succeeds := fun _ _ => ⟨_, rfl⟩

/-- A buffer of one byte that is full. -/
def fullByte : ThriftMemoryBuffer := ⟨[7], 1, 0, 1, true⟩

theorem fullByte_ok : fullByte.Ok := ⟨rfl, rfl, Nat.zero_le 1, Nat.le_refl 1, by decide⟩

/-- The same in C++. -/
def cppFullByte : TMemoryBuffer := ⟨[7], 1, 0, 1, 1, 1, true⟩

theorem cppFullByte_ok : cppFullByte.Ok :=
  ⟨rfl, rfl, Nat.zero_le 1, Nat.le_refl 1, Nat.le_refl 1, rfl, by decide⟩

/-- Two more bytes are written to each and all three read. -/
theorem full_byte_grown :
    CGrows clearing fullByte 2 ∧ CFifo fullByte [.write clearing [8, 9], .read 3]
      ∧ CppGrows clearing cppFullByte 2
      ∧ CppFifo cppFullByte [.write clearing [8, 9], .read 3] := by
  have hreach : Reaches 1 1 2 := reaches_of_le (Nat.le_refl 1) (by decide)
  obtain ⟨hc, hcpp, hcfifo, hcppfifo⟩ :=
    memory_buffers_fifo fullByte cppFullByte fullByte_ok cppFullByte_ok
  refine ⟨(hc clearing 2 clearing_succeeds).mpr hreach, hcfifo _ ?_,
    (hcpp clearing 2 clearing_succeeds).mpr hreach, hcppfifo _ ?_⟩
  · exact ⟨hreach, fun _ _ _ => ⟨trivial, fun _ _ _ => trivial⟩⟩
  · exact ⟨hreach, fun _ _ _ => ⟨trivial, fun _ _ _ => trivial⟩⟩

/-- 2^31 more bytes. -/
theorem full_byte_not_reaching : ¬ Reaches 1 1 (2 ^ 31) := by
  intro h
  obtain ⟨k, hk, hbefore⟩ := h
  have hsizes : ∀ k ≤ 32, sizeAfter k 1 ≤ 2 ^ 31 := by decide +kernel
  have hzero : sizeAfter 32 1 = 0 := by decide +kernel
  rcases Nat.lt_or_ge 32 k with hlt | hle
  · have hone := hbefore 32 hlt
    omega
  · have hsize := hsizes k hle
    omega

theorem full_byte_not_grown : ¬ CGrows clearing fullByte (2 ^ 31) := by
  rw [c_grows_iff clearing_succeeds fullByte_ok]
  exact full_byte_not_reaching

end Sandesh.Transport
