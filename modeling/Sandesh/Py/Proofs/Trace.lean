/-
Each reader of a trace buffer gets each entry at most once, in the order
of the writes, and misses only what was overwritten.

Beside the buffer stand all entries ever written, numbered from 0, and for
each context the numbers delivered to it since it was created or last
released (`Seen`). What a read owes the context is stated on these alone
(`due`); the buffer itself knows a context by one position modulo its
size. `Tracks` ties the two: a context that is known has read at least the
oldest entry the buffer holds, so that among the positions it may stand
at, each stands for one number only; a context that is not known starts
with the oldest.
-/
import Sandesh.Py.Trace

namespace Sandesh.Py.Trace

open Lib TraceBuffer

variable {κ α : Type}

-- ======================================================== what is owed

/-- All entries written, and what each context has seen of them. -/
structure Seen (κ α : Type) where
  written : List α
  seen : κ → List Nat

/-- The number after the last one delivered to the context. -/
def Seen.next (w : Seen κ α) (context : κ) : Nat :=
  ((w.seen context).getLast?.map fun i => i + 1).getD 0

/-- Among the last `size` writes, those after the last one delivered. -/
def Seen.available (w : Seen κ α) (size : Nat) (context : κ) : List Nat :=
  (List.range w.written.length).filter fun i =>
    w.written.length ≤ i + size ∧ w.next context ≤ i

/-- What a read is to deliver. -/
def Seen.due (w : Seen κ α) (size : Nat) (context : κ) (count : Nat) :
    List Nat :=
  if count = 0 then w.available size context
  else (w.available size context).take count

/-- What has been written and read behind a step. -/
def Seen.after [DecidableEq κ] (w : Seen κ α) (size : Nat) :
    Act κ α → Seen κ α
  | .write _ entry => { w with written := w.written ++ [entry] }
  | .read context count =>
      { w with
        seen := Function.update w.seen context
          (w.seen context ++ w.due size context count) }
  | .done context => { w with seen := Function.update w.seen context [] }

/-- The number of the oldest entry a read may deliver. -/
def Seen.start (w : Seen κ α) (size : Nat) (context : κ) : Nat :=
  max (w.written.length - size) (w.next context)

/-- How many entries a read delivers. -/
def Seen.amount (w : Seen κ α) (size : Nat) (context : κ) (count : Nat) :
    Nat :=
  if count = 0 then w.written.length - w.start size context
  else min count (w.written.length - w.start size context)

/-- Where the context stands after a read. -/
def Seen.place (w : Seen κ α) (size : Nat) (context : κ) (count : Nat) : Nat :=
  (w.start size context + w.amount size context count) % size

/-- The indices from `s` on. -/
theorem filter_range (n s : Nat) :
    ((List.range n).filter fun i => s ≤ i) = List.range' s (n - s) := by
  induction n with
  | zero =>
      rw [Nat.zero_sub]
      rfl
  | succ n ih =>
      rw [List.range_succ, List.filter_append, ih]
      by_cases h : s ≤ n
      · rw [List.filter_cons_of_pos (by simpa using h), List.filter_nil,
          Nat.succ_sub h, List.range'_concat, Nat.one_mul,
          Nat.add_sub_cancel' h]
      · rw [List.filter_cons_of_neg (by simpa using h), List.filter_nil,
          List.append_nil]
        congr 1
        omega

/-- What is owed is one block of numbers. -/
theorem Seen.due_eq (w : Seen κ α) (size : Nat) (context : κ) (count : Nat) :
    w.due size context count
      = List.range' (w.start size context) (w.amount size context count) := by
  have havailable : w.available size context
      = List.range' (w.start size context)
          (w.written.length - w.start size context) := by
    rw [← filter_range]
    unfold Seen.available Seen.start
    refine List.filter_congr fun i _ => ?_
    rw [decide_eq_decide, max_le_iff]
    refine and_congr_left' ?_
    omega
  unfold Seen.due Seen.amount
  rw [havailable]
  split
  · rfl
  · rcases Nat.le_total count (w.written.length - w.start size context) with h | h
    · rw [List.take_range'_of_length_ge h, Nat.min_eq_left h]
    · rw [List.take_range'_of_length_le h, Nat.min_eq_right h]

/-- A read delivers no more than there is. -/
theorem Seen.amount_le (w : Seen κ α) (size : Nat) (context : κ) (count : Nat) :
    w.amount size context count ≤ w.written.length - w.start size context := by
  unfold Seen.amount
  split
  · exact Nat.le_refl _
  · exact Nat.min_le_right _ _

/-- The entries of a block of numbers. -/
theorem map_range' (l : List α) (s k : Nat) (h : s + k ≤ l.length) :
    ((List.range' s k).map fun i => l[i]?) = ((l.drop s).take k).map some := by
  refine List.ext_getElem? fun j => ?_
  by_cases hj : j < k
  · rw [List.getElem?_map, List.getElem?_range' hj, List.getElem?_map,
      List.getElem?_take_of_lt hj, List.getElem?_drop, Nat.one_mul]
    show some l[s + j]? = l[s + j]?.map some
    rw [List.getElem?_eq_getElem (by omega)]
    rfl
  · rw [List.getElem?_eq_none (by rw [List.length_map, List.length_range']; omega),
      List.getElem?_eq_none (by rw [List.length_map, List.length_take]; omega)]

-- ===================================================== positions modulo

/-- A position that moves on by at most the size of the buffer. -/
theorem add_mod_le {a d n : Nat} (hn : 0 < n) (hd : d ≤ n) :
    (a + d) % n = if a % n + d < n then a % n + d else a % n + d - n := by
  have hlt := Nat.mod_lt a hn
  rw [← Nat.mod_add_mod]
  split
  · exact Nat.mod_eq_of_lt ‹_›
  · rw [Nat.mod_eq_sub_mod (by omega), Nat.mod_eq_of_lt (by omega)]

/-- The way from one position to another, if it is at most the size. -/
theorem offset_eq {a d n : Nat} (hpos : 0 < d) (hd : d ≤ n) :
    (let offset : Int := ((a + d) % n : Nat) - (a % n : Nat)
      if offset > 0 then offset else n + offset) = d := by
  have hn : 0 < n := Nat.lt_of_lt_of_le hpos hd
  have hlt := Nat.mod_lt a hn
  rw [add_mod_le hn hd]
  by_cases h : a % n + d < n
  · rw [if_pos h]
    simp only []
    rw [if_pos (by omega)]
    omega
  · rw [if_neg h]
    simp only []
    rw [if_neg (by omega)]
    omega

-- =========================================================== the buffer

variable [DecidableEq κ]

/-- The buffer has the last entries, and each context its place among them.
-/
structure Tracks (b : TraceBuffer κ α) (w : Seen κ α) : Prop where
  size : 0 < b._size
  buf : b._buf = w.written.drop (w.written.length - b._size)
  wrap : b._wrap = true ↔ b._size ≤ w.written.length
  write : b._write_index = w.written.length % b._size
  read : b._read_index = (w.written.length - b._size) % b._size
  /-- A context that is known has read the oldest entry. -/
  known : ∀ context value, b._read_context_map.lookup context = some value →
    w.written.length - b._size < w.next context
      ∧ w.next context ≤ w.written.length
      ∧ value = w.next context % b._size
  /-- A context that is not known has read nothing that is still there. -/
  unknown : ∀ context, b._read_context_map.lookup context = none →
    w.next context ≤ w.written.length - b._size

variable {b : TraceBuffer κ α} {w : Seen κ α}

/-- An empty buffer. -/
theorem tracks_new {size : Nat} (h : 0 < size) :
    Tracks (TraceBuffer.new (κ := κ) (α := α) size) ⟨[], fun _ => []⟩ := by
  refine ⟨h, List.drop_nil.symm, ?_, ?_, ?_, ?_, ?_⟩
  · show false = true ↔ size ≤ 0
    simp only [Bool.false_eq_true, false_iff]
    omega
  · exact (Nat.zero_mod size).symm
  · show 0 = (0 - size) % size
    rw [Nat.zero_sub, Nat.zero_mod]
  · intro context value hlookup
    cases hlookup
  · intro context _
    exact Nat.zero_le _

/-- The contexts that stand at the given entry are gone. -/
theorem lookup_dropContexts (order : Order κ) (read_index : Nat)
    (contexts : Map κ Nat) (context : κ) :
    (dropContexts order read_index contexts).lookup context
      = (contexts.lookup context).bind fun value =>
          if value = read_index then none else some value :=
  Map.lookup_walk (Map.stuck_walk.mpr fun _ _ _ => rfl) context

/-- The entries held: all written, up to the size. -/
theorem length_buf (h : Tracks b w) :
    b._buf.length = min w.written.length b._size := by
  rw [h.buf, List.length_drop]
  omega

omit [DecidableEq κ] in
/-- An index goes round at the size. -/
theorem increment_eq {i : Nat} (h : 0 < b._size) :
    b.increment (i % b._size) = (i + 1) % b._size := by
  have hlt := Nat.mod_lt i h
  rw [add_mod_le h h]
  unfold increment
  by_cases heq : i % b._size + 1 = b._size
  · rw [if_pos heq, if_neg (by omega)]
    omega
  · rw [if_neg heq, if_pos (by omega)]

/-- What `_buf` holds after a write. -/
theorem append_eq (h : Tracks b w) (entry : α) :
    b.append entry
      = (w.written ++ [entry]).drop ((w.written ++ [entry]).length - b._size) := by
  have hlen := length_buf h
  unfold TraceBuffer.append
  simp only [List.length_append, List.length_singleton]
  rw [hlen, h.buf, ← List.drop_append_of_le_length (by omega), List.drop_drop]
  congr 1
  omega

/-- A write adds one entry. -/
theorem length_write (w : Seen κ α) (size : Nat) (order : Order κ) (entry : α) :
    (w.after size (.write order entry)).written.length
      = w.written.length + 1 := List.length_append

/-- The oldest entry after a write. -/
theorem read_index_write (h : Tracks b w) (order : Order κ) (entry : α) :
    (b.TraceWrite order entry).2._read_index
      = (w.written.length + 1 - b._size) % b._size := by
  show (if b._wrap then b.increment b._read_index else b._read_index) = _
  by_cases hwrap : b._wrap = true
  · have hle := h.wrap.mp hwrap
    rw [if_pos hwrap, h.read, increment_eq h.size]
    congr 1
    omega
  · have hlt : w.written.length < b._size :=
      Nat.lt_of_not_le fun hle => hwrap (h.wrap.mpr hle)
    rw [if_neg hwrap, h.read, Nat.sub_eq_zero_of_le (by omega),
      Nat.sub_eq_zero_of_le (by omega)]

/-- The buffer has wrapped once as many were written as fit. -/
theorem wrap_write (h : Tracks b w) (order : Order κ) (entry : α) :
    (b.TraceWrite order entry).2._wrap = true
      ↔ b._size ≤ w.written.length + 1 := by
  have hsize := h.size
  show (b._wrap || b._write_index + 1 == b._size) = true ↔ _
  rw [Bool.or_eq_true, h.wrap, beq_iff_eq, h.write]
  constructor
  · intro hor
    rcases hor with hle | heq
    · omega
    · have := Nat.mod_le w.written.length b._size
      omega
  · intro hle
    by_cases hlt : b._size ≤ w.written.length
    · exact .inl hlt
    · rw [Nat.mod_eq_of_lt (by omega)]
      exact .inr (by omega)

/-- A write drops the contexts that stand at the oldest entry. -/
theorem lookup_write (h : Tracks b w) (order : Order κ) (entry : α)
    (context : κ) :
    (b.TraceWrite order entry).2._read_context_map.lookup context
      = (b._read_context_map.lookup context).bind fun value =>
          if value = (w.written.length + 1 - b._size) % b._size then none
          else some value := by
  rw [← read_index_write h order entry]
  exact lookup_dropContexts order _ _ context

/-- Among the numbers a context may stand at, only the oldest has its
position. -/
theorem eq_of_mod_eq {a i n : Nat} (hle : a ≤ i) (hlt : i < a + n)
    (h : i % n = a % n) : i = a := by
  have hn : 0 < n := by omega
  have hmod := Nat.mod_lt a hn
  have hsplit : i = a + (i - a) := by omega
  rw [hsplit, add_mod_le hn (by omega)] at h
  split at h
  · omega
  · omega

/-- A write keeps the buffer and what was seen together. -/
theorem tracks_write (h : Tracks b w) (order : Order κ) (entry : α) :
    Tracks (b.TraceWrite order entry).2 (w.after b._size (.write order entry)) := by
  have hsize := h.size
  have hlength := length_write w b._size order entry
  have hsame : (b.TraceWrite order entry).2._size = b._size := rfl
  have hnext : ∀ context, (w.after b._size (.write order entry)).next context
      = w.next context := fun _ => rfl
  refine ⟨hsize, append_eq h entry, ?_, ?_, ?_, ?_, ?_⟩
  · rw [hlength, hsame]
    exact wrap_write h order entry
  · show b.increment b._write_index = _
    rw [h.write, increment_eq hsize, hlength, hsame]
  · rw [hlength, hsame]
    exact read_index_write h order entry
  · intro context value hlookup
    rw [lookup_write h] at hlookup
    obtain ⟨v, hv, hkept⟩ := Option.bind_eq_some_iff.mp hlookup
    obtain ⟨hlow, hhigh, hmod⟩ := h.known context v hv
    rw [hlength, hsame, hnext]
    split at hkept
    · cases hkept
    · rename_i hne
      injection hkept with hkept
      refine ⟨?_, by omega, hkept ▸ hmod⟩
      -- otherwise the context stands at the oldest entry, and is dropped
      refine Nat.lt_of_le_of_ne (by omega) fun heq => hne ?_
      rw [hmod, heq]
  · intro context hlookup
    rw [lookup_write h] at hlookup
    rw [hlength, hsame, hnext]
    cases hv : b._read_context_map.lookup context with
    | none =>
        have := h.unknown context hv
        omega
    | some v =>
        obtain ⟨hlow, hhigh, hmod⟩ := h.known context v hv
        rw [hv, Option.bind_some] at hlookup
        split at hlookup
        · rename_i hdropped
          rw [hmod] at hdropped
          have heq : w.next context = w.written.length + 1 - b._size :=
            eq_of_mod_eq (by omega) (by omega) hdropped
          omega
        · cases hlookup

/-- The next number of a context after a read. -/
theorem next_read (w : Seen κ α) (size : Nat) (context : κ) (count : Nat) :
    (w.after size (.read context count)).next context
      = if w.amount size context count = 0 then w.next context
        else w.start size context + w.amount size context count := by
  unfold Seen.next
  show (((Function.update w.seen context _) context).getLast?.map _).getD 0 = _
  rw [Function.update_self, Seen.due_eq]
  cases w.amount size context count with
  | zero => rw [List.range'_zero, List.append_nil, if_pos rfl]
  | succ k =>
      rw [List.range'_concat, ← List.append_assoc, List.getLast?_concat, if_neg
        (Nat.succ_ne_zero k)]
      show w.start size context + 1 * k + 1 = _
      omega

/-- A read moves no other context. -/
theorem next_read_ne (w : Seen κ α) (size : Nat) {context context' : κ}
    (count : Nat) (hne : context' ≠ context) :
    (w.after size (.read context count)).next context' = w.next context' := by
  unfold Seen.next
  show (((Function.update w.seen context _) context').getLast?.map _).getD 0 = _
  rw [Function.update_of_ne hne]

/-- What a read finds: the position to start from, and the entries. -/
theorem readFrom_eq (h : Tracks b w) (context : κ) :
    ∃ value,
      b.readFrom context = (value, w.written.drop (w.start b._size context))
      ∧ value = w.start b._size context % b._size
      ∧ w.start b._size context ≤ w.written.length := by
  unfold readFrom
  cases hlookup : b._read_context_map.lookup context with
  | none =>
      have hstart : w.start b._size context = w.written.length - b._size :=
        Nat.max_eq_left (h.unknown context hlookup)
      refine ⟨b._read_index, ?_, ?_, ?_⟩
      · rw [hstart, h.buf]
      · rw [hstart]
        exact h.read
      · omega
  | some value =>
      obtain ⟨hlow, hhigh, hmod⟩ := h.known context value hlookup
      have hstart : w.start b._size context = w.next context :=
        Nat.max_eq_right (Nat.le_of_lt hlow)
      obtain ⟨d, hd⟩ := Nat.exists_eq_add_of_lt hlow
      have hoffset : b.offset value = (d + 1 : Nat) := by
        unfold TraceBuffer.offset
        rw [h.read, hmod, hd, Nat.add_assoc]
        exact offset_eq (Nat.succ_pos d) (by omega)
      refine ⟨value, ?_, by rw [hstart]; exact hmod, by omega⟩
      show (value, b._buf.drop (b.offset value).toNat) = _
      rw [hoffset, Int.toNat_natCast, h.buf, List.drop_drop, hstart]
      congr 2
      omega

/-- A context that is done starts over. -/
theorem next_done (w : Seen κ α) (size : Nat) (context : κ) :
    (w.after size (.done context)).next context = 0 := by
  unfold Seen.next
  show (((Function.update w.seen context []) context).getLast?.map _).getD 0 = 0
  rw [Function.update_self]
  rfl

/-- It moves no other context. -/
theorem next_done_ne (w : Seen κ α) (size : Nat) {context c : κ}
    (hc : c ≠ context) :
    (w.after size (.done context)).next c = w.next c := by
  unfold Seen.next
  show (((Function.update w.seen context []) c).getLast?.map _).getD 0 = _
  rw [Function.update_of_ne hc]

/-- `TraceReadDone` keeps the buffer and the account in step. -/
theorem tracks_done (h : Tracks b w) (context : κ) :
    Tracks (b.TraceReadDone context) (w.after b._size (.done context)) := by
  refine ⟨h.size, h.buf, h.wrap, h.write, h.read, ?_, ?_⟩
  · intro c value hlookup
    change (b._read_context_map.erase context).lookup c = some value at hlookup
    by_cases hc : c = context
    · rw [hc, Finmap.lookup_erase] at hlookup
      cases hlookup
    · rw [Finmap.lookup_erase_ne hc] at hlookup
      rw [next_done_ne w b._size hc]
      exact h.known c value hlookup
  · intro c hlookup
    change (b._read_context_map.erase context).lookup c = none at hlookup
    by_cases hc : c = context
    · rw [hc, next_done]
      exact Nat.zero_le _
    · rw [Finmap.lookup_erase_ne hc] at hlookup
      rw [next_done_ne w b._size hc]
      exact h.unknown c hlookup

/-- A context that has read stands after what was delivered, or at the
end. -/
theorem next_read_eq (h : Tracks b w) (context : κ) (count : Nat)
    (hpos : 0 < w.written.length) :
    w.written.length - b._size
        < (w.after b._size (.read context count)).next context
      ∧ (w.after b._size (.read context count)).next context
        = w.start b._size context + w.amount b._size context count := by
  obtain ⟨-, -, -, hstart⟩ := readFrom_eq h context
  have hsize := h.size
  have hlow : w.written.length - b._size ≤ w.start b._size context :=
    Nat.le_max_left _ _
  rw [next_read]
  by_cases hzero : w.amount b._size context count = 0
  · have hend : w.start b._size context = w.written.length := by
      unfold Seen.amount at hzero
      split at hzero
      · omega
      · rcases Nat.min_eq_zero_iff.mp hzero with hcount | hdone
        · omega
        · omega
    have hread : w.next context = w.written.length := by
      unfold Seen.start at hend
      rcases Nat.le_total (w.written.length - b._size) (w.next context)
        with hle | hle
      · rwa [Nat.max_eq_right hle] at hend
      · rw [Nat.max_eq_left hle] at hend
        omega
    rw [if_pos hzero]
    omega
  · rw [if_neg hzero]
    omega

variable [BEq α]

/-- A read delivers what is owed, and the context stands after it. -/
theorem read_eq (h : Tracks b w) (context : κ) (count : Nat) :
    ((b.TraceRead context count).1.map fun x => some x.1)
        = (w.due b._size context count).map (fun i => w.written[i]?)
      ∧ (0 < w.written.length →
        (b.TraceRead context count).2._read_context_map
          = b._read_context_map.insert context (w.place b._size context count)) := by
  have hlen := length_buf h
  have hsize := h.size
  obtain ⟨value, hfrom, hvalue, hstart⟩ := readFrom_eq h context
  have hamount := w.amount_le b._size context count
  have hlow : w.written.length - b._size ≤ w.start b._size context :=
    Nat.le_max_left _ _
  unfold TraceRead
  by_cases hempty : b._buf.length = 0
  · have hzero : w.written.length = 0 := by omega
    rw [if_pos hempty]
    refine ⟨?_, fun hpos => absurd hpos (by omega)⟩
    rw [Seen.due_eq, show w.amount b._size context count = 0 by omega]
    rfl
  rw [if_neg hempty]
  -- the entries delivered, and their number
  have htake : (w.written.drop (w.start b._size context)).take
        (if count = 0 then b._buf.length else count)
      = (w.written.drop (w.start b._size context)).take
          (w.amount b._size context count) := by
    unfold Seen.amount
    split
    · rw [List.take_of_length_le (by rw [List.length_drop]; omega),
        List.take_of_length_le (by rw [List.length_drop])]
    · rw [← List.take_take, List.take_of_length_le (l := _)
        (i := w.written.length - _) (by rw [List.length_drop])]
  have hnumber : (b.deliver (if count = 0 then b._buf.length else count)
      (w.written.drop (w.start b._size context))).length
      = w.amount b._size context count := by
    unfold deliver
    rw [htake, List.length_map, List.length_take, List.length_drop]
    omega
  simp only [hfrom]
  refine ⟨?_, fun _ => ?_⟩
  · rw [Seen.due_eq, map_range' _ _ _ (by omega)]
    unfold deliver
    rw [htake, List.map_map]
    rfl
  · unfold Seen.place
    rw [hnumber, add_mod_le hsize (by omega), ← hvalue]
    by_cases hlt : value + w.amount b._size context count < b._size
    · rw [if_pos hlt, if_neg (by omega)]
    · rw [if_neg hlt, if_pos (by omega)]

/-- A read changes nothing but the contexts. -/
theorem read_frame (context : κ) (count : Nat) :
    (b.TraceRead context count).2
      = { b with
          _read_context_map := (b.TraceRead context count).2._read_context_map } := by
  unfold TraceRead
  split
  · rfl
  · rfl

/-- While nothing was written, a read returns at once. -/
theorem tracks_read_empty (h : Tracks b w) (context : κ) (count : Nat)
    (hzero : w.written.length = 0) :
    Tracks (b.TraceRead context count).2
      (w.after b._size (.read context count)) := by
  have hamount := w.amount_le b._size context count
  have hsame : ∀ c, (w.after b._size (.read context count)).next c
      = w.next c := by
    intro c
    by_cases hc : c = context
    · rw [hc, next_read, if_pos (by omega)]
    · exact next_read_ne w b._size count hc
  have hb : (b.TraceRead context count).2 = b := by
    unfold TraceRead
    rw [if_pos (by rw [length_buf h]; omega)]
  rw [hb]
  refine ⟨h.size, h.buf, h.wrap, h.write, h.read, ?_, ?_⟩
  · intro c value hlookup
    rw [hsame]
    exact h.known c value hlookup
  · intro c hlookup
    rw [hsame]
    exact h.unknown c hlookup

/-- So does `TraceRead`. -/
theorem tracks_read (h : Tracks b w) (context : κ) (count : Nat) :
    Tracks (b.TraceRead context count).2
      (w.after b._size (.read context count)) := by
  rcases Nat.eq_zero_or_pos w.written.length with hzero | hpos
  · exact tracks_read_empty h context count hzero
  obtain ⟨-, -, -, hstart⟩ := readFrom_eq h context
  have hamount := w.amount_le b._size context count
  obtain ⟨hlater, hplace⟩ := next_read_eq h context count hpos
  have hother : ∀ c, c ≠ context →
      (w.after b._size (.read context count)).next c = w.next c :=
    fun c hc => next_read_ne w b._size count hc
  rw [read_frame context count, (read_eq h context count).2 hpos]
  refine ⟨h.size, h.buf, h.wrap, h.write, h.read, ?_, ?_⟩
  · intro c value hlookup
    show w.written.length - b._size < _ ∧ _ ≤ w.written.length ∧ _ = _ % b._size
    change (b._read_context_map.insert context _).lookup c = some value at hlookup
    by_cases hc : c = context
    · subst hc
      rw [Finmap.lookup_insert] at hlookup
      injection hlookup with hlookup
      refine ⟨hlater, ?_, ?_⟩
      · rw [hplace]
        omega
      · rw [← hlookup, hplace]
        rfl
    · rw [Finmap.lookup_insert_of_ne _ hc] at hlookup
      rw [hother c hc]
      exact h.known c value hlookup
  · intro c hlookup
    show _ ≤ w.written.length - b._size
    change (b._read_context_map.insert context _).lookup c = none at hlookup
    by_cases hc : c = context
    · rw [hc, Finmap.lookup_insert] at hlookup
      cases hlookup
    · rw [Finmap.lookup_insert_of_ne _ hc] at hlookup
      rw [hother c hc]
      exact h.unknown c hlookup

-- ===================================================== once, in order

/-- What was seen is in order, and what was passed over is overwritten. -/
structure InOrder (size : Nat) (w : Seen κ α) (context : κ) : Prop where
  increasing : (w.seen context).Pairwise (· < ·)
  below : ∀ i ∈ w.seen context, i < w.next context
  skipped : ∀ i, i < w.next context → i ∉ w.seen context →
    i + size < w.written.length

omit [DecidableEq κ] [BEq α] in
/-- A context that sees nothing new stays in order. -/
theorem InOrder.of_same {size : Nat} {w' : Seen κ α} {context : κ}
    (h : InOrder size w context) (hseen : w'.seen context = w.seen context)
    (hnext : w'.next context = w.next context)
    (hwritten : w.written.length ≤ w'.written.length) :
    InOrder size w' context := by
  refine ⟨?_, ?_, ?_⟩
  · rw [hseen]
    exact h.increasing
  · rw [hseen, hnext]
    exact h.below
  · rw [hseen, hnext]
    intro i hi hmem
    exact Nat.lt_of_lt_of_le (h.skipped i hi hmem) hwritten

omit [BEq α] in
/-- What a context has seen stays in order over a read. -/
theorem inOrder_read {size : Nat} {context : κ} (h : InOrder size w context)
    (count : Nat) :
    InOrder size (w.after size (.read context count)) context := by
  have hseen : (w.after size (.read context count)).seen context
      = w.seen context ++ List.range' (w.start size context)
          (w.amount size context count) := by
    rw [← w.due_eq]
    exact Function.update_self ..
  have hnext := next_read w size context count
  have hlow : w.next context ≤ w.start size context := Nat.le_max_right _ _
  refine ⟨?_, ?_, ?_⟩
  · rw [hseen]
    refine List.pairwise_append.mpr
      ⟨h.increasing, List.pairwise_lt_range', fun i hi j hj => ?_⟩
    have hi := h.below i hi
    have hj := (List.mem_range'_1.mp hj).1
    omega
  · intro i hi
    rw [hseen] at hi
    rw [hnext]
    rcases List.mem_append.mp hi with hi | hi
    · have hi := h.below i hi
      split
      · exact hi
      · omega
    · have hi := List.mem_range'_1.mp hi
      rw [if_neg (by omega)]
      exact hi.2
  · intro i hi hmem
    rw [hseen, List.mem_append, not_or, List.mem_range'_1] at hmem
    rw [hnext] at hi
    show i + size < w.written.length
    by_cases hlt : i < w.next context
    · exact h.skipped i hlt hmem.1
    · have hbefore : i < w.start size context := by
        split at hi
        · omega
        · omega
      unfold Seen.start at hbefore
      omega

omit [BEq α] in
/-- And over a read that is done. -/
theorem inOrder_done {size : Nat} (w : Seen κ α) (context : κ) :
    InOrder size (w.after size (.done context)) context := by
  have hseen : (w.after size (.done context)).seen context = [] :=
    Function.update_self ..
  refine ⟨?_, ?_, ?_⟩
  · rw [hseen]
    exact List.Pairwise.nil
  · intro i hi
    rw [hseen] at hi
    exact absurd hi List.not_mem_nil
  · intro i hi
    rw [next_done] at hi
    exact absurd hi (Nat.not_lt_zero i)

omit [BEq α] in
/-- And over every act. -/
theorem inOrder_after {size : Nat} (h : ∀ context, InOrder size w context)
    (a : Act κ α) (context : κ) : InOrder size (w.after size a) context := by
  cases a with
  | write order entry =>
      refine (h context).of_same rfl rfl ?_
      rw [length_write]
      exact Nat.le_succ _
  | done c =>
      by_cases hc : context = c
      · rw [hc]
        exact inOrder_done w c
      · exact (h context).of_same (Function.update_of_ne hc ..)
          (next_done_ne w size hc) (Nat.le_refl _)
  | read c count =>
      by_cases hc : context = c
      · rw [hc]
        exact inOrder_read (h c) count
      · exact (h context).of_same (Function.update_of_ne hc ..)
          (next_read_ne w size count hc) (Nat.le_refl _)

/-- The calls on a buffer, with what was written and seen. -/
def bufferSeen (κ α : Type) [DecidableEq κ] [BEq α] :
    Machine (TraceBuffer κ α × Seen κ α) (Act κ α) :=
  (buffer κ α).watch fun w b a => w.after b._size a

/-- A read delivers what is owed; no context sees an entry twice or out of
order, and none is passed over unless it was overwritten. -/
def DeliversOnce (s : TraceBuffer κ α × Seen κ α) (a : Act κ α)
    (s' : TraceBuffer κ α × Seen κ α) : Prop :=
  (∀ context count, a = .read context count →
    ((s.1.TraceRead context count).1.map fun x => some x.1)
      = (s.2.due s.1._size context count).map fun i => s.2.written[i]?)
  ∧ ∀ context, (s'.2.seen context).Pairwise (· < ·)
    ∧ ∀ i, i < s'.2.next context → i ∉ s'.2.seen context →
        i + s'.1._size < s'.2.written.length

/-- In every run of a buffer that holds at least one entry, each trace is
delivered once to each reader. -/
theorem trace_delivers_once {size : Nat} (hsize : 1 ≤ size)
    (as : List (Act κ α)) :
    (bufferSeen κ α).Each DeliversOnce
      (TraceBuffer.new size, ⟨[], fun _ => []⟩) as := by
  refine Machine.each_keeps (M := bufferSeen κ α) (I := fun s =>
    Tracks s.1 s.2 ∧ ∀ context, InOrder s.1._size s.2 context) ?_ as
    ⟨tracks_new hsize, fun _ => ⟨List.Pairwise.nil, ?_, ?_⟩⟩
  · intro s a s' hs hstep
    obtain ⟨htracks, horder⟩ := hs
    obtain ⟨hcall, hseen⟩ := Machine.watch_step.mp hstep
    have hkeep : Tracks s'.1 s'.2 ∧ s'.1._size = s.1._size := by
      rw [hseen]
      cases a with
      | write order entry =>
          injection hcall with hcall
          rw [← hcall]
          exact ⟨tracks_write htracks order entry, rfl⟩
      | read context count =>
          injection hcall with hcall
          rw [← hcall]
          refine ⟨tracks_read htracks context count, ?_⟩
          rw [read_frame]
      | done context =>
          injection hcall with hcall
          rw [← hcall]
          exact ⟨tracks_done htracks context, rfl⟩
    have horder' : ∀ context, InOrder s'.1._size s'.2 context := by
      rw [hkeep.2, hseen]
      exact inOrder_after horder a
    refine ⟨⟨hkeep.1, horder'⟩, ?_, ?_⟩
    · intro context count _
      exact (read_eq htracks context count).1
    · intro context
      exact ⟨(horder' context).increasing, (horder' context).skipped⟩
  · intro i hi
    exact absurd hi List.not_mem_nil
  · intro i hi
    exact absurd hi (Nat.not_lt_zero i)

/-- The order of the contexts, if there is one at most. -/
def oneContext : Order Unit where
  list ks := if () ∈ ks then [()] else []
  nodup ks := by
    split
    · exact List.nodup_singleton ()
    · exact List.nodup_nil
  mem := by
    intro ks k
    split
    · rename_i h
      exact iff_of_true List.mem_cons_self h
    · rename_i h
      exact iff_of_false List.not_mem_nil h

/-- A buffer of two that was overwritten, read, and written once more. -/
def wrappedRun : List (Act Unit Nat) :=
  [.write oneContext 10, .write oneContext 11, .write oneContext 12, .read () 0,
    .write oneContext 13]

theorem trace_delivers_once_wrapped :
    ∃ s, (bufferSeen Unit Nat).run (TraceBuffer.new 2, ⟨[], fun _ => []⟩)
        wrappedRun = some s
      ∧ ((s.1.TraceRead () 0).1.map fun x => some x.1) = [some 13] := by
  have h := Machine.each_last wrappedRun (trace_delivers_once (κ := Unit)
    (α := Nat) (Nat.le_succ 1) (wrappedRun ++ [.read () 0])) rfl rfl
  exact ⟨_, rfl, (h.1 () 0 rfl).trans rfl⟩

end Sandesh.Py.Trace
