/-
Which trace is marked as the last.

The flag that `TraceRead` passes on compares an entry with the newest one
by value, not by position. It is right as long as no other entry that is
read equals the newest (`NewestOnce`), and a runner marks nothing but the
last trace it sends as long as none it sends before does (`LastOnce`).

Equality of entries is Python's, of which only reflexivity is used.
-/
import Sandesh.Py.Trace

namespace Sandesh.Py.TraceRequest

open Lib Py.Trace TraceBuffer

variable {κ γ α : Type} [DecidableEq κ] [BEq α]

/-- The position in `_buf` that a read starts from. -/
def start (b : TraceBuffer κ α) (context : κ) : Nat :=
  match b._read_context_map.lookup context with
  | some value => (b.offset value).toNat
  | none => 0

/-- How many entries a read is to deliver at most. -/
def limit (b : TraceBuffer κ α) (count : Nat) : Nat :=
  if count = 0 then b._buf.length else count

/-- The entry at a position equals the newest. -/
def LooksNewest (b : TraceBuffer κ α) (p : Nat) : Prop :=
  ∃ entry last, b._buf[p]? = some entry ∧ b._buf.getLast? = some last
    ∧ (entry == last) = true

/-- The flag is false for the newest entry, by position, and for no
other. -/
def MarksNewest (b : TraceBuffer κ α) (context : κ) (count : Nat) : Prop :=
  ∀ i entry more, (b.TraceRead context count).1[i]? = some (entry, more) →
    (more = false ↔ start b context + i + 1 = b._buf.length)

/-- No entry that is read before the newest equals it. -/
def NewestOnce (b : TraceBuffer κ α) (context : κ) (count : Nat) : Prop :=
  ∀ p, start b context ≤ p → p < start b context + limit b count →
    p + 1 < b._buf.length → ¬ LooksNewest b p

/-- A run marks as last only the last that it sends. -/
def MarksLast (sent : List (Sent γ α)) : Prop :=
  ∀ i m, sent[i]? = some m → m.more = false → i + 1 = sent.length

/-- No entry that is read before the last one to be sent equals the
newest. -/
def LastOnce (r : SandeshTraceRequestRunner γ α) (t : Trace α) : Prop :=
  r._read_context = "Collector" → ∀ b, t._buffer_map.lookup r._req_buf_name = some b →
    ∀ p, start b r._read_context ≤ p →
      p + 1 < start b r._read_context + limit b r._req_count →
      p + 1 < b._buf.length → ¬ LooksNewest b p

-- ============================================================= the calls

/-- How many calls there are. -/
def calls (b : TraceBuffer κ α) (context : κ) (count : Nat) : Nat :=
  min (limit b count) (b._buf.length - start b context)

omit [BEq α] in
theorem readFrom_start (b : TraceBuffer κ α) (context : κ) :
    (b.readFrom context).2 = b._buf.drop (start b context) := by
  unfold readFrom start
  cases b._read_context_map.lookup context with
  | none => rfl
  | some value => rfl

theorem traceRead_eq (b : TraceBuffer κ α) (context : κ) (count : Nat) :
    (b.TraceRead context count).1
      = b.deliver (limit b count) (b._buf.drop (start b context)) := by
  unfold TraceBuffer.TraceRead
  by_cases hempty : b._buf.length = 0
  · rw [if_pos hempty, List.eq_nil_of_length_eq_zero hempty, List.drop_nil]
    unfold deliver
    rw [List.take_nil]
    rfl
  · rw [if_neg hempty, readFrom_start]
    rfl

theorem length_traceRead (b : TraceBuffer κ α) (context : κ) (count : Nat) :
    (b.TraceRead context count).1.length = calls b context count := by
  rw [traceRead_eq]
  unfold deliver calls
  rw [List.length_map, List.length_take, List.length_drop]

/-- The call number `i`, and its flag. -/
theorem getElem_traceRead {b : TraceBuffer κ α} {context : κ} {count i : Nat}
    (h : i < calls b context count) :
    ∃ entry more, (b.TraceRead context count).1[i]? = some (entry, more)
      ∧ (more = false ↔ LooksNewest b (start b context + i)) := by
  unfold calls at h
  obtain ⟨entry, hentry⟩ : ∃ entry, b._buf[start b context + i]? = some entry :=
    ⟨_, List.getElem?_eq_getElem (by omega)⟩
  obtain ⟨last, hlast⟩ : ∃ last, b._buf.getLast? = some last := by
    rw [← Option.isSome_iff_exists, List.getLast?_isSome]
    rintro hnil
    rw [hnil] at hentry
    cases hentry
  refine ⟨entry, entry != last, ?_, ?_⟩
  · rw [traceRead_eq]
    unfold deliver
    rw [List.getElem?_map, List.getElem?_take_of_lt (by omega), List.getElem?_drop,
      hentry, hlast]
    rfl
  · show (!(entry == last)) = false ↔ _
    rw [Bool.not_eq_false']
    constructor
    · intro heq
      exact ⟨entry, last, hentry, hlast, heq⟩
    · intro hlooks
      obtain ⟨entry', last', hentry', hlast', heq⟩ := hlooks
      obtain rfl := Option.some.inj (hentry.symm.trans hentry')
      obtain rfl := Option.some.inj (hlast.symm.trans hlast')
      exact heq

omit [DecidableEq κ] in
/-- The newest entry looks like itself. -/
theorem looksNewest_last [ReflBEq α] {b : TraceBuffer κ α} {p : Nat}
    (h : p + 1 = b._buf.length) : LooksNewest b p := by
  have hlast : b._buf.getLast? = b._buf[p]? := by
    rw [List.getLast?_eq_getElem?, ← h, Nat.add_sub_cancel]
  obtain ⟨entry, hentry⟩ : ∃ entry, b._buf[p]? = some entry :=
    ⟨_, List.getElem?_eq_getElem (by omega)⟩
  exact ⟨entry, entry, hentry, hlast.trans hentry, BEq.refl entry⟩

theorem marksNewest_iff [ReflBEq α] (b : TraceBuffer κ α) (context : κ)
    (count : Nat) : MarksNewest b context count ↔ NewestOnce b context count := by
  constructor
  · intro hmarks p hlow hhigh hbefore hlooks
    obtain ⟨i, rfl⟩ := Nat.exists_eq_add_of_le hlow
    have hi : i < calls b context count := by
      unfold calls
      omega
    obtain ⟨entry, more, hcall, hmore⟩ := getElem_traceRead hi
    have hlast := (hmarks i entry more hcall).mp (hmore.mpr hlooks)
    omega
  · intro honce i entry more hcall
    have hi : i < calls b context count := by
      rw [← length_traceRead]
      exact (List.getElem?_eq_some_iff.mp hcall).1
    obtain ⟨entry', more', hcall', hmore⟩ := getElem_traceRead hi
    obtain ⟨rfl, rfl⟩ := Prod.mk.inj (Option.some.inj (hcall.symm.trans hcall'))
    unfold calls at hi
    rw [hmore]
    constructor
    · intro hlooks
      by_contra hne
      exact honce _ (Nat.le_add_right _ _) (by omega) (by omega) hlooks
    · intro hlast
      exact looksNewest_last hlast

-- ============================================================ the runner

section Runner

open SandeshTraceRequestRunner

/-- The mark that goes with call `i`. -/
def marked (r : SandeshTraceRequestRunner γ α) (i : Nat) (more : Bool) : Bool :=
  !decide (more = false ∨ i + 1 = r._req_count)

omit [BEq α] in
/-- A runner of the collector sends each trace it is called with. -/
theorem sent_collector (read : List (α × Bool)) :
    ∀ {r : SandeshTraceRequestRunner γ α}, r._read_context = "Collector" →
      (read.foldl (fun r call => r._TraceRead call.1 call.2) r)._read_context
        = "Collector"
      ∧ (read.foldl (fun r call => r._TraceRead call.1 call.2) r).sent
        = r.sent ++ (read.zipIdx r._read_count).map fun call =>
            .trace r._req_context call.1.1 (marked r call.2 call.1.2) := by
  induction read with
  | nil =>
      intro r hcollector
      exact ⟨hcollector, (List.append_nil _).symm⟩
  | cons call read ih =>
      intro r hcollector
      have hstep : r._TraceRead call.1 call.2
          = { r with
              _read_count := r._read_count + 1
              sent := r.sent ++ [.trace r._req_context call.1
                (marked r r._read_count call.2)] } := by
        unfold _TraceRead marked
        simp only []
        rw [if_neg (not_not_intro hcollector)]
        split
        · rename_i hlast
          rw [decide_eq_true hlast]
          rfl
        · rename_i hlast
          rw [decide_eq_false hlast]
          rfl
      obtain ⟨hcontext, hsent⟩ := ih (r := r._TraceRead call.1 call.2)
        (by rw [hstep]; exact hcollector)
      refine ⟨hcontext, ?_⟩
      rw [List.foldl_cons, hsent, hstep, List.zipIdx_cons, List.map_cons]
      show (r.sent ++ [_]) ++ _ = r.sent ++ (_ :: _)
      rw [List.append_assoc]
      rfl

omit [BEq α] in
/-- Any other sends nothing while it reads. -/
theorem sent_other (read : List (α × Bool)) :
    ∀ {r : SandeshTraceRequestRunner γ α}, r._read_context ≠ "Collector" →
      (read.foldl (fun r call => r._TraceRead call.1 call.2) r)._read_context
        ≠ "Collector"
      ∧ (read.foldl (fun r call => r._TraceRead call.1 call.2) r).sent = r.sent := by
  induction read with
  | nil =>
      intro r hother
      exact ⟨hother, rfl⟩
  | cons call read ih =>
      intro r hother
      have hstep : r._TraceRead call.1 call.2
          = { r with
              _read_count := r._read_count + 1
              traces := r.traces ++ [call.1] } := if_pos hother
      obtain ⟨hcontext, hsent⟩ := ih (r := r._TraceRead call.1 call.2)
        (by rw [hstep]; exact hother)
      refine ⟨hcontext, ?_⟩
      rw [List.foldl_cons, hsent, hstep]

variable {r : SandeshTraceRequestRunner γ α} {t : Trace α}

/-- The calls of a run. -/
def reads (r : SandeshTraceRequestRunner γ α) (t : Trace α) : List (α × Bool) :=
  (t.TraceRead r._req_buf_name r._read_context r._req_count).1

/-- The runner after them. -/
def finished (r : SandeshTraceRequestRunner γ α) (t : Trace α) :
    SandeshTraceRequestRunner γ α :=
  (reads r t).foldl (fun r call => r._TraceRead call.1 call.2) r

theorem run_eq :
    (r.Run t).1
      = if (finished r t)._read_context ≠ "Collector" then
          (finished r t).sent
            ++ [.response (finished r t)._req_context (finished r t).traces false]
        else (finished r t).sent :=
  apply_ite Prod.fst ..

theorem run_other (hother : r._read_context ≠ "Collector") (hsent : r.sent = []) :
    ∃ m, (r.Run t).1 = [m] := by
  obtain ⟨hcontext, heq⟩ := sent_other (reads r t) hother
  have hcontext : (finished r t)._read_context ≠ "Collector" := hcontext
  have heq : (finished r t).sent = [] := heq.trans hsent
  refine ⟨.response (finished r t)._req_context (finished r t).traces false, ?_⟩
  rw [run_eq, if_pos hcontext, heq, List.nil_append]

theorem run_collector (hcollector : r._read_context = "Collector")
    (hsent : r.sent = []) (hcount : r._read_count = 0) :
    (r.Run t).1 = (reads r t).zipIdx.map fun call =>
      .trace r._req_context call.1.1 (marked r call.2 call.1.2) := by
  obtain ⟨hcontext, heq⟩ := sent_collector (reads r t) hcollector
  have hcontext : (finished r t)._read_context = "Collector" := hcontext
  rw [run_eq, if_neg (not_not_intro hcontext)]
  refine heq.trans ?_
  rw [hsent, hcount, List.nil_append]

/-- In the collector's context a run marks call `i` as the last if it looks
like the newest, or is as many as asked for. -/
theorem marksLast_collector {b : TraceBuffer String α}
    (hcollector : r._read_context = "Collector") (hsent : r.sent = [])
    (hcount : r._read_count = 0) (hb : t._buffer_map.lookup r._req_buf_name = some b) :
    MarksLast (r.Run t).1
      ↔ ∀ i < calls b r._read_context r._req_count,
          LooksNewest b (start b r._read_context + i) ∨ i + 1 = r._req_count →
          i + 1 = calls b r._read_context r._req_count := by
  have hreads : reads r t = (b.TraceRead r._read_context r._req_count).1 := by
    unfold reads Trace.TraceRead
    rw [hb]
  have hlength : (reads r t).length = calls b r._read_context r._req_count := by
    rw [hreads, length_traceRead]
  rw [run_collector hcollector hsent hcount]
  unfold MarksLast
  rw [List.length_map, List.length_zipIdx, hlength]
  constructor
  · intro hmarks i hi hlast
    obtain ⟨entry, more, hcall, hmore⟩ := getElem_traceRead hi
    refine hmarks i (.trace r._req_context entry (marked r i more)) ?_ ?_
    · rw [List.getElem?_map, List.getElem?_zipIdx, hreads, hcall]
      show some (Sent.trace _ _ (marked r (0 + i) more)) = _
      rw [Nat.zero_add]
    · show (!decide (more = false ∨ i + 1 = r._req_count)) = false
      rw [Bool.not_eq_false', decide_eq_true_iff, hmore]
      exact hlast
  · intro hmarks i m hm hfalse
    have hi : i < calls b r._read_context r._req_count := by
      have hlt := (List.getElem?_eq_some_iff.mp hm).1
      rw [List.length_map, List.length_zipIdx, hlength] at hlt
      exact hlt
    obtain ⟨entry, more, hcall, hmore⟩ := getElem_traceRead hi
    apply hmarks i hi
    rw [List.getElem?_map, List.getElem?_zipIdx, hreads, hcall] at hm
    injection hm with hm
    rw [← hm] at hfalse
    have hfalse : (!decide (more = false ∨ 0 + i + 1 = r._req_count)) = false := hfalse
    rw [Bool.not_eq_false', decide_eq_true_iff, hmore, Nat.zero_add] at hfalse
    exact hfalse

/-- A run marks nothing but its last exactly if nothing before looks like
the newest. -/
theorem marksLast_iff (hsent : r.sent = []) (hcount : r._read_count = 0) :
    MarksLast (r.Run t).1 ↔ LastOnce r t := by
  by_cases hcollector : r._read_context = "Collector"
  · cases hb : t._buffer_map.lookup r._req_buf_name with
    | none =>
        have hreads : reads r t = [] := by
          unfold reads Trace.TraceRead
          rw [hb]
        rw [run_collector hcollector hsent hcount, hreads]
        refine iff_of_true ?_ ?_
        · intro i m hm
          cases hm
        · intro _ b hb'
          rw [hb] at hb'
          cases hb'
    | some b =>
        rw [marksLast_collector hcollector hsent hcount hb]
        constructor
        · intro hmarks _ b' hb' p hlow hhigh hbefore hlooks
          obtain rfl := Option.some.inj (hb.symm.trans hb')
          obtain ⟨i, rfl⟩ := Nat.exists_eq_add_of_le hlow
          have hi : i + 1 < calls b r._read_context r._req_count := by
            unfold calls
            omega
          have hlast := hmarks i (by omega) (.inl hlooks)
          omega
        · intro honce i hi hlast
          by_contra hne
          have hcalls : calls b r._read_context r._req_count
              = min (limit b r._req_count)
                  (b._buf.length - start b r._read_context) := rfl
          rcases hlast with hlooks | hmany
          · exact honce hcollector b hb _ (Nat.le_add_right _ _) (by omega) (by omega)
              hlooks
          · have hlimit : limit b r._req_count = r._req_count := by
              unfold limit
              rw [if_neg (by omega)]
            omega
  · obtain ⟨m, hm⟩ := run_other (t := t) hcollector hsent
    rw [hm]
    refine iff_of_true ?_ fun h => absurd h hcollector
    intro i m' hget _
    have hlt := (List.getElem?_eq_some_iff.mp hget).1
    rw [List.length_singleton] at hlt ⊢
    omega

end Runner

-- ============================================================ the results

/-- For every content of a buffer and every read the flag is false exactly
for the newest entry, and every run of a runner marks only the last trace
it sends, exactly where no entry that is read before looks like the
newest. -/
theorem more_flag_iff [ReflBEq α] :
    (∀ (b : TraceBuffer κ α) (context : κ) (count : Nat),
      MarksNewest b context count ↔ NewestOnce b context count)
    ∧ ∀ (t : Trace α) (name : String) (context : γ) (read_context : String)
        (request_count : Option Nat),
      MarksLast
          ((SandeshTraceRequestRunner.new t name context read_context
            request_count).Run t).1
        ↔ LastOnce
          (SandeshTraceRequestRunner.new t name context read_context request_count)
          t :=
  ⟨marksNewest_iff, fun _ _ _ _ _ => marksLast_iff rfl rfl⟩

/-- A buffer of two, after the writes of two entries. -/
def both (first second : Nat) : TraceBuffer String Nat :=
  ⟨2, 2, [first, second], ∅, true, 0, 0⟩

theorem more_flag_two : MarksNewest (both 7 8) "Collector" 0 := by
  refine ((more_flag_iff (γ := Unit)).1 (both 7 8) "Collector" 0).mpr ?_
  intro p _ _ hbefore hlooks
  have hzero : p = 0 := by
    have hlength : (both 7 8)._buf.length = 2 := rfl
    omega
  obtain ⟨entry, last, hentry, hlast, heq⟩ := hlooks
  subst hzero
  obtain rfl := Option.some.inj hentry
  obtain rfl := Option.some.inj hlast
  cases heq

/-- Two equal entries are both marked as the last, and so are sent to the
collector. -/
theorem more_flag_repeated :
    ¬ MarksNewest (both 7 7) "Collector" 0
    ∧ ¬ MarksLast
        ((SandeshTraceRequestRunner.new ⟨Finmap.singleton "buf" (both 7 7)⟩ "buf" ()
          "Collector" none).Run ⟨Finmap.singleton "buf" (both 7 7)⟩).1 := by
  have hlooks : LooksNewest (both 7 7) 0 := ⟨7, 7, rfl, rfl, rfl⟩
  refine ⟨fun hmarks => ?_, fun hmarks => ?_⟩
  · have honce := (marksNewest_iff _ _ _).mp hmarks
    exact honce 0 (by decide) (by decide) (by decide) hlooks
  · have honce := (marksLast_iff rfl rfl).mp hmarks
    refine honce rfl (both 7 7) Finmap.lookup_singleton_eq 0 ?_ ?_ ?_ hlooks
    · decide
    · decide
    · decide

end Sandesh.Py.TraceRequest
