/-
The statistics add up, in both languages.

An update is `worth` a number of messages and bytes in one counter, or in
two when a message is dropped. The records of C++ are totals of these in
the arithmetic of `uint64_t`, those of Python the totals themselves; both
are kept by message type, so they tally the updates. All sums follow from
totals being linear: the aggregate is the sum over the types, and a drop
is worth as much in the counter of its reason as in the common one.

Python counts by the number of messages, or by the exception it gets.
`Counted` says that a counter is either untouched in both of its fields or
has messages in it, so that the first time is told apart rightly.
-/
import Mathlib.Algebra.BigOperators.Group.Finset.Basic
import Mathlib.Algebra.BigOperators.Pi
import Mathlib.Algebra.Group.Pi.Lemmas
import Mathlib.Algebra.Ring.Int.Defs
import Mathlib.Data.List.Induction
import Sandesh.MessageStats.Basic

namespace Sandesh.MessageStats

open Lib

-- ========================================================== the counters

/-- The thirteen reasons for which a message is not sent. -/
def txCounters : List Counter :=
  [.sent_dropped_no_queue, .sent_dropped_no_client, .sent_dropped_no_session,
    .sent_dropped_queue_level, .sent_dropped_client_send_failed,
    .sent_dropped_session_not_connected, .sent_dropped_header_write_failed,
    .sent_dropped_write_failed, .sent_dropped_wrong_client_sm_state,
    .sent_dropped_validation_failed, .sent_dropped_rate_limited,
    .sent_dropped_sending_disabled, .sent_dropped_sending_to_syslog]

/-- The five reasons for which a message is not received. -/
def rxCounters : List Counter :=
  [.received_dropped_no_queue, .received_dropped_queue_level,
    .received_dropped_create_failed, .received_dropped_control_msg_failed,
    .received_dropped_decoding_failed]

/-- Both languages use the same counter for a reason. -/
theorem txDropped_eq {r : SandeshTxDropReason} (h : r.Drops) :
    ∃ c ∈ txCounters, Cpp.sendDropped r = some c ∧ Py.txDropped r = .ok c := by
  obtain ⟨hmin, hno, hmax⟩ := h
  cases r <;> first
    | contradiction
    | exact ⟨_, by decide, rfl, rfl⟩

theorem rxDropped_eq {r : SandeshRxDropReason} (h : r.Drops) :
    ∃ c ∈ rxCounters, Cpp.recvDropped r = some c ∧ Py.rxDropped r = .ok c := by
  obtain ⟨hmin, hno, hmax⟩ := h
  cases r <;> first
    | contradiction
    | exact ⟨_, by decide, rfl, rfl⟩

/-- One message of `n` bytes in a counter. -/
def one (c : Counter) (n : Int) : Field → Int
  | .messages d => if d = c then 1 else 0
  | .bytes d => if d = c then n else 0

/-- What an update adds to each field. -/
def Update.worth (u : Update) : Field → Int :=
  match u.what with
  | .send => one .sent u.bytes.toNat
  | .recv => one .received u.bytes.toNat
  | .sendFailed r _ =>
      one ((Cpp.sendDropped r).getD .sent_dropped) u.bytes.toNat
        + one .sent_dropped u.bytes.toNat
  | .recvFailed r _ =>
      one ((Cpp.recvDropped r).getD .received_dropped) u.bytes.toNat
        + one .received_dropped u.bytes.toNat

/-- The same in `uint64_t`. -/
def Update.worth64 (u : Update) : Field → U64 := fun f => (u.worth f : U64)

-- ================================================================== C++

theorem Cpp.count_eq (s : SandeshMessageStats U64) (c : Counter) (b : U64) :
    Cpp.count s c b = s + fun f => (one c b.toNat f : U64) := by
  funext f
  show Function.update (Function.update s _ _) _ _ f = s f + (one c b.toNat f : U64)
  cases f with
  | messages d =>
      rw [Function.update_of_ne (by simp), one]
      by_cases hd : d = c
      · subst hd
        rw [Function.update_self, if_pos rfl, Int.cast_one]
      · rw [Function.update_of_ne (by simp [hd]), if_neg hd, Int.cast_zero, add_zero]
  | bytes d =>
      rw [one]
      by_cases hd : d = c
      · subst hd
        rw [Function.update_self, Function.update_of_ne (by simp), if_pos rfl,
          Int.cast_natCast, BitVec.natCast_eq_ofNat, BitVec.ofNat_toNat, BitVec.setWidth_eq]
      · rw [Function.update_of_ne (by simp [hd]), Function.update_of_ne (by simp),
          if_neg hd, Int.cast_zero, add_zero]

/-- A drop in the counter of its reason and in the common one. -/
theorem Cpp.count_count (s : SandeshMessageStats U64) (c d : Counter) (b : U64) :
    Cpp.count (Cpp.count s c b) d b
      = s + fun f => ((one c b.toNat + one d b.toNat) f : U64) := by
  rw [count_eq, count_eq, add_assoc]
  congr 1
  funext f
  exact (Int.cast_add (one c b.toNat f) (one d b.toNat f)).symm

/-- An update adds what it is worth to the record of its type and to the
aggregate. -/
theorem Cpp.update_eq (s : SandeshMessageStatistics U64) (u : Update) :
    Cpp.update s u = some ⟨s.type_stats.insert u.msg_name
        ((s.type_stats.lookup u.msg_name).getD 0 + u.worth64),
      s.agg_stats + u.worth64⟩ := by
  obtain ⟨what, msg_name, bytes⟩ := u
  unfold Cpp.update Update.worth64 Update.worth
  cases what with
  | send =>
      show some (⟨_, Cpp.count _ .sent _⟩ : SandeshMessageStatistics U64) = _
      rw [if_pos rfl, count_eq, count_eq]
  | recv =>
      show some (⟨_, Cpp.count _ .received _⟩ : SandeshMessageStatistics U64) = _
      rw [if_neg Bool.false_ne_true, count_eq, count_eq]
  | sendFailed r h =>
      obtain ⟨c, -, hc, -⟩ := txDropped_eq h
      have hdrop : ∀ s, UpdateDetailStatsDrops s true bytes r .NoDrop
          = some (s + fun f => ((one c bytes.toNat + one .sent_dropped bytes.toNat) f : U64)) := by
        intro s
        rw [UpdateDetailStatsDrops, if_pos rfl, hc, ← count_count]
        rfl
      simp only [UpdateSendFailed, UpdateInternal, hdrop, hc, if_true, Option.getD_some]
      rfl
  | recvFailed r h =>
      obtain ⟨c, -, hc, -⟩ := rxDropped_eq h
      have hdrop : ∀ s, UpdateDetailStatsDrops s false bytes .NoDrop r
          = some (s + fun f =>
              ((one c bytes.toNat + one .received_dropped bytes.toNat) f : U64)) := by
        intro s
        rw [UpdateDetailStatsDrops, if_neg Bool.false_ne_true, hc, ← count_count]
        rfl
      simp only [UpdateRecvFailed, UpdateInternal, hdrop, hc, if_true, Option.getD_some]
      rfl

/-- The records after a list of updates. -/
theorem Cpp.run_eq (us : List Update) :
    ∃ s, us.foldlM Cpp.update Cpp.new = some s
      ∧ Tallies Update.msg_name Update.worth64 us s.type_stats
      ∧ s.agg_stats = total Update.worth64 us := by
  induction us using List.reverseRecOn with
  | nil => exact ⟨Cpp.new, rfl, tallies_nil, rfl⟩
  | append_singleton us u ih =>
      obtain ⟨s, hrun, htypes, hagg⟩ := ih
      refine ⟨⟨_, s.agg_stats + u.worth64⟩, ?_, htypes.concat u, ?_⟩
      · rw [List.foldlM_append, hrun]
        show (do let s' ← Cpp.update s u; _) = _
        rw [update_eq]
        rfl
      · rw [total_append, total_singleton, hagg]

-- =============================================================== Python

/-- A record with `None` read as 0. -/
def Py.read (s : SandeshMessageStats Py.Value) : Field → Int := fun f => (s f).getD 0

/-- A counter is untouched, or has messages in it. -/
def Py.Counted (s : SandeshMessageStats Py.Value) : Prop :=
  ∀ c, (s (.messages c) = none ∧ s (.bytes c) = none)
    ∨ ∃ m b, s (.messages c) = some m ∧ s (.bytes c) = some b ∧ 0 < m

/-- Two fields of one counter are set. -/
theorem Py.read_set (s : SandeshMessageStats Py.Value) (c : Counter) (m b n : Int)
    (hm : m = read s (.messages c) + 1) (hb : b = read s (.bytes c) + n) :
    read (Function.update (Function.update s (.messages c) (some m)) (.bytes c) (some b))
      = read s + one c n := by
  funext f
  show (Function.update (Function.update s _ _) _ _ f).getD 0 = read s f + one c n f
  cases f with
  | messages d =>
      rw [Function.update_of_ne (by simp), one]
      by_cases hd : d = c
      · subst hd
        rw [Function.update_self, if_pos rfl, hm]
        rfl
      · rw [Function.update_of_ne (by simp [hd]), if_neg hd, add_zero]
        rfl
  | bytes d =>
      rw [one]
      by_cases hd : d = c
      · subst hd
        rw [Function.update_self, if_pos rfl, hb]
        rfl
      · rw [Function.update_of_ne (by simp [hd]), Function.update_of_ne (by simp),
          if_neg hd, add_zero]
        rfl

theorem Py.counted_set {s : SandeshMessageStats Py.Value} (h : Counted s) (c : Counter)
    {m : Int} (b : Int) (hm : 0 < m) :
    Counted (Function.update (Function.update s (.messages c) (some m))
      (.bytes c) (some b)) := by
  intro d
  by_cases hd : d = c
  · subst hd
    exact .inr ⟨m, b, by rw [Function.update_of_ne (by simp), Function.update_self],
      Function.update_self .., hm⟩
  · rw [Function.update_of_ne (by simp), Function.update_of_ne (by simp [hd]),
      Function.update_of_ne (by simp [hd]), Function.update_of_ne (by simp)]
    exact h d

/-- A function that counts one message. -/
def Py.Counts (f : SandeshMessageStats Py.Value → Except Py.PyExc (SandeshMessageStats Py.Value))
    (w : Field → Int) : Prop :=
  ∀ s, Counted s → ∃ s', f s = .ok s' ∧ Counted s' ∧ read s' = read s + w

/-- Both ways to tell the first time count rightly. -/
theorem Py.increments_or_starts {s : SandeshMessageStats Py.Value} (h : Counted s)
    (c : Counter) (n : Int) :
    ∃ s', count s c n = .ok s' ∧ countTried s c n = .ok s' ∧ Counted s'
      ∧ read s' = read s + one c n := by
  unfold count countTried increment
  rcases h c with ⟨hm, hb⟩ | ⟨m, b, hm, hb, hpos⟩
  · refine ⟨start s c n, ?_, ?_, counted_set h c n Int.one_pos, ?_⟩
    · rw [hm]
      rfl
    · rw [hm]
      rfl
    · refine read_set s c 1 n n ?_ ?_
      · rw [read, hm]
        rfl
      · rw [read, hb]
        exact (zero_add n).symm
  · have htruthy : truthy (some m) = true := by
      rw [truthy, Option.any_some]
      exact decide_eq_true (by omega)
    refine ⟨_, ?_, ?_, counted_set h c (b + n) (m := m + 1) (by omega),
      read_set s c (m + 1) (b + n) n ?_ ?_⟩
    · rw [hm, htruthy, hb]
      rfl
    · rw [hm, hb]
      rfl
    · rw [read, hm]
      rfl
    · rw [read, hb]
      rfl

theorem Py.count_counts (c : Counter) (n : Int) : Counts (count · c n) (one c n) := by
  intro s h
  obtain ⟨s', hcount, -, h', hread⟩ := increments_or_starts h c n
  exact ⟨s', hcount, h', hread⟩

/-- One count after another. -/
theorem Py.count_count (c d : Counter) (n : Int) :
    Counts (fun s => do let s ← count s d n; count s c n) (one c n + one d n) := by
  intro s h
  obtain ⟨s₁, hd, -, h₁, hread₁⟩ := increments_or_starts h d n
  obtain ⟨s₂, hc, -, h₂, hread₂⟩ := increments_or_starts h₁ c n
  refine ⟨s₂, ?_, h₂, by rw [hread₂, hread₁, add_assoc, add_comm (one d n)]⟩
  show (do let s ← count s d n; count s c n) = _
  rw [hd]
  exact hc

theorem Py.update_tx_counts {r : SandeshTxDropReason} (h : r.Drops) (n : Int) :
    Counts (update_tx_stats_internal · n r)
      (one ((Cpp.sendDropped r).getD .sent_dropped) n + one .sent_dropped n) := by
  obtain ⟨c, -, hcpp, hpy⟩ := txDropped_eq h
  have hbody : ∀ s, update_tx_stats_internal s n r
      = (do let s ← count s .sent_dropped n; count s c n) := by
    intro s
    rw [update_tx_stats_internal, if_neg h.2.1, hpy]
    rfl
  intro s hs
  obtain ⟨s', hcount, hs', hread⟩ := count_count c .sent_dropped n s hs
  rw [hcpp]
  exact ⟨s', (hbody s).trans hcount, hs', hread⟩

theorem Py.update_rx_counts {r : SandeshRxDropReason} (h : r.Drops) (n : Int) :
    Counts (update_rx_stats_internal · n r)
      (one ((Cpp.recvDropped r).getD .received_dropped) n + one .received_dropped n) := by
  obtain ⟨c, -, hcpp, hpy⟩ := rxDropped_eq h
  have hbody : ∀ s, update_rx_stats_internal s n r
      = (do let s ← count s .received_dropped n; count s c n) := by
    intro s
    rw [update_rx_stats_internal, if_neg h.2.1, hpy]
    rfl
  intro s hs
  obtain ⟨s', hcount, hs', hread⟩ := count_count c .received_dropped n s hs
  rw [hcpp]
  exact ⟨s', (hbody s).trans hcount, hs', hread⟩

/-- What every record of Python's statistics keeps. -/
structure Py.Tallied (s : SandeshMessageStatistics Py.Value) (us : List Update) : Prop where
  types : ∀ t, (s.type_stats.lookup t).map read
    = tallyOf Update.msg_name Update.worth us t
  agg : read s.agg_stats = total Update.worth us
  counted : ∀ t, ∀ stats ∈ s.type_stats.lookup t, Counted stats
  agg_counted : Counted s.agg_stats

theorem Py.unset_counted : Counted unset := fun _ => .inl ⟨rfl, rfl⟩

/-- One record and the aggregate are updated alike. -/
theorem Py.updateBoth_tallied {s : SandeshMessageStatistics Py.Value}
    {us : List Update} (h : Tallied s us) (u : Update)
    {f : SandeshMessageStats Py.Value → Except Py.PyExc (SandeshMessageStats Py.Value)}
    (hf : Counts f u.worth) :
    ∃ s', updateBoth s u.msg_name f = .ok s' ∧ Tallied s' (us ++ [u]) := by
  have hrecord : Counted ((s.type_stats.lookup u.msg_name).getD unset) := by
    cases hlookup : s.type_stats.lookup u.msg_name with
    | none => exact unset_counted
    | some stats => exact h.counted _ stats hlookup
  obtain ⟨stats, hstats, hcounted, hread⟩ := hf _ hrecord
  obtain ⟨agg, hagg, hagg_counted, hagg_read⟩ := hf _ h.agg_counted
  refine ⟨⟨s.type_stats.insert u.msg_name stats, agg⟩, ?_, ?_, ?_, ?_, hagg_counted⟩
  · rw [updateBoth, hstats]
    show (do let agg ← f s.agg_stats; _) = _
    rw [hagg]
    rfl
  · intro t
    rw [tallyOf_concat]
    by_cases ht : u.msg_name = t
    · subst ht
      rw [if_pos rfl, Finmap.lookup_insert, Option.map_some, hread, ← h.types]
      cases s.type_stats.lookup u.msg_name with
      | none => rfl
      | some stats => rfl
    · rw [if_neg ht, Finmap.lookup_insert_of_ne _ (Ne.symm ht)]
      exact h.types t
  · rw [hagg_read, h.agg, total_append, total_singleton]
  · intro t stats' hstats'
    by_cases ht : u.msg_name = t
    · subst ht
      rw [Finmap.lookup_insert] at hstats'
      injection hstats' with heq
      exact heq ▸ hcounted
    · rw [Finmap.lookup_insert_of_ne _ (Ne.symm ht)] at hstats'
      exact h.counted t stats' hstats'

theorem Py.update_tallied {s : SandeshMessageStatistics Py.Value}
    {us : List Update} (h : Tallied s us) (u : Update) :
    ∃ s', Py.update s u = .ok s' ∧ Tallied s' (us ++ [u]) := by
  suffices hboth : ∃ f, Counts f u.worth
      ∧ Py.update s u = updateBoth s u.msg_name f by
    obtain ⟨f, hf, hupdate⟩ := hboth
    rw [hupdate]
    exact updateBoth_tallied h u hf
  have hfst : ∀ x : Except Py.PyExc (SandeshMessageStatistics Py.Value),
      Prod.fst <$> (do let s ← x; return (s, true)) = x := by
    intro x
    cases x <;> rfl
  obtain ⟨what, msg_name, bytes⟩ := u
  cases what with
  | send =>
      refine ⟨_, ?_, hfst _⟩
      intro s hs
      obtain ⟨s', -, htried, hs', hread⟩ := increments_or_starts hs .sent bytes.toNat
      exact ⟨s', htried, hs', hread⟩
  | recv => exact ⟨_, count_counts .received bytes.toNat, hfst _⟩
  | sendFailed r hr =>
      refine ⟨_, update_tx_counts hr bytes.toNat, ?_⟩
      show Prod.fst <$> update_tx_stats s msg_name bytes.toNat r = _
      rw [update_tx_stats, if_neg (by rintro (h | h); exact hr.1 h; exact hr.2.2 h)]
      exact hfst _
  | recvFailed r hr =>
      refine ⟨_, update_rx_counts hr bytes.toNat, ?_⟩
      show Prod.fst <$> update_rx_stats s msg_name bytes.toNat r = _
      rw [update_rx_stats, if_neg (by rintro (h | h); exact hr.1 h; exact hr.2.2 h)]
      exact hfst _

theorem Py.run_tallied (us : List Update) :
    ∃ s, us.foldlM Py.update Py.new = .ok s ∧ Tallied s us := by
  induction us using List.reverseRecOn with
  | nil => exact ⟨Py.new, rfl, fun _ => rfl, rfl, nofun, unset_counted⟩
  | append_singleton us u ih =>
      obtain ⟨s, hrun, hs⟩ := ih
      obtain ⟨s', hupdate, hs'⟩ := update_tallied hs u
      refine ⟨s', ?_, hs'⟩
      rw [List.foldlM_append, hrun]
      show (do let s' ← Py.update s u; _) = _
      rw [hupdate]
      rfl

-- ================================================================= sums

/-- The statistics as numbers: the types there are, their records (zeros
for a type there is not) and the aggregate. -/
structure View (α : Type) where
  types : Finset Bytes
  stats : Bytes → Field → α
  agg : Field → α

/-- The statistics as functions of the type. -/
def Cpp.view (s : SandeshMessageStatistics U64) : View U64 :=
  ⟨s.type_stats.keys, fun t => (s.type_stats.lookup t).getD 0, s.agg_stats⟩

/-- With `None` read as 0. -/
def Py.view (s : SandeshMessageStatistics Py.Value) : View Int :=
  ⟨s.type_stats.keys, fun t => ((s.type_stats.lookup t).map read).getD 0,
    read s.agg_stats⟩

section

variable {α : Type} [AddCommGroup α]

/-- The counters `cs` add up to the counter `d`, in messages and in
bytes. -/
def AddUpTo (d : Counter) (cs : List Counter) (stats : Field → α) : Prop :=
  stats (.messages d) = (cs.map fun c => stats (.messages c)).sum
    ∧ stats (.bytes d) = (cs.map fun c => stats (.bytes c)).sum

/-- The counters of the reasons add up to the common ones. -/
structure DropsAddUp (stats : Field → α) : Prop where
  sent : AddUpTo .sent_dropped txCounters stats
  received : AddUpTo .received_dropped rxCounters stats

/-- The aggregate is the sum over the types, and drops add up in every
record. -/
structure AddsUp (v : View α) : Prop where
  agg : ∀ f, v.agg f = ∑ t ∈ v.types, v.stats t f
  agg_drops : DropsAddUp v.agg
  drops : ∀ t, DropsAddUp (v.stats t)

theorem AddUpTo.zero (d : Counter) (cs : List Counter) :
    AddUpTo d cs (0 : Field → α) := ⟨by simp, by simp⟩

theorem AddUpTo.add {d : Counter} {cs : List Counter} {x y : Field → α}
    (hx : AddUpTo d cs x) (hy : AddUpTo d cs y) : AddUpTo d cs (x + y) := by
  constructor
  · simp only [Pi.add_apply, List.sum_map_add]
    rw [hx.1, hy.1]
  · simp only [Pi.add_apply, List.sum_map_add]
    rw [hx.2, hy.2]

theorem DropsAddUp.total {worth : Update → Field → α} (h : ∀ u, DropsAddUp (worth u)) :
    ∀ us : List Update, DropsAddUp (Lib.total worth us)
  | [] => ⟨.zero _ _, .zero _ _⟩
  | u :: us => by
      have hus := DropsAddUp.total h us
      rw [total_cons]
      exact ⟨(h u).sent.add hus.sent, (h u).received.add hus.received⟩

/-- Statistics that tally some updates add up as the updates do. -/
theorem addsUp_of_tally {worth : Update → Field → α} (hworth : ∀ u, DropsAddUp (worth u))
    {v : View α} {us : List Update}
    (hstats : ∀ t, v.stats t = (tallyOf Update.msg_name worth us t).getD 0)
    (htypes : ∀ u ∈ us, u.msg_name ∈ v.types) (hagg : v.agg = total worth us) :
    AddsUp v := by
  have hbucket : ∀ t, v.stats t = total worth (inBucket Update.msg_name us t) := by
    intro t
    rw [hstats t, tallyOf]
    by_cases hnil : inBucket Update.msg_name us t = []
    · rw [if_pos hnil, hnil]
      rfl
    · rw [if_neg hnil]
      rfl
  refine ⟨?_, hagg ▸ DropsAddUp.total hworth us, fun t => ?_⟩
  · intro f
    have hlisted : ∀ u ∈ us, u.msg_name ∈ v.types.toList := fun u hu =>
      Finset.mem_toList.mpr (htypes u hu)
    have hsum := sum_total_inBucket Update.msg_name worth (Finset.nodup_toList _) hlisted
    rw [hagg, ← hsum, Finset.sum_map_toList, Finset.sum_apply]
    exact Finset.sum_congr rfl fun t _ => by rw [hbucket t]
  · rw [hbucket t]
    exact DropsAddUp.total hworth _

end

/-- A count in a counter that has no part in the sum. -/
theorem addUpTo_other {c d : Counter} {cs : List Counter} (hnd : cs.Nodup)
    (hc : c ∉ cs) (hd : d ≠ c) (n : Int) : AddUpTo d cs (one c n) := by
  simp only [AddUpTo, one, sum_map_single hnd, if_neg hc, if_neg hd, and_self]

/-- A count on both sides of the sum. -/
theorem addUpTo_both {c d : Counter} {cs : List Counter} (hnd : cs.Nodup)
    (hc : c ∈ cs) (hd : d ∉ cs) (n : Int) : AddUpTo d cs (one c n + one d n) := by
  have hne : d ≠ c := fun heq => hd (heq ▸ hc)
  simp only [AddUpTo, Pi.add_apply, List.sum_map_add, one, sum_map_single hnd, if_pos hc,
    if_neg hd, if_neg hne, if_true, zero_add, add_zero, and_self]

/-- A drop is worth as much in the counter of its reason as in the common
one. -/
theorem Update.worth_drops (u : Update) : DropsAddUp u.worth := by
  have htx : txCounters.Nodup := by decide
  have hrx : rxCounters.Nodup := by decide
  obtain ⟨what, msg_name, bytes⟩ := u
  cases what with
  | send => exact ⟨addUpTo_other htx (by decide) (by decide) _,
      addUpTo_other hrx (by decide) (by decide) _⟩
  | recv => exact ⟨addUpTo_other htx (by decide) (by decide) _,
      addUpTo_other hrx (by decide) (by decide) _⟩
  | sendFailed r h =>
      obtain ⟨c, hc, hcpp, -⟩ := txDropped_eq h
      have hother : ∀ c ∈ txCounters, c ∉ rxCounters ∧ .received_dropped ≠ c := by decide
      obtain ⟨hcrx, hne⟩ := hother c hc
      show DropsAddUp (one ((Cpp.sendDropped r).getD _) _ + one _ _)
      rw [hcpp]
      exact ⟨addUpTo_both htx hc (by decide) _, (addUpTo_other hrx hcrx hne _).add
        (addUpTo_other hrx (by decide) (by decide) _)⟩
  | recvFailed r h =>
      obtain ⟨c, hc, hcpp, -⟩ := rxDropped_eq h
      have hother : ∀ c ∈ rxCounters, c ∉ txCounters ∧ .sent_dropped ≠ c := by decide
      obtain ⟨hctx, hne⟩ := hother c hc
      show DropsAddUp (one ((Cpp.recvDropped r).getD _) _ + one _ _)
      rw [hcpp]
      exact ⟨(addUpTo_other htx hctx hne _).add (addUpTo_other htx (by decide) (by decide) _),
        addUpTo_both hrx hc (by decide) _⟩

/-- The same in `uint64_t`. -/
theorem Update.worth64_drops (u : Update) : DropsAddUp u.worth64 := by
  obtain ⟨⟨hms, hbs⟩, ⟨hmr, hbr⟩⟩ := u.worth_drops
  have hcast : ∀ (cs : List Counter) (g : Counter → Field),
      (cs.map fun c => u.worth64 (g c)).sum
        = (((cs.map fun c => u.worth (g c)).sum : Int) : U64) := by
    intro cs g
    have hsum := map_list_sum (Int.castAddHom U64) (cs.map fun c => u.worth (g c))
    rw [List.map_map] at hsum
    exact hsum.symm
  refine ⟨⟨?_, ?_⟩, ⟨?_, ?_⟩⟩
  · rw [hcast, ← hms]
    rfl
  · rw [hcast, ← hbs]
    rfl
  · rw [hcast, ← hmr]
    rfl
  · rw [hcast, ← hbr]
    rfl

-- ==================================================== the two languages

/-- C++ has Python's values, as far as they go into 64 bits. -/
structure SameValues (cpp : View U64) (py : View Int) : Prop where
  types : cpp.types = py.types
  stats : ∀ t f, ((cpp.stats t f).toNat : Int) = py.stats t f % 2 ^ 64
  agg : ∀ f, ((cpp.agg f).toNat : Int) = py.agg f % 2 ^ 64

theorem toNat_cast (n : Int) : (((n : U64).toNat : Nat) : Int) = n % 2 ^ 64 := by
  show ((BitVec.ofInt 64 n).toNat : Int) = _
  rw [BitVec.toNat_ofInt, Int.toNat_of_nonneg (Int.emod_nonneg n (by decide))]
  rfl

theorem total_worth64 (us : List Update) (f : Field) :
    total Update.worth64 us f = ((total Update.worth us f : Int) : U64) := by
  induction us with
  | nil => exact Int.cast_zero.symm
  | cons u us ih =>
      rw [total_cons, total_cons, Pi.add_apply, Pi.add_apply, ih, Int.cast_add]
      rfl

/-- **The statistics add up.** After every sequence of updates, in both
languages, the aggregate is the sum over the message types and dropped
messages and bytes are the sums over their reasons, in C++ as `uint64_t`
adds; and C++ has the values of Python modulo 2^64. -/
theorem statistics_add_up (us : List Update) :
    ∃ cpp py, us.foldlM Cpp.update Cpp.new = some cpp
      ∧ us.foldlM Py.update Py.new = .ok py
      ∧ AddsUp (Cpp.view cpp) ∧ AddsUp (Py.view py)
      ∧ SameValues (Cpp.view cpp) (Py.view py) := by
  obtain ⟨cpp, hcpp, htypes, hagg⟩ := Cpp.run_eq us
  obtain ⟨py, hpy, htallied⟩ := Py.run_tallied us
  have hkeys : ∀ t, t ∈ cpp.type_stats.keys ↔ t ∈ py.type_stats.keys := by
    intro t
    rw [Finmap.mem_keys, Finmap.mem_keys, ← Finmap.lookup_isSome, ← Finmap.lookup_isSome,
      htypes t, ← Option.isSome_map (f := Py.read), htallied.types t, tallyOf]
    split <;> rfl
  have hmem : ∀ u ∈ us, u.msg_name ∈ cpp.type_stats.keys := fun u hu => htypes.mem_keys hu
  refine ⟨cpp, py, hcpp, hpy, ?_, ?_, Finset.ext hkeys, ?_, ?_⟩
  · refine addsUp_of_tally Update.worth64_drops (fun t => ?_) hmem hagg
    show (cpp.type_stats.lookup t).getD 0 = _
    rw [htypes t]
    rfl
  · refine addsUp_of_tally Update.worth_drops (fun t => ?_)
      (fun u hu => (hkeys _).mp (hmem u hu)) htallied.agg
    show ((py.type_stats.lookup t).map Py.read).getD 0 = _
    rw [htallied.types t]
  · intro t f
    have hcell : (Cpp.view cpp).stats t f = (((Py.view py).stats t f : Int) : U64) := by
      show (cpp.type_stats.lookup t).getD 0 f
        = ((((py.type_stats.lookup t).map Py.read).getD 0 f : Int) : U64)
      rw [htypes t, htallied.types t, tallyOf]
      split
      · exact Int.cast_zero.symm
      · exact total_worth64 _ f
    rw [hcell, toNat_cast]
  · intro f
    show ((cpp.agg_stats f).toNat : Int) = Py.read py.agg_stats f % 2 ^ 64
    rw [hagg, htallied.agg, total_worth64, toNat_cast]

/-- Two messages of 2^63 bytes. -/
def wrappingUpdates : List Update :=
  [⟨.send, [65], BitVec.twoPow 64 63⟩, ⟨.send, [65], BitVec.twoPow 64 63⟩]

/-- Python has counted 2^64 bytes, C++ none. -/
theorem statistics_differ :
    ∃ cpp py, wrappingUpdates.foldlM Cpp.update Cpp.new = some cpp
      ∧ wrappingUpdates.foldlM Py.update Py.new = .ok py
      ∧ (Cpp.view cpp).agg (.bytes .sent) = 0
      ∧ (Py.view py).agg (.bytes .sent) = 2 ^ 64 := by
  obtain ⟨cpp, hcpp, -, hagg⟩ := Cpp.run_eq wrappingUpdates
  obtain ⟨py, hpy, htallied⟩ := Py.run_tallied wrappingUpdates
  refine ⟨cpp, py, hcpp, hpy, ?_, ?_⟩
  · show cpp.agg_stats (.bytes .sent) = 0
    rw [hagg]
    decide
  · show Py.read py.agg_stats (.bytes .sent) = 2 ^ 64
    rw [htallied.agg]
    decide

end Sandesh.MessageStats
