/-
The rate limit counts the messages of a second.

# What the buffer remembers

Let `passed` be the times of all messages of a class that passed. Its
deque holds the last of them, and a time that is no longer held is older
than one that is (`Remembers`): an element is pushed out by a message of a
later second only. So what passed in the current second is still held,
and the deque can be full of it or not.

# The step

With the limit `n` and `items` in the deque, at the second `t`: if there
are fewer than `n` of them, fewer than `n` passed at `t`; if there are `n`
and the oldest is from `t`, so are all; if it is older, at most `n - 1`
are from `t`, and the oldest may go.

The limit may grow at any time: then the deque holds fewer than the limit
although more have passed, and `Remembers` still holds.
-/
import Sandesh.Py.RateLimit

namespace Sandesh.Py.RateLimit

open Lib

variable {κ : Type} {limit : Nat} {now t : Int}
  {passed items : List Int} {c : MessageClass}

-- ========================================================== the history

/-- The last of what passed, at most the limit, in order; what is no
longer held is older than something held. -/
structure Remembers (limit : Nat) (passed items : List Int) : Prop where
  last : ∃ gone, passed = gone ++ items ∧ ∀ x ∈ gone, ∃ y ∈ items, x < y
  bounded : items.length ≤ limit
  ordered : items.Pairwise (· ≤ ·)

/-- Nothing that passed is later than `now`. -/
def Until (now : Int) (passed : List Int) : Prop :=
  ∀ x ∈ passed, x ≤ now

theorem remembers_nil : Remembers limit [] [] :=
  ⟨⟨[], rfl, fun _ hx => absurd hx List.not_mem_nil⟩, Nat.zero_le _, .nil⟩

theorem Remembers.mono {limit' : Nat} (h : Remembers limit passed items)
    (hle : limit ≤ limit') : Remembers limit' passed items :=
  ⟨h.last, Nat.le_trans h.bounded hle, h.ordered⟩

theorem Until.mono {now' : Int} (h : Until now passed) (hle : now ≤ now') :
    Until now' passed :=
  fun x hx => Int.le_trans (h x hx) hle

theorem Until.append (h : Until t passed) : Until t (passed ++ [t]) := by
  intro x hx
  rcases List.mem_append.mp hx with hx | hx
  · exact h x hx
  · exact Int.le_of_eq (List.mem_singleton.mp hx)

/-- What passed in the current second is still held. -/
theorem Remembers.count_eq (h : Remembers limit passed items)
    (hnow : Until t passed) : passed.count t = items.count t := by
  obtain ⟨gone, hpassed, hgone⟩ := h.last
  subst hpassed
  have hzero : gone.count t = 0 := by
    apply List.count_eq_zero.mpr
    intro hmem
    obtain ⟨y, hy, hlt⟩ := hgone t hmem
    have hle := hnow y (List.mem_append_right _ hy)
    omega
  rw [List.count_append, hzero, Nat.zero_add]

/-- Held times are part of what passed. -/
theorem Remembers.until_items (h : Remembers limit passed items)
    (hnow : Until t passed) : Until t items := by
  obtain ⟨gone, hpassed, -⟩ := h.last
  intro x hx
  apply hnow
  rw [hpassed]
  exact List.mem_append_right _ hx

/-- If the oldest time held is the current second, all are. -/
theorem count_of_head {rest : List Int} (hord : (t :: rest).Pairwise (· ≤ ·))
    (huntil : Until t (t :: rest)) : (t :: rest).count t = rest.length + 1 := by
  apply List.count_eq_length.mpr
  intro x hx
  have hle := huntil x hx
  rcases List.mem_cons.mp hx with heq | hmem
  · exact heq.symm
  · have hge := (List.pairwise_cons.mp hord).1 x hmem
    omega

/-- One more message of the current second, with the oldest pushed out if
need be. -/
theorem Remembers.append {gone kept : List Int} (hitems : items = gone ++ kept)
    (h : Remembers limit passed items) (hnow : Until t passed)
    (hgone : ∀ x ∈ gone, x < t) (hfits : kept.length + 1 ≤ limit) :
    Remembers limit (passed ++ [t]) (kept ++ [t]) := by
  obtain ⟨before, hpassed, hbefore⟩ := h.last
  have huntil := h.until_items hnow
  have hord := h.ordered
  subst hitems
  have hlast : t ∈ kept ++ [t] :=
    List.mem_append_right _ (List.mem_singleton.mpr rfl)
  refine ⟨⟨before ++ gone, ?_, ?_⟩, ?_, ?_⟩
  · rw [hpassed]
    simp only [List.append_assoc]
  · intro x hx
    refine ⟨t, hlast, ?_⟩
    rcases List.mem_append.mp hx with hx | hx
    · obtain ⟨y, hy, hlt⟩ := hbefore x hx
      have hle := huntil y hy
      omega
    · exact hgone x hx
  · rw [List.length_append, List.length_singleton]
    exact hfits
  · apply List.pairwise_append.mpr
    refine ⟨(List.pairwise_append.mp hord).2.1, List.pairwise_singleton _ _, ?_⟩
    intro x hx y hy
    rw [List.mem_singleton.mp hy]
    exact huntil x (List.mem_append_right _ hx)

-- ============================================================= one call

theorem items_new (h : items.length ≤ limit) :
    (Deque.new items limit).items = items := by
  show items.drop (items.length - limit) = items
  rw [Nat.sub_eq_zero_of_le h, List.drop_zero]

/-- Growing to the limit loses nothing. -/
theorem resize_items (h : c.rate_limit_buffer.items.length ≤ limit) :
    (c.resize limit).rate_limit_buffer.items = c.rate_limit_buffer.items := by
  unfold MessageClass.resize
  split
  · exact items_new h
  · rfl

theorem resize_maxlen (c : MessageClass) (limit : Nat) :
    (c.resize limit).rate_limit_buffer.maxlen = limit := by
  unfold MessageClass.resize
  split
  · rfl
  · next h => exact not_not.mp h

theorem drop_passed (c : MessageClass) : c.drop.passed = false := by
  unfold MessageClass.drop
  split
  · rfl
  · rfl

theorem drop_items (c : MessageClass) :
    c.drop.cls.rate_limit_buffer = c.rate_limit_buffer := by
  unfold MessageClass.drop
  split
  · rfl
  · rfl

/-- The buffer is full and its oldest time is the current second. -/
def Full (limit : Nat) (items : List Int) (t : Int) : Prop :=
  items.length = limit ∧ items.head? = some t

/-- What a call does to a buffer that fits the limit. -/
theorem is_rate_limit_pass_cases
    (h : c.rate_limit_buffer.items.length ≤ limit) (t : Int) :
    let items := c.rate_limit_buffer.items
    let r := c.is_rate_limit_pass limit t
    ((limit = 0 ∨ Full limit items t) ∧ r.passed = false
      ∧ r.cls.rate_limit_buffer.items = items)
    ∨ (limit ≠ 0 ∧ ¬ Full limit items t ∧ r.passed = true
      ∧ r.cls.rate_limit_buffer.items
        = (items ++ [t]).drop ((items ++ [t]).length - limit)) := by
  have hitems := resize_items h
  have hmax := resize_maxlen c limit
  simp only []
  unfold MessageClass.is_rate_limit_pass
  simp only [hmax, hitems]
  by_cases hzero : limit = 0
  · rw [if_pos hzero]
    exact .inl ⟨.inl hzero, rfl, hitems⟩
  · rw [if_neg hzero]
    by_cases hfull : c.rate_limit_buffer.items.length = limit
        ∧ c.rate_limit_buffer.items.head? = some t
    · rw [if_pos hfull]
      refine .inl ⟨.inr hfull, drop_passed _, ?_⟩
      rw [drop_items, hitems]
    · rw [if_neg hfull]
      refine .inr ⟨hzero, hfull, rfl, ?_⟩
      show (Deque.new _ _).items = _
      rw [hmax, hitems]
      rfl

/-- A full buffer of the current second, or no limit at all, is the limit
reached. -/
theorem not_count_lt (h : Remembers limit passed items)
    (hnow : Until t passed) (hfull : limit = 0 ∨ Full limit items t) :
    ¬ passed.count t < limit := by
  rcases hfull with hzero | ⟨hlen, hhead⟩
  · omega
  · rw [h.count_eq hnow]
    obtain ⟨rest, rfl⟩ := List.head?_eq_some_iff.mp hhead
    rw [count_of_head h.ordered (h.until_items hnow), ← hlen, List.length_cons]
    omega

/-- Otherwise the limit is not reached. -/
theorem count_lt (h : Remembers limit passed items) (hnow : Until t passed)
    (hzero : limit ≠ 0) (hfull : ¬ Full limit items t) :
    passed.count t < limit := by
  rw [h.count_eq hnow]
  have hle := List.count_le_length (a := t) (l := items)
  have hbounded := h.bounded
  rcases Nat.lt_or_ge (items.count t) items.length with hlt | hge
  · omega
  · -- all times held are the current second, so the buffer is not full
    have hall : items.count t = items.length := by omega
    have hlen : items.length ≠ limit := by
      intro hlen
      refine hfull ⟨hlen, ?_⟩
      cases items with
      | nil => exact absurd hlen.symm hzero
      | cons x rest =>
          rw [List.count_eq_length.mp hall x List.mem_cons_self]
          rfl
    omega

/-- A message that passes is remembered. -/
theorem remembers_pass (h : Remembers limit passed items)
    (hnow : Until t passed) (hzero : limit ≠ 0)
    (hfull : ¬ Full limit items t) :
    Remembers limit (passed ++ [t])
      ((items ++ [t]).drop ((items ++ [t]).length - limit)) := by
  have hbounded := h.bounded
  rw [List.length_append, List.length_singleton]
  by_cases hlen : items.length = limit
  · -- the oldest time is pushed out; it is before `t`
    cases items with
    | nil => exact absurd hlen.symm hzero
    | cons x rest =>
        have hdrop : (x :: rest).length + 1 - limit = 1 := by omega
        rw [hdrop, List.cons_append, List.drop_one, List.tail_cons]
        have hsplit : x :: rest = [x] ++ rest := rfl
        refine h.append hsplit hnow ?_ (Nat.le_of_eq hlen)
        intro y hy
        rw [List.mem_singleton.mp hy]
        have hle := h.until_items hnow x List.mem_cons_self
        have hne : x ≠ t := by
          intro heq
          exact hfull ⟨hlen, congrArg some heq⟩
        omega
  · have hdrop : items.length + 1 - limit = 0 := by omega
    rw [hdrop, List.drop_zero]
    have hsplit : items = [] ++ items := rfl
    refine h.append hsplit hnow ?_ (by omega)
    intro y hy
    exact absurd hy List.not_mem_nil

-- ============================================================== the runs

/-- The times that passed, class by class, and the time of the last
call. -/
structure History (κ : Type) where
  passed : κ → List Int
  last : Option Int

/-- The invariant: every buffer remembers, and nothing is later than the
last call. -/
structure Sound (s : Process κ × History κ) : Prop where
  remembers : ∀ cls, Remembers s.1._DEFAULT_SEND_RATELIMIT (s.2.passed cls)
    (s.1.classes cls).rate_limit_buffer.items
  before : ∀ cls x, x ∈ s.2.passed cls → ∃ now, s.2.last = some now ∧ x ≤ now

theorem Sound.until {s : Process κ × History κ} (h : Sound s)
    (hsteady : ∀ now, s.2.last = some now → now ≤ t) (cls : κ) :
    Until t (s.2.passed cls) := by
  intro x hx
  obtain ⟨now, hlast, hle⟩ := h.before cls x hx
  exact Int.le_trans hle (hsteady now hlast)

/-- A change of the limit. -/
theorem sound_set {p : Process κ} {history : History κ} {val : Int}
    (h : Sound (p, history)) (hsteady : val < 0 ∨ p._DEFAULT_SEND_RATELIMIT ≤ val) :
    Sound (p.set_sandesh_send_rate_limit val, history) := by
  unfold Process.set_sandesh_send_rate_limit
  split
  · refine ⟨fun cls => (h.remembers cls).mono ?_, h.before⟩
    show p._DEFAULT_SEND_RATELIMIT ≤ val.toNat
    omega
  · exact h

variable [DecidableEq κ]

/-- The history behind a call. -/
def History.after (history : History κ) (p : Process κ) : Call κ → History κ
  | .set_sandesh_send_rate_limit _ => history
  | .is_rate_limit_pass cls t =>
      { passed := Function.update history.passed cls
          (history.passed cls ++ if (p.result cls t).passed then [t] else [])
        last := some t }

/-- The calls, with their history. -/
def callsHistory : Machine (Process κ × History κ) (Call κ) :=
  calls.watch History.after

/-- The clock does not go back and the limit does not fall; a negative
limit is ignored. -/
def Steady (s : Process κ × History κ) : Call κ → Prop
  | .set_sandesh_send_rate_limit val =>
      val < 0 ∨ s.1._DEFAULT_SEND_RATELIMIT ≤ val
  | .is_rate_limit_pass _ t => ∀ now, s.2.last = some now → now ≤ t

/-- A call returns `True` exactly when fewer messages of the class than the
limit have passed in the same second, and every buffer remembers. -/
def CountsSeconds (s : Process κ × History κ) (a : Call κ)
    (s' : Process κ × History κ) : Prop :=
  (∀ cls t, a = .is_rate_limit_pass cls t →
    ((s.1.result cls t).passed = true
      ↔ (s.2.passed cls).count t < s.1._DEFAULT_SEND_RATELIMIT))
  ∧ ∀ cls, Remembers s'.1._DEFAULT_SEND_RATELIMIT (s'.2.passed cls)
      (s'.1.classes cls).rate_limit_buffer.items

/-- A call on one class. -/
theorem sound_pass {p : Process κ} {history : History κ} (cls : κ)
    (h : Sound (p, history))
    (hsteady : ∀ now, history.last = some now → now ≤ t) :
    ((p.result cls t).passed = true
      ↔ (history.passed cls).count t < p._DEFAULT_SEND_RATELIMIT)
    ∧ Sound (p.after (.is_rate_limit_pass cls t),
        history.after p (.is_rate_limit_pass cls t)) := by
  have hnow := h.until hsteady cls
  have hrem := h.remembers cls
  have hstep : ((p.result cls t).passed = true
        ↔ (history.passed cls).count t < p._DEFAULT_SEND_RATELIMIT)
      ∧ Remembers p._DEFAULT_SEND_RATELIMIT
          (history.passed cls ++ if (p.result cls t).passed then [t] else [])
          (p.result cls t).cls.rate_limit_buffer.items := by
    rcases is_rate_limit_pass_cases hrem.bounded t with
      ⟨hfull, hpassed, hitems⟩ | ⟨hzero, hfull, hpassed, hitems⟩
    · have hres : (p.result cls t).passed = false := hpassed
      refine ⟨?_, ?_⟩
      · rw [hres]
        exact iff_of_false Bool.false_ne_true (not_count_lt hrem hnow hfull)
      · rw [hres, if_neg Bool.false_ne_true, List.append_nil]
        exact hitems ▸ hrem
    · have hres : (p.result cls t).passed = true := hpassed
      refine ⟨?_, ?_⟩
      · rw [hres]
        exact iff_of_true rfl (count_lt hrem hnow hzero hfull)
      · rw [hres, if_pos rfl]
        exact hitems ▸ remembers_pass hrem hnow hzero hfull
  refine ⟨hstep.1, ?_, ?_⟩
  · intro k
    show Remembers p._DEFAULT_SEND_RATELIMIT
      (Function.update history.passed cls _ k)
      (Function.update p.classes cls _ k).rate_limit_buffer.items
    by_cases hk : k = cls
    · subst hk
      rw [Function.update_self, Function.update_self]
      exact hstep.2
    · rw [Function.update_of_ne hk, Function.update_of_ne hk]
      exact h.remembers k
  · intro k x hx
    refine ⟨t, rfl, ?_⟩
    replace hx : x ∈ Function.update history.passed cls _ k := hx
    by_cases hk : k = cls
    · subst hk
      rw [Function.update_self] at hx
      rcases List.mem_append.mp hx with hx | hx
      · exact hnow x hx
      · split at hx
        · exact Int.le_of_eq (List.mem_singleton.mp hx)
        · exact absurd hx List.not_mem_nil
    · rw [Function.update_of_ne hk] at hx
      exact h.until hsteady k x hx

/-- In every run of calls on any classes, each generated with a deque of
its own, at seconds that do not decrease and with limits that do not
decrease. -/
theorem rate_limit_counts_seconds (limit : Nat) (name : κ → String)
    (send_ratelimit : κ → Nat) (as : List (Call κ))
    (hsteady : callsHistory.Each (fun s a _ => Steady s a)
      (⟨limit, fun cls => .new (name cls) (send_ratelimit cls)⟩,
        ⟨fun _ => [], none⟩) as) :
    callsHistory.Each CountsSeconds
      (⟨limit, fun cls => .new (name cls) (send_ratelimit cls)⟩,
        ⟨fun _ => [], none⟩) as := by
  refine Machine.each_of (I := Sound) ?_ as ?_ hsteady
  · intro s a s' hs hstep hsteady
    obtain ⟨p, history⟩ := s
    obtain ⟨p', history'⟩ := s'
    obtain ⟨hp, hh⟩ := Machine.watch_step.mp hstep
    obtain rfl : p.after a = p' := Option.some.inj hp
    obtain rfl : history' = history.after p a := hh
    cases a with
    | set_sandesh_send_rate_limit val =>
        have hsound : Sound (p.set_sandesh_send_rate_limit val, history) :=
          sound_set hs hsteady
        refine ⟨hsound, ?_, hsound.remembers⟩
        intro cls t ha
        cases ha
    | is_rate_limit_pass cls t =>
        obtain ⟨hiff, hsound⟩ := sound_pass cls hs hsteady
        refine ⟨hsound, ?_, hsound.remembers⟩
        intro cls' t' ha
        injection ha with hcls ht
        subst hcls ht
        exact hiff
  · refine ⟨fun cls => ?_, fun cls x hx => absurd hx List.not_mem_nil⟩
    show Remembers limit [] (([] : List Int).drop _)
    rw [List.drop_nil]
    exact remembers_nil

/-- Two messages pass in second 5 under the limit 2, a third is dropped;
the limit grows to 3 and one more passes. -/
theorem limit_grows_within_a_second :
    callsHistory.Each CountsSeconds
      (⟨2, fun _ : Unit => .new "SystemLogTest" 0⟩, ⟨fun _ => [], none⟩)
      [.is_rate_limit_pass () 5, .is_rate_limit_pass () 5,
        .is_rate_limit_pass () 5, .set_sandesh_send_rate_limit 3,
        .is_rate_limit_pass () 5, .is_rate_limit_pass () 6] := by
  refine rate_limit_counts_seconds 2 _ _ _ ?_
  refine Machine.each_step rfl ?_ ?_
  · intro now h
    cases h
  refine Machine.each_step rfl ?_ ?_
  · intro now h
    cases h
    decide
  refine Machine.each_step rfl ?_ ?_
  · intro now h
    cases h
    decide
  refine Machine.each_step rfl ?_ ?_
  · exact .inr (by decide)
  refine Machine.each_step rfl ?_ ?_
  · intro now h
    cases h
    decide
  refine Machine.each_step rfl ?_ trivial
  intro now h
  cases h
  decide

end Sandesh.Py.RateLimit
