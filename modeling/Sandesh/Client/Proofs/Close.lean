/-
The close requests of a client back off.

Both languages decide as `closeBackoff` does: the interval is doubled up
to a minute when the next close comes within twice the interval, kept
when it comes within four times, and reset afterwards. The intervals this
can reach are four, so that no product leaves an `int` and no time falls
behind the one recorded. `Recorded` ties the two fields of a client to the
last grant; one lemma a method says that a call keeps it, and every run
follows.

With a session present the two methods are the same. A request without one
is where they differ, and `calls_agree` says exactly when that shows: when
C++ would have accepted it.
-/
import Sandesh.Client.Close

namespace Sandesh.Client

open Lib

-- ======================================================== the intervals

/-- The intervals that are used, one behind the other. -/
def closeIntervals : List Nat := [10000, 20000, 40000, 60000]

/-- Intervals are in milliseconds and times in microseconds. -/
def closeBackoff : Backoff where
  unit := 1000
  initial := 10000
  next since i :=
    if since ≤ 2000 * i then min (2 * i) 60000
    else if since ≤ 4000 * i then i
    else 10000

theorem closeIntervals_bounds {i : Nat} (h : i ∈ closeIntervals) :
    10000 ≤ i ∧ i ≤ 60000 := by
  rw [closeIntervals] at h
  simp only [List.mem_cons, List.not_mem_nil, or_false] at h
  omega

theorem closeBackoff_next (since : Nat) {i : Nat} (h : i ∈ closeIntervals) :
    closeBackoff.next since i ∈ closeIntervals := by
  show (if _ then _ else if _ then _ else _) ∈ closeIntervals
  split
  · rw [closeIntervals] at h ⊢
    simp only [List.mem_cons, List.not_mem_nil, or_false] at h
    rcases h with rfl | rfl | rfl | rfl <;> decide
  · split
    · exact h
    · decide

-- ========================================================= the decision

/-- The values that the requests compute fit. -/
structure Arith.Holds (A : Arith) : Prop where
  int : ∀ n, n < 2 ^ 31 → A.int n = .ok n
  uint64 : ∀ n, n < 2 ^ 64 → A.uint64 n = .ok n

theorem Arith.machine_holds : Arith.machine.Holds :=
  ⟨fun _ h => if_pos h, fun _ h => if_pos h⟩

theorem Arith.unbounded_holds : Arith.unbounded.Holds :=
  ⟨fun _ _ => rfl, fun _ _ => rfl⟩

variable {A : Arith}

theorem doClose_first (now i : Nat) : doClose A now 0 i = .ok (true, 10000) := by
  rw [doClose, if_pos (.inr rfl)]
  rfl

/-- After a first close the decision is the back-off's. -/
theorem doClose_ask (hA : A.Holds) {now t i : Nat} (ht : 0 < t) (hnow : t ≤ now)
    (hi : i ∈ closeIntervals) :
    doClose A now t (i * 1000) = .ok ((closeBackoff.ask (some ⟨t, i⟩) now).granted,
      if (closeBackoff.ask (some ⟨t, i⟩) now).granted
        then (closeBackoff.ask (some ⟨t, i⟩) now).interval else 0) := by
  obtain ⟨hlow, hhigh⟩ := closeIntervals_bounds hi
  have htwice := hA.uint64 (2 * (i * 1000)) (by omega)
  have hfour := hA.uint64 (4 * (i * 1000)) (by omega)
  rw [doClose, if_neg (by omega), if_neg (by omega)]
  by_cases hgrant : 1000 * i < now - t
  · have hask : closeBackoff.ask (some ⟨t, i⟩) now
        = ⟨now, true, closeBackoff.next (now - t) i⟩ := if_pos hgrant
    rw [hask, if_neg (by omega), htwice, hfour]
    show (if _ ∧ _ then _ else if _ ∧ _ then _ else _ : Except Trap (Bool × Nat))
      = .ok (true, if _ then _ else if _ then _ else _)
    by_cases hdouble : now - t ≤ 2000 * i
    · rw [if_pos ⟨by omega, by omega⟩, if_pos hdouble, hA.int _ (by
        rw [kMaxSMSessionCloseIntervalMSec]
        omega), show 2 * (i * 1000) / 1000 = 2 * i by omega]
      rfl
    · rw [if_neg (by omega), if_neg hdouble]
      by_cases hkeep : now - t ≤ 4000 * i
      · rw [if_pos ⟨by omega, by omega⟩, hA.int _ (by omega), if_pos hkeep,
          show i * 1000 / 1000 = i by omega]
        rfl
      · rw [if_neg (by omega), if_neg hkeep]
        rfl
  · have hask : closeBackoff.ask (some ⟨t, i⟩) now = ⟨now, false, i⟩ := if_neg hgrant
    rw [hask, if_pos (by omega)]
    rfl

-- ============================================================ one call

/-- The fields of a client after the last close, if there was one. -/
inductive Recorded : SandeshClient → Option Backoff.Grant → Prop
  | new : Recorded .new none
  | last {t i : Nat} (ht : 0 < t) (hi : i ∈ closeIntervals) :
      Recorded ⟨i, t⟩ (some ⟨t, i⟩)

/-- A request at a positive time that is not before the last close. -/
def Timely (last : Option Backoff.Grant) (now : Nat) : Prop :=
  0 < now ∧ ∀ g ∈ last, g.time ≤ now

/-- The decision and the client after it, in both languages. -/
theorem doClose_recorded (hA : A.Holds) {c : SandeshClient}
    {last : Option Backoff.Grant} {now : Nat} (hc : Recorded c last)
    (hnow : Timely last now) :
    ∃ msec, doClose A now c.session_close_time_usec
        (c.session_close_interval_msec * 1000)
        = .ok ((closeBackoff.ask last now).granted, msec)
      ∧ Recorded (if (closeBackoff.ask last now).granted then ⟨msec, now⟩ else c)
          (Backoff.remember last (closeBackoff.ask last now))
      ∧ (if (closeBackoff.ask last now).granted then msec
          else c.session_close_interval_msec) = (closeBackoff.ask last now).interval := by
  cases hc with
  | new => exact ⟨10000, doClose_first now _, .last hnow.1 (by decide), rfl⟩
  | @last t i ht hi =>
      refine ⟨_, doClose_ask hA ht (hnow.2 _ rfl) hi, ?_⟩
      rw [Backoff.remember, Backoff.ask_time]
      by_cases hgrant : 1000 * i < now - t
      · have hask : closeBackoff.ask (some ⟨t, i⟩) now
            = ⟨now, true, closeBackoff.next (now - t) i⟩ := if_pos hgrant
        rw [hask]
        exact ⟨.last hnow.1 (closeBackoff_next _ hi), rfl⟩
      · have hask : closeBackoff.ask (some ⟨t, i⟩) now = ⟨now, false, i⟩ :=
          if_neg hgrant
        rw [hask]
        exact ⟨.last ht hi, rfl⟩

/-- What is remembered is not after the request that is answered. -/
theorem timely_remember {last : Option Backoff.Grant} {now later : Nat}
    (hnow : Timely last now) (hle : now ≤ later) :
    Timely (Backoff.remember last (closeBackoff.ask last now)) later := by
  refine ⟨Nat.lt_of_lt_of_le hnow.1 hle, ?_⟩
  intro g hg
  rw [Backoff.remember] at hg
  split at hg
  · cases hg
    rw [Backoff.ask_time]
    exact hle
  · exact Nat.le_trans (hnow.2 g hg) hle

/-- What the back-off answers to a request. -/
def answerTo (last : Option Backoff.Grant) (r : Request) : Answer :=
  ⟨(closeBackoff.ask last r.now_usec).granted,
    (closeBackoff.ask last r.now_usec).granted && r.session⟩

/-- A method that answers requests of one kind as the back-off does. -/
def Answers (method : Method) (P : Request → Prop) : Prop :=
  ∀ {c : SandeshClient} {last : Option Backoff.Grant} {r : Request},
    Recorded c last → Timely last r.now_usec → P r →
      ∃ c', method c r = .ok (c', answerTo last r)
        ∧ Recorded c' (Backoff.remember last (closeBackoff.ask last r.now_usec))
        ∧ c'.session_close_interval_msec
            = (closeBackoff.ask last r.now_usec).interval

theorem closeSMSession_answers : Answers CloseSMSession fun _ => True := by
  intro c last r hc hnow _
  obtain ⟨msec, hdo, hrec, hmsec⟩ := doClose_recorded Arith.machine_holds hc hnow
  have hint : Arith.machine.int (c.session_close_interval_msec * 1000)
      = .ok (c.session_close_interval_msec * 1000) := by
    refine Arith.machine_holds.int _ ?_
    cases hc with
    | new => decide
    | @last t i ht hi =>
        have hhigh := (closeIntervals_bounds hi).2
        show i * 1000 < 2 ^ 31
        omega
  rw [CloseSMSession, hint]
  show ∃ c', (doClose _ _ _ _ >>= _) = Except.ok (c', _) ∧ _
  rw [hdo, answerTo]
  cases hgrant : (closeBackoff.ask last r.now_usec).granted with
  | true =>
      rw [hgrant] at hrec hmsec
      exact ⟨⟨msec, r.now_usec⟩, rfl, hrec, hmsec⟩
  | false =>
      rw [hgrant] at hrec hmsec
      exact ⟨c, rfl, hrec, hmsec⟩

theorem close_sm_session_answers : Answers close_sm_session fun r => r.session = true := by
  intro c last r hc hnow hsession
  obtain ⟨msec, hdo, hrec, hmsec⟩ := doClose_recorded Arith.unbounded_holds hc hnow
  rw [close_sm_session, hsession, answerTo, hsession]
  show ∃ c', (doClose _ _ _ _ >>= _) = Except.ok (c', _) ∧ _
  rw [hdo]
  cases hgrant : (closeBackoff.ask last r.now_usec).granted with
  | true =>
      rw [hgrant] at hrec hmsec
      exact ⟨⟨msec, r.now_usec⟩, rfl, hrec, hmsec⟩
  | false =>
      rw [hgrant] at hrec hmsec
      exact ⟨c, rfl, hrec, hmsec⟩

-- ================================================================ runs

/-- A run of requests that the method answers. -/
theorem calls_log {method : Method} {P : Request → Prop} (h : Answers method P) :
    ∀ (rs : List Request) {c : SandeshClient} {last : Option Backoff.Grant},
      Recorded c last → (∀ r ∈ rs, Timely last r.now_usec) →
      rs.Pairwise (fun r r' => r.now_usec ≤ r'.now_usec) → (∀ r ∈ rs, P r) →
      ∃ done, calls method c rs = .ok done ∧ done.map Called.request = rs
        ∧ done.map Called.asked = closeBackoff.log last (rs.map Request.now_usec)
  | [], _, _, _, _, _, _ => ⟨[], rfl, rfl, rfl⟩
  | r :: rs, c, last, hc, hnow, hsorted, hP => by
      obtain ⟨hle, hsorted⟩ := List.pairwise_cons.mp hsorted
      have hr := hnow r List.mem_cons_self
      obtain ⟨c', hcall, hc', hinterval⟩ := h hc hr (hP r List.mem_cons_self)
      obtain ⟨done, hdone, hrequests, hasked⟩ := calls_log h rs hc'
        (fun r' hr' => timely_remember hr (hle r' hr')) hsorted
        (fun r' hr' => hP r' (List.mem_cons_of_mem r hr'))
      refine ⟨⟨r, answerTo last r, c'⟩ :: done, ?_, congrArg (r :: ·) hrequests, ?_⟩
      · rw [calls, hcall]
        show (do let done ← calls method c' rs; _) = _
        rw [hdone]
        rfl
      · show (⟨_, _, c'.session_close_interval_msec⟩ : Asked) :: List.map _ done
          = closeBackoff.ask last r.now_usec :: closeBackoff.log _ _
        rw [hasked, hinterval]
        congr 1
        rw [Asked.mk.injEq]
        exact ⟨Backoff.ask_time.symm, rfl, rfl⟩

/-- What a run of close requests has in common with every other. -/
structure BacksOff (done : List Called) : Prop where
  paced : Paced 1000 (· ∈ closeIntervals) (done.map Called.asked)
  /-- two accepted requests are more than ten seconds apart -/
  apart : ∀ before e between e' after,
    done.map Called.asked = before ++ e :: between ++ e' :: after →
    e.granted = true → e'.granted = true → e.time + 10 * 1000 * 1000 < e'.time

/-- The requests that come first in a run. -/
theorem timely_new {rs : List Request} (hpos : ∀ r ∈ rs, 0 < r.now_usec) :
    ∀ r ∈ rs, Timely none r.now_usec := fun r hr => ⟨hpos r hr, nofun⟩

theorem calls_backsOff {method : Method} {P : Request → Prop} (h : Answers method P)
    {rs : List Request} (hpos : ∀ r ∈ rs, 0 < r.now_usec)
    (hsorted : rs.Pairwise fun r r' => r.now_usec ≤ r'.now_usec)
    (hP : ∀ r ∈ rs, P r) :
    ∃ done, calls method .new rs = .ok done ∧ done.map Called.request = rs
      ∧ BacksOff done := by
  obtain ⟨done, hdone, hrequests, hasked⟩ :=
    calls_log h rs .new (timely_new hpos) hsorted hP
  have hpaced : Paced 1000 (· ∈ closeIntervals) (done.map Called.asked) := by
    rw [hasked]
    exact Backoff.log_paced (B := closeBackoff) (by decide)
      (fun since _ hi => closeBackoff_next since hi) _
  refine ⟨done, hdone, hrequests, hpaced, ?_⟩
  intro before e between e' after hlog he he'
  have hlow : ∀ i, i ∈ closeIntervals → 10000 ≤ i :=
    fun i hi => (closeIntervals_bounds hi).1
  have hsorted' : (done.map Called.asked).Pairwise fun e e' => e.time ≤ e'.time := by
    rw [List.pairwise_map]
    rw [← hrequests, List.pairwise_map] at hsorted
    exact hsorted
  have hapart := hpaced.apart hlow hsorted' hlog he he'
  omega

/-- **Close requests back off.** At positive times that never go back, no
C++ call and no Python call that finds a session fails its assert or
overflows; each is accepted exactly when it is the first or strictly more
than the recorded interval has passed since the last accepted one; and the
interval is one of four. -/
theorem close_backs_off {rs : List Request} (hpos : ∀ r ∈ rs, 0 < r.now_usec)
    (hsorted : rs.Pairwise fun r r' => r.now_usec ≤ r'.now_usec) :
    (∃ done, calls CloseSMSession .new rs = .ok done
        ∧ done.map Called.request = rs ∧ BacksOff done)
      ∧ ((∀ r ∈ rs, r.session = true) →
          ∃ done, calls close_sm_session .new rs = .ok done
            ∧ done.map Called.request = rs ∧ BacksOff done) :=
  ⟨calls_backsOff closeSMSession_answers hpos hsorted fun _ _ => trivial,
    calls_backsOff close_sm_session_answers hpos hsorted⟩

/-- A close, a request that comes too early and a second close. -/
def threeRequests : List Request :=
  [⟨5000000, true⟩, ⟨15000000, true⟩, ⟨15000001, true⟩]

theorem close_backs_off_three :
    (∀ r ∈ threeRequests, 0 < r.now_usec)
      ∧ threeRequests.Pairwise (fun r r' => r.now_usec ≤ r'.now_usec)
      ∧ (∀ r ∈ threeRequests, r.session = true)
      ∧ (∃ done, calls CloseSMSession .new threeRequests = .ok done
          ∧ done.map (·.answer.result) = [true, false, true]
          ∧ done.map (·.client.session_close_interval_msec) = [10000, 10000, 20000])
      ∧ ∃ done, calls close_sm_session .new threeRequests = .ok done
          ∧ done.map Called.request = threeRequests ∧ BacksOff done := by
  have hpos : ∀ r ∈ threeRequests, 0 < r.now_usec := by decide
  have hsorted : threeRequests.Pairwise fun r r' => r.now_usec ≤ r'.now_usec := by
    decide
  have hsession : ∀ r ∈ threeRequests, r.session = true := by decide
  exact ⟨hpos, hsorted, hsession, ⟨_, rfl, rfl, rfl⟩,
    (close_backs_off hpos hsorted).2 hsession⟩

-- ============================================ a request without a session

/-- The client would not accept a request at this time. -/
def Ignores (c : SandeshClient) (now : Nat) : Prop :=
  c.session_close_time_usec ≠ 0
    ∧ now - c.session_close_time_usec ≤ 1000 * c.session_close_interval_msec

/-- Every request for which there is no session comes at a time when the
C++ client would not accept it. -/
def HeldOff : SandeshClient → List Request → Prop
  | _, [] => True
  | c, r :: rs => (r.session = false → Ignores c r.now_usec)
      ∧ ∀ c' answer, CloseSMSession c r = .ok (c', answer) → HeldOff c' rs

/-- What a caller sees of a call: its result and the recorded time and
interval. -/
def Called.seen (d : Called) : Bool × SandeshClient := (d.answer.result, d.client)

/-- Both languages return the same and record the same at every step. -/
def Agree (c : SandeshClient) (rs : List Request) : Prop :=
  ∃ cpp py, calls CloseSMSession c rs = .ok cpp ∧ calls close_sm_session c rs = .ok py
    ∧ cpp.map Called.seen = py.map Called.seen

theorem ignores_iff {c : SandeshClient} {last : Option Backoff.Grant} {now : Nat}
    (hc : Recorded c last) :
    Ignores c now ↔ (closeBackoff.ask last now).granted = false := by
  cases hc with
  | new =>
      constructor
      · intro h
        exact absurd rfl h.1
      · intro h
        cases h
  | @last t i ht hi =>
      show t ≠ 0 ∧ now - t ≤ 1000 * i
        ↔ (if 1000 * i < now - t then _ else _ : Asked).granted = false
      split
      case isTrue hlt =>
        constructor
        · intro h
          omega
        · intro h
          cases h
      case isFalse hlt => exact ⟨fun _ => rfl, fun _ => ⟨by omega, by omega⟩⟩

/-- A close is recorded with a time of its own. -/
theorem recorded_moves {c c' : SandeshClient} {last : Option Backoff.Grant} {now : Nat}
    (hc : Recorded c last) (hnow : Timely last now)
    (hgrant : (closeBackoff.ask last now).granted = true)
    (hc' : Recorded c' (Backoff.remember last (closeBackoff.ask last now))) :
    c' ≠ c := by
  rw [Backoff.remember, if_pos hgrant, Backoff.ask_time] at hc'
  generalize (closeBackoff.ask last now).interval = i' at hc'
  cases hc' with
  | last ht' hi' =>
      intro heq
      cases hc with
      | new =>
          injection heq with _ htime
          omega
      | @last t i ht hi =>
          injection heq with _ htime
          subst htime
          rw [Backoff.ask, Nat.sub_self, if_neg (Nat.not_lt_zero _)] at hgrant
          cases hgrant

/-- What is remembered says what is recorded. -/
theorem recorded_unique {c c' : SandeshClient} {last : Option Backoff.Grant}
    (hc : Recorded c last) (hc' : Recorded c' last) : c = c' := by
  cases hc <;> cases hc' <;> rfl

theorem calls_cons {method : Method} {c c' : SandeshClient} {r : Request}
    {answer : Answer} (rs : List Request) (h : method c r = .ok (c', answer)) :
    calls method c (r :: rs)
      = (calls method c' rs).map (⟨r, answer, c'⟩ :: ·) := by
  rw [calls, h]
  show (do let done ← calls method c' rs; _) = _
  cases calls method c' rs <;> rfl

theorem agree_cons {c c' : SandeshClient} {r : Request} {answer : Answer}
    {rs : List Request} (hcpp : CloseSMSession c r = .ok (c', answer)) :
    Agree c (r :: rs) ↔ (∃ answer', close_sm_session c r = .ok (c', answer')
      ∧ answer.result = answer'.result) ∧ Agree c' rs := by
  constructor
  · intro h
    obtain ⟨cpp, py, hcpp', hpy, hseen⟩ := h
    rw [calls_cons rs hcpp] at hcpp'
    cases hrest : calls CloseSMSession c' rs with
    | error e =>
        rw [hrest] at hcpp'
        cases hcpp'
    | ok done =>
        rw [hrest] at hcpp'
        cases hcpp'
        cases hstep : close_sm_session c r with
        | error e =>
            rw [calls, hstep] at hpy
            cases hpy
        | ok x =>
            obtain ⟨c₂, answer'⟩ := x
            rw [calls_cons rs hstep] at hpy
            cases hrest' : calls close_sm_session c₂ rs with
            | error e =>
                rw [hrest'] at hpy
                cases hpy
            | ok done' =>
                rw [hrest'] at hpy
                cases hpy
                obtain ⟨hhead, htail⟩ := List.cons.inj hseen
                injection hhead with hresult hclient
                subst hclient
                exact ⟨⟨answer', rfl, hresult⟩, done, done', hrest, hrest', htail⟩
  · intro h
    obtain ⟨⟨answer', hpy, hresult⟩, cpp, py, hcpp', hpy', hseen⟩ := h
    refine ⟨⟨r, answer, c'⟩ :: cpp, ⟨r, answer', c'⟩ :: py, ?_, ?_, ?_⟩
    · rw [calls_cons rs hcpp, hcpp']
      rfl
    · rw [calls_cons rs hpy, hpy']
      rfl
    · show (answer.result, c') :: _ = (answer'.result, c') :: _
      rw [hresult, hseen]

/-- One request: the languages agree on it when there is a session, or when
it is ignored. -/
theorem call_agrees_iff {c c' : SandeshClient} {last : Option Backoff.Grant}
    {r : Request} (hc : Recorded c last) (hnow : Timely last r.now_usec)
    (hc' : Recorded c' (Backoff.remember last (closeBackoff.ask last r.now_usec))) :
    (∃ answer', close_sm_session c r = .ok (c', answer')
        ∧ (answerTo last r).result = answer'.result)
      ↔ (r.session = false → Ignores c r.now_usec) := by
  cases hsession : r.session with
  | true =>
      constructor
      · intro _ h
        cases h
      · intro _
        obtain ⟨c₂, hpy, hc₂, -⟩ := close_sm_session_answers hc hnow hsession
        rw [recorded_unique hc₂ hc'] at hpy
        exact ⟨answerTo last r, hpy, rfl⟩
  | false =>
      have hpy : close_sm_session c r = .ok (c, ⟨false, false⟩) := by
        rw [close_sm_session, hsession]
        rfl
      rw [ignores_iff hc, hpy]
      constructor
      · intro h _
        obtain ⟨answer', heq, -⟩ := h
        injection heq with heq
        injection heq with hclient
        by_contra hgrant
        rw [Bool.not_eq_false] at hgrant
        exact recorded_moves hc hnow hgrant hc' hclient.symm
      · intro h
        have hgrant := h rfl
        rw [Backoff.remember, hgrant, if_neg Bool.false_ne_true] at hc'
        rw [recorded_unique hc' hc, answerTo, hgrant]
        exact ⟨⟨false, false⟩, rfl, rfl⟩

theorem agree_iff :
    ∀ (rs : List Request) {c : SandeshClient} {last : Option Backoff.Grant},
      Recorded c last → (∀ r ∈ rs, Timely last r.now_usec) →
      rs.Pairwise (fun r r' => r.now_usec ≤ r'.now_usec) →
      (Agree c rs ↔ HeldOff c rs)
  | [], _, _, _, _, _ => ⟨fun _ => trivial, fun _ => ⟨[], [], rfl, rfl, rfl⟩⟩
  | r :: rs, c, last, hc, hnow, hsorted => by
      obtain ⟨hle, hsorted⟩ := List.pairwise_cons.mp hsorted
      have hr := hnow r List.mem_cons_self
      obtain ⟨c', hcpp, hc', -⟩ := closeSMSession_answers hc hr trivial
      have hrest := agree_iff rs hc' (fun r' hr' => timely_remember hr (hle r' hr')) hsorted
      rw [agree_cons hcpp, call_agrees_iff hc hr hc', hrest]
      refine and_congr_right fun _ => ⟨?_, fun h => h _ _ hcpp⟩
      intro h c₂ answer hcpp'
      rw [hcpp] at hcpp'
      cases hcpp'
      exact h

/-- **The languages agree exactly on the runs held off.** They return and
record the same at every step if and only if no request without a session
comes at a time when C++ would accept it. -/
theorem close_agree_iff {rs : List Request} (hpos : ∀ r ∈ rs, 0 < r.now_usec)
    (hsorted : rs.Pairwise fun r r' => r.now_usec ≤ r'.now_usec) :
    Agree .new rs ↔ HeldOff .new rs :=
  agree_iff rs .new (timely_new hpos) hsorted

/-- A request without a session soon after a close. -/
def heldRequests : List Request := [⟨5000000, true⟩, ⟨6000000, false⟩]

theorem close_agree_held :
    (∀ r ∈ heldRequests, 0 < r.now_usec)
      ∧ heldRequests.Pairwise (fun r r' => r.now_usec ≤ r'.now_usec)
      ∧ Agree .new heldRequests := by
  have hpos : ∀ r ∈ heldRequests, 0 < r.now_usec := by decide
  have hsorted : heldRequests.Pairwise fun r r' => r.now_usec ≤ r'.now_usec := by decide
  have hignored : Ignores ⟨10000, 5000000⟩ 6000000 := ⟨by decide, by decide⟩
  refine ⟨hpos, hsorted, (close_agree_iff hpos hsorted).mpr ⟨nofun, ?_⟩⟩
  intro c' answer h
  have hfirst : CloseSMSession .new ⟨5000000, true⟩
      = .ok (⟨10000, 5000000⟩, ⟨true, true⟩) := by decide
  rw [hfirst] at h
  injection h with h
  injection h with hclient
  refine ⟨fun _ => hclient ▸ hignored, ?_⟩
  intro _ _ _
  trivial

/-- A request without a session before any close. -/
def lostRequests : List Request := [⟨5000000, false⟩, ⟨6000000, true⟩]

/-- It delays the close that is asked for one second later, in C++ only. -/
theorem close_disagree :
    (calls CloseSMSession .new lostRequests).map (·.map (·.answer.result))
        = .ok [false, false]
      ∧ (calls close_sm_session .new lostRequests).map (·.map (·.answer.result))
        = .ok [false, true] := by
  decide

end Sandesh.Client
