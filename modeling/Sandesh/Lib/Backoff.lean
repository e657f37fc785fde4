/-
Requests that are granted at growing distances.

A `Backoff` answers requests one by one. The first is granted. Afterwards
a request is granted when strictly more than the recorded interval has
passed since the last grant, and a grant records the interval that `next`
makes of the time that has passed and the old interval. A request that is
not granted changes nothing.

`log` lists what was asked and answered. `Paced` says of such a list, with
no word about how it came to be, that it was answered in this way and that
all intervals lie in a given set; `log_paced` says that the list of every
sequence of requests is paced in each set that `next` stays in. A lower
bound of that set keeps any two grants apart.
-/
import Mathlib.Data.List.Induction
import Mathlib.Data.List.Pairwise

namespace Sandesh.Lib

/-- A request: its time, whether it was granted, and the interval that is
recorded after it. -/
structure Asked where
  time : Nat
  granted : Bool
  interval : Nat
deriving DecidableEq

/-- The last request of the list that was granted. -/
def lastGrant (log : List Asked) : Option Asked := (log.filter (·.granted)).getLast?

/-- Intervals are counted in `unit`s of time. -/
structure Paced (unit : Nat) (allowed : Nat → Prop) (log : List Asked) : Prop where
  allowed : ∀ e ∈ log, allowed e.interval
  granted : ∀ before e after, log = before ++ e :: after →
    (e.granted = true ↔ before = [] ∨ ∃ p g, before.getLast? = some p
      ∧ lastGrant before = some g ∧ unit * p.interval < e.time - g.time)
  kept : ∀ before p e after, log = before ++ p :: e :: after →
    e.granted = false → e.interval = p.interval

/-- The intervals of a back-off, and what one unit of them is in time. -/
structure Backoff where
  unit : Nat
  initial : Nat
  /-- from the time passed since the last grant and its interval -/
  next : Nat → Nat → Nat

namespace Backoff

/-- The last grant, if there was one. -/
structure Grant where
  time : Nat
  interval : Nat
deriving DecidableEq

variable (B : Backoff)

/-- What is answered to a request, by the last one that was granted. -/
def ask : Option Grant → Nat → Asked
  | none, now => ⟨now, true, B.initial⟩
  | some g, now =>
      if B.unit * g.interval < now - g.time then
        ⟨now, true, B.next (now - g.time) g.interval⟩
      else ⟨now, false, g.interval⟩

/-- What is remembered after an answer. -/
def remember (last : Option Grant) (e : Asked) : Option Grant :=
  if e.granted then some ⟨e.time, e.interval⟩ else last

/-- The last grant behind a list of requests. -/
def after : Option Grant → List Nat → Option Grant
  | last, [] => last
  | last, now :: times => after (remember last (B.ask last now)) times

/-- The answers to a list of requests. -/
def log : Option Grant → List Nat → List Asked
  | _, [] => []
  | last, now :: times =>
      B.ask last now :: log (remember last (B.ask last now)) times

variable {B}

@[simp] theorem ask_time {last : Option Grant} {now : Nat} :
    (B.ask last now).time = now := by
  cases last with
  | none => rfl
  | some g =>
      show (if _ then _ else _ : Asked).time = now
      split <;> rfl

/-- A request that is not granted leaves the interval as it is. -/
theorem ask_kept {g : Grant} {now : Nat} (h : (B.ask (some g) now).granted = false) :
    (B.ask (some g) now).interval = g.interval := by
  rw [ask] at h ⊢
  split at h
  case isTrue => cases h
  case isFalse hlt => rw [if_neg hlt]

theorem log_append (ys : List Nat) :
    ∀ (xs : List Nat) (last : Option Grant),
      B.log last (xs ++ ys) = B.log last xs ++ B.log (B.after last xs) ys
  | [], _ => rfl
  | now :: xs, last => by
      show _ :: B.log _ (xs ++ ys) = _ :: (B.log _ xs ++ _)
      rw [log_append ys xs]
      rfl

theorem after_append (ys : List Nat) :
    ∀ (xs : List Nat) (last : Option Grant),
      B.after last (xs ++ ys) = B.after (B.after last xs) ys
  | [], _ => rfl
  | _ :: xs, _ => after_append ys xs _

theorem times_log :
    ∀ (times : List Nat) (last : Option Grant),
      (B.log last times).map Asked.time = times
  | [], _ => rfl
  | now :: times, last => by
      show (B.ask last now).time :: List.map _ (B.log _ times) = _
      rw [times_log times, ask_time]

/-- The requests before one of the list and that request itself. -/
theorem log_split {times : List Nat} {last : Option Grant} {before after : List Asked}
    {e : Asked} (h : B.log last times = before ++ e :: after) :
    ∃ xs now, before = B.log last xs ∧ e = B.ask (B.after last xs) now := by
  have htimes : times = before.map Asked.time ++ e.time :: after.map Asked.time := by
    rw [← times_log (B := B) times last, h, List.map_append]
    rfl
  refine ⟨before.map Asked.time, e.time, ?_⟩
  rw [htimes, log_append] at h
  have hlen : (B.log last (before.map Asked.time)).length = before.length := by
    have hmap := congrArg List.length
      (times_log (B := B) (before.map Asked.time) last)
    rwa [List.length_map, List.length_map] at hmap
  obtain ⟨hbefore, hrest⟩ := List.append_inj h hlen
  obtain ⟨he, -⟩ := List.cons.inj hrest
  exact ⟨hbefore.symm, he.symm⟩

/-- What is remembered after some requests is the time of the last grant
among them and the interval of the last of them. -/
theorem after_log (xs : List Nat) :
    (xs = [] ∧ B.after none xs = none)
      ∨ ∃ p g, (B.log none xs).getLast? = some p
          ∧ lastGrant (B.log none xs) = some g
          ∧ B.after none xs = some ⟨g.time, p.interval⟩ := by
  induction xs using List.reverseRecOn with
  | nil => exact .inl ⟨rfl, rfl⟩
  | append_singleton xs now ih =>
      refine .inr ⟨B.ask (B.after none xs) now, ?_⟩
      have hlog : B.log none (xs ++ [now])
          = B.log none xs ++ [B.ask (B.after none xs) now] := log_append [now] xs none
      have hafter : B.after none (xs ++ [now])
          = remember (B.after none xs) (B.ask (B.after none xs) now) :=
        after_append [now] xs none
      rw [hlog, hafter, lastGrant, List.filter_append, List.getLast?_append]
      generalize hlast : B.after none xs = last at ih
      cases hgranted : (B.ask last now).granted with
      | true =>
          refine ⟨B.ask last now, rfl, ?_, ?_⟩
          · rw [List.filter_cons_of_pos hgranted, List.filter_nil, List.getLast?_append]
            rfl
          · rw [remember, if_pos hgranted]
      | false =>
          rcases ih with ⟨-, hnone⟩ | ⟨p, g, hp, hg, hsome⟩
          · rw [hnone] at hgranted
            cases hgranted
          · refine ⟨g, rfl, ?_, ?_⟩
            · rw [List.filter_cons_of_neg (by rw [hgranted]; exact Bool.false_ne_true),
                List.filter_nil, List.append_nil]
              exact hg
            · rw [remember, if_neg (by rw [hgranted]; exact Bool.false_ne_true)]
              rw [hsome] at hgranted ⊢
              rw [ask_kept hgranted]

/-- An interval that `next` has made is allowed, if it stays in the set. -/
theorem log_allowed {allowed : Nat → Prop} (hinit : allowed B.initial)
    (hnext : ∀ since i, allowed i → allowed (B.next since i)) :
    ∀ (times : List Nat) (last : Option Grant), (∀ g ∈ last, allowed g.interval) →
      ∀ e ∈ B.log last times, allowed e.interval
  | [], _, _, _, he => nomatch he
  | now :: times, last, hlast, e, he => by
      have hask : allowed (B.ask last now).interval := by
        cases last with
        | none => exact hinit
        | some g =>
            have hg : allowed g.interval := hlast g rfl
            show allowed (if _ then _ else _ : Asked).interval
            split
            · exact hnext _ _ hg
            · exact hg
      rcases List.mem_cons.mp he with rfl | he
      · exact hask
      · refine log_allowed hinit hnext times _ ?_ e he
        intro g hg
        rw [remember] at hg
        split at hg
        · cases hg
          exact hask
        · exact hlast g hg

/-- Every sequence of requests is paced. -/
theorem log_paced {allowed : Nat → Prop} (hinit : allowed B.initial)
    (hnext : ∀ since i, allowed i → allowed (B.next since i)) (times : List Nat) :
    Paced B.unit allowed (B.log none times) where
  allowed := log_allowed hinit hnext times none nofun
  granted before e after h := by
    obtain ⟨xs, now, rfl, rfl⟩ := log_split h
    rcases after_log (B := B) xs with ⟨rfl, hnone⟩ | ⟨p, g, hp, hg, hsome⟩
    · rw [hnone]
      exact ⟨fun _ => .inl rfl, fun _ => rfl⟩
    · rw [hsome, hp, hg, ask_time, ask]
      have hne : B.log none xs ≠ [] := by
        intro hnil
        rw [hnil] at hp
        cases hp
      constructor
      · intro hgranted
        refine .inr ⟨p, g, rfl, rfl, ?_⟩
        by_contra hlt
        rw [if_neg hlt] at hgranted
        cases hgranted
      · intro h
        rcases h with hnil | ⟨p', g', hp', hg', hlt⟩
        · exact absurd hnil hne
        · cases hp'
          cases hg'
          rw [if_pos hlt]
  kept before p e after h hgranted := by
    rw [← List.singleton_append, ← List.append_assoc] at h
    obtain ⟨xs, now, hxs, rfl⟩ := log_split h
    rcases after_log (B := B) xs with ⟨rfl, hnone⟩ | ⟨p', g, hp, hg, hsome⟩
    · exact absurd (congrArg List.length hxs) (by simp [log])
    · rw [← hxs, List.getLast?_append] at hp
      cases hp
      rw [hsome] at hgranted ⊢
      exact ask_kept hgranted

end Backoff

namespace Paced

variable {unit low : Nat} {allowed : Nat → Prop} {log : List Asked}

theorem mem_of_lastGrant {log : List Asked} {g : Asked} (h : lastGrant log = some g) :
    g ∈ log := (List.mem_filter.mp (List.mem_of_getLast? h)).1

/-- Any two grants of requests in the order of their times are further
apart than the least interval. -/
theorem apart (hpaced : Paced unit allowed log) (hlow : ∀ i, allowed i → low ≤ i)
    (hsorted : log.Pairwise fun e e' => e.time ≤ e'.time)
    {before between after : List Asked} {e e' : Asked}
    (hlog : log = before ++ e :: between ++ e' :: after)
    (he : e.granted = true) (he' : e'.granted = true) :
    e.time + unit * low < e'.time := by
  have hgrant := (hpaced.granted _ e' after hlog).mp he'
  rcases hgrant with hnil | ⟨p, g, hp, hg, hlt⟩
  · exact absurd hnil (by simp)
  have hp_mem : p ∈ log := by
    rw [hlog]
    exact List.mem_append_left _ (List.mem_of_getLast? hp)
  have hfloor : unit * low ≤ unit * p.interval :=
    Nat.mul_le_mul_left unit (hlow _ (hpaced.allowed p hp_mem))
  -- the last grant before `e'` is `e` itself or one between the two
  have hg_late : e.time ≤ g.time := by
    have hmem : g ∈ e :: between := by
      rw [lastGrant, List.filter_append, List.filter_cons_of_pos he,
        List.getLast?_append, List.getLast?_cons] at hg
      injection hg with hg
      rw [← hg]
      cases hlast : (between.filter (·.granted)).getLast? with
      | none => exact List.mem_cons_self
      | some x => exact List.mem_cons_of_mem e (mem_of_lastGrant hlast)
    rcases List.mem_cons.mp hmem with rfl | hbetween
    · exact Nat.le_refl _
    · rw [hlog, List.append_assoc, List.pairwise_append] at hsorted
      have htail := (List.pairwise_append.mp hsorted.2.1).1
      exact (List.pairwise_cons.mp htail).1 g hbetween
  omega

end Paced

end Sandesh.Lib
