/-
Machines that take one labelled step after another.

A `Machine` is a partial step function: an action that cannot happen in a
state (nothing is queued, a timer does not run, the process has stopped)
has no successor. A list of actions taken from a state is a run, cut off
where an action cannot happen, so a statement about every list of actions
is a statement about every run.

`Each Q` says that every transition of a run meets `Q`, a relation of the
state before, the action and the state after. Conditions on a step read
the first two, properties of the states reached the last. One rule
carries every proof about runs:

- `each_of`: an invariant that transitions with `Q` keep, and under which
  `Q` gives `R`, turns `Each Q` into `Each R`;
- `each_iff`: the same in both directions;
- `run_of_meets`: the same where every action that `Meets` a condition can
  happen, so that the run does go to its end.

`watch` adds a monitor: a value computed from the actions taken, for
properties such as "from the last stop to the next start".

Events that carry a value are counted by that value (`Selects`). A
machine that collects messages and sends them off with the last of a
queue is empty after it or not (`Drains`).
-/
import Mathlib.Data.List.Count
import Mathlib.Data.Option.Basic
import Mathlib.Logic.Basic

namespace Sandesh.Lib

universe u

/-- A transition function; `none` is a step that cannot be taken. -/
structure Machine (σ α : Type u) where
  step : σ → α → Option σ

namespace Machine

variable {σ α μ : Type u} (M : Machine σ α)

/-- Where a run ends, if all of its actions can happen. -/
def run : σ → List α → Option σ
  | s, [] => some s
  | s, a :: as => (M.step s a).bind fun s' => run s' as

/-- Every transition of the run meets `Q`. -/
def Each (Q : σ → α → σ → Prop) : σ → List α → Prop
  | _, [] => True
  | s, a :: as => ∀ s', M.step s a = some s' → Q s a s' ∧ Each Q s' as

/-- Every action of the run is asked for under `C`, whether or not it can
happen. -/
def Meets (C : σ → α → Prop) : σ → List α → Prop
  | _, [] => True
  | s, a :: as => C s a ∧ ∀ s', M.step s a = some s' → Meets C s' as

/-- The machine with a monitor beside it. -/
def watch (upd : μ → σ → α → μ) : Machine (σ × μ) α where
  step x a := (M.step x.1 a).map fun s' => (s', upd x.2 x.1 a)

variable {M}

/-- A run and one more action. -/
theorem run_concat (as : List α) (a : α) :
    ∀ {s s₂ : σ}, M.run s (as ++ [a]) = some s₂
      ↔ ∃ s₁, M.run s as = some s₁ ∧ M.step s₁ a = some s₂ := by
  induction as with
  | nil =>
      intro s s₂
      show (M.step s a).bind some = some s₂ ↔ _
      rw [Option.bind_fun_some]
      constructor
      · intro h
        exact ⟨s, rfl, h⟩
      · intro h
        obtain ⟨s₁, hs, h⟩ := h
        injection hs with hs
        rwa [hs]
  | cons b as ih =>
      intro s s₂
      show (M.step s b).bind _ = some s₂ ↔ ∃ s₁, (M.step s b).bind _ = some s₁ ∧ _
      cases M.step s b with
      | none =>
          constructor
          · intro h
            cases h
          · intro h
            obtain ⟨s₁, hs, -⟩ := h
            cases hs
      | some s' => exact ih

/-- A transition of the watched machine. -/
theorem watch_step {upd : μ → σ → α → μ} {x y : σ × μ} {a : α} :
    (M.watch upd).step x a = some y
      ↔ M.step x.1 a = some y.1 ∧ y.2 = upd x.2 x.1 a := by
  show (M.step x.1 a).map _ = some y ↔ _
  rw [Option.map_eq_some_iff]
  constructor
  · intro hex
    obtain ⟨s', hstep, rfl⟩ := hex
    exact ⟨hstep, rfl⟩
  · intro hex
    obtain ⟨hstep, hupd⟩ := hex
    exact ⟨y.1, hstep, Prod.ext rfl hupd.symm⟩

variable {Q R : σ → α → σ → Prop} {I : σ → Prop}

/-- From one property of the transitions to another, by an invariant. -/
theorem each_of
    (trans : ∀ {s a s'}, I s → M.step s a = some s' → Q s a s' →
      I s' ∧ R s a s') :
    ∀ {s : σ} (as : List α), I s → M.Each Q s as → M.Each R s as := by
  intro s as
  induction as generalizing s with
  | nil =>
      intro _ _
      trivial
  | cons a as ih =>
      intro hI hQ s' hstep
      obtain ⟨hQ', hrest⟩ := hQ s' hstep
      obtain ⟨hI', hR⟩ := trans hI hstep hQ'
      exact ⟨hR, ih hI' hrest⟩

/-- Two properties that an invariant makes equivalent, transition by
transition. -/
theorem each_iff
    (trans : ∀ {s a s'}, I s → M.step s a = some s' → (Q s a s' ↔ R s a s'))
    (keep : ∀ {s a s'}, I s → M.step s a = some s' → Q s a s' → I s')
    {s : σ} (as : List α) (hI : I s) : M.Each Q s as ↔ M.Each R s as := by
  constructor
  · refine each_of (I := I) ?_ as hI
    intro s a s' h hstep hQ
    exact ⟨keep h hstep hQ, (trans h hstep).mp hQ⟩
  · refine each_of (I := I) ?_ as hI
    intro s a s' h hstep hR
    have hQ := (trans h hstep).mpr hR
    exact ⟨keep h hstep hQ, hQ⟩

/-- A run that is known step by step. -/
theorem each_step {s s' : σ} {a : α} {as : List α} (h : M.step s a = some s')
    (hQ : Q s a s') (hrest : M.Each Q s' as) : M.Each Q s (a :: as) := by
  intro s₁ h₁
  obtain rfl := Option.some.inj (h.symm.trans h₁)
  exact ⟨hQ, hrest⟩

/-- A property of the actions alone. -/
theorem each_action {P : α → Prop} {as : List α} :
    ∀ {s : σ}, (∀ a ∈ as, P a) → M.Each (fun _ a _ => P a) s as := by
  induction as with
  | nil =>
      intro s _
      trivial
  | cons a as ih =>
      intro s h s' _
      exact ⟨h a List.mem_cons_self, ih fun b hb => h b (List.mem_cons_of_mem a hb)⟩

/-- Beside a property of the transitions. -/
theorem each_with {P : α → Prop} {as : List α} :
    ∀ {s : σ}, (∀ a ∈ as, P a) → M.Each Q s as →
      M.Each (fun s a s' => P a ∧ Q s a s') s as := by
  induction as with
  | nil =>
      intro s _ _
      trivial
  | cons a as ih =>
      intro s h hQ s' hstep
      obtain ⟨hQ', hrest⟩ := hQ s' hstep
      exact ⟨⟨h a List.mem_cons_self, hQ'⟩,
        ih (fun b hb => h b (List.mem_cons_of_mem a hb)) hrest⟩

/-- Two properties that an invariant makes equivalent, in runs whose actions
all have a property. -/
theorem each_iff_with {P : α → Prop}
    (trans : ∀ {s a s'}, I s → P a → M.step s a = some s' → (Q s a s' ↔ R s a s'))
    (keep : ∀ {s a s'}, I s → P a → M.step s a = some s' → Q s a s' → I s')
    {s : σ} (as : List α) (hP : ∀ a ∈ as, P a) (hI : I s) :
    M.Each Q s as ↔ M.Each R s as := by
  have hiff : M.Each (fun s a s' => P a ∧ Q s a s') s as
      ↔ M.Each (fun s a s' => P a ∧ R s a s') s as := by
    refine each_iff (I := I) ?_ ?_ as hI
    · intro s a s' h hstep
      exact and_congr_right fun ha => trans h ha hstep
    · intro s a s' h hstep hQ
      exact keep h hQ.1 hstep hQ.2
  have hright : ∀ {Q : σ → α → σ → Prop},
      M.Each (fun s a s' => P a ∧ Q s a s') s as → M.Each Q s as := by
    intro Q h
    exact each_of (I := fun _ => True) (fun _ _ hQ => ⟨trivial, hQ.2⟩) as trivial h
  exact ⟨fun h => hright (hiff.mp (each_with hP h)),
    fun h => hright (hiff.mpr (each_with hP h))⟩

/-- An invariant that every transition keeps. -/
theorem each_keeps
    (keep : ∀ {s a s'}, I s → M.step s a = some s' → I s' ∧ R s a s')
    {s : σ} (as : List α) (hI : I s) : M.Each R s as := by
  refine each_of (Q := fun _ _ _ => True) (I := I) ?_ as hI ?_
  · intro s a s' h hstep _
    exact keep h hstep
  · exact each_action fun _ _ => trivial

/-- Such an invariant holds where a run ends. -/
theorem run_keeps (keep : ∀ {s a s'}, I s → M.step s a = some s' → I s') :
    ∀ (as : List α) {s s₁ : σ}, I s → M.run s as = some s₁ → I s₁ := by
  intro as
  induction as with
  | nil =>
      intro s s₁ hI hrun
      injection hrun with hrun
      exact hrun ▸ hI
  | cons a as ih =>
      intro s s₁ hI hrun
      obtain ⟨s', hstep, hrest⟩ := Option.bind_eq_some_iff.mp hrun
      exact ih (keep hI hstep) hrest

/-- If every action asked for under `C` can happen, the run goes to its
end. -/
theorem run_of_meets {C : σ → α → Prop}
    (can : ∀ {s a}, I s → C s a → ∃ s', M.step s a = some s' ∧ I s' ∧ R s a s') :
    ∀ {s : σ} (as : List α), I s → M.Meets C s as →
      (∃ s', M.run s as = some s' ∧ I s') ∧ M.Each R s as := by
  intro s as
  induction as generalizing s with
  | nil =>
      intro hI _
      exact ⟨⟨s, rfl, hI⟩, trivial⟩
  | cons a as ih =>
      intro hI hC
      obtain ⟨hCa, hrest⟩ := hC
      obtain ⟨s₁, hstep, hI₁, hR⟩ := can hI hCa
      obtain ⟨⟨s₂, hrun, hI₂⟩, heach⟩ := ih hI₁ (hrest s₁ hstep)
      refine ⟨⟨s₂, ?_, hI₂⟩, fun s' hs' => ?_⟩
      · show (M.step s a).bind _ = some s₂
        rw [hstep]
        exact hrun
      · obtain rfl := Option.some.inj (hstep.symm.trans hs')
        exact ⟨hR, heach⟩

/-- Two conditions that agree on every action. -/
theorem meets_iff {C D : σ → α → Prop} (hiff : ∀ {s a}, C s a ↔ D s a) (as : List α) :
    ∀ {s : σ}, M.Meets C s as ↔ M.Meets D s as := by
  induction as with
  | nil =>
      intro s
      exact Iff.rfl
  | cons a as ih =>
      intro s
      exact and_congr hiff (forall_congr' fun s' => imp_congr_right fun _ => ih)

/-- What `Meets` says of the action after a run that got there. -/
theorem meets_last {C : σ → α → Prop} (as : List α) {a : α} :
    ∀ {s s₁ : σ}, M.Meets C s (as ++ [a]) → M.run s as = some s₁ → C s₁ a := by
  induction as with
  | nil =>
      intro s s₁ h hrun
      injection hrun with hrun
      subst hrun
      exact h.1
  | cons b as ih =>
      intro s s₁ h hrun
      obtain ⟨s', hb, hrest⟩ := Option.bind_eq_some_iff.mp hrun
      exact ih (h.2 s' hb) hrest

/-- What `Each` says of the transition after a run that got there. -/
theorem each_last (as : List α) {a : α} :
    ∀ {s s₁ s₂ : σ}, M.Each Q s (as ++ [a]) → M.run s as = some s₁ →
      M.step s₁ a = some s₂ → Q s₁ a s₂ := by
  induction as with
  | nil =>
      intro s s₁ s₂ h hrun hstep
      injection hrun with hrun
      subst hrun
      exact (h s₂ hstep).1
  | cons b as ih =>
      intro s s₁ s₂ h hrun hstep
      obtain ⟨s', hb, hrest⟩ := Option.bind_eq_some_iff.mp hrun
      exact ih (h s' hb).2 hrest hstep

-- ================================================ collected messages

section Drains

variable {ν : Type u} (last : σ → α → Option ν) (empty : σ → Prop)
  (encodes : ν → Prop)

/-- The last message of a queue leaves nothing behind. -/
def Drains (s : σ) (a : α) (s' : σ) : Prop :=
  ∀ m, last s a = some m → empty s'

/-- The last message of a queue can be encoded, or finds nothing
collected. -/
def Flushes (s : σ) (a : α) : Prop :=
  ∀ m, last s a = some m → encodes m ∨ empty s

variable {last empty encodes}

/-- If a message that cannot be encoded leaves everything as it is, a run
drains exactly as far as it flushes. -/
theorem drains_iff_flushes
    (sends : ∀ {s a s' m}, M.step s a = some s' → last s a = some m →
      encodes m → empty s')
    (skips : ∀ {s a s' m}, M.step s a = some s' → last s a = some m →
      ¬ encodes m → (empty s' ↔ empty s))
    (s : σ) (as : List α) :
    M.Each (Drains last empty) s as
      ↔ M.Each (fun s a _ => Flushes last empty encodes s a) s as := by
  refine each_iff (I := fun _ => True) ?_ (fun _ _ _ => trivial) as trivial
  intro s a s' _ hstep
  constructor
  · intro hdrains m hm
    by_cases henc : encodes m
    · exact .inl henc
    · exact .inr ((skips hstep hm henc).mp (hdrains m hm))
  · intro hflushes m hm
    rcases hflushes m hm with henc | hempty
    · exact sends hstep hm henc
    · by_cases henc : encodes m
      · exact sends hstep hm henc
      · exact (skips hstep hm henc).mpr hempty

end Drains

end Machine

-- ================================================== events of one kind

section Selects

variable {α β : Type u} {sel : α → Option β} {mk : β → α}

/-- `sel` reads the value of the events that `mk` makes. -/
def Selects (sel : α → Option β) (mk : β → α) : Prop :=
  ∀ {a b}, sel a = some b ↔ a = mk b

theorem Selects.count [DecidableEq α] [DecidableEq β] (h : Selects sel mk)
    (b : β) (events : List α) :
    events.count (mk b) = (events.filterMap sel).count b := by
  rw [List.count_filterMap, List.count_eq_countP]
  refine List.countP_congr fun a _ => ?_
  simp only [beq_iff_eq]
  exact h.symm

theorem Selects.mem (h : Selects sel mk) {b : β} {events : List α} :
    mk b ∈ events ↔ b ∈ events.filterMap sel := by
  rw [List.mem_filterMap]
  constructor
  · intro hmem
    exact ⟨mk b, hmem, h.mpr rfl⟩
  · intro hex
    obtain ⟨a, hmem, ha⟩ := hex
    exact h.mp ha ▸ hmem

end Selects

end Sandesh.Lib

/-
A timer as an event-driven machine uses it.

`Timers` is the interface and what its users rely on, bundled: a timer
runs once it is started, no longer once it is cancelled or has expired,
and a start of a timer that is not running takes effect. What `Start`
does to a running timer and what `cancelled` answers is left open.
-/

namespace Sandesh.Lib

/-- Timers with the operations that the state machines use. -/
structure Timers where
  Timer : Type
  new : Timer
  /-- with the time in milliseconds -/
  Start : Int → Timer → Timer
  Cancel : Timer → Timer
  /-- the expiry callback has run and not asked for another round -/
  expired : Timer → Timer
  running : Timer → Bool
  cancelled : Timer → Bool
  running_new : running new = false
  running_start : ∀ {time t}, 0 < time → running t = false →
    running (Start time t) = true
  running_cancel : ∀ t, running (Cancel t) = false
  running_expired : ∀ t, running (expired t) = false

namespace Timers

attribute [simp] running_new running_cancel running_expired

/-- The phases of a timer that only remembers what was last done to it. -/
inductive Phase
  | idle
  | running
  | cancelled
deriving DecidableEq

/-- The smallest timers there are. -/
def phases : Timers where
  Timer := Phase
  new := .idle
  Start _ _ := .running
  Cancel _ := .cancelled
  expired _ := .idle
  running t := decide (t = .running)
  cancelled t := decide (t = .cancelled)
  running_new := rfl
  running_start := fun _ _ => rfl
  running_cancel := fun _ => rfl
  running_expired := fun _ => rfl

end Timers

end Sandesh.Lib
