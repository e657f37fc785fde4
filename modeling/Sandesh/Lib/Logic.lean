/-
Two judgements on programs that may not return.

`Total P m Q`: from a state with `P` the program stops, and if it returns
a value it does so with `Q`; an error exit promises nothing. The rules
follow the constructors, with a measure for a loop.

`Within p q m m'`: a run of `m` whose error exit, if it takes one, is
among `p`, is a run of `m'` too, and that exit is among `q`. With this a
program is compared with a copy of itself over other primitives, in both
directions by the same rules.
-/
import Sandesh.Lib.Fix

namespace Sandesh.Lib

universe u

namespace Prog

variable {σ ε α β τ : Type u}

-- =============================================================== Total

/-- From `P` the program ends, and with `Q` if it returns a value. -/
def Total (P : σ → Prop) (m : Prog σ ε α) (Q : α → σ → Prop) : Prop :=
  ∀ s, P s → ∃ res s', m.Runs s res s' ∧ ∀ a, res = .ok a → Q a s'

section Total

variable {P P' : σ → Prop} {Q Q' : α → σ → Prop} {m : Prog σ ε α}

/-- Less is promised, or more asked. -/
theorem total_conseq (hm : Total P m Q) (hpre : ∀ s, P' s → P s)
    (hpost : ∀ a s, Q a s → Q' a s) : Total P' m Q' := by
  intro s hs
  obtain ⟨res, s', hruns, hQ⟩ := hm s (hpre s hs)
  exact ⟨res, s', hruns, fun a ha => hpost a s' (hQ a ha)⟩

/-- The rule for `pure`. -/
theorem total_pure {a : α} (h : ∀ s, P s → Q a s) :
    Total P (Pure.pure a : Prog σ ε α) Q := by
  intro s hs
  refine ⟨.ok a, s, runs_pure.mpr ⟨rfl, rfl⟩, ?_⟩
  intro b hb
  injection hb with hb
  exact hb ▸ h s hs

/-- A program that throws ends, and no result is promised. -/
theorem total_throw {e : ε} : Total P (throw e : Prog σ ε α) Q := by
  intro s _
  refine ⟨.error e, s, runs_throw.mpr ⟨rfl, rfl⟩, ?_⟩
  intro b hb
  cases hb

/-- The rule for one program after the other. -/
theorem total_bind {f : α → Prog σ ε β} {S : β → σ → Prop}
    (hm : Total P m Q) (hf : ∀ a, Total (Q a) (f a) S) :
    Total P (m >>= f) S := by
  intro s hs
  obtain ⟨res, s₁, hruns, hQ⟩ := hm s hs
  cases res with
  | ok a =>
      obtain ⟨res', s', hruns', hS⟩ := hf a s₁ (hQ a rfl)
      exact ⟨res', s', hruns.bind_ok hruns', hS⟩
  | error e =>
      refine ⟨.error e, s₁, hruns.bind_error, ?_⟩
      intro b hb
      cases hb

/-- The rule for a branch. -/
theorem total_ite {c : Prop} [Decidable c] {m₁ m₂ : Prog σ ε α}
    (h₁ : c → Total P m₁ Q) (h₂ : ¬ c → Total P m₂ Q) :
    Total P (if c then m₁ else m₂) Q := by
  by_cases h : c
  · rw [if_pos h]
    exact h₁ h
  · rw [if_neg h]
    exact h₂ h

/-- A loop whose every further turn makes the measure smaller. -/
theorem total_loop {body : τ → Prog σ ε (τ ⊕ α)} {I : τ → σ → Prop}
    (μ : σ → Nat)
    (turn : ∀ t n, Total (fun s => I t s ∧ μ s = n) (body t) fun x s' =>
      Sum.elim (fun t₁ => I t₁ s' ∧ μ s' < n) (fun a => Q a s') x)
    (t : τ) : Total (I t) (loop body t) Q := by
  intro s hs
  induction hn : μ s using Nat.strongRecOn generalizing t s with
  | ind n ih =>
      obtain ⟨res, s₁, hb, hnext⟩ := turn t n s ⟨hs, hn⟩
      match res with
      | .ok (.inl t₁) =>
          obtain ⟨hI, hlt⟩ := hnext _ rfl
          obtain ⟨res, s₂, hl, hQ⟩ := ih (μ s₁) hlt t₁ s₁ hI rfl
          exact ⟨res, s₂, hb.again hl, hQ⟩
      | .ok (.inr a) =>
          refine ⟨.ok a, s₁, hb.leave, ?_⟩
          intro b hb
          injection hb with hb
          exact hb ▸ hnext _ rfl
      | .error e =>
          refine ⟨.error e, s₁, hb.stop, ?_⟩
          intro b hb
          cases hb

/-- A recursive program ends if its body does. -/
theorem total_fix {F : (τ → Prog σ ε α) → τ → Prog σ ε α} {hF : Monotone F}
    {t : τ} (h : Total P (F (fix F hF) t) Q) : Total P (fix F hF t) Q := by
  intro s hs
  obtain ⟨res, s', hruns, hQ⟩ := h s hs
  exact ⟨res, s', runs_fix.mpr hruns, hQ⟩

end Total

-- ============================================================== Within

/-- An error exit, if it is one, is among `p`. -/
def Exits (p : ε → Prop) (res : Except ε α) : Prop :=
  ∀ e, res = .error e → p e

/-- A result is an exit of every kind. -/
theorem exits_ok {p : ε → Prop} {a : α} : Exits p (.ok a : Except ε α) := by
  intro e h
  cases h

/-- An exception is an exit of its own kind. -/
theorem exits_error {p : ε → Prop} {e : ε} :
    Exits p (.error e : Except ε α) ↔ p e := by
  constructor
  · exact fun h => h e rfl
  · intro h e' he
    injection he with he
    exact he ▸ h

/-- Where the one program returns, or ends with an error in `p`, the other
does the same, and the error is in `q`. -/
def Within (p q : ε → Prop) (m m' : Prog σ ε α) : Prop :=
  ∀ ⦃s res s'⦄, m.Runs s res s' → Exits p res →
    m'.Runs s res s' ∧ Exits q res

section Within

variable {p q : ε → Prop}

/-- The rule for `pure`. -/
theorem within_pure {a : α} :
    Within p q (Pure.pure a : Prog σ ε α) (Pure.pure a) := by
  intro s res s' hruns _
  refine ⟨hruns, ?_⟩
  rw [(runs_pure.mp hruns).1]
  exact exits_ok

/-- The rule for an exception. -/
theorem within_throw {e : ε} (h : q e) :
    Within p q (throw e : Prog σ ε α) (throw e) := by
  intro s res s' hruns _
  refine ⟨hruns, ?_⟩
  rw [(runs_throw.mp hruns).1]
  exact exits_error.mpr h

/-- The rule for one program after the other. -/
theorem within_bind {m m' : Prog σ ε α} {f f' : α → Prog σ ε β}
    (hm : Within p q m m') (hf : ∀ a, Within p q (f a) (f' a)) :
    Within p q (m >>= f) (m' >>= f') := by
  intro s res s' hruns hexit
  rcases runs_bind.mp hruns with ⟨a, s₁, h₁, h₂⟩ | ⟨e, h₁, rfl⟩
  · obtain ⟨hok, -⟩ := hm h₁ exits_ok
    obtain ⟨hnext, hexit'⟩ := hf a h₂ hexit
    exact ⟨hok.bind_ok hnext, hexit'⟩
  · obtain ⟨hstop, hexit'⟩ := hm h₁ (exits_error.mpr (exits_error.mp hexit))
    exact ⟨hstop.bind_error, exits_error.mpr (exits_error.mp hexit')⟩

/-- The rule for a branch. -/
theorem within_ite {c : Prop} [Decidable c] {m₁ m₂ m₁' m₂' : Prog σ ε α}
    (h₁ : Within p q m₁ m₁') (h₂ : Within p q m₂ m₂') :
    Within p q (if c then m₁ else m₂) (if c then m₁' else m₂') := by
  by_cases h : c
  · rw [if_pos h, if_pos h]
    exact h₁
  · rw [if_neg h, if_neg h]
    exact h₂

/-- The rule for a loop. -/
theorem within_loop {body body' : τ → Prog σ ε (τ ⊕ α)}
    (hb : ∀ t, Within p q (body t) (body' t)) (t : τ) :
    Within p q (loop body t) (loop body' t) := by
  intro s res s' hruns
  refine loop_rec (P := fun t s res s' => Exits p res →
    (loop body' t).Runs s res s' ∧ Exits q res) ?_ ?_ ?_ hruns
  · intro t s a s' h _
    exact ⟨(hb t h exits_ok).1.leave, exits_ok⟩
  · intro t s e s' h hexit
    obtain ⟨hstop, hexit'⟩ := hb t h (exits_error.mpr (exits_error.mp hexit))
    exact ⟨hstop.stop, exits_error.mpr (exits_error.mp hexit')⟩
  · intro t s t₁ s₁ res s' h hnext hexit
    obtain ⟨hl, hexit'⟩ := hnext hexit
    exact ⟨(hb t h exits_ok).1.again hl, hexit'⟩

/-- The rule for a recursion, by induction on its run. -/
theorem within_fix {F F' : (τ → Prog σ ε α) → τ → Prog σ ε α}
    {hF : Monotone F} {hF' : Monotone F'}
    (step : ∀ {g g' : τ → Prog σ ε α}, (∀ t, Within p q (g t) (g' t)) →
      ∀ t, Within p q (F g t) (F' g' t)) (t : τ) :
    Within p q (fix F hF t) (fix F' hF' t) := by
  intro s res s' hruns
  refine fix_rec (P := fun t s res s' => Exits p res →
    (fix F' hF' t).Runs s res s' ∧ Exits q res) ?_ hruns
  intro g hg t s res s' h hexit
  have hcalls : ∀ t, Within p q (g t) (fix F' hF' t) := fun t _ _ _ h' =>
    hg h'
  obtain ⟨hbody, hexit'⟩ := step hcalls t h hexit
  exact ⟨runs_fix.mpr hbody, hexit'⟩

end Within

end Prog

end Sandesh.Lib
