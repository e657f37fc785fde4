/-
Recursive programs.

A recursive function is the limit of its approximations: the `n`-th
follows `n` nested calls and diverges below. For the limit to be a
computation a larger bound must not change an answer, which holds when
the body is monotone in the function it calls (`Le`, bound by bound); the
closure lemmas discharge that along the body. `runs_fix` is the recursion
equation and `fix_rec` the induction over calls.
-/
import Sandesh.Lib.Prog

namespace Sandesh.Lib

universe u

namespace Prog

variable {σ ε α β τ υ : Type u}

/-- Within the bound `n`, what `m` returns `m'` returns too. -/
def Le (n : Nat) (m m' : Prog σ ε α) : Prop :=
  ∀ s x, (m s).run n = some x → (m' s).run n = some x

theorem le_refl {n : Nat} (m : Prog σ ε α) : Le n m m := fun _ _ h => h

theorem le_bind {n : Nat} {m m' : Prog σ ε α} {f f' : α → Prog σ ε β}
    (hm : Le n m m') (hf : ∀ a, Le n (f a) (f' a)) :
    Le n (m >>= f) (m' >>= f') := by
  intro s x h
  obtain ⟨⟨o, s₁⟩, ho, hx⟩ := Option.bind_eq_some_iff.mp h
  refine Option.bind_eq_some_iff.mpr ⟨(o, s₁), hm s _ ho, ?_⟩
  cases o with
  | ok a => exact hf a s₁ x hx
  | error e => exact hx

theorem le_ite {n : Nat} {c : Prop} [Decidable c] {m₁ m₂ m₁' m₂' : Prog σ ε α}
    (h₁ : Le n m₁ m₁') (h₂ : Le n m₂ m₂') :
    Le n (if c then m₁ else m₂) (if c then m₁' else m₂') := by
  by_cases h : c
  · rw [if_pos h, if_pos h]
    exact h₁
  · rw [if_neg h, if_neg h]
    exact h₂

theorem le_loop {n : Nat} {body body' : υ → Prog σ ε (υ ⊕ α)}
    (hb : ∀ t, Le n (body t) (body' t)) (t : υ) :
    Le n (loop body t) (loop body' t) := by
  intro s x h
  -- the number of turns counts down under the one bound
  suffices hk : ∀ (k : Nat) (t : υ) (s : σ), Comp.turns _ n k (t, s) = some x →
      Comp.turns _ n k (t, s) = some x from hk n t s h
  intro k
  induction k with
  | zero =>
      intro t s h
      simp [Comp.turns] at h
  | succ k ih =>
      intro t s h
      simp only [Comp.turns, Comp.bind] at h ⊢
      cases hrun : (body t s).run n with
      | none => simp [hrun] at h
      | some y =>
          obtain ⟨o, s₁⟩ := y
          simp only [hrun, Option.bind_some] at h
          simp only [hb t s _ hrun, Option.bind_some]
          cases o with
          | error e => exact h
          | ok r =>
              cases r with
              | inl t₁ => exact ih t₁ s₁ h
              | inr a => exact h

/-- The body of a recursion respects approximation. -/
def Monotone (F : (τ → Prog σ ε α) → τ → Prog σ ε α) : Prop :=
  ∀ {n : Nat} {g h : τ → Prog σ ε α}, (∀ t, Le n (g t) (h t)) →
    ∀ t, Le n (F g t) (F h t)

/-- The `n`-th approximation. -/
def approx (F : (τ → Prog σ ε α) → τ → Prog σ ε α) :
    Nat → τ → Prog σ ε α
  | 0, _ => fun _ => { run := fun _ => none, mono := fun _ h => h }
  | n + 1, t => F (approx F n) t

theorem approx_le {F : (τ → Prog σ ε α) → τ → Prog σ ε α}
    (hF : Monotone F) {k n m : Nat} (hnm : n ≤ m) (t : τ) :
    Le k (approx F n t) (approx F m t) := by
  induction n generalizing m t with
  | zero =>
      intro s x h
      cases h
  | succ n ih =>
      obtain ⟨m, rfl⟩ : ∃ m', m = m' + 1 := ⟨m - 1, by omega⟩
      exact hF (fun t => ih (by omega) t) t

/-- The recursive function with body `F`. -/
def fix (F : (τ → Prog σ ε α) → τ → Prog σ ε α) (hF : Monotone F) (t : τ) :
    Prog σ ε α := fun s =>
  { run := fun n => (approx F n t s).run n
    mono := fun hnm h => approx_le hF hnm t s _ ((approx F _ t s).mono hnm h) }

variable {F : (τ → Prog σ ε α) → τ → Prog σ ε α} {hF : Monotone F}

/-- The recursion equation. -/
theorem runs_fix {t : τ} {s s' : σ} {res : Except ε α} :
    (fix F hF t).Runs s res s' ↔ (F (fix F hF) t).Runs s res s' := by
  constructor
  · intro hex
    obtain ⟨n, h⟩ := hex
    cases n with
    | zero => cases h
    | succ n =>
        -- one call less deep is within the limit
        refine ⟨n + 1, hF (fun t s x hx => ?_) t s _ h⟩
        exact approx_le hF (Nat.le_succ n) t s x hx
  · intro hex
    obtain ⟨n, h⟩ := hex
    refine ⟨n + 1, ?_⟩
    have hstep : (approx F (n + 1) t s).run n = some (res, s') :=
      hF (n := n) (g := fix F hF) (h := approx F n) (fun _ _ _ hx => hx) t s
        _ h
    exact (approx F (n + 1) t s).mono (Nat.le_succ n) hstep

/-- Induction over the calls of a recursive function that stops. -/
theorem fix_rec {P : τ → σ → Except ε α → σ → Prop}
    (step : ∀ {g : τ → Prog σ ε α},
      (∀ {t s res s'}, (g t).Runs s res s' → P t s res s') →
      ∀ {t s res s'}, (F g t).Runs s res s' → P t s res s')
    {t : τ} {s s' : σ} {res : Except ε α}
    (h : (fix F hF t).Runs s res s') : P t s res s' := by
  obtain ⟨n, h⟩ := h
  suffices hn : ∀ (n : Nat) {t s res s'}, (approx F n t).Runs s res s' →
      P t s res s' from hn n ⟨n, h⟩
  intro n
  induction n with
  | zero =>
      intro t s res s' h
      obtain ⟨k, hk⟩ := h
      cases hk
  | succ n ih =>
      intro t s res s' h
      exact step ih h

end Prog

end Sandesh.Lib
