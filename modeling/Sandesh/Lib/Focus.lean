/-
Programs over a larger state.

`focus get set m` runs `m` on a part of the state and leaves the rest
alone. `Over get m' m` compares two programs: seen through `get`, the one
over the larger state does exactly what the other does, within every
bound, so it adds nothing but what the rest of the state records. The
closure rules follow the constructors of a program, loops and recursion
included.
-/
import Sandesh.Lib.Fix

namespace Sandesh.Lib.Prog

universe u

variable {σ ρ ε α β τ : Type u}

-- ================================================= a part of the state

/-- The program `m` on a part of the state. -/
def focus (get : σ → ρ) (set : ρ → σ → σ) (m : Prog ρ ε α) : Prog σ ε α := fun s =>
  (m (get s)).bind fun o => Comp.pure (o.1, set o.2 s)

theorem runs_focus {get : σ → ρ} {set : ρ → σ → σ} {m : Prog ρ ε α} {s s' : σ}
    {res : Except ε α} :
    (focus get set m).Runs s res s' ↔ ∃ r, m.Runs (get s) res r ∧ s' = set r s := by
  show ((m (get s)).bind _).Ends _ ↔ _
  rw [Comp.ends_bind]
  constructor
  · intro hex
    obtain ⟨⟨o, r⟩, hm, hends⟩ := hex
    obtain ⟨rfl, rfl⟩ := Prod.mk.inj (Comp.ends_pure.mp hends)
    exact ⟨r, hm, rfl⟩
  · intro hex
    obtain ⟨r, hm, rfl⟩ := hex
    exact ⟨(res, r), hm, Comp.ends_pure.mpr rfl⟩

-- ======================================================== two programs

/-- Seen through `get`, the program `m'` is the program `m`. -/
def Over (get : σ → ρ) (m' : Prog σ ε α) (m : Prog ρ ε α) : Prop :=
  ∀ s n, ((m' s).run n).map (fun x => (x.1, get x.2)) = (m (get s)).run n

variable {get : σ → ρ}

/-- What the larger program does, the smaller one does. -/
theorem Over.runs {m' : Prog σ ε α} {m : Prog ρ ε α} (h : Over get m' m) {s s' : σ}
    {res : Except ε α} (hrun : m'.Runs s res s') : m.Runs (get s) res (get s') := by
  obtain ⟨n, hn⟩ := hrun
  refine ⟨n, ?_⟩
  rw [← h s n, hn]
  rfl

/-- What the smaller program does, the larger one does. -/
theorem Over.exists_runs {m' : Prog σ ε α} {m : Prog ρ ε α} (h : Over get m' m) {s : σ}
    {r : ρ} {res : Except ε α} (hrun : m.Runs (get s) res r) :
    ∃ s', m'.Runs s res s' ∧ get s' = r := by
  obtain ⟨n, hn⟩ := hrun
  rw [← h s n] at hn
  obtain ⟨x, hx, heq⟩ := Option.map_eq_some_iff.mp hn
  obtain ⟨rfl, rfl⟩ := Prod.mk.inj heq
  exact ⟨x.2, ⟨n, hx⟩, rfl⟩

theorem over_pure (a : α) : Over get (Pure.pure a : Prog σ ε α) (Pure.pure a) :=
  fun _ _ => rfl

theorem over_throw (e : ε) : Over get (throw e : Prog σ ε α) (throw e) :=
  fun _ _ => rfl

theorem over_focus {set : ρ → σ → σ} (hset : ∀ r s, get (set r s) = r)
    (m : Prog ρ ε α) : Over get (focus get set m) m := by
  intro s n
  show (((m (get s)).run n).bind fun o => some (o.1, set o.2 s)).map _ = _
  cases (m (get s)).run n with
  | none => rfl
  | some x =>
      show some (x.1, get (set x.2 s)) = some x
      rw [hset]

/-- A value that is returned along with an entry in the rest of the state. -/
theorem over_note {a : α} {f : σ → σ} (hf : ∀ s, get (f s) = get s) :
    Over get (act fun s => (.ok a, f s) : Prog σ ε α) (Pure.pure a) := by
  intro s n
  show some ((.ok a : Except ε α), get (f s)) = some (.ok a, get s)
  rw [hf]

theorem over_bind {m' : Prog σ ε α} {m : Prog ρ ε α} {f' : α → Prog σ ε β}
    {f : α → Prog ρ ε β} (hm : Over get m' m) (hf : ∀ a, Over get (f' a) (f a)) :
    Over get (m' >>= f') (m >>= f) := by
  intro s n
  show (((m' s).run n).bind _).map _ = ((m (get s)).run n).bind _
  rw [← hm s n]
  cases (m' s).run n with
  | none => rfl
  | some x =>
      obtain ⟨o, s₁⟩ := x
      cases o with
      | ok a => exact hf a s₁ n
      | error e => rfl

theorem over_ite {c : Prop} [Decidable c] {m₁' m₂' : Prog σ ε α}
    {m₁ m₂ : Prog ρ ε α} (h₁ : Over get m₁' m₁) (h₂ : Over get m₂' m₂) :
    Over get (if c then m₁' else m₂') (if c then m₁ else m₂) := by
  by_cases h : c
  · rw [if_pos h, if_pos h]
    exact h₁
  · rw [if_neg h, if_neg h]
    exact h₂

theorem over_loop {body' : τ → Prog σ ε (τ ⊕ α)} {body : τ → Prog ρ ε (τ ⊕ α)}
    (hb : ∀ t, Over get (body' t) (body t)) (t : τ) :
    Over get (loop body' t) (loop body t) := by
  intro s n
  -- the number of turns counts down under the one bound
  suffices hk : ∀ (k : Nat) (t : τ) (s : σ),
      (Comp.turns _ n k (t, s)).map (fun x : Except ε α × σ => (x.1, get x.2))
        = Comp.turns _ n k (t, get s) from hk n t s
  intro k
  induction k with
  | zero =>
      intro t s
      rfl
  | succ k ih =>
      intro t s
      simp only [Comp.turns, Comp.bind]
      rw [← hb t s n]
      cases (body' t s).run n with
      | none => rfl
      | some x =>
          obtain ⟨o, s₁⟩ := x
          cases o with
          | error e => rfl
          | ok r =>
              cases r with
              | inl t₁ => exact ih t₁ s₁
              | inr a => rfl

theorem over_fix {F' : (τ → Prog σ ε α) → τ → Prog σ ε α}
    {F : (τ → Prog ρ ε α) → τ → Prog ρ ε α} {hF' : Monotone F'} {hF : Monotone F}
    (step : ∀ {g' : τ → Prog σ ε α} {g : τ → Prog ρ ε α},
      (∀ t, Over get (g' t) (g t)) → ∀ t, Over get (F' g' t) (F g t)) (t : τ) :
    Over get (fix F' hF' t) (fix F hF t) := by
  have happrox : ∀ (n : Nat) (t : τ), Over get (approx F' n t) (approx F n t) := by
    intro n
    induction n with
    | zero => exact fun _ _ _ => rfl
    | succ n ih => exact step ih
  exact fun s n => happrox n t s n

end Sandesh.Lib.Prog
