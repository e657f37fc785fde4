/-
Programs that follow a stack machine.

A stack machine has things to do and a state. What is on top of the stack
turns into things to do instead of it and a new state, or it stops the
machine with an outcome; a machine whose stack is empty is done. Turns are
functions, so there is one run from a configuration, and where it ends does
not depend on how it is looked at (`reaches_stops`).

`Follows k m c` says that a program and the machine go the same way: where
the program returns `a`, the machine has come from `k` to `c a`, and where
it exits the machine has stopped, for a reason that fits. What is below on
the stack is left alone, so that programs in a row follow stacks on top of
each other. The rules are those of the constructs of `Prog`.
-/
import Mathlib.Logic.Relation
import Sandesh.Lib.Fix

namespace Sandesh.Lib

open Relation (ReflTransGen)

/-- A machine that works off the top of its stack: with what is left of the
input it puts new parts there, or stops. -/
structure StackMachine (π ι ω : Type) where
  turn : π → ι → Except ω (List π × ι)

namespace StackMachine

variable {π ι ω : Type} (M : StackMachine π ι ω)

/-- One turn of what is on top. -/
def Next (x y : List π × ι) : Prop :=
  ∃ p ps z, x.1 = p :: ps ∧ M.turn p x.2 = .ok z ∧ y = (z.1 ++ ps, z.2)

/-- Any number of turns. -/
def Reaches : List π × ι → List π × ι → Prop := ReflTransGen M.Next

/-- What is on top stops the machine. -/
def Stops (x : List π × ι) (o : ω) : Prop :=
  ∃ p ps, x.1 = p :: ps ∧ M.turn p x.2 = .error o

variable {M}

theorem next_of_turn {p : π} {ps qs : List π} {i j : ι} (h : M.turn p i = .ok (qs, j)) :
    M.Next (p :: ps, i) (qs ++ ps, j) := ⟨p, ps, (qs, j), rfl, h, rfl⟩

theorem next_unique : Relator.RightUnique M.Next := by
  rintro x y y' ⟨p, ps, z, hx, hz, rfl⟩ ⟨p', ps', z', hx', hz', rfl⟩
  obtain ⟨rfl, rfl⟩ := List.cons.inj (hx.symm.trans hx')
  obtain rfl := Except.ok.inj (hz.symm.trans hz')
  rfl

/-- A machine that stops has no next turn. -/
theorem Stops.not_next {x y : List π × ι} {o : ω} (h : M.Stops x o) : ¬ M.Next x y := by
  rintro ⟨p, ps, z, hx, hz, rfl⟩
  obtain ⟨p', ps', hx', ho⟩ := h
  obtain ⟨rfl, rfl⟩ := List.cons.inj (hx.symm.trans hx')
  cases hz.symm.trans ho

theorem Stops.unique {x : List π × ι} {o o' : ω} (h : M.Stops x o) (h' : M.Stops x o') :
    o = o' := by
  obtain ⟨p, ps, hx, ho⟩ := h
  obtain ⟨p', ps', hx', ho'⟩ := h'
  obtain ⟨rfl, rfl⟩ := List.cons.inj (hx.symm.trans hx')
  exact Except.error.inj (ho.symm.trans ho')

/-- From where a machine stops it reaches nothing else. -/
theorem Stops.reaches {x y : List π × ι} {o : ω} (h : M.Stops x o) (hy : M.Reaches x y) :
    y = x := by
  rcases ReflTransGen.cases_head hy with rfl | ⟨z, hz, -⟩
  · rfl
  · exact absurd hz h.not_next

/-- A run that stops comes by every configuration that is reached. -/
theorem Stops.of_reaches {x y z : List π × ι} {o : ω} (hz : M.Reaches x z) (h : M.Stops z o)
    (hy : M.Reaches x y) : M.Reaches y z := by
  rcases ReflTransGen.total_of_right_unique next_unique hz hy with hzy | hyz
  · rw [h.reaches hzy]
    exact .refl
  · exact hyz

/-- A run stops with one outcome. -/
theorem reaches_stops {x y z : List π × ι} {o o' : ω} (hy : M.Reaches x y) (ho : M.Stops y o)
    (hz : M.Reaches x z) (ho' : M.Stops z o') : o = o' := by
  have heq := ho.reaches (ho'.of_reaches hz hy)
  rw [heq] at ho'
  exact ho.unique ho'

/-- A run that gets done does not stop. -/
theorem reaches_done {x y : List π × ι} {i : ι} {o : ω} (hi : M.Reaches x ([], i))
    (hy : M.Reaches x y) : ¬ M.Stops y o := by
  intro ho
  obtain ⟨p, ps, hx, -⟩ := id ho
  have hdone := ho.of_reaches hy hi
  rcases ReflTransGen.cases_head hdone with rfl | ⟨z, ⟨p', ps', z', hnil, -⟩, -⟩
  · cases hx
  · cases hnil

end StackMachine

-- =========================================================== following

open StackMachine Prog

variable {π ι ω σ ε α β τ : Type} {M : StackMachine π ι ω} {R : ω → ε → σ → Prop}

/-- How a program may have ended: back at `c a` with `Q a`, or stopped. -/
def Ended (M : StackMachine π ι ω) (R : ω → ε → σ → Prop) (x : List π × ι) (K : List π)
    (c : α → List π) (Q : α → ι → σ → Prop) (res : Except ε α) (s : σ) : Prop :=
  (∃ a i, res = .ok a ∧ M.Reaches x (c a ++ K, i) ∧ Q a i s)
    ∨ ∃ e y o, res = .error e ∧ M.Reaches x y ∧ M.Stops y o ∧ R o e s

/-- From `k`, with `P`, the program goes the way of the machine, and `R` is
how exits and outcomes go together. -/
def Follows (M : StackMachine π ι ω) (R : ω → ε → σ → Prop) (P : ι → σ → Prop) (k : List π)
    (m : Prog σ ε α) (c : α → List π) (Q : α → ι → σ → Prop) : Prop :=
  ∀ ⦃i s res s'⦄, P i s → m.Runs s res s' → ∀ K, Ended M R (k ++ K, i) K c Q res s'

section Rules

variable {P A : ι → σ → Prop} {k l : List π} {m : Prog σ ε α} {f : α → Prog σ ε β}
  {c : α → List π} {d : β → List π} {Q Q' : α → ι → σ → Prop} {S : β → ι → σ → Prop}

theorem Ended.from {x y : List π × ι} {K : List π} {res : Except ε α} {s : σ}
    (hxy : M.Reaches x y) (h : Ended M R y K c Q res s) : Ended M R x K c Q res s := by
  rcases h with ⟨a, i, hres, hreach, hQ⟩ | ⟨e, z, o, hres, hreach, hstop⟩
  · exact .inl ⟨a, i, hres, hxy.trans hreach, hQ⟩
  · exact .inr ⟨e, z, o, hres, hxy.trans hreach, hstop⟩

theorem Follows.conseq (h : Follows M R P k m c Q) (hP : ∀ i s, A i s → P i s)
    (hQ : ∀ a i s, Q a i s → Q' a i s) : Follows M R A k m c Q' := by
  intro i s res s' hi hruns K
  rcases h (hP i s hi) hruns K with ⟨a, j, hres, hreach, ha⟩ | hstop
  · exact .inl ⟨a, j, hres, hreach, hQ a j s' ha⟩
  · exact .inr hstop

/-- What is to be done afterwards is below. -/
theorem Follows.frame (h : Follows M R P k m c Q) (l : List π) :
    Follows M R P (k ++ l) m (fun a => c a ++ l) Q := by
  intro i s res s' hi hruns K
  rw [List.append_assoc]
  rcases h hi hruns (l ++ K) with ⟨a, j, hres, hreach, ha⟩ | hstop
  · refine .inl ⟨a, j, hres, ?_, ha⟩
    rw [List.append_assoc]
    exact hreach
  · exact .inr hstop

theorem follows_pure {a : α} (h : ∀ i s, P i s → Q a i s) (hk : k = c a) :
    Follows M R P k (Pure.pure a) c Q := by
  intro i s res s' hi hruns K
  obtain ⟨rfl, rfl⟩ := runs_pure.mp hruns
  rw [hk]
  exact .inl ⟨a, i, rfl, .refl, h i _ hi⟩

theorem Follows.bind (h : Follows M R P k m c Q)
    (hf : ∀ a, Follows M R (Q a) (c a) (f a) d S) : Follows M R P k (m >>= f) d S := by
  intro i s res s' hi hruns K
  rcases runs_bind.mp hruns with ⟨a, s₁, hm, hrest⟩ | ⟨e, hm, rfl⟩
  · rcases h hi hm K with ⟨a', j, heq, hreach, ha⟩ | ⟨e, y, o, heq, -⟩
    · obtain rfl := Except.ok.inj heq
      exact (hf a ha hrest K).from hreach
    · cases heq
  · rcases h hi hm K with ⟨a', j, heq, -⟩ | ⟨e', y, o, heq, hstop⟩
    · cases heq
    · obtain rfl := Except.error.inj heq
      exact .inr ⟨e, y, o, rfl, hstop⟩

theorem Follows.map {g : α → β} (h : Follows M R P k m c Q) (hd : ∀ a, d (g a) = c a)
    (hS : ∀ a i s, Q a i s → S (g a) i s) : Follows M R P k (g <$> m) d S :=
  h.bind fun a => follows_pure (hS a) (hd a).symm

/-- What holds of the start apart from the states may be used. -/
theorem follows_given {p : Prop} (h : p → Follows M R P k m c Q) :
    Follows M R (fun i s => p ∧ P i s) k m c Q := fun _ _ _ _ hi => h hi.1 hi.2

theorem follows_ite {p : Prop} [Decidable p] {m' : Prog σ ε α}
    (h : p → Follows M R P k m c Q) (h' : ¬ p → Follows M R P k m' c Q) :
    Follows M R P k (if p then m else m') c Q := by
  by_cases hp : p
  · rw [if_pos hp]
    exact h hp
  · rw [if_neg hp]
    exact h' hp

/-- A step of the program that is one turn of the machine. -/
theorem follows_step {p : π} (h : ∀ i s res s', P i s → m.Runs s res s' →
    (∃ a j, res = .ok a ∧ M.turn p i = .ok (c a, j) ∧ Q a j s')
      ∨ ∃ e o, res = .error e ∧ M.turn p i = .error o ∧ R o e s') :
    Follows M R P [p] m c Q := by
  intro i s res s' hi hruns K
  rcases h i s res s' hi hruns with ⟨a, j, hres, hturn, hQ⟩ | ⟨e, o, hres, hturn, hR⟩
  · exact .inl ⟨a, j, hres, .single (next_of_turn hturn), hQ⟩
  · exact .inr ⟨e, _, o, hres, .refl, ⟨p, K, rfl, hturn⟩, hR⟩

/-- An exit, where the machine stops. -/
theorem follows_throw {e : ε} {p : π}
    (h : ∀ i s, P i s → ∃ o, M.turn p i = .error o ∧ R o e s) :
    Follows M R P [p] (throw e : Prog σ ε α) c Q := by
  refine follows_step fun i s res s' hi hruns => ?_
  obtain ⟨rfl, rfl⟩ := runs_throw.mp hruns
  obtain ⟨o, hturn, hR⟩ := h i _ hi
  exact .inr ⟨e, o, rfl, hturn, hR⟩

/-- A turn of the machine that the program takes no step for. -/
theorem Follows.turn {p : π} (h : Follows M R P (l ++ k) m c Q)
    (hturn : ∀ i s, P i s → M.turn p i = .ok (l, i)) : Follows M R P (p :: k) m c Q := by
  intro i s res s' hi hruns K
  have hnext : M.Next (p :: (k ++ K), i) (l ++ (k ++ K), i) := next_of_turn (hturn i s hi)
  rw [← List.append_assoc] at hnext
  exact (h hi hruns K).from (.single hnext)

theorem follows_loop {body : τ → Prog σ ε (τ ⊕ α)} {I : τ → ι → σ → Prop} {l : τ → List π}
    (h : ∀ t, Follows M R (I t) (l t) (body t) (Sum.elim l c) (Sum.elim I Q)) (t : τ) :
    Follows M R (I t) (l t) (loop body t) c Q := by
  intro i s res s' hi hruns K
  refine loop_rec (P := fun t s res s' => ∀ i, I t i s →
    Ended M R (l t ++ K, i) K c Q res s') ?_ ?_ ?_ hruns i hi
  · intro t s a s' hb i hi
    rcases h t hi hb K with ⟨o, j, heq, hreach, ha⟩ | ⟨e, y, o, heq, -⟩
    · obtain rfl := Except.ok.inj heq
      exact .inl ⟨a, j, rfl, hreach, ha⟩
    · cases heq
  · intro t s e s' hb i hi
    rcases h t hi hb K with ⟨o, j, heq, -⟩ | ⟨e', y, o, heq, hstop⟩
    · cases heq
    · obtain rfl := Except.error.inj heq
      exact .inr ⟨e, y, o, rfl, hstop⟩
  · intro t s t₁ s₁ res s' hb hnext i hi
    rcases h t hi hb K with ⟨o, j, heq, hreach, ha⟩ | ⟨e, y, o, heq, -⟩
    · obtain rfl := Except.ok.inj heq
      exact (hnext j ha).from hreach
    · cases heq

/-- A recursive program follows what its body follows. -/
theorem follows_fix {F : (τ → Prog σ ε α) → τ → Prog σ ε α} {hF : Monotone F}
    {l : τ → List π} {I : τ → ι → σ → Prop}
    (h : ∀ g, (∀ t, Follows M R (I t) (l t) (g t) c Q) →
      ∀ t, Follows M R (I t) (l t) (F g t) c Q) (t : τ) :
    Follows M R (I t) (l t) (fix F hF t) c Q := by
  intro i s res s' hi hruns K
  refine fix_rec (P := fun t s res s' => ∀ i, I t i s → ∀ K,
    Ended M R (l t ++ K, i) K c Q res s') ?_ hruns i hi K
  intro g hg t s res s' hbody i hi K
  exact h g (fun t i s res s' hi hruns K => hg hruns i hi K) t hi hbody K

end Rules

end Sandesh.Lib
