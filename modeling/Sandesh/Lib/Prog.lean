/-
Programs that may not return.

The loops this development models are `while (true)` loops that leave by
a `break` on what they read, so whether they end is itself a theorem. A
`Comp` is a computation given by what it has returned within each bound
on the number of loop turns; the bound only ever reveals more (`mono`),
so "returns `r`" (`Comp.Ends`) is independent of it, and "never returns"
is a statement about every bound. Everything stays executable: `run` at
a concrete bound evaluates.

A `Prog` is such a computation over a machine state with an error exit,
the shape of a C++ member function that reads and writes the fields of
its object and may stop the run. `Prog.Runs` is its big-step judgement,
and the rules below are all a proof ever uses of it:

- `runs_pure`, `runs_throw`, `runs_act`, `runs_bind`: what each
  constructor does, as equivalences, so they rewrite in both directions;
- `runs_loop`: one turn of a loop;
- `loop_rec`, `loop_keeps`, `loop_diverges`: the inductions over the turns
  of a loop (in general, for a relation between before and after, and
  divergence by an invariant that always asks for one more turn).
-/
import Mathlib.Data.Option.Basic
import Mathlib.Logic.Basic

namespace Sandesh.Lib

universe u

-- ========================================================= computations

/-- A computation that may diverge: what it has returned within each
bound on the turns of its loops. A larger bound never changes an answer
already given. -/
structure Comp (ρ : Type u) where
  run : Nat → Option ρ
  mono : ∀ {n m : Nat} {r : ρ}, n ≤ m → run n = some r → run m = some r

namespace Comp

variable {ρ τ σ : Type u}

/-- The computation returns `r`. -/
def Ends (x : Comp ρ) (r : ρ) : Prop := ∃ n, x.run n = some r

/-- A computation returns at most one value. -/
theorem Ends.unique {x : Comp ρ} {r r' : ρ} (h : x.Ends r)
    (h' : x.Ends r') : r = r' := by
  obtain ⟨n, hn⟩ := h
  obtain ⟨m, hm⟩ := h'
  have h1 := x.mono (Nat.le_max_left n m) hn
  have h2 := x.mono (Nat.le_max_right n m) hm
  exact Option.some.inj (h1.symm.trans h2)

/-- The computation that returns at once. -/
def pure (r : ρ) : Comp ρ where
  run := fun _ => some r
  mono := fun _ h => h

/-- Run `x`, then `f` on what it returned, under one bound. -/
def bind (x : Comp ρ) (f : ρ → Comp τ) : Comp τ where
  run := fun n => (x.run n).bind fun r => (f r).run n
  mono := by
    intro n m t hnm h
    obtain ⟨r, hr, ht⟩ := Option.bind_eq_some_iff.mp h
    exact Option.bind_eq_some_iff.mpr
      ⟨r, x.mono hnm hr, (f r).mono hnm ht⟩

@[simp] theorem ends_pure {r r' : ρ} : (pure r).Ends r' ↔ r' = r := by
  constructor
  · intro hex
    obtain ⟨_, h⟩ := hex
    exact (Option.some.inj h).symm
  · intro heq
    obtain rfl := heq
    exact ⟨0, rfl⟩

theorem ends_bind {x : Comp ρ} {f : ρ → Comp τ} {t : τ} :
    (x.bind f).Ends t ↔ ∃ r, x.Ends r ∧ (f r).Ends t := by
  constructor
  · intro hex
    obtain ⟨n, h⟩ := hex
    obtain ⟨r, hr, ht⟩ := Option.bind_eq_some_iff.mp h
    exact ⟨r, ⟨n, hr⟩, ⟨n, ht⟩⟩
  · intro hex
    obtain ⟨r, ⟨n, hr⟩, ⟨m, ht⟩⟩ := hex
    refine ⟨max n m, Option.bind_eq_some_iff.mpr ⟨r, ?_, ?_⟩⟩
    · exact x.mono (Nat.le_max_left n m) hr
    · exact (f r).mono (Nat.le_max_right n m) ht

/-- At most `k` turns of a loop whose body itself runs under the bound
`n`: `.inl` asks for another turn, `.inr` leaves. -/
def turns (body : σ → Comp (σ ⊕ ρ)) (n : Nat) : Nat → σ → Option ρ
  | 0, _ => none
  | k + 1, s =>
      match (body s).run n with
      | none => none
      | some (.inl s') => turns body n k s'
      | some (.inr r) => some r

theorem turns_mono {body : σ → Comp (σ ⊕ ρ)} {n m : Nat} (hnm : n ≤ m) :
    ∀ {k l : Nat} {s : σ} {r : ρ}, k ≤ l →
      turns body n k s = some r → turns body m l s = some r := by
  intro k
  induction k with
  | zero => intro l s r _ h; simp [turns] at h
  | succ k ih =>
      intro l s r hkl h
      obtain ⟨l, rfl⟩ : ∃ l', l = l' + 1 := ⟨l - 1, by omega⟩
      simp only [turns] at h ⊢
      cases hb : (body s).run n with
      | none => simp [hb] at h
      | some o =>
          rw [(body s).mono hnm hb]
          cases o with
          | inl s' => exact ih (by omega) (by simpa [hb] using h)
          | inr r' => simpa [hb] using h

/-- `while (true)`: repeat the body until it leaves. -/
def loop (body : σ → Comp (σ ⊕ ρ)) (s : σ) : Comp ρ where
  run := fun n => turns body n n s
  mono := fun hnm h => turns_mono hnm hnm h

/-- One turn of a loop: the body leaves, or asks for another turn from
where it stopped. -/
theorem ends_loop {body : σ → Comp (σ ⊕ ρ)} {s : σ} {r : ρ} :
    (loop body s).Ends r ↔ (body s).Ends (.inr r)
      ∨ ∃ s', (body s).Ends (.inl s') ∧ (loop body s').Ends r := by
  constructor
  · intro hex
    obtain ⟨n, h⟩ := hex
    cases n with
    | zero => simp [loop, turns] at h
    | succ n =>
        simp only [loop, turns] at h
        cases hb : (body s).run (n + 1) with
        | none => simp [hb] at h
        | some o =>
            cases o with
            | inl s' =>
                have h' : turns body (n + 1) n s' = some r := by
                  simpa [hb] using h
                exact .inr ⟨s', ⟨n + 1, hb⟩,
                  ⟨n + 1, turns_mono (Nat.le_refl _) (Nat.le_succ n) h'⟩⟩
            | inr r' =>
                have h' : r' = r := by simpa [hb] using h
                exact .inl ⟨n + 1, h' ▸ hb⟩
  · intro hex
    rcases hex with ⟨n, h⟩ | ⟨s', ⟨n, h⟩, ⟨m, h'⟩⟩
    · refine ⟨n + 1, ?_⟩
      have hb := (body s).mono (Nat.le_succ n) h
      simp [loop, turns, hb]
    · refine ⟨max n m + 1, ?_⟩
      have hb := (body s).mono (show n ≤ max n m + 1 by omega) h
      have ht : turns body (max n m + 1) (max n m) s' = some r :=
        turns_mono (show m ≤ max n m + 1 by omega)
          (show m ≤ max n m by omega) h'
      simp [loop, turns, hb, ht]

/-- Induction over the turns of a loop that returns. -/
theorem loop_induction {body : σ → Comp (σ ⊕ ρ)} {P : σ → ρ → Prop}
    (leave : ∀ s r, (body s).Ends (.inr r) → P s r)
    (again : ∀ s s' r, (body s).Ends (.inl s') → P s' r → P s r)
    {s : σ} {r : ρ} (h : (loop body s).Ends r) : P s r := by
  obtain ⟨n, h⟩ := h
  -- the bound on the turns counts down; the bound of the body stays
  suffices hk : ∀ (k : Nat) (s : σ), turns body n k s = some r → P s r from
    hk n s h
  intro k
  induction k with
  | zero => intro s h; simp [turns] at h
  | succ k ih =>
      intro s h
      simp only [turns] at h
      cases hb : (body s).run n with
      | none => simp [hb] at h
      | some o =>
          cases o with
          | inl s' =>
              exact again s s' r ⟨n, hb⟩ (ih s' (by simpa [hb] using h))
          | inr r' =>
              have h' : r' = r := by simpa [hb] using h
              exact leave s r ⟨n, h' ▸ hb⟩

/-- A turn that leaves everything as it was is taken for ever. -/
theorem not_ends_loop {body : σ → Comp (σ ⊕ ρ)} {s : σ}
    (h : (body s).Ends (.inl s)) (r : ρ) : ¬ (loop body s).Ends r := by
  intro hends
  refine loop_induction (P := fun s' _ => s' ≠ s) ?_ ?_ hends rfl
  · intro s' r' hleave heq
    rw [heq] at hleave
    cases Ends.unique h hleave
  · intro s' s'' r' hagain hne heq
    rw [heq] at hagain
    exact hne (Sum.inl.inj (Ends.unique h hagain)).symm

end Comp

-- ============================================================= programs

/-- A program over the state `σ` with error exit `ε`: the state survives
an error, as an object's fields survive an early `return`. -/
def Prog (σ ε α : Type u) : Type u := σ → Comp (Except ε α × σ)

namespace Prog

variable {σ ε α β τ : Type u}

/-- From `s` the program stops with `res` in the state `s'`. -/
def Runs (m : Prog σ ε α) (s : σ) (res : Except ε α) (s' : σ) : Prop :=
  (m s).Ends (res, s')

/-- From `s` the program stops at all. -/
def Halts (m : Prog σ ε α) (s : σ) : Prop := ∃ res s', m.Runs s res s'

/-- Programs are deterministic. -/
theorem Runs.unique {m : Prog σ ε α} {s s₁ s₂ : σ} {r₁ r₂ : Except ε α}
    (h₁ : m.Runs s r₁ s₁) (h₂ : m.Runs s r₂ s₂) : r₁ = r₂ ∧ s₁ = s₂ := by
  have h := Comp.Ends.unique h₁ h₂
  exact ⟨congrArg Prod.fst h, congrArg Prod.snd h⟩

/-- Stop here with a value. -/
def pure (a : α) : Prog σ ε α := fun s => Comp.pure (.ok a, s)

/-- Stop here with an error. -/
def throw (e : ε) : Prog σ ε α := fun s => Comp.pure (.error e, s)

/-- A straight-line operation on the state. -/
def act (f : σ → Except ε α × σ) : Prog σ ε α := fun s => Comp.pure (f s)

/-- Sequencing: an error leaves at once. -/
def bind (m : Prog σ ε α) (f : α → Prog σ ε β) : Prog σ ε β := fun s =>
  (m s).bind fun o =>
    match o with
    | (.ok a, s') => f a s'
    | (.error e, s') => Comp.pure (.error e, s')

instance : Monad (Prog σ ε) where
  pure := pure
  bind := bind

/-- `while (true)` with loop variables `t`: the body asks for another
turn (`.inl`), leaves with a value (`.inr`) or stops the run. -/
def loop (body : τ → Prog σ ε (τ ⊕ α)) (t : τ) : Prog σ ε α := fun s =>
  Comp.loop (fun x : τ × σ => (body x.1 x.2).bind fun o =>
    match o with
    | (.ok (.inl t'), s') => Comp.pure (.inl (t', s'))
    | (.ok (.inr a), s') => Comp.pure (.inr (.ok a, s'))
    | (.error e, s') => Comp.pure (.inr (.error e, s'))) (t, s)

@[simp] theorem runs_pure {a : α} {s s' : σ} {res : Except ε α} :
    (Pure.pure a : Prog σ ε α).Runs s res s' ↔ res = .ok a ∧ s' = s := by
  show (Comp.pure _).Ends _ ↔ _
  rw [Comp.ends_pure, Prod.mk.injEq]

@[simp] theorem runs_throw {e : ε} {s s' : σ} {res : Except ε α} :
    (throw e : Prog σ ε α).Runs s res s' ↔ res = .error e ∧ s' = s := by
  show (Comp.pure _).Ends _ ↔ _
  rw [Comp.ends_pure, Prod.mk.injEq]

@[simp] theorem runs_act {f : σ → Except ε α × σ} {s s' : σ}
    {res : Except ε α} : (act f).Runs s res s' ↔ (res, s') = f s := by
  show (Comp.pure _).Ends _ ↔ _
  rw [Comp.ends_pure]

theorem runs_bind {m : Prog σ ε α} {f : α → Prog σ ε β} {s s' : σ}
    {res : Except ε β} :
    (m >>= f).Runs s res s' ↔
      (∃ a s₁, m.Runs s (.ok a) s₁ ∧ (f a).Runs s₁ res s')
        ∨ ∃ e, m.Runs s (.error e) s' ∧ res = .error e := by
  show ((m s).bind _).Ends _ ↔ _
  rw [Comp.ends_bind]
  constructor
  · intro hex
    obtain ⟨⟨o, s₁⟩, hm, hf⟩ := hex
    cases o with
    | ok a => exact .inl ⟨a, s₁, hm, hf⟩
    | error e =>
        have he := Comp.ends_pure.mp hf
        rw [Prod.mk.injEq] at he
        obtain ⟨rfl, rfl⟩ := he
        exact .inr ⟨e, hm, rfl⟩
  · intro hex
    rcases hex with ⟨a, s₁, hm, hf⟩ | ⟨e, hm, rfl⟩
    · exact ⟨(.ok a, s₁), hm, hf⟩
    · exact ⟨(.error e, s'), hm, Comp.ends_pure.mpr rfl⟩

/-- A program in a row stops only if the first does. -/
theorem Halts.of_bind {m : Prog σ ε α} {f : α → Prog σ ε β} {s : σ}
    (h : (m >>= f).Halts s) : m.Halts s := by
  obtain ⟨res, s', hruns⟩ := h
  rcases runs_bind.mp hruns with ⟨a, s₁, hm, -⟩ | ⟨e, hm, -⟩
  · exact ⟨_, _, hm⟩
  · exact ⟨_, _, hm⟩

/-- What comes first decides from which states the rest is run. -/
theorem runs_bind_congr {m : Prog σ ε α} {f : α → Prog σ ε β} {s t : σ}
    (h : ∀ res s', m.Runs s res s' ↔ m.Runs t res s') (res : Except ε β) (s' : σ) :
    (m >>= f).Runs s res s' ↔ (m >>= f).Runs t res s' := by
  simp only [runs_bind, h]

/-- Sequencing is associative. -/
theorem runs_assoc {γ : Type u} {m : Prog σ ε α} {f : α → Prog σ ε β}
    {g : β → Prog σ ε γ} {s s' : σ} {res : Except ε γ} :
    (m >>= f >>= g).Runs s res s'
      ↔ (m >>= fun a => f a >>= g).Runs s res s' := by
  simp only [runs_bind]
  constructor
  · intro hex
    rcases hex with ⟨b, s₂, ⟨a, s₁, hm, hf⟩ | ⟨e, -, he⟩, hg⟩
      | ⟨e, ⟨a, s₁, hm, hf⟩ | ⟨e', hm, he'⟩, he⟩
    · exact .inl ⟨a, s₁, hm, .inl ⟨b, s₂, hf, hg⟩⟩
    · cases he
    · exact .inl ⟨a, s₁, hm, .inr ⟨e, hf, he⟩⟩
    · injection he' with he'
      subst he'
      exact .inr ⟨e, hm, he⟩
  · intro hex
    rcases hex with ⟨a, s₁, hm, ⟨b, s₂, hf, hg⟩ | ⟨e, hf, he⟩⟩ | ⟨e, hm, he⟩
    · exact .inl ⟨b, s₂, .inl ⟨a, s₁, hm, hf⟩, hg⟩
    · exact .inr ⟨e, .inl ⟨a, s₁, hm, hf⟩, he⟩
    · exact .inr ⟨e, .inr ⟨e, hm, rfl⟩, he⟩

/-- Sequencing, forwards: the first program returned. -/
theorem Runs.bind_ok {m : Prog σ ε α} {f : α → Prog σ ε β} {s s₁ s' : σ}
    {a : α} {res : Except ε β} (hm : m.Runs s (.ok a) s₁)
    (hf : (f a).Runs s₁ res s') : (m >>= f).Runs s res s' :=
  runs_bind.mpr (.inl ⟨a, s₁, hm, hf⟩)

/-- Sequencing, forwards: the first program stopped the run. -/
theorem Runs.bind_error {m : Prog σ ε α} {f : α → Prog σ ε β} {s s' : σ}
    {e : ε} (hm : m.Runs s (.error e) s') :
    (m >>= f).Runs s (.error e) s' :=
  runs_bind.mpr (.inr ⟨e, hm, rfl⟩)

-- =============================================================== loops

/-- One turn of a loop. -/
theorem runs_loop {body : τ → Prog σ ε (τ ⊕ α)} {t : τ} {s s' : σ}
    {res : Except ε α} :
    (loop body t).Runs s res s' ↔
      (∃ t₁ s₁, (body t).Runs s (.ok (.inl t₁)) s₁
          ∧ (loop body t₁).Runs s₁ res s')
        ∨ (∃ a, (body t).Runs s (.ok (.inr a)) s' ∧ res = .ok a)
        ∨ ∃ e, (body t).Runs s (.error e) s' ∧ res = .error e := by
  show (Comp.loop _ _).Ends _ ↔ _
  rw [Comp.ends_loop, Comp.ends_bind]
  constructor
  · intro hex
    rcases hex with ⟨⟨o, s₁⟩, hb, hr⟩ | ⟨⟨t₁, s₁⟩, hb, hl⟩
    · match o with
      | .ok (.inl t₁) => simp at hr
      | .ok (.inr a) =>
          simp only [Comp.ends_pure, Sum.inr.injEq, Prod.mk.injEq] at hr
          obtain ⟨rfl, rfl⟩ := hr
          exact .inr (.inl ⟨a, hb, rfl⟩)
      | .error e =>
          simp only [Comp.ends_pure, Sum.inr.injEq, Prod.mk.injEq] at hr
          obtain ⟨rfl, rfl⟩ := hr
          exact .inr (.inr ⟨e, hb, rfl⟩)
    · obtain ⟨⟨o, s₂⟩, hb, hr⟩ := Comp.ends_bind.mp hb
      match o with
      | .ok (.inl t₂) =>
          simp only [Comp.ends_pure, Sum.inl.injEq, Prod.mk.injEq] at hr
          obtain ⟨rfl, rfl⟩ := hr
          exact .inl ⟨t₁, s₁, hb, hl⟩
      | .ok (.inr a) => simp at hr
      | .error e => simp at hr
  · intro hex
    rcases hex with ⟨t₁, s₁, hb, hl⟩ | ⟨a, hb, rfl⟩ | ⟨e, hb, rfl⟩
    · exact .inr ⟨(t₁, s₁), Comp.ends_bind.mpr ⟨_, hb, by simp⟩, hl⟩
    · exact .inl ⟨_, hb, by simp⟩
    · exact .inl ⟨_, hb, by simp⟩

/-- A loop goes round once more. -/
theorem Runs.again {body : τ → Prog σ ε (τ ⊕ α)} {t t₁ : τ} {s s₁ s' : σ}
    {res : Except ε α} (hb : (body t).Runs s (.ok (.inl t₁)) s₁)
    (hl : (loop body t₁).Runs s₁ res s') : (loop body t).Runs s res s' :=
  runs_loop.mpr (.inl ⟨t₁, s₁, hb, hl⟩)

/-- A loop is left. -/
theorem Runs.leave {body : τ → Prog σ ε (τ ⊕ α)} {t : τ} {s s' : σ}
    {a : α} (hb : (body t).Runs s (.ok (.inr a)) s') :
    (loop body t).Runs s (.ok a) s' :=
  runs_loop.mpr (.inr (.inl ⟨a, hb, rfl⟩))

/-- A loop body stops the run. -/
theorem Runs.stop {body : τ → Prog σ ε (τ ⊕ α)} {t : τ} {s s' : σ}
    {e : ε} (hb : (body t).Runs s (.error e) s') :
    (loop body t).Runs s (.error e) s' :=
  runs_loop.mpr (.inr (.inr ⟨e, hb, rfl⟩))

/-- Induction over the turns of a loop that stops. -/
theorem loop_rec {body : τ → Prog σ ε (τ ⊕ α)}
    {P : τ → σ → Except ε α → σ → Prop}
    (leave : ∀ {t s a s'}, (body t).Runs s (.ok (.inr a)) s' →
      P t s (.ok a) s')
    (stop : ∀ {t s e s'}, (body t).Runs s (.error e) s' → P t s (.error e) s')
    (again : ∀ {t s t₁ s₁ res s'}, (body t).Runs s (.ok (.inl t₁)) s₁ →
      P t₁ s₁ res s' → P t s res s')
    {t : τ} {s s' : σ} {res : Except ε α}
    (h : (loop body t).Runs s res s') : P t s res s' := by
  refine Comp.loop_induction (P := fun x r => P x.1 x.2 r.1 r.2) ?_ ?_ h
  · intro hex hpair hb
    obtain ⟨t, s⟩ := hex
    obtain ⟨res, s'⟩ := hpair
    obtain ⟨⟨o, s₁⟩, hb, ho⟩ := Comp.ends_bind.mp hb
    match o with
    | .ok (.inl t₁) => simp at ho
    | .ok (.inr a) =>
        simp only [Comp.ends_pure, Sum.inr.injEq, Prod.mk.injEq] at ho
        obtain ⟨rfl, rfl⟩ := ho
        exact leave hb
    | .error e =>
        simp only [Comp.ends_pure, Sum.inr.injEq, Prod.mk.injEq] at ho
        obtain ⟨rfl, rfl⟩ := ho
        exact stop hb
  · intro hex hpair hcase hb hP
    obtain ⟨t, s⟩ := hex
    obtain ⟨t₁, s₁⟩ := hpair
    obtain ⟨res, s'⟩ := hcase
    obtain ⟨⟨o, s₂⟩, hb, ho⟩ := Comp.ends_bind.mp hb
    match o with
    | .ok (.inl t₂) =>
        simp only [Comp.ends_pure, Sum.inl.injEq, Prod.mk.injEq] at ho
        obtain ⟨rfl, rfl⟩ := ho
        exact again hb hP
    | .ok (.inr a) => simp at ho
    | .error e => simp at ho

/-- A relation that every turn keeps is kept by the loop. -/
theorem loop_keeps {body : τ → Prog σ ε (τ ⊕ α)} {R : σ → σ → Prop}
    (trans : ∀ {a b c : σ}, R a b → R b c → R a c)
    (turn : ∀ {t : τ} {s s₁ : σ} {res : Except ε (τ ⊕ α)},
      (body t).Runs s res s₁ → R s s₁)
    {t : τ} {s s' : σ} {res : Except ε α}
    (h : (loop body t).Runs s res s') : R s s' := by
  refine loop_rec (P := fun _ s _ s' => R s s') ?_ ?_ ?_ h
  · intro t s a s' hb
    exact turn hb
  · intro t s e s' hb
    exact turn hb
  · intro t s t₁ s₁ res s' hb hR
    exact trans (turn hb) hR

/-- Divergence: an invariant under which the body always asks for one
more turn. -/
theorem loop_diverges {body : τ → Prog σ ε (τ ⊕ α)} {I : τ → σ → Prop}
    (turn : ∀ t s, I t s → ∃ t₁ s₁,
      (body t).Runs s (.ok (.inl t₁)) s₁ ∧ I t₁ s₁)
    {t : τ} {s : σ} (h : I t s) : ¬ (loop body t).Halts s := by
  intro hex
  obtain ⟨res, s', hl⟩ := hex
  suffices hP : ∀ x : τ × σ, ∀ r : Except ε α × σ, (Comp.loop _ x).Ends r →
      ¬ I x.1 x.2 from hP (t, s) (res, s') hl h
  intro x r hr
  refine Comp.loop_induction (P := fun x _ => ¬ I x.1 x.2) ?_ ?_ hr
  · intro hex r hb hI
    obtain ⟨t, s⟩ := hex
    obtain ⟨t₁, s₁, hb₁, -⟩ := turn t s hI
    obtain ⟨o, hb, ho⟩ := Comp.ends_bind.mp hb
    obtain rfl := Comp.Ends.unique hb hb₁
    simp at ho
  · intro hex hpair r hb hnext hI
    obtain ⟨t, s⟩ := hex
    obtain ⟨t', s'⟩ := hpair
    obtain ⟨t₁, s₁, hb₁, hI₁⟩ := turn t s hI
    obtain ⟨o, hb, ho⟩ := Comp.ends_bind.mp hb
    obtain rfl := Comp.Ends.unique hb hb₁
    simp only [Comp.ends_pure, Sum.inl.injEq, Prod.mk.injEq] at ho
    obtain ⟨rfl, rfl⟩ := ho
    exact hnext hI₁

end Prog

end Sandesh.Lib
