/-
The ways in which a program can come out well.

Some states are bad, and a program may go on in one. What it does there is
of no interest as long as it does not become good again (`Sticky`). Then
the good results of a program can be listed by a relation that knows
nothing of the program's state, of its loops or of its recursion: `Meets`
says that a program has the results of the list and no others. The rules
follow the constructors of a program. For a loop the list is what `Iterates`
one turn's, for a recursion it is a list for each depth of the calls.

The list may name its entries as it likes: `V` says which result of the
program, in which state, an entry stands for.
-/
import Sandesh.Lib.Fix

namespace Sandesh.Lib

universe u v w

/-- Turn after turn, until one turn says what comes out. -/
inductive Iterates {κ : Type v} {ρ : Type w} (turn : κ → κ ⊕ ρ → Prop) : κ → ρ → Prop
  | leave {k : κ} {r : ρ} (h : turn k (.inr r)) : Iterates turn k r
  | again {k k₁ : κ} {r : ρ} (h : turn k (.inl k₁)) (rest : Iterates turn k₁ r) :
      Iterates turn k r

/-- Only some results: the turn that leaves has one of them. -/
theorem iterates_and {κ : Type v} {ρ : Type w} {turn : κ → κ ⊕ ρ → Prop} {P : ρ → Prop}
    {k : κ} {r : ρ} :
    Iterates (fun k o => (∀ r, o = .inr r → P r) ∧ turn k o) k r ↔ P r ∧ Iterates turn k r := by
  constructor
  · intro h
    induction h with
    | leave h => exact ⟨h.1 _ rfl, .leave h.2⟩
    | again h _ ih => exact ⟨ih.1, .again h.2 ih.2⟩
  · intro hand
    obtain ⟨hP, h⟩ := hand
    induction h with
    | leave h => exact .leave ⟨fun r heq => Sum.inr.inj heq ▸ hP, h⟩
    | again h _ ih => exact .again ⟨fun r heq => (nomatch heq), h⟩ (ih hP)

namespace Prog

variable {σ ε α β τ : Type u} {ρ κ : Type v} {χ : Type w} {good : σ → Prop}

-- ================================================================= sticky

variable (good) in
/-- No program state is good behind one that is not. -/
def Sticky (m : Prog σ ε α) : Prop := ∀ s res s', m.Runs s res s' → good s' → good s

theorem sticky_pure (a : α) : Sticky good (Pure.pure a : Prog σ ε α) := by
  intro s res s' hrun hgood
  rw [← (runs_pure.mp hrun).2]
  exact hgood

theorem sticky_throw (e : ε) : Sticky good (throw e : Prog σ ε α) := by
  intro s res s' hrun hgood
  rw [← (runs_throw.mp hrun).2]
  exact hgood

theorem Sticky.bind {m : Prog σ ε α} {f : α → Prog σ ε β} (hm : Sticky good m)
    (hf : ∀ a, Sticky good (f a)) : Sticky good (m >>= f) := by
  intro s res s' hrun hgood
  rcases runs_bind.mp hrun with ⟨a, s₁, h₁, h₂⟩ | ⟨e, h₁, -⟩
  · exact hm _ _ _ h₁ (hf a _ _ _ h₂ hgood)
  · exact hm _ _ _ h₁ hgood

theorem Sticky.ite {c : Prop} [Decidable c] {m₁ m₂ : Prog σ ε α} (h₁ : Sticky good m₁)
    (h₂ : Sticky good m₂) : Sticky good (if c then m₁ else m₂) := by
  by_cases h : c
  · rw [if_pos h]
    exact h₁
  · rw [if_neg h]
    exact h₂

theorem Sticky.loop {body : τ → Prog σ ε (τ ⊕ α)} (h : ∀ t, Sticky good (body t)) (t : τ) :
    Sticky good (Prog.loop body t) := by
  intro s res s' hrun
  exact loop_keeps (R := fun s s' => good s' → good s) (fun hab hbc hgood => hab (hbc hgood))
    (fun hturn => h _ _ _ _ hturn) hrun

theorem Sticky.fix {F : (τ → Prog σ ε α) → τ → Prog σ ε α} {hF : Monotone F}
    (h : ∀ g, (∀ t, Sticky good (g t)) → ∀ t, Sticky good (F g t)) (t : τ) :
    Sticky good (Prog.fix F hF t) := by
  intro s res s' hrun
  refine fix_rec (P := fun _ s _ s' => good s' → good s) ?_ hrun
  intro g hg t s res s' hbody
  exact h g (fun t s res s' hrun => hg hrun) t s res s' hbody

-- ================================================================== lists

variable (good) in
/-- The good results of `m` from `s` are those that `L` lists. -/
structure Meets (m : Prog σ ε α) (s : σ) (L : ρ → Prop) (V : α → ρ → σ → Prop) : Prop where
  listed : ∀ {a s'}, m.Runs s (.ok a) s' → good s' → ∃ r, L r ∧ V a r s'
  occurs : ∀ {r}, L r → ∃ a s', m.Runs s (.ok a) s' ∧ good s' ∧ V a r s'

/-- The same list, in other words. -/
theorem Meets.congr {m : Prog σ ε α} {s : σ} {L L' : ρ → Prop} {V : α → ρ → σ → Prop}
    (h : Meets good m s L V) (hL : ∀ r, L r ↔ L' r) : Meets good m s L' V where
  listed hrun hgood := by
    obtain ⟨r, hr, hV⟩ := h.listed hrun hgood
    exact ⟨r, (hL r).mp hr, hV⟩
  occurs hr := h.occurs ((hL _).mpr hr)

/-- The same runs, of another program or from another state. -/
theorem Meets.of_eq {m m' : Prog σ ε α} {s t : σ} {L : ρ → Prop} {V : α → ρ → σ → Prop}
    (h : Meets good m' t L V) (heq : m s = m' t) : Meets good m s L V where
  listed hrun hgood := by
    unfold Runs at hrun
    rw [heq] at hrun
    exact h.listed hrun hgood
  occurs hr := by
    obtain ⟨a, s', hrun, hgood, hV⟩ := h.occurs hr
    refine ⟨a, s', ?_, hgood, hV⟩
    unfold Runs
    rw [heq]
    exact hrun

theorem meets_pure {a : α} {s : σ} {r : ρ} {V : α → ρ → σ → Prop} (hs : good s)
    (hV : V a r s) : Meets good (Pure.pure a : Prog σ ε α) s (fun r' => r' = r) V where
  listed hrun _ := by
    obtain ⟨heq, rfl⟩ := runs_pure.mp hrun
    exact ⟨r, rfl, Except.ok.inj heq ▸ hV⟩
  occurs hr := ⟨a, s, runs_pure.mpr ⟨rfl, rfl⟩, hs, hr ▸ hV⟩

/-- A program that comes out badly, or not at all. -/
theorem meets_none {m : Prog σ ε α} {s : σ} {V : α → ρ → σ → Prop}
    (h : ∀ a s', m.Runs s (.ok a) s' → ¬ good s') : Meets good m s (fun _ => False) V where
  listed hrun hgood := absurd hgood (h _ _ hrun)
  occurs hr := hr.elim

theorem Meets.bind {m : Prog σ ε α} {f : α → Prog σ ε β} {s : σ} {L : ρ → Prop}
    {V : α → ρ → σ → Prop} {K : ρ → χ → Prop} {W : β → χ → σ → Prop}
    (hm : Meets good m s L V) (hf : ∀ a, Sticky good (f a))
    (hnext : ∀ {a r s₁}, good s₁ → L r → V a r s₁ → Meets good (f a) s₁ (K r) W) :
    Meets good (m >>= f) s (fun x => ∃ r, L r ∧ K r x) W where
  listed hrun hgood := by
    rcases runs_bind.mp hrun with ⟨a, s₁, h₁, h₂⟩ | ⟨e, -, he⟩
    · have hgood₁ := hf a _ _ _ h₂ hgood
      obtain ⟨r, hr, hV⟩ := hm.listed h₁ hgood₁
      obtain ⟨x, hx, hW⟩ := (hnext hgood₁ hr hV).listed h₂ hgood
      exact ⟨x, ⟨r, hr, hx⟩, hW⟩
    · exact nomatch he
  occurs hex := by
    obtain ⟨r, hr, hx⟩ := hex
    obtain ⟨a, s₁, h₁, hgood₁, hV⟩ := hm.occurs hr
    obtain ⟨b, s', h₂, hgood, hW⟩ := (hnext hgood₁ hr hV).occurs hx
    exact ⟨b, s', h₁.bind_ok h₂, hgood, hW⟩

theorem Meets.ite {c : Prop} [Decidable c] {m₁ m₂ : Prog σ ε α} {s : σ}
    {L₁ L₂ : ρ → Prop} {V : α → ρ → σ → Prop} (h₁ : c → Meets good m₁ s L₁ V)
    (h₂ : ¬ c → Meets good m₂ s L₂ V) :
    Meets good (if c then m₁ else m₂) s (fun r => if c then L₁ r else L₂ r) V := by
  by_cases h : c
  · simp only [if_pos h]
    exact h₁ h
  · simp only [if_neg h]
    exact h₂ h

/-- What an entry of the list of one turn stands for: a place to go on from,
or a result. -/
inductive Turned (At : τ → κ → σ → Prop) (V : α → ρ → σ → Prop) :
    τ ⊕ α → κ ⊕ ρ → σ → Prop
  | again {t : τ} {k : κ} {s : σ} (h : At t k s) : Turned At V (.inl t) (.inl k) s
  | leave {a : α} {r : ρ} {s : σ} (h : V a r s) : Turned At V (.inr a) (.inr r) s

theorem Meets.loop {body : τ → Prog σ ε (τ ⊕ α)} (At : τ → κ → σ → Prop)
    {V : α → ρ → σ → Prop} {turn : κ → κ ⊕ ρ → Prop} (hbody : ∀ t, Sticky good (body t))
    (h : ∀ {t k s}, At t k s → Meets good (body t) s (turn k) (Turned At V))
    {t : τ} {k : κ} {s : σ} (hat : At t k s) :
    Meets good (Prog.loop body t) s (Iterates turn k) V where
  listed hrun hgood := by
    -- over the turns of the run; the state before the last of them is good too
    refine (loop_rec (P := fun t s res s' => (good s' → good s) ∧ (good s' → ∀ a,
      res = .ok a → ∀ k, At t k s → ∃ r, Iterates turn k r ∧ V a r s')) ?_ ?_ ?_ hrun).2
      hgood _ rfl k hat
    · intro t s a s' hturn
      refine ⟨hbody t _ _ _ hturn, fun hgood a' heq k hat => ?_⟩
      cases heq
      obtain ⟨o, ho, hV⟩ := (h hat).listed hturn hgood
      cases hV with
      | leave hV => exact ⟨_, .leave ho, hV⟩
    · intro t s e s' hturn
      exact ⟨hbody t _ _ _ hturn, fun _ a heq => nomatch heq⟩
    · intro t s t₁ s₁ res s' hturn ih
      obtain ⟨hbefore, ih⟩ := ih
      refine ⟨fun hgood => hbody t _ _ _ hturn (hbefore hgood), fun hgood a heq k hat => ?_⟩
      obtain ⟨o, ho, hV⟩ := (h hat).listed hturn (hbefore hgood)
      cases hV with
      | again hat =>
          obtain ⟨r, hr, hV⟩ := ih hgood a heq _ hat
          exact ⟨r, .again ho hr, hV⟩
  occurs hr := by
    -- over the turns of the list
    induction hr generalizing t s with
    | leave hturn =>
        obtain ⟨o, s', hrun, hgood, hV⟩ := (h hat).occurs hturn
        cases hV with
        | leave hV => exact ⟨_, s', Runs.leave hrun, hgood, hV⟩
    | again hturn _ ih =>
        obtain ⟨o, s₁, hrun, -, hV⟩ := (h hat).occurs hturn
        cases hV with
        | again hat =>
            obtain ⟨a, s', hrest, hgood, hV⟩ := ih hat
            exact ⟨a, s', Runs.again hrun hrest, hgood, hV⟩

/-- A recursion: `L n` lists what it has come to within `n` calls. -/
theorem Meets.fix {F : (τ → Prog σ ε α) → τ → Prog σ ε α} {hF : Monotone F}
    (At : τ → κ → σ → Prop) {V : τ → α → ρ → σ → Prop} {L : Nat → κ → ρ → Prop}
    (hsticky : ∀ g, (∀ t, Sticky good (g t)) → ∀ t, Sticky good (F g t))
    (hzero : ∀ k r, ¬ L 0 k r)
    (hstep : ∀ {g n}, (∀ t, Sticky good (g t)) →
      (∀ {t k s}, At t k s → Meets good (g t) s (L n k) (V t)) →
      ∀ {t k s}, At t k s → Meets good (F g t) s (L (n + 1) k) (V t))
    {t : τ} {k : κ} {s : σ} (hat : At t k s) :
    Meets good (Prog.fix F hF t) s (fun r => ∃ n, L n k r) (V t) := by
  -- each approximation of the program has its own list
  have happrox : ∀ n, (∀ t, Sticky good (approx F n t)) ∧
      ∀ {t k s}, At t k s → Meets good (approx F n t) s (L n k) (V t) := by
    intro n
    induction n with
    | zero =>
        refine ⟨fun t s res s' hrun => ?_, fun _ => ⟨fun hrun => ?_, fun hr => ?_⟩⟩
        · obtain ⟨n, hn⟩ := hrun
          exact nomatch hn
        · obtain ⟨n, hn⟩ := hrun
          exact nomatch hn
        · exact absurd hr (hzero _ _)
    | succ n ih => exact ⟨hsticky _ ih.1, hstep ih.1 ih.2⟩
  constructor
  · intro a s' hrun hgood
    obtain ⟨n, hn⟩ := hrun
    obtain ⟨r, hr, hV⟩ := ((happrox n).2 hat).listed ⟨n, hn⟩ hgood
    exact ⟨r, ⟨n, hr⟩, hV⟩
  · intro r hex
    obtain ⟨n, hr⟩ := hex
    obtain ⟨a, s', hrun, hgood, hV⟩ := ((happrox n).2 hat).occurs hr
    obtain ⟨m, hm⟩ := hrun
    refine ⟨a, s', ⟨max n m, ?_⟩, hgood, hV⟩
    exact approx_le hF (Nat.le_max_left n m) t s _
      ((approx F n t s).mono (Nat.le_max_right n m) hm)

end Prog

end Sandesh.Lib
