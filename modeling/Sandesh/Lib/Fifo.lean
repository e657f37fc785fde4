/-
Queues that programs serve.

An object has member functions, each a `Prog` over its state. `Served`
says that a sequence of calls returned, with these results, and what each
of them did; `CallsMeet` that each call was made under a condition.
`served_of_meets` is the rule: an invariant under which a call that meets
the condition returns and keeps it.

Such an object is a queue if every call pushes at one end, pops at the
other, or leaves the contents alone (`QueueEvent.Moves`). Then what was in it
and what was pushed is what was popped and what is left (`served_fifo`).
-/
import Sandesh.Lib.Prog

namespace Sandesh.Lib

universe u

-- ================================================================= calls

section Calls

variable {σ ε ο ξ : Type u} {code : ο → Prog σ ε ξ} {R : σ → ο → ξ → σ → Prop}
  {C : σ → ο → Prop} {I : σ → Prop}

/-- The calls return one after the other, each with its result and with
`R` between the states before and after it. -/
def Served (code : ο → Prog σ ε ξ) (R : σ → ο → ξ → σ → Prop) :
    σ → List (ο × ξ) → σ → Prop
  | s, [], s' => s' = s
  | s, c :: log, s' =>
      ∃ s₁, (code c.1).Runs s (.ok c.2) s₁ ∧ R s c.1 c.2 s₁ ∧ Served code R s₁ log s'

/-- Every call is made in a state that meets the condition. -/
def CallsMeet (code : ο → Prog σ ε ξ) (C : σ → ο → Prop) : σ → List ο → Prop
  | _, [] => True
  | s, o :: os =>
      C s o ∧ ∀ x s', (code o).Runs s (.ok x) s' → CallsMeet code C s' os

theorem served_of_meets
    (can : ∀ s o, I s → C s o →
      ∃ x s', (code o).Runs s (.ok x) s' ∧ I s' ∧ R s o x s') :
    ∀ {s : σ} (os : List ο), I s → CallsMeet code C s os →
      ∃ log s', log.map Prod.fst = os ∧ Served code R s log s' ∧ I s' := by
  intro s os
  induction os generalizing s with
  | nil =>
      intro hI _
      exact ⟨[], s, rfl, rfl, hI⟩
  | cons o os ih =>
      intro hI hmeets
      obtain ⟨hC, hrest⟩ := hmeets
      obtain ⟨x, s₁, hruns, hI₁, hR⟩ := can s o hI hC
      obtain ⟨log, s', hlog, hserved, hI'⟩ := ih hI₁ (hrest x s₁ hruns)
      refine ⟨(o, x) :: log, s', ?_, ⟨s₁, hruns, hR, hserved⟩, hI'⟩
      rw [List.map_cons, hlog]

end Calls

-- ================================================================ queues

section Queues

variable {α : Type u}

/-- What a call does to a queue. -/
inductive QueueEvent (α : Type u)
  | push (xs : List α)
  | pop (xs : List α)
  | idle

namespace QueueEvent

/-- What an event does to a queue. -/
def Moves : List α → QueueEvent α → List α → Prop
  | q, .push xs, q' => q' = q ++ xs
  | q, .pop xs, q' => q = xs ++ q'
  | q, .idle, q' => q' = q

/-- What went in, in order. -/
def pushed : List (QueueEvent α) → List α
  | [] => []
  | .push xs :: es => xs ++ pushed es
  | .pop _ :: es => pushed es
  | .idle :: es => pushed es

/-- What came out, in order. -/
def popped : List (QueueEvent α) → List α
  | [] => []
  | .push _ :: es => popped es
  | .pop xs :: es => xs ++ popped es
  | .idle :: es => popped es

theorem Moves.law {q q' q'' : List α} {e : QueueEvent α} {es : List (QueueEvent α)}
    (h : e.Moves q q') (hrest : q' ++ pushed es = popped es ++ q'') :
    q ++ pushed (e :: es) = popped (e :: es) ++ q'' := by
  cases e with
  | push xs =>
      have hq : q' = q ++ xs := h
      rw [hq, List.append_assoc] at hrest
      exact hrest
  | pop xs =>
      have hq : q = xs ++ q' := h
      rw [hq]
      show xs ++ q' ++ pushed es = xs ++ popped es ++ q''
      rw [List.append_assoc, hrest, List.append_assoc]
  | idle =>
      have hq : q' = q := h
      rw [hq] at hrest
      exact hrest

end QueueEvent

open QueueEvent

variable {σ ε ο ξ : Type u} {code : ο → Prog σ ε ξ} {R : σ → ο → ξ → σ → Prop}
  {view : σ → List α} {event : ο → ξ → QueueEvent α}

/-- First in, first out. -/
theorem served_fifo
    (moves : ∀ {s o x s'}, R s o x s' → (event o x).Moves (view s) (view s')) :
    ∀ (log : List (ο × ξ)) {s s' : σ}, Served code R s log s' →
      view s ++ pushed (log.map fun c => event c.1 c.2)
        = popped (log.map fun c => event c.1 c.2) ++ view s' := by
  intro log
  induction log with
  | nil =>
      intro s s' h
      have hs : s' = s := h
      rw [hs]
      exact List.append_nil _
  | cons c log ih =>
      intro s s' h
      obtain ⟨s₁, -, hR, hrest⟩ := h
      exact (moves hR).law (ih hrest)

end Queues

end Sandesh.Lib
