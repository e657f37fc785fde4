/-
Nesting.

A text in which some symbols open and some close is `Balanced` if every
opening symbol has its closing one: no more are closed than opened in any
part that starts it, and as many in all. `walk` follows the text from a
given depth. It composes along an append, so that a text can be followed
piece by piece, and from depth zero to depth zero it is balance
(`balanced_of_walk`).
-/
import Mathlib.Data.List.Basic

namespace Sandesh.Lib.Nesting

variable {α : Type} (side : α → Option Bool)

/-- The symbols that open. -/
def opened (t : List α) : Nat := t.countP fun c => side c == some true

/-- The symbols that close. -/
def closed (t : List α) : Nat := t.countP fun c => side c == some false

/-- No head closes more than it opens, and the whole closes all. -/
structure Balanced (t : List α) : Prop where
  heads : ∀ p, p <+: t → closed side p ≤ opened side p
  total : opened side t = closed side t

/-- The depth behind a symbol. There is none if it closes what is not
open. -/
def enter : Option Bool → Nat → Option Nat
  | none, n => some n
  | some true, n => some (n + 1)
  | some false, 0 => none
  | some false, n + 1 => some n

/-- The depth behind a text, from the depth before it. -/
def walk (n : Nat) (t : List α) : Option Nat := t.foldlM (fun m c => enter (side c) m) n

variable {side}

@[simp] theorem walk_nil (n : Nat) : walk side n [] = some n := rfl

theorem walk_cons (c : α) (t : List α) (n : Nat) :
    walk side n (c :: t) = (enter (side c) n).bind fun m => walk side m t :=
  List.foldlM_cons

theorem walk_append (t u : List α) (n : Nat) :
    walk side n (t ++ u) = (walk side n t).bind fun m => walk side m u :=
  List.foldlM_append

/-- Two pieces, one after the other. -/
theorem walk_trans {t u : List α} {n m k : Nat} (ht : walk side n t = some m)
    (hu : walk side m u = some k) : walk side n (t ++ u) = some k := by
  rw [walk_append, ht]
  exact hu

/-- A text that neither opens nor closes. -/
theorem walk_plain {t : List α} (h : ∀ c ∈ t, side c = none) (n : Nat) :
    walk side n t = some n := by
  induction t with
  | nil => rfl
  | cons c t ih =>
      rw [walk_cons, h c List.mem_cons_self]
      exact ih fun d hd => h d (List.mem_cons_of_mem c hd)

theorem enter_deeper {o : Option Bool} {n m : Nat} (d : Nat) (h : enter o n = some m) :
    enter o (n + d) = some (m + d) := by
  match o, n with
  | none, n =>
      rw [← Option.some.inj h]
      rfl
  | some true, n =>
      rw [← Option.some.inj h, Nat.add_right_comm]
      rfl
  | some false, 0 => cases h
  | some false, n + 1 =>
      rw [← Option.some.inj h, Nat.add_right_comm]
      rfl

/-- What can be closed from some depth can be closed from a greater one. -/
theorem walk_deeper {t : List α} (d : Nat) :
    ∀ {n m : Nat}, walk side n t = some m → walk side (n + d) t = some (m + d) := by
  induction t with
  | nil =>
      intro n m h
      rw [Option.some.inj h]
      rfl
  | cons c t ih =>
      intro n m h
      rw [walk_cons] at h ⊢
      obtain ⟨k, hk, hm⟩ := Option.bind_eq_some_iff.mp h
      rw [enter_deeper d hk]
      exact ih hm

theorem enter_count {c : α} {n m : Nat} (h : enter (side c) n = some m) :
    n + opened side [c] = m + closed side [c] := by
  unfold opened closed
  match hc : side c, n with
  | none, n =>
      rw [hc] at h
      rw [← Option.some.inj h]
      simp [hc]
  | some true, n =>
      rw [hc] at h
      rw [← Option.some.inj h]
      simp [hc]
  | some false, 0 =>
      rw [hc] at h
      cases h
  | some false, n + 1 =>
      rw [hc] at h
      rw [← Option.some.inj h]
      simp [hc]

/-- The depth counts what is open. -/
theorem walk_count {t : List α} :
    ∀ {n m : Nat}, walk side n t = some m → n + opened side t = m + closed side t := by
  induction t with
  | nil =>
      intro n m h
      rw [Option.some.inj h]
      rfl
  | cons c t ih =>
      intro n m h
      rw [walk_cons] at h
      obtain ⟨k, hk, hm⟩ := Option.bind_eq_some_iff.mp h
      have hfirst := enter_count hk
      have hrest := ih hm
      have hopened : opened side ([c] ++ t) = opened side [c] + opened side t :=
        List.countP_append
      have hclosed : closed side ([c] ++ t) = closed side [c] + closed side t :=
        List.countP_append
      rw [List.singleton_append] at hopened hclosed
      omega

theorem balanced_of_walk {t : List α} (h : walk side 0 t = some 0) : Balanced side t := by
  refine ⟨?_, ?_⟩
  · intro p hp
    obtain ⟨u, rfl⟩ := hp
    rw [walk_append] at h
    obtain ⟨m, hm, -⟩ := Option.bind_eq_some_iff.mp h
    have hcount := walk_count hm
    omega
  · have hcount := walk_count h
    omega

end Sandesh.Lib.Nesting
