/-
Code that gets through a text, or does not.

`Settles m s rest good P` says that `m` takes the text `s` exactly if
`good`, and otherwise fails there. What is good of two steps is good of
both (`Settles.bind`), so that the condition of a whole is put together
from those of its parts. `Goes m s Q` says less: `m` fails, or it is then
at a text with `Q`. A container is lost once its loop leaves the reader at
a tag that is not an end tag (`Stuck`), wherever that is.
-/
import Sandesh.CppGen.Proofs.ReadsAs

namespace Sandesh.CppGen

open Lib Xml Header LookaheadReader
open Lib.Prog (Runs runs_pure runs_throw)

variable {α β : Type} {m : Read α} {f : α → Read β} {s t rest : Bytes} {P : α → Prop}
  {P' : β → Prop} {good good' : Prop} {Q Q' : Bytes → Prop}

-- ============================================================= settles

/-- The read takes the text if the condition holds, and fails on it
otherwise. -/
structure Settles (m : Read α) (s rest : Bytes) (good : Prop) (P : α → Prop) : Prop where
  takes : good → Takes m s rest P
  fails : ¬ good → Fails m (s ++ rest)

/-- The good case. -/
theorem Takes.settles (h : Takes m s rest P) (hgood : good) : Settles m s rest good P :=
  ⟨fun _ => h, fun hno => absurd hgood hno⟩

/-- The bad case. -/
theorem Fails.settles (h : Fails m (s ++ rest)) (hbad : ¬ good) : Settles m s rest good P :=
  ⟨fun hgood => absurd hgood hbad, fun _ => h⟩

/-- The condition in other words. -/
theorem Settles.congr (h : Settles m s rest good P) (hiff : good' ↔ good) :
    Settles m s rest good' P :=
  ⟨fun hgood => h.takes (hiff.mp hgood), fun hbad => h.fails (mt hiff.mpr hbad)⟩

/-- One read after the other. -/
theorem Settles.bind (h : Settles m s (t ++ rest) good P)
    (hf : ∀ a, P a → Settles (f a) t rest good' P') :
    Settles (m >>= f) (s ++ t) rest (good ∧ good') P' := by
  constructor
  · intro hboth
    exact (h.takes hboth.1).bind fun a ha => (hf a ha).takes hboth.2
  · intro hbad
    rw [List.append_assoc]
    by_cases hgood : good
    · refine (h.takes hgood).fails fun a ha => (hf a ha).fails fun hgood' => ?_
      exact hbad ⟨hgood, hgood'⟩
    · exact (h.fails hgood).bind

/-- A function of the result. -/
theorem Settles.map (h : Settles m s rest good P) {g : α → β} (hg : ∀ a, P a → P' (g a)) :
    Settles (m >>= fun a => pure (g a)) s rest good P' :=
  ⟨fun hgood => (h.takes hgood).map hg, fun hbad => (h.fails hbad).bind⟩

-- ================================================================ goes

/-- `m` stops, and if it does not fail then before a text with `Q`. -/
def Goes (m : Read α) (s : Bytes) (Q : Bytes → Prop) : Prop :=
  ∀ r, Ready s r → (∃ e r', m.Runs r (.error (.fault e)) r')
    ∨ ∃ a r' s', m.Runs r (.ok a) r' ∧ Q s' ∧ Ready s' r'

/-- Nothing is read. -/
theorem goes_pure {a : α} (h : Q s) : Goes (pure a) s Q :=
  fun r hr => .inr ⟨a, r, s, runs_pure.mpr ⟨rfl, rfl⟩, h, hr⟩

/-- Less is said of what is left. -/
theorem Goes.imp (h : Goes m s Q) (hQ : ∀ s', Q s' → Q' s') : Goes m s Q' := by
  intro r hr
  refine (h r hr).imp_right fun hex => ?_
  obtain ⟨a, r', s', hruns, hs', hr'⟩ := hex
  exact ⟨a, r', s', hruns, hQ s' hs', hr'⟩

/-- A read that fails. -/
theorem Fails.goes (h : Fails m s) : Goes m s Q := fun r hr => .inl (h r hr)

/-- A read that takes its text. -/
theorem Takes.goes (h : Takes m s rest P) (hQ : Q rest) : Goes m (s ++ rest) Q := by
  intro r hr
  obtain ⟨a, r', hruns, -, hr'⟩ := h r hr
  exact .inr ⟨a, r', rest, hruns, hQ, hr'⟩

/-- Either of the two. -/
theorem Settles.goes (h : Settles m s rest good P) (hQ : Q rest) : Goes m (s ++ rest) Q := by
  by_cases hgood : good
  · exact (h.takes hgood).goes hQ
  · exact (h.fails hgood).goes

/-- One read after the other. -/
theorem Goes.bind (h : Goes m s Q) (hf : ∀ a s', Q s' → Goes (f a) s' Q') :
    Goes (m >>= f) s Q' := by
  intro r hr
  rcases h r hr with ⟨e, r₁, hruns⟩ | ⟨a, r₁, s₁, hruns, hQ, hr₁⟩
  · exact .inl ⟨e, r₁, Runs.bind_error hruns⟩
  · rcases hf a s₁ hQ r₁ hr₁ with ⟨e, r₂, hruns₂⟩ | ⟨b, r₂, s₂, hruns₂, hQ', hr₂⟩
    · exact .inl ⟨e, r₂, hruns.bind_ok hruns₂⟩
    · exact .inr ⟨b, r₂, s₂, hruns.bind_ok hruns₂, hQ', hr₂⟩

/-- The second one fails. -/
theorem Goes.fails (h : Goes m s Q) (hf : ∀ a s', Q s' → Fails (f a) s') :
    Fails (m >>= f) s := by
  intro r hr
  rcases h r hr with ⟨e, r₁, hruns⟩ | ⟨a, r₁, s₁, hruns, hQ, hr₁⟩
  · exact ⟨e, r₁, Runs.bind_error hruns⟩
  · obtain ⟨e, r₂, hruns₂⟩ := hf a s₁ hQ r₁ hr₁
    exact ⟨e, r₂, hruns.bind_ok hruns₂⟩

-- =============================================================== loops

section Loops

variable {γ : Type} {elem : Read Int}

/-- What holds behind every element holds behind them all. -/
theorem behind_elems {text : γ → Bytes} {R : Bytes → Prop} {vs : List γ}
    (hR : ∀ v ∈ vs, ∀ rest, R rest → R (text v ++ rest)) {rest : Bytes} (hrest : R rest) :
    R (vs.flatMap text ++ rest) := by
  induction vs with
  | nil => exact hrest
  | cons v vs ih =>
      rw [List.flatMap_cons, List.append_assoc]
      exact hR v List.mem_cons_self _ (ih fun w hw => hR w (List.mem_cons_of_mem _ hw))

/-- No elements. -/
theorem settles_none (hgood : good) (acc : Int) : Settles (skipElems elem 0 acc) [] rest good
    (fun n => n = acc + (([] : Bytes).length : Int)) :=
  Takes.settles (takes_pure (Int.add_zero acc).symm) hgood

/-- The elements of a container, each by itself. `R` is what an element
asks of the text behind it. -/
theorem settles_elems {text : γ → Bytes} {good : γ → Prop} {R : Bytes → Prop} {vs : List γ}
    (hR : ∀ v ∈ vs, ∀ rest, R rest → R (text v ++ rest))
    (h : ∀ v ∈ vs, ∀ rest, R rest → Settles elem (text v) rest (good v)
      (fun n => n = (text v).length)) {rest : Bytes} (hrest : R rest) (acc : Int) :
    Settles (skipElems elem vs.length acc) (vs.flatMap text) rest (∀ v ∈ vs, good v)
      (fun n => n = acc + (vs.flatMap text).length) := by
  induction vs generalizing acc with
  | nil => exact settles_none nofun acc
  | cons v vs ih =>
      have hR' : ∀ w ∈ vs, ∀ rest, R rest → R (text w ++ rest) :=
        fun w hw => hR w (List.mem_cons_of_mem _ hw)
      have hv := h v List.mem_cons_self _ (behind_elems hR' hrest)
      rw [List.flatMap_cons]
      refine (hv.bind fun n hn => ?_).congr List.forall_mem_cons
      have hvs := ih hR' (fun w hw => h w (List.mem_cons_of_mem _ hw)) (acc + n)
      subst hn
      rw [List.length_append, Int.natCast_add, ← Int.add_assoc]
      exact hvs

/-- A loop each of whose turns leads from `Q (n + 1)` to `Q n`. -/
theorem goes_elems {Q : Nat → Bytes → Prop}
    (h : ∀ n s, Q (n + 1) s → Goes elem s (Q n)) :
    ∀ (n : Nat) (acc : Int) (s : Bytes), Q n s → Goes (skipElems elem n acc) s (Q 0) := by
  intro n
  induction n with
  | zero =>
      intro acc s hs
      exact goes_pure hs
  | succ n ih =>
      intro acc s hs
      exact (h n s hs).bind fun ret s' hs' => ih (acc + ret) s' hs'

end Loops

-- ========================================================== containers

/-- Before a tag that ends nothing. -/
def Stuck (s : Bytes) : Prop := ∃ c tail, c ≠ kcXMLSlash ∧ s = kcXMLTagO :: c :: tail

/-- The contents of a container are taken, or the end tag is not reached. -/
structure Passes (m : Read α) (s rest : Bytes) (good : Prop) (P : α → Prop) : Prop where
  takes : good → Takes m s rest P
  stuck : ¬ good → Goes m (s ++ rest) Stuck

/-- What settles passes. -/
theorem Settles.passes (h : Settles m s rest good P) : Passes m s rest good P :=
  ⟨h.takes, fun hbad => (h.fails hbad).goes⟩

/-- The condition in other words. -/
theorem Passes.congr (h : Passes m s rest good P) (hiff : good' ↔ good) :
    Passes m s rest good' P :=
  ⟨fun hgood => h.takes (hiff.mp hgood), fun hbad => h.stuck (mt hiff.mpr hbad)⟩

/-- The tags around the contents: a container is skipped exactly if these
are taken. -/
theorem Passes.settles {name attrs : Bytes} {body : α → Read Int} {a : α} {loop : Read Int}
    (hname : IsName name)
    (hbegin : ∀ rest, Takes m (openTag name attrs) rest (fun x => x = a))
    (hbody : body a = do
      let result ← loop
      let ret2 ← Prod.fst <$> Reads.code.get (.tag true)
      pure (result + ret2))
    (hloop : Passes loop s (closeTag name ++ rest) good
      (fun n => n = (openTag name attrs).length + s.length)) :
    Settles (m >>= body) (between name attrs s) rest good
      (fun n => n = (between name attrs s).length) := by
  rw [between, List.append_assoc]
  constructor
  · intro hgood
    refine (hbegin _).bind fun x hx => ?_
    rw [hx, hbody]
    refine (hloop.takes hgood).bind fun n hn => ?_
    refine (takes_close hname rest).map fun k hk => ?_
    rw [hn, hk]
    simp only [List.length_append, Int.natCast_add, Int.add_assoc]
  · intro hbad
    have hassoc : openTag name attrs ++ (s ++ closeTag name) ++ rest
        = openTag name attrs ++ (s ++ (closeTag name ++ rest)) := by
      simp only [List.append_assoc]
    rw [hassoc]
    refine (hbegin _).fails fun x hx => ?_
    rw [hx, hbody]
    refine (hloop.stuck hbad).fails fun n s' hs' => ?_
    obtain ⟨c, tail, hc, rfl⟩ := hs'
    exact (fails_close hc tail).bind

end Sandesh.CppGen
