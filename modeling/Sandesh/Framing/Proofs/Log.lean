/-
The log of extractions only grows: whatever a turn, a call or a run does,
the cuts made before it are still there after it, and a turn on an
"entire" answer adds exactly the cut it is about to make. A bad
extraction therefore shows in every state reached after it.

The two rules at the end turn facts about one event into facts about a
run, for a condition `P` on each step: an invariant that every step under
`P` keeps holds to the end (`run_of_eachStep`), and if a step without `P`
always logs a bad extraction, a run that logs none has met `P` throughout
(`eachStep_of_run`).
-/
import Sandesh.Framing.Basic

namespace Sandesh.Framing

open Lib SandeshReader

variable {stringToInteger : Bytes → Nat} {cb : List Bytes → Bool}

@[simp] theorem delivered_cuts (s : Session) :
    s.delivered.cuts = s.cuts ++ [s.nextCut] := rfl

@[simp] theorem fail_cuts (s : Session) : s.fail.cuts = s.cuts := rfl

theorem afterMsg_cuts (s : Session) :
    (s.afterMsg stringToInteger).2.cuts = s.cuts := by
  rw [Session.afterMsg]
  by_cases hleft : s.reader_.LeftOver = true
  · rw [if_pos hleft]
    by_cases hin : s.reader_.buf_.length < s.reader_.offset_
    · rw [if_pos hin]
    · rw [if_neg hin]
      dsimp only
      cases (s.reader_.ReplaceBuf (s.reader_.buf_.drop
          s.reader_.offset_)).ExtractMsg stringToInteger with
      | error f => rfl
      | ok x => rfl
  · rw [if_neg hleft]

/-- What a turn does to the log. -/
theorem turn_cuts (t : Bool × Int) (s : Session) :
    (turn stringToInteger cb t s).2.cuts
      = if t.2 < 0 ∨ t.1 = false then s.cuts else s.cuts ++ [s.nextCut] := by
  obtain ⟨flag, result⟩ := t
  by_cases hneg : result < 0
  · simp [turn, hneg]
  · cases flag with
    | false => simp [turn, hneg]
    | true =>
        by_cases hrange : s.nextCut.InRange
        · by_cases hcb : cb s.delivered.received = true
          · simp [turn, hneg, hrange, hcb, afterMsg_cuts]
          · simp [turn, hneg, hrange, hcb]
        · simp [turn, hneg, hrange]

theorem turn_cuts_prefix (t : Bool × Int) (s : Session) :
    s.cuts <+: (turn stringToInteger cb t s).2.cuts := by
  rw [turn_cuts]
  split
  · exact List.prefix_rfl
  · exact List.prefix_append _ _

/-- The turns of one call only add to the log. -/
theorem loop_cuts {t : Bool × Int} {s s' : Session} {res : Except Fault Unit}
    (h : (Prog.loop (fun t => Prog.act (turn stringToInteger cb t)) t).Runs s
      res s') : s.cuts <+: s'.cuts := by
  refine Prog.loop_keeps (R := fun a b => a.cuts <+: b.cuts)
    List.IsPrefix.trans ?_ h
  intro t s s₁ res hturn
  rw [Prog.runs_act] at hturn
  have hs := congrArg Prod.snd hturn
  dsimp only at hs
  rw [hs]
  exact turn_cuts_prefix t s

theorem newBuf_cuts (stringToInteger : Bytes → Nat) (buffer : Bytes)
    (s : Session) :
    (newBuf stringToInteger buffer s).2.cuts = s.cuts := by
  simp only [newBuf]
  cases (s.reader_.SetBuf buffer).ExtractMsg stringToInteger with
  | error f => rfl
  | ok x => rfl

theorem onReadMsg_cuts {buffer : Bytes} {s s' : Session}
    {res : Except Fault Unit}
    (h : (onReadMsg stringToInteger cb buffer).Runs s res s') :
    s.cuts <+: s'.cuts := by
  have hnew := newBuf_cuts stringToInteger buffer s
  rcases Prog.runs_bind.mp h with ⟨t, s₁, hact, hloop⟩ | ⟨f, hact, -⟩
  · rw [Prog.runs_act] at hact
    rw [← hnew, ← hact]
    exact loop_cuts hloop
  · rw [Prog.runs_act] at hact
    rw [← hnew, ← hact]

/-- A call while there is a callback. -/
theorem onRead_installed {s s' : Session} {buffer : Bytes}
    {res : Except Fault Unit} (hcb : s.cb_ = true) :
    (handle stringToInteger cb (.read buffer)).Runs s res s'
      ↔ (onReadMsg stringToInteger cb buffer).Runs s res s' := by
  show (OnRead stringToInteger cb buffer s).Ends _ ↔ _
  rw [OnRead, if_pos hcb]
  rfl

/-- A call after the callback is gone. -/
theorem onRead_removed {s : Session} {buffer : Bytes} (hcb : ¬ s.cb_ = true) :
    (handle stringToInteger cb (.read buffer)).Runs s (.ok ())
      { s with num_recv_fail := s.num_recv_fail + 1 } := by
  show (OnRead stringToInteger cb buffer s).Ends _
  rw [OnRead, if_neg hcb, Comp.ends_pure]

theorem handle_cuts {ev : Event} {s s' : Session} {res : Except Fault Unit}
    (h : (handle stringToInteger cb ev).Runs s res s') :
    s.cuts <+: s'.cuts := by
  cases ev with
  | removeCb =>
      rw [handle, Prog.runs_act] at h
      have hs := congrArg Prod.snd h
      dsimp only at hs
      rw [hs]
  | read buffer =>
      by_cases hcb : s.cb_ = true
      · exact onReadMsg_cuts ((onRead_installed hcb).mp h)
      · obtain ⟨-, rfl⟩ := h.unique (onRead_removed hcb)
        exact List.prefix_rfl

theorem run_cuts (evs : List Event) :
    ∀ {s s' : Session} {res : Except Fault Unit},
      (run stringToInteger cb evs).Runs s res s' → s.cuts <+: s'.cuts := by
  induction evs with
  | nil =>
      intro s s' res h
      obtain ⟨-, rfl⟩ := Prog.runs_pure.mp h
      exact List.prefix_rfl
  | cons ev evs ih =>
      intro s s' res h
      rcases Prog.runs_bind.mp h with ⟨_, s₁, hev, hrest⟩ | ⟨f, hev, -⟩
      · exact (handle_cuts hev).trans (ih hrest)
      · exact handle_cuts hev

-- ================================================ rules for whole runs

section Rules

variable {P : Session → Event → Prop} {I : List Event → Session → Prop}

/-- An invariant kept by every step under `P`, the events to come in
view. -/
theorem run_of_eachStep
    (step : ∀ {ev evs s}, I (ev :: evs) s → P s ev →
      ∃ s', (handle stringToInteger cb ev).Runs s (.ok ()) s' ∧ I evs s')
    (evs : List Event) :
    ∀ {s : Session}, I evs s → EachStep stringToInteger cb P evs s →
      ∃ s', (run stringToInteger cb evs).Runs s (.ok ()) s' ∧ I [] s' := by
  induction evs with
  | nil =>
      intro s h _
      exact ⟨s, Prog.runs_pure.mpr ⟨rfl, rfl⟩, h⟩
  | cons ev evs ih =>
      intro s h ⟨hP, hnext⟩
      obtain ⟨s₁, hev, h₁⟩ := step h hP
      obtain ⟨s', hruns, h'⟩ := ih h₁ (hnext s₁ hev)
      exact ⟨s', hev.bind_ok hruns, h'⟩

/-- A run whose log has no bad extraction has met `P` at every step. -/
theorem eachStep_of_run {Good : Cut → Prop}
    (step : ∀ {ev evs s}, I (ev :: evs) s → P s ev →
      ∃ s', (handle stringToInteger cb ev).Runs s (.ok ()) s' ∧ I evs s')
    (bad : ∀ {ev evs s s' res}, I (ev :: evs) s → ¬ P s ev →
      (handle stringToInteger cb ev).Runs s res s' → ∃ c ∈ s'.cuts, ¬ Good c)
    (evs : List Event) :
    ∀ {s s' : Session} {res : Except Fault Unit}, I evs s →
      (run stringToInteger cb evs).Runs s res s' →
      (∀ c ∈ s'.cuts, Good c) → EachStep stringToInteger cb P evs s := by
  induction evs with
  | nil =>
      intro s s' res _ _ _
      trivial
  | cons ev evs ih =>
      intro s s' res h hruns hall
      have hP : P s ev := by
        by_contra hP
        rcases Prog.runs_bind.mp hruns with ⟨_, s₁, hev, hrest⟩ | ⟨f, hev, -⟩
        · obtain ⟨c, hc, hbad⟩ := bad h hP hev
          exact hbad (hall c ((run_cuts evs hrest).subset hc))
        · obtain ⟨c, hc, hbad⟩ := bad h hP hev
          exact hbad (hall c hc)
      refine ⟨hP, ?_⟩
      intro s₁ hev
      obtain ⟨s₂, hev₂, h₂⟩ := step h hP
      obtain ⟨-, rfl⟩ := hev.unique hev₂
      rcases Prog.runs_bind.mp hruns with ⟨_, s₃, hev₃, hrest⟩ | ⟨f, hev₃, -⟩
      · obtain ⟨-, rfl⟩ := hev₃.unique hev
        exact ih h₂ hrest hall
      · have := (hev₃.unique hev).1
        cases this

end Rules

end Sandesh.Framing
