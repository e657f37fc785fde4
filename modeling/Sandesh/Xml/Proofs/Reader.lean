/-
The reader as a queue of bytes.

What `read` will hand out is the lookahead and then the transport
(`stream`); what `peek` will hand out skips `data2_` (`ahead`). On these
two lists one character is one step (`read_cons`, `peek_cons`), and an
empty list is where the reader starts repeating itself (`read_nil`,
`peek_nil`). The four loops are followed along the list: `charsLoop_runs`
and `tagLoop_runs` when the delimiter is there, and `charsLoop_dry` and
`tagLoop_dry` when it is not, where a loop that does come to an end has
taken an old byte for its delimiter.
-/
import Sandesh.Xml.Reader

namespace Sandesh.Xml

open Lib

-- ============================================================= queues

namespace LookaheadReader

/-- `data_`, while `peek` holds it. -/
def held (r : LookaheadReader) : Bytes := if r.hasData_ then [r.data_] else []

/-- What is left of `data2_`. -/
def held2 (r : LookaheadReader) : Bytes :=
  if r.has2Data_ then
    if r.firstRead_ then [r.data2_.2] else [r.data2_.1, r.data2_.2]
  else []

/-- What has been looked at and not read. -/
def look (r : LookaheadReader) : Bytes := r.held ++ r.held2

/-- The bytes `read` hands out. -/
def stream (r : LookaheadReader) : Bytes := r.look ++ r.trans

/-- The bytes `peek` hands out. -/
def ahead (r : LookaheadReader) : Bytes := r.held ++ r.trans

/-- One more byte taken from the front. -/
theorem read_cons {r : LookaheadReader} {c : UInt8} {t : Bytes}
    (h : r.stream = c :: t) :
    ∃ r', r.read = (c, r') ∧ r'.stream = t ∧ r'.look = r.look.tail
      ∧ r'.ranOut = r.ranOut := by
  obtain ⟨trans, hasData_, data_, has2Data_, data2_, firstRead_, ranOut⟩ := r
  cases hasData_ with
  | true =>
      have hc : data_ = c := by
        simpa [stream, look, held] using congrArg List.head? h
      subst hc
      exact ⟨_, rfl, by simpa [stream, look, held, held2] using h, rfl, rfl⟩
  | false =>
      cases has2Data_ with
      | true =>
          cases firstRead_ with
          | true =>
              have hc : data2_.2 = c := by
                simpa [stream, look, held, held2] using congrArg List.head? h
              subst hc
              exact ⟨_, rfl, by simpa [stream, look, held, held2] using h,
                rfl, rfl⟩
          | false =>
              have hc : data2_.1 = c := by
                simpa [stream, look, held, held2] using congrArg List.head? h
              subst hc
              exact ⟨_, rfl, by simpa [stream, look, held, held2] using h,
                rfl, rfl⟩
      | false =>
          cases trans with
          | nil => simp [stream, look, held, held2] at h
          | cons b trans =>
              have hc : b = c := by
                simpa [stream, look, held, held2] using congrArg List.head? h
              subst hc
              refine ⟨_, rfl, ?_, rfl, rfl⟩
              simpa [stream, look, held, held2, readAll] using h

/-- Nothing left: the last byte is handed out again. -/
theorem read_nil {r : LookaheadReader} (h : r.stream = []) :
    r.read = (r.data_, { r with ranOut := true }) := by
  obtain ⟨trans, hasData_, data_, has2Data_, data2_, firstRead_, ranOut⟩ := r
  cases hasData_ with
  | true => simp [stream, look, held] at h
  | false =>
      cases has2Data_ with
      | true => cases firstRead_ <;> simp [stream, look, held, held2] at h
      | false =>
          cases trans with
          | nil => rfl
          | cons b trans => simp [stream, look, held, held2] at h

/-- `peek` with a byte ahead. -/
theorem peek_cons {r : LookaheadReader} {c : UInt8} {t : Bytes}
    (h : r.ahead = c :: t) :
    r.peek = (c, { r with hasData_ := true, data_ := c, trans := t }) := by
  obtain ⟨trans, hasData_, data_, has2Data_, data2_, firstRead_, ranOut⟩ := r
  cases hasData_ with
  | true =>
      simp only [ahead, held, if_true, List.singleton_append,
        List.cons.injEq] at h
      obtain ⟨rfl, rfl⟩ := h
      rfl
  | false =>
      cases trans with
      | nil => simp [ahead, held] at h
      | cons b trans =>
          simp only [ahead, held, Bool.false_eq_true, if_false,
            List.nil_append, List.cons.injEq] at h
          obtain ⟨rfl, rfl⟩ := h
          rfl

/-- `peek` at the end of the input hands out the old `data_`. -/
theorem peek_nil {r : LookaheadReader} (h : r.ahead = []) :
    r.peek = (r.data_, { r with hasData_ := true, ranOut := true }) := by
  obtain ⟨trans, hasData_, data_, has2Data_, data2_, firstRead_, ranOut⟩ := r
  cases hasData_ with
  | true => simp [ahead, held] at h
  | false =>
      cases trans with
      | nil => rfl
      | cons b trans => simp [ahead, held] at h

/-- Past the end there is nothing to take. -/
theorem read_stream_nil {r : LookaheadReader} (h : r.stream = []) :
    r.read.2.stream = [] := by
  rw [read_nil h]
  exact h

/-- `data_` is what was handed out, unless that came from `data2_`. -/
theorem read_data (r : LookaheadReader) :
    r.read.2.data_ = r.read.1
      ∨ r.read.2.trans = r.trans ∧ r.read.2.data_ = r.data_ := by
  obtain ⟨trans, hasData_, data_, has2Data_, data2_, firstRead_, ranOut⟩ := r
  cases hasData_ with
  | true => exact .inl rfl
  | false =>
      cases has2Data_ with
      | true => cases firstRead_ <;> exact .inr ⟨rfl, rfl⟩
      | false => exact .inl rfl

/-- With `data2_` out of the way it always is. -/
theorem read_data_eq {r : LookaheadReader} (h : r.has2Data_ = false) :
    r.read.2.data_ = r.read.1 := by
  unfold LookaheadReader.read
  rw [h]
  cases r.hasData_ <;> rfl

/-- With the transport dry `data_` does not change. -/
theorem read_trans_nil {r : LookaheadReader} (h : r.trans = []) :
    r.read.2.trans = [] ∧ r.read.2.data_ = r.data_ := by
  obtain ⟨trans, hasData_, data_, has2Data_, data2_, firstRead_, ranOut⟩ := r
  subst h
  cases hasData_ with
  | true => exact ⟨rfl, rfl⟩
  | false =>
      cases has2Data_ with
      | true => cases firstRead_ <;> exact ⟨rfl, rfl⟩
      | false => exact ⟨rfl, rfl⟩

/-- What no operation but `peek2` ever undoes. -/
structure Moves (r r' : LookaheadReader) : Prop where
  ranOut : r.ranOut = true → r'.ranOut = true
  two : r.has2Data_ = false → r'.has2Data_ = false
  size : r'.trans.length ≤ r.trans.length
  /-- a reader that has run out has nothing left -/
  out : (r.ranOut = true → r.trans = []) → r'.ranOut = true → r'.trans = []
  /-- only `data2_` can have been read halfway -/
  first : (r.firstRead_ = true → r.has2Data_ = true) →
    r'.firstRead_ = true → r'.has2Data_ = true
  pair : r'.data2_ = r.data2_
  /-- `data_` is the last byte taken from the transport -/
  took : ∃ p, r.trans = p ++ r'.trans ∧ r'.data_ = p.getLastD r.data_

/-- No move at all. -/
theorem Moves.refl (r : LookaheadReader) : Moves r r where
  ranOut := id
  two := id
  size := Nat.le_refl _
  out := id
  first := id
  pair := rfl
  took := ⟨[], rfl, rfl⟩

/-- Two moves in a row. -/
theorem Moves.trans {r r₁ r₂ : LookaheadReader} (h : Moves r r₁)
    (h' : Moves r₁ r₂) : Moves r r₂ where
  ranOut := fun hr => h'.ranOut (h.ranOut hr)
  two := fun hr => h'.two (h.two hr)
  size := h'.size.trans h.size
  out := fun hr => h'.out (h.out hr)
  first := fun hr => h'.first (h.first hr)
  pair := h'.pair.trans h.pair
  took := by
    obtain ⟨p, hp, hdata⟩ := h.took
    obtain ⟨p', hp', hdata'⟩ := h'.took
    refine ⟨p ++ p', by rw [hp, hp', List.append_assoc], ?_⟩
    rw [hdata', hdata]
    cases p' with
    | nil => rw [List.append_nil, List.getLastD_nil]
    | cons b p' => simp [List.getLastD_eq_getLast?]

/-- `readAll` only takes bytes. -/
theorem moves_readAll (r : LookaheadReader) : Moves r r.readAll := by
  obtain ⟨trans, hasData_, data_, has2Data_, data2_, firstRead_, ranOut⟩ := r
  cases trans with
  | nil => exact ⟨fun _ => rfl, id, Nat.le_refl _, fun _ _ => rfl, id, rfl, [], rfl, rfl⟩
  | cons b trans =>
      refine ⟨id, id, Nat.le_succ _, ?_, id, rfl, [b], rfl, rfl⟩
      intro hout hran
      cases hout hran

/-- So does `read`. -/
theorem moves_read (r : LookaheadReader) : Moves r r.read.2 := by
  have hall := moves_readAll r
  obtain ⟨trans, hasData_, data_, has2Data_, data2_, firstRead_, ranOut⟩ := r
  cases hasData_ with
  | true => exact ⟨id, id, Nat.le_refl _, id, id, rfl, [], rfl, rfl⟩
  | false =>
      cases has2Data_ with
      | true =>
          cases firstRead_ with
          | true =>
              refine ⟨id, fun _ => rfl, Nat.le_refl _, id, ?_, rfl, [], rfl, rfl⟩
              intro _ hfirst
              cases hfirst
          | false =>
              exact ⟨id, id, Nat.le_refl _, id, fun _ _ => rfl, rfl, [], rfl, rfl⟩
      | false => exact hall

/-- So does `peek`. -/
theorem moves_peek (r : LookaheadReader) : Moves r r.peek.2 := by
  have hall := moves_readAll r
  obtain ⟨trans, hasData_, data_, has2Data_, data2_, firstRead_, ranOut⟩ := r
  cases hasData_ with
  | true => exact ⟨id, id, Nat.le_refl _, id, id, rfl, [], rfl, rfl⟩
  | false =>
      exact ⟨hall.ranOut, hall.two, hall.size, hall.out, hall.first, hall.pair, hall.took⟩

/-- After a `peek` the byte is taken for good. -/
theorem read_of_hasData {r : LookaheadReader} (h : r.hasData_ = true) :
    r.read = (r.data_, { r with hasData_ := false }) := by
  rw [read, if_pos h]

end LookaheadReader

open LookaheadReader

-- ============================================ programs, step by step

section Steps

variable {α : Type} {r r' : LookaheadReader} {res : Except Abort α}

/-- A run that begins with `getChar`. -/
theorem runs_getChar {g : UInt8 → Read α} :
    (getChar >>= g).Runs r res r' ↔ (g r.read.1).Runs r.read.2 res r' := by
  rw [Prog.runs_bind]
  simp [getChar]

/-- A run that begins with `peekChar`. -/
theorem runs_peekChar {g : UInt8 → Read α} :
    (peekChar >>= g).Runs r res r' ↔ (g r.peek.1).Runs r.peek.2 res r' := by
  rw [Prog.runs_bind]
  simp [peekChar]

/-- A run that begins with `peek2Char`. -/
theorem runs_peek2Char {g : UInt8 → Read α} :
    (peek2Char >>= g).Runs r res r' ↔ (g r.peek2.1).Runs r.peek2.2 res r' := by
  rw [Prog.runs_bind]
  simp [peek2Char]

/-- A run that begins with one character of syntax. -/
theorem runs_readXMLSyntaxChar {ch : UInt8} {g : Int → Read α} :
    (readXMLSyntaxChar ch >>= g).Runs r res r'
      ↔ (g (if r.read.1 ≠ ch then -1 else 1)).Runs r.read.2 res r' := by
  rw [Prog.runs_bind]
  unfold readXMLSyntaxChar
  simp only [runs_getChar, Prog.runs_pure]
  constructor
  · intro hex
    rcases hex with ⟨a, s₁, ⟨ha, rfl⟩, hg⟩ | ⟨e, ⟨he, -⟩, -⟩
    · injection ha with ha
      rwa [ha] at hg
    · cases he
  · intro hg
    exact .inl ⟨_, _, ⟨rfl, rfl⟩, hg⟩

end Steps

-- ================================================ whatever happens

/-- However `m` comes to an end, it returns a value with `P`. -/
def Always {α : Type} (P : α → Prop) (m : Read α) : Prop :=
  ∀ ⦃r r' : LookaheadReader⦄ ⦃res : Except Abort α⦄, m.Runs r res r' →
    Moves r r' ∧ ∃ a, res = .ok a ∧ P a

section Always

variable {α β : Type} {P : α → Prop} {Q : β → Prop}

/-- What `pure` returns. -/
theorem always_pure {a : α} (h : P a) : Always P (pure a : Read α) := by
  intro r r' res hruns
  obtain ⟨rfl, rfl⟩ := Prog.runs_pure.mp hruns
  exact ⟨Moves.refl _, a, rfl, h⟩

/-- The rule for one computation after the other. -/
theorem always_bind {m : Read α} {g : α → Read β} (hm : Always P m)
    (hg : ∀ a, P a → Always Q (g a)) : Always Q (m >>= g) := by
  intro r r' res hruns
  rcases Prog.runs_bind.mp hruns with ⟨a, r₁, h₁, h₂⟩ | ⟨e, h₁, -⟩
  · obtain ⟨hmoves, a', ha, hP⟩ := hm h₁
    injection ha with ha
    subst ha
    obtain ⟨hmoves', b, hb, hQ⟩ := hg a hP h₂
    exact ⟨hmoves.trans hmoves', b, hb, hQ⟩
  · obtain ⟨-, a, ha, -⟩ := hm h₁
    cases ha

/-- The rule for a branch. -/
theorem always_ite {c : Prop} [Decidable c] {m₁ m₂ : Read α}
    (h₁ : Always P m₁) (h₂ : Always P m₂) :
    Always P (if c then m₁ else m₂) := by
  by_cases h : c
  · rw [if_pos h]
    exact h₁
  · rw [if_neg h]
    exact h₂

/-- `getChar` throws nothing. -/
theorem always_getChar : Always (fun _ => True) getChar := by
  intro r r' res h
  have h' := Prog.runs_act.mp h
  rw [Prod.mk.injEq] at h'
  obtain ⟨rfl, rfl⟩ := h'
  exact ⟨moves_read r, _, rfl, trivial⟩

/-- Nor does `peekChar`. -/
theorem always_peekChar : Always (fun _ => True) peekChar := by
  intro r r' res h
  have h' := Prog.runs_act.mp h
  rw [Prod.mk.injEq] at h'
  obtain ⟨rfl, rfl⟩ := h'
  exact ⟨moves_peek r, _, rfl, trivial⟩

/-- An invariant `I` of the loop variables that every turn keeps, and
that gives `P` when the loop is left. -/
theorem always_loop {τ : Type} {I : τ → Prop} {body : τ → Read (τ ⊕ α)}
    (hbody : ∀ t, I t → Always (Sum.elim I P) (body t)) {t : τ} (ht : I t) :
    Always P (Prog.loop body t) := by
  intro r r' res h
  refine Prog.loop_rec (P := fun t r res r' => I t →
    Moves r r' ∧ ∃ a, res = .ok a ∧ P a) ?_ ?_ ?_ h ht
  · intro t r a r' hb hI
    obtain ⟨hmoves, o, ho, hP⟩ := hbody t hI hb
    injection ho with ho
    subst ho
    exact ⟨hmoves, a, rfl, hP⟩
  · intro t r e r' hb hI
    obtain ⟨-, o, ho, -⟩ := hbody t hI hb
    cases ho
  · intro t r t₁ r₁ res r' hb hnext hI
    obtain ⟨hmoves, o, ho, hI₁⟩ := hbody t hI hb
    injection ho with ho
    subst ho
    obtain ⟨hmoves', hres⟩ := hnext hI₁
    exact ⟨hmoves.trans hmoves', hres⟩

end Always

-- ===================================== characters up to a stopping one

section Chars

variable {stop : UInt8 → Bool}

/-- The reader after a peek and a read. -/
def took (r : LookaheadReader) (c : UInt8) (t : Bytes) : LookaheadReader :=
  { r with hasData_ := false, data_ := c, trans := t }

/-- The stopping character is there: everything before it is read. -/
theorem charsLoop_runs (s rest : Bytes) {c : UInt8}
    (hs : ∀ d ∈ s, stop d = false) (hc : stop c = true) :
    ∀ (r : LookaheadReader) (t : Int × Bytes), r.ahead = s ++ c :: rest →
      (charsLoop stop t).Runs r (.ok (t.1 + s.length, t.2 ++ s))
        { r with hasData_ := true, data_ := c, trans := rest } := by
  induction s with
  | nil =>
      intro r t hr
      refine Prog.Runs.leave ?_
      rw [runs_peekChar, peek_cons hr, if_pos hc]
      simp
  | cons d s ih =>
      intro r t hr
      have hd : ¬ stop d = true := by
        rw [hs d List.mem_cons_self]
        exact Bool.false_ne_true
      have hturn := ih (fun x hx => hs x (List.mem_cons_of_mem _ hx))
        (took r d (s ++ c :: rest)) (t.1 + 1, t.2 ++ [d]) rfl
      have hlen : t.1 + 1 + (s.length : Int) = t.1 + ((d :: s).length : Int) := by
        rw [List.length_cons]
        omega
      rw [hlen, List.append_assoc, List.singleton_append] at hturn
      refine Prog.Runs.again ?_ hturn
      rw [runs_peekChar, peek_cons hr, if_neg hd, runs_getChar,
        read_of_hasData rfl]
      simp [took]

/-- A loop over characters returns no less than it started from. -/
theorem charsLoop_always (t : Int × Bytes) :
    Always (fun x => t.1 ≤ x.1) (charsLoop stop t) := by
  refine always_loop (I := fun x => t.1 ≤ x.1) ?_ (Int.le_refl _)
  intro x hx
  refine always_bind always_peekChar fun ch _ => ?_
  refine always_ite (always_pure hx) ?_
  refine always_bind always_getChar fun _ _ => always_pure ?_
  exact hx.trans (Int.le_add_of_nonneg_right (by decide))

/-- No stopping character ahead: if the loop ends at all, the input has
run out. -/
theorem charsLoop_dry (s : Bytes) (hs : ∀ d ∈ s, stop d = false) :
    ∀ {r r' : LookaheadReader} {t : Int × Bytes}
      {res : Except Abort (Int × Bytes)}, r.ahead = s →
      (charsLoop stop t).Runs r res r' → r'.ranOut = true := by
  induction s with
  | nil =>
      intro r r' t res hr h
      -- the first turn already finds nothing
      rcases Prog.runs_loop.mp h with ⟨t₁, r₁, hb, hl⟩ | ⟨a, hb, -⟩
        | ⟨e, hb, -⟩
      · rw [runs_peekChar, peek_nil hr] at hb
        have hout : r₁.ranOut = true := by
          by_cases hc : stop r.data_ = true
          · rw [if_pos hc, Prog.runs_pure] at hb
            cases hb.1
          · rw [if_neg hc, runs_getChar, Prog.runs_pure] at hb
            rw [hb.2]
            exact (moves_read _).ranOut rfl
        exact (charsLoop_always t₁ hl).1.ranOut hout
      · rw [runs_peekChar, peek_nil hr] at hb
        by_cases hc : stop r.data_ = true
        · rw [if_pos hc, Prog.runs_pure] at hb
          rw [hb.2]
        · rw [if_neg hc, runs_getChar, Prog.runs_pure] at hb
          cases hb.1
      · rw [runs_peekChar, peek_nil hr] at hb
        by_cases hc : stop r.data_ = true
        · rw [if_pos hc, Prog.runs_pure] at hb
          cases hb.1
        · rw [if_neg hc, runs_getChar, Prog.runs_pure] at hb
          cases hb.1
  | cons d s ih =>
      intro r r' t res hr h
      have hd : ¬ stop d = true := by
        rw [hs d List.mem_cons_self]
        exact Bool.false_ne_true
      have hbody : ∀ {o r₁}, (do
          let ch ← peekChar
          if stop ch then pure (.inr t)
          else
            let _ ← getChar
            pure (.inl (t.1 + 1, t.2 ++ [ch])) : Read (Int × Bytes
              ⊕ (Int × Bytes))).Runs r o r₁ →
          o = .ok (.inl (t.1 + 1, t.2 ++ [d])) ∧ r₁ = took r d s := by
        intro o r₁ hb
        rw [runs_peekChar, peek_cons hr, if_neg hd, runs_getChar,
          read_of_hasData rfl, Prog.runs_pure] at hb
        exact hb
      rcases Prog.runs_loop.mp h with ⟨t₁, r₁, hb, hl⟩ | ⟨a, hb, -⟩
        | ⟨e, hb, -⟩
      · obtain ⟨-, rfl⟩ := hbody hb
        exact ih (fun x hx => hs x (List.mem_cons_of_mem _ hx)) rfl hl
      · cases (hbody hb).1
      · cases (hbody hb).1

/-- No stopping character ahead, nor the byte that is repeated. -/
theorem charsLoop_never {r : LookaheadReader} {t : Int × Bytes}
    (hs : ∀ d ∈ r.ahead, stop d = false)
    (hdata : r.trans = [] → stop r.data_ = false) :
    ¬ (charsLoop stop t).Halts r := by
  refine Prog.loop_diverges (I := fun _ r => (∀ d ∈ r.ahead, stop d = false)
    ∧ (r.trans = [] → stop r.data_ = false)) ?_ ⟨hs, hdata⟩
  intro t r hex
  obtain ⟨hs, hdata⟩ := hex
  cases hr : r.ahead with
  | nil =>
      have htrans : r.trans = [] := by
        rw [ahead, List.append_eq_nil_iff] at hr
        exact hr.2
      have hd : ¬ stop r.data_ = true := by
        rw [hdata htrans]
        exact Bool.false_ne_true
      refine ⟨(t.1 + 1, t.2 ++ [r.data_]),
        { r with hasData_ := false, ranOut := true }, ?_, ?_, hdata⟩
      · rw [runs_peekChar, peek_nil hr, if_neg hd, runs_getChar,
          read_of_hasData rfl, Prog.runs_pure]
        exact ⟨rfl, rfl⟩
      · intro d hd
        rw [show ahead _ = r.trans from rfl, htrans] at hd
        exact absurd hd List.not_mem_nil
  | cons c s =>
      have hc := hs c (hr ▸ List.mem_cons_self)
      have hd : ¬ stop c = true := by
        rw [hc]
        exact Bool.false_ne_true
      refine ⟨(t.1 + 1, t.2 ++ [c]), took r c s, ?_, ?_, fun _ => hc⟩
      · rw [runs_peekChar, peek_cons hr, if_neg hd, runs_getChar,
          read_of_hasData rfl, Prog.runs_pure]
        exact ⟨rfl, rfl⟩
      · intro d hd
        exact hs d (hr ▸ List.mem_cons_of_mem c hd)

/-- Nothing ahead, and the byte that is repeated stops the loop. -/
theorem charsLoop_stale {r : LookaheadReader} (t : Int × Bytes)
    (hr : r.ahead = []) (hdata : stop r.data_ = true) :
    (charsLoop stop t).Runs r (.ok t)
      { r with hasData_ := true, ranOut := true } := by
  refine Prog.Runs.leave ?_
  rw [runs_peekChar, peek_nil hr, if_pos hdata, Prog.runs_pure]
  exact ⟨rfl, rfl⟩

end Chars

-- ============================================================ a tag

/-- The closing `>` is there. -/
theorem tagLoop_runs (s rest : Bytes) (hs : kcXMLTagC ∉ s) :
    ∀ (r : LookaheadReader) (t : Int × Bytes),
      r.stream = s ++ kcXMLTagC :: rest →
      ∃ r', (tagLoop t).Runs r (.ok (t.1 + s.length + 1, t.2 ++ s)) r'
        ∧ r'.stream = rest ∧ r'.look = r.look.drop (s.length + 1)
        ∧ r'.ranOut = r.ranOut := by
  induction s with
  | nil =>
      intro r t hr
      obtain ⟨r', hread, hstream, hlook, hout⟩ := read_cons hr
      refine ⟨r', Prog.Runs.leave ?_, hstream, ?_, hout⟩
      · rw [runs_getChar, hread]
        simp
      · rw [hlook]
        exact List.drop_one.symm
  | cons d s ih =>
      intro r t hr
      rw [List.mem_cons, not_or] at hs
      have hd : ¬ d = kcXMLTagC := fun heq => hs.1 heq.symm
      obtain ⟨r₁, hread, hstream, hlook, hout⟩ := read_cons hr
      obtain ⟨r', hruns, hstream', hlook', hout'⟩ :=
        ih hs.2 r₁ (t.1 + 1, t.2 ++ [d]) hstream
      have hlen : t.1 + 1 + (s.length : Int) = t.1 + ((d :: s).length : Int) := by
        rw [List.length_cons]
        omega
      rw [hlen, List.append_assoc, List.singleton_append] at hruns
      refine ⟨r', Prog.Runs.again ?_ hruns,
        hstream', ?_, hout'.trans hout⟩
      · rw [runs_getChar, hread, if_neg hd]
        simp
      · rw [hlook', hlook, ← List.drop_one, List.drop_drop, List.length_cons,
          Nat.add_comm 1]

/-- The count of a tag does not go down in its loop. -/
theorem tagLoop_always (t : Int × Bytes) :
    Always (fun x => t.1 ≤ x.1) (tagLoop t) := by
  refine always_loop (I := fun x => t.1 ≤ x.1) ?_ (Int.le_refl _)
  intro x hx
  refine always_bind always_getChar fun ch _ => always_pure ?_
  have hnext : t.1 ≤ x.1 + 1 :=
    hx.trans (Int.le_add_of_nonneg_right (by decide))
  by_cases hc : ch = kcXMLTagC
  · rw [if_pos hc]
    exact hnext
  · rw [if_neg hc]
    exact hnext

/-- Without `>` ahead, the loop over a tag runs out of input. -/
theorem tagLoop_dry (s : Bytes) (hs : kcXMLTagC ∉ s) :
    ∀ {r r' : LookaheadReader} {t : Int × Bytes}
      {res : Except Abort (Int × Bytes)}, r.stream = s →
      (tagLoop t).Runs r res r' → r'.ranOut = true := by
  induction s with
  | nil =>
      intro r r' t res hr h
      rcases Prog.runs_loop.mp h with ⟨t₁, r₁, hb, hl⟩ | ⟨a, hb, -⟩
        | ⟨e, hb, -⟩
      · rw [runs_getChar, read_nil hr, Prog.runs_pure] at hb
        refine (tagLoop_always t₁ hl).1.ranOut ?_
        rw [hb.2]
      · rw [runs_getChar, read_nil hr, Prog.runs_pure] at hb
        rw [hb.2]
      · rw [runs_getChar, read_nil hr, Prog.runs_pure] at hb
        rw [hb.2]
  | cons d s ih =>
      intro r r' t res hr h
      rw [List.mem_cons, not_or] at hs
      have hd : ¬ d = kcXMLTagC := fun heq => hs.1 heq.symm
      obtain ⟨r₁, hread, hstream, -, -⟩ := read_cons hr
      rcases Prog.runs_loop.mp h with ⟨t₁, r₂, hb, hl⟩ | ⟨a, hb, -⟩
        | ⟨e, hb, -⟩
      · rw [runs_getChar, hread, if_neg hd, Prog.runs_pure] at hb
        obtain ⟨-, rfl⟩ := hb
        exact ih hs.2 hstream hl
      · rw [runs_getChar, hread, if_neg hd, Prog.runs_pure] at hb
        cases hb.1
      · rw [runs_getChar, hread, if_neg hd, Prog.runs_pure] at hb
        cases hb.1

/-- No `>` is there, nor is it the byte that is repeated. -/
theorem tagLoop_never {r : LookaheadReader} {t : Int × Bytes}
    (hs : kcXMLTagC ∉ r.stream)
    (hdata : r.trans = [] → r.data_ ≠ kcXMLTagC) :
    ¬ (tagLoop t).Halts r := by
  refine Prog.loop_diverges (I := fun _ r => kcXMLTagC ∉ r.stream
    ∧ (r.trans = [] → r.data_ ≠ kcXMLTagC)) ?_ ⟨hs, hdata⟩
  intro t r hex
  obtain ⟨hs, hdata⟩ := hex
  have hturn : r.read.1 ≠ kcXMLTagC → ∃ t₁, (do
      let ch ← getChar
      pure (if ch = kcXMLTagC then .inr (t.1 + 1, t.2)
        else .inl (t.1 + 1, t.2 ++ [ch])) : Read (Int × Bytes
          ⊕ (Int × Bytes))).Runs r (.ok (.inl t₁)) r.read.2 := by
    intro hne
    refine ⟨(t.1 + 1, t.2 ++ [r.read.1]), ?_⟩
    rw [runs_getChar, if_neg hne, Prog.runs_pure]
    exact ⟨rfl, rfl⟩
  cases hr : r.stream with
  | nil =>
      have htrans : r.trans = [] := by
        rw [stream, List.append_eq_nil_iff] at hr
        exact hr.2
      rw [read_nil hr] at hturn
      obtain ⟨t₁, hturn⟩ := hturn (hdata htrans)
      exact ⟨t₁, _, hturn, hs, hdata⟩
  | cons c s =>
      obtain ⟨r', hread, hstream, -, -⟩ := read_cons hr
      have hdata' := read_data r
      rw [hread] at hturn hdata'
      rw [hr, List.mem_cons, not_or] at hs
      obtain ⟨t₁, hturn⟩ := hturn (Ne.symm hs.1)
      refine ⟨t₁, r', hturn, hstream ▸ hs.2, ?_⟩
      rcases hdata' with hc | ⟨htrans, hold⟩
      · intro _
        rw [hc]
        exact Ne.symm hs.1
      · rw [htrans, hold]
        exact hdata

/-- Everything ahead is read, and then a `>` that is repeated. -/
theorem tagLoop_stale (s : Bytes) (hs : kcXMLTagC ∉ s) :
    ∀ {r : LookaheadReader} (t : Int × Bytes), r.stream = s → r.trans = [] →
      r.data_ = kcXMLTagC → ∃ ret r', (tagLoop t).Runs r (.ok (ret, t.2 ++ s)) r'
        ∧ r'.stream = [] ∧ r'.ranOut = true := by
  induction s with
  | nil =>
      intro r t hr htrans hdata
      refine ⟨t.1 + 1, r.read.2, Prog.Runs.leave ?_, read_stream_nil hr, ?_⟩
      · rw [runs_getChar, read_nil hr, if_pos hdata, Prog.runs_pure, List.append_nil]
        exact ⟨rfl, rfl⟩
      · rw [read_nil hr]
  | cons d s ih =>
      intro r t hr htrans hdata
      rw [List.mem_cons, not_or] at hs
      obtain ⟨r', hread, hstream, -, -⟩ := read_cons hr
      have hkept := read_trans_nil htrans
      rw [hread] at hkept
      obtain ⟨ret, r'', hruns, hend⟩ := ih hs.2 (t.1 + 1, t.2 ++ [d])
        hstream hkept.1 (hkept.2.trans hdata)
      rw [List.append_assoc, List.singleton_append] at hruns
      refine ⟨ret, r'', Prog.Runs.again ?_ hruns, hend⟩
      rw [runs_getChar, hread, if_neg (Ne.symm hs.1), Prog.runs_pure]
      exact ⟨rfl, rfl⟩

end Sandesh.Xml
