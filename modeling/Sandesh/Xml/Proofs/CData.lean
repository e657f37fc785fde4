/-
The loop of `readXMLCDATA` against the text it scans.

The loop holds back up to two characters. With them put in front of what
`peek` will hand out, every turn looks at the first three characters of
one list (`scanned`) and, unless they are `]]>`, moves on by one. So the
loop ends when `]]>` occurs in that list (`cdataLoop_runs`). If it does
not, the loop goes on over the last byte for ever (`cdataLoop_never`):
one byte repeated is never both a `]` and a `>`.
-/
import Mathlib.Data.List.GetD
import Sandesh.Xml.Proofs.Reader

namespace Sandesh.Xml

open Lib LookaheadReader

-- `]]>`
/-- What a section ends with. -/
def kXMLCDATAC : Bytes := [kcXMLSBracketC, kcXMLSBracketC, kcXMLTagC]

/-- The characters held back. -/
def CData.held (t : CData) : Bytes := t.ch.toList ++ t.ch2.toList

/-- A second character is held only behind a `]`. -/
def CData.Ok (t : CData) : Prop :=
  t.ch2 ≠ none → t.ch = some kcXMLSBracketC

/-- What the loop still has to look at. -/
def scanned (t : CData) (r : LookaheadReader) : Bytes := t.held ++ r.ahead

/-- The reader after a peek and a read that found nothing. -/
def dried (r : LookaheadReader) : LookaheadReader :=
  { r with hasData_ := false, ranOut := true }

section Next

variable {α : Type} {r r' : LookaheadReader} {res : Except Abort α}
  {g : UInt8 × Int → Read α}

theorem runs_nextChar_some {c : UInt8} {n : Int} :
    (nextChar (some c) n >>= g).Runs r res r' ↔ (g (c, n)).Runs r res r' := by
  rw [Prog.runs_bind]
  simp [nextChar]

theorem runs_nextChar_none {n : Int} :
    (nextChar none n >>= g).Runs r res r'
      ↔ (g (r.peek.1, n + 1)).Runs r.peek.2.read.2 res r' := by
  rw [Prog.runs_bind]
  simp only [nextChar, runs_peekChar, runs_getChar, Prog.runs_pure]
  constructor
  · intro hex
    rcases hex with ⟨a, s₁, ⟨ha, rfl⟩, hg⟩ | ⟨e, ⟨he, -⟩, -⟩
    · injection ha with ha
      rwa [ha] at hg
    · cases he
  · intro hg
    exact .inl ⟨_, _, ⟨rfl, rfl⟩, hg⟩

/-- A character that has to be read and is there. -/
theorem runs_nextChar_cons {c : UInt8} {s : Bytes} {n : Int}
    (h : r.ahead = c :: s) :
    (nextChar none n >>= g).Runs r res r'
      ↔ (g (c, n + 1)).Runs (took r c s) res r' := by
  rw [runs_nextChar_none, peek_cons h, read_of_hasData rfl]
  rfl

/-- A character that has to be read and is not there. -/
theorem runs_nextChar_nil {n : Int} (h : r.ahead = []) :
    (nextChar none n >>= g).Runs r res r'
      ↔ (g (r.data_, n + 1)).Runs (dried r) res r' := by
  rw [runs_nextChar_none, peek_nil h, read_of_hasData rfl]
  rfl

end Next

/-- The body of the loop. -/
def cdataTurn (t : CData) : Read (CData ⊕ (Int × Bytes)) := do
  let (ch, result) ← nextChar t.ch t.result
  if ch = kcXMLSBracketC then
    let (ch2, result) ← nextChar t.ch2 result
    if ch2 = kcXMLSBracketC then
      let (ch3, result) ← nextChar none result
      if ch3 = kcXMLTagC then pure (.inr (result, t.str))
      else pure (.inl ⟨result, t.str ++ [ch], some ch2, some ch3⟩)
    else pure (.inl ⟨result, t.str ++ [ch], some ch2, none⟩)
  else pure (.inl ⟨result, t.str ++ [ch], none, t.ch2⟩)

theorem cdataLoop_eq : cdataLoop = Prog.loop cdataTurn := rfl

/-- Some characters are read, with a `peek` before each, and counted. -/
structure Counted (r r' : LookaheadReader) (n m : Int) : Prop where
  count : m + r'.ahead.length = n + r.ahead.length
  le : n ≤ m
  ranOut : r'.ranOut = r.ranOut
  one : r.hasData_ = false → r'.hasData_ = false
  two : r'.has2Data_ = r.has2Data_
  first : r'.firstRead_ = r.firstRead_

theorem Counted.refl (r : LookaheadReader) (n : Int) : Counted r r n n :=
  ⟨rfl, Int.le_refl n, rfl, id, rfl, rfl⟩

theorem Counted.trans {r r₁ r₂ : LookaheadReader} {n m k : Int}
    (h : Counted r r₁ n m) (h' : Counted r₁ r₂ m k) : Counted r r₂ n k where
  count := h'.count.trans h.count
  le := h.le.trans h'.le
  ranOut := h'.ranOut.trans h.ranOut
  one := fun hr => h'.one (h.one hr)
  two := h'.two.trans h.two
  first := h'.first.trans h.first

theorem counted_took {r : LookaheadReader} {c : UInt8} {s : Bytes}
    (h : r.ahead = c :: s) (n : Int) : Counted r (took r c s) n (n + 1) where
  count := by
    rw [h, List.length_cons]
    show n + 1 + (s.length : Int) = _
    omega
  le := Int.le_add_of_nonneg_right (by decide)
  ranOut := rfl
  one := fun _ => rfl
  two := rfl
  first := rfl

/-- The next character, held back or still to be read. -/
theorem nextChar_cons (ch : Option UInt8) {r : LookaheadReader} {c : UInt8}
    {s : Bytes} (h : ch.toList ++ r.ahead = c :: s) (n : Int) :
    ∃ r₁ m, Counted r r₁ n m ∧ r₁.ahead = s
      ∧ ∀ {α : Type} {g : UInt8 × Int → Read α} {res : Except Abort α}
        {r' : LookaheadReader}, (nextChar ch n >>= g).Runs r res r'
          ↔ (g (c, m)).Runs r₁ res r' := by
  cases ch with
  | some d =>
      rw [Option.toList_some, List.singleton_append] at h
      injection h with hd hs
      subst hd
      exact ⟨r, n, .refl r n, hs, runs_nextChar_some⟩
  | none => exact ⟨took r c s, n + 1, counted_took h n, rfl, runs_nextChar_cons h⟩

/-- The first of the scanned characters. -/
theorem firstChar_cons {t : CData} {r : LookaheadReader} (hok : t.Ok)
    {c : UInt8} {s : Bytes} (h : scanned t r = c :: s) :
    ∃ r₁ m, Counted r r₁ t.result m ∧ t.ch2.toList ++ r₁.ahead = s
      ∧ (c ≠ kcXMLSBracketC → t.ch2 = none)
      ∧ ∀ {α : Type} {g : UInt8 × Int → Read α} {res : Except Abort α}
        {r' : LookaheadReader}, (nextChar t.ch t.result >>= g).Runs r res r'
          ↔ (g (c, m)).Runs r₁ res r' := by
  rw [scanned, CData.held] at h
  cases hch2 : t.ch2 with
  | none =>
      rw [hch2, Option.toList_none, List.append_nil] at h
      obtain ⟨r₁, m, hm, hs, hruns⟩ := nextChar_cons t.ch h t.result
      exact ⟨r₁, m, hm, hs, fun _ => rfl, hruns⟩
  | some d =>
      have hch := hok (by rw [hch2]; exact Option.some_ne_none d)
      rw [hch, hch2] at h
      simp only [Option.toList_some, List.cons_append, List.cons.injEq] at h
      obtain ⟨hc, hs⟩ := h
      rw [hch, ← hc]
      exact ⟨r, t.result, .refl r t.result, hs, fun h => absurd rfl h,
        runs_nextChar_some⟩

-- ==================================================== whatever happens

theorem nextChar_always (ch : Option UInt8) (n : Int) :
    Always (fun x => n ≤ x.2) (nextChar ch n) := by
  cases ch with
  | some c => exact always_pure (Int.le_refl n)
  | none =>
      refine always_bind always_peekChar fun ch _ => ?_
      refine always_bind always_getChar fun _ _ => always_pure ?_
      exact Int.le_add_of_nonneg_right (by decide)

/-- What a turn does once it has three characters, two, and one. -/
def afterThird (t : CData) (c d : UInt8) (z : UInt8 × Int) :
    Read (CData ⊕ (Int × Bytes)) :=
  if z.1 = kcXMLTagC then pure (.inr (z.2, t.str))
  else pure (.inl ⟨z.2, t.str ++ [c], some d, some z.1⟩)

/-- The rest of the loop behind the second character. -/
def afterSecond (t : CData) (c : UInt8) (y : UInt8 × Int) :
    Read (CData ⊕ (Int × Bytes)) :=
  if y.1 = kcXMLSBracketC then nextChar none y.2 >>= afterThird t c y.1
  else pure (.inl ⟨y.2, t.str ++ [c], some y.1, none⟩)

/-- The rest of the loop behind the first character. -/
def afterFirst (t : CData) (x : UInt8 × Int) :
    Read (CData ⊕ (Int × Bytes)) :=
  if x.1 = kcXMLSBracketC then nextChar t.ch2 x.2 >>= afterSecond t x.1
  else pure (.inl ⟨x.2, t.str ++ [x.1], none, t.ch2⟩)

theorem cdataTurn_eq (t : CData) :
    cdataTurn t = nextChar t.ch t.result >>= afterFirst t := rfl

/-- A turn goes on, or leaves, with no less than it came with. -/
def CData.Grown (n : Int) : CData ⊕ (Int × Bytes) → Prop :=
  Sum.elim (fun t => n ≤ t.result) (fun x => n ≤ x.1)

theorem afterThird_always (t : CData) (c d : UInt8) {n : Int}
    (z : UInt8 × Int) (hz : n ≤ z.2) :
    Always (CData.Grown n) (afterThird t c d z) :=
  always_ite (always_pure hz) (always_pure hz)

theorem afterSecond_always (t : CData) (c : UInt8) {n : Int}
    (y : UInt8 × Int) (hy : n ≤ y.2) :
    Always (CData.Grown n) (afterSecond t c y) := by
  refine always_ite ?_ (always_pure hy)
  exact always_bind (nextChar_always none y.2) fun z hz =>
    afterThird_always t c y.1 z (hy.trans hz)

theorem afterFirst_always (t : CData) {n : Int} (x : UInt8 × Int)
    (hx : n ≤ x.2) : Always (CData.Grown n) (afterFirst t x) := by
  refine always_ite ?_ (always_pure hx)
  exact always_bind (nextChar_always t.ch2 x.2) fun y hy =>
    afterSecond_always t x.1 y (hx.trans hy)

theorem cdataLoop_always (t : CData) :
    Always (fun x => t.result ≤ x.1) (cdataLoop t) := by
  rw [cdataLoop_eq]
  refine always_loop (I := fun x => t.result ≤ x.result) ?_ (Int.le_refl _)
  intro x hx
  rw [cdataTurn_eq]
  exact always_bind (nextChar_always x.ch x.result) fun y hy =>
    afterFirst_always x y (hx.trans hy)

-- ============================================================ one turn

section Turn

variable {t : CData} {r : LookaheadReader}

/-- `]]>` is what comes next. -/
theorem cdataTurn_close (hok : t.Ok) {s : Bytes}
    (h : scanned t r = kXMLCDATAC ++ s) :
    ∃ m r', (cdataTurn t).Runs r (.ok (.inr (m, t.str))) r'
      ∧ Counted r r' t.result m ∧ r'.ahead = s := by
  obtain ⟨r₁, m₁, hm₁, hs₁, -, hruns₁⟩ := firstChar_cons hok h
  obtain ⟨r₂, m₂, hm₂, hs₂, hruns₂⟩ := nextChar_cons t.ch2 hs₁ m₁
  obtain ⟨r₃, m₃, hm₃, hs₃, hruns₃⟩ := nextChar_cons none hs₂ m₂
  refine ⟨m₃, r₃, ?_, hm₁.trans (hm₂.trans hm₃), hs₃⟩
  rw [cdataTurn_eq, hruns₁, afterFirst, if_pos rfl, hruns₂, afterSecond,
    if_pos rfl, hruns₃, afterThird, if_pos rfl]
  simp

/-- Enough characters, and they are not `]]>`: one of them is taken. -/
theorem cdataTurn_move (hok : t.Ok) {c : UInt8} {s : Bytes}
    (h : scanned t r = c :: s) (hno : ¬ kXMLCDATAC <+: c :: s)
    (henough : c = kcXMLSBracketC → s ≠ []
      ∧ ∀ s', s = kcXMLSBracketC :: s' → s' ≠ []) :
    ∃ t' r', (cdataTurn t).Runs r (.ok (.inl t')) r' ∧ t'.Ok
      ∧ scanned t' r' = s ∧ t'.str = t.str ++ [c]
      ∧ Counted r r' t.result t'.result := by
  obtain ⟨r₁, m₁, hm₁, hs₁, hch2, hruns₁⟩ := firstChar_cons hok h
  by_cases hc : c = kcXMLSBracketC
  · obtain ⟨hne, henough⟩ := henough hc
    obtain ⟨d, s₁, rfl⟩ := List.exists_cons_of_ne_nil hne
    obtain ⟨r₂, m₂, hm₂, hs₂, hruns₂⟩ := nextChar_cons t.ch2 hs₁ m₁
    by_cases hd : d = kcXMLSBracketC
    · obtain ⟨e, s₂, rfl⟩ :=
        List.exists_cons_of_ne_nil (henough s₁ (by rw [hd]))
      obtain ⟨r₃, m₃, hm₃, hs₃, hruns₃⟩ := nextChar_cons none hs₂ m₂
      have he : ¬ e = kcXMLTagC := by
        intro he
        apply hno
        rw [hc, hd, he]
        exact List.prefix_append kXMLCDATAC s₂
      refine ⟨⟨m₃, t.str ++ [c], some d, some e⟩, r₃, ?_, ?_, ?_, rfl,
        hm₁.trans (hm₂.trans hm₃)⟩
      · rw [cdataTurn_eq, hruns₁, afterFirst, if_pos hc, hruns₂,
          afterSecond, if_pos hd, hruns₃, afterThird, if_neg he]
        simp
      · intro _
        rw [hd]
      · rw [scanned, hs₃]
        rfl
    · refine ⟨⟨m₂, t.str ++ [c], some d, none⟩, r₂, ?_, ?_, ?_, rfl, hm₁.trans hm₂⟩
      · rw [cdataTurn_eq, hruns₁, afterFirst, if_pos hc, hruns₂,
          afterSecond, if_neg hd]
        simp
      · intro hne
        exact absurd rfl hne
      · rw [scanned, hs₂]
        rfl
  · refine ⟨⟨m₁, t.str ++ [c], none, t.ch2⟩, r₁, ?_, ?_, ?_, rfl, hm₁⟩
    · rw [cdataTurn_eq, hruns₁, afterFirst, if_neg hc]
      simp
    · intro hne
      exact absurd (hch2 hc) hne
    · rw [scanned, CData.held, Option.toList_none, List.nil_append]
      exact hs₁

end Turn

-- ============================================================ the loop

/-- A text without `]]>`, and the first character of it. -/
theorem cdata_early {c : UInt8} {s : Bytes} (hs : ¬ kXMLCDATAC <:+: c :: s)
    (rest : Bytes) : ¬ kXMLCDATAC <+: c :: s ++ (kXMLCDATAC ++ rest) := by
  intro h
  rcases s with - | ⟨d, - | ⟨e, s⟩⟩
  · simp [kXMLCDATAC, kcXMLSBracketC, kcXMLTagC] at h
  · simp [kXMLCDATAC, kcXMLSBracketC, kcXMLTagC] at h
  · refine hs (List.IsPrefix.isInfix ?_)
    rw [kXMLCDATAC] at h ⊢
    simpa using h

/-- There is a first `]]>`. -/
theorem exists_first_cdata {w : Bytes} (hw : kXMLCDATAC <:+: w) :
    ∃ s rest, w = s ++ (kXMLCDATAC ++ rest) ∧ ¬ kXMLCDATAC <:+: s := by
  induction w with
  | nil =>
      rw [List.infix_nil] at hw
      cases hw
  | cons c w ih =>
      by_cases hpre : kXMLCDATAC <+: c :: w
      · obtain ⟨rest, hrest⟩ := hpre
        refine ⟨[], rest, hrest.symm, ?_⟩
        rw [List.infix_nil]
        exact nofun
      · rcases List.infix_cons_iff.mp hw with hw | hw
        · exact absurd hw hpre
        · obtain ⟨s, rest, rfl, hs⟩ := ih hw
          refine ⟨c :: s, rest, rfl, ?_⟩
          intro hin
          rcases List.infix_cons_iff.mp hin with hin | hin
          · exact hpre (hin.trans (List.prefix_append (c :: s) _))
          · exact hs hin

/-- The loop reads up to the first `]]>`, and that too. -/
theorem cdataLoop_first (rest : Bytes) :
    ∀ {s : Bytes}, ¬ kXMLCDATAC <:+: s → ∀ {t : CData} {r : LookaheadReader}, t.Ok →
      scanned t r = s ++ (kXMLCDATAC ++ rest) →
      ∃ ret r', (cdataLoop t).Runs r (.ok (ret, t.str ++ s)) r'
        ∧ Counted r r' t.result ret ∧ r'.ahead = rest := by
  intro s
  induction s with
  | nil =>
      intro _ t r hok hscan
      obtain ⟨m, r', hturn, hm, hrest⟩ := cdataTurn_close hok hscan
      refine ⟨m, r', ?_, hm, hrest⟩
      rw [List.append_nil]
      exact hturn.leave
  | cons c s ih =>
      intro hs t r hok hscan
      have henough : c = kcXMLSBracketC → s ++ (kXMLCDATAC ++ rest) ≠ []
          ∧ ∀ s', s ++ (kXMLCDATAC ++ rest) = kcXMLSBracketC :: s' → s' ≠ [] := by
        intro _
        refine ⟨by simp [kXMLCDATAC], fun s' hs' hnil => ?_⟩
        have hlen := congrArg List.length hs'
        rw [hnil] at hlen
        simp [kXMLCDATAC] at hlen
        omega
      obtain ⟨t', r₁, hturn, hok', hscan', hstr, hm⟩ :=
        cdataTurn_move hok hscan (cdata_early hs rest) henough
      obtain ⟨ret, r', hruns, hret, hrest⟩ := ih
        (fun h => hs (List.infix_cons_iff.mpr (.inr h))) hok' hscan'
      refine ⟨ret, r', ?_, hm.trans hret, hrest⟩
      rw [hstr, List.append_assoc, List.singleton_append] at hruns
      exact hturn.again hruns

/-- `]]>` is somewhere ahead: the loop ends on it. -/
theorem cdataLoop_runs (w : Bytes) (hw : kXMLCDATAC <:+: w) {t : CData}
    {r : LookaheadReader} (hok : t.Ok) (hscan : scanned t r = w) :
    ∃ ret str r', (cdataLoop t).Runs r (.ok (ret, str)) r'
      ∧ t.result ≤ ret ∧ r'.ranOut = r.ranOut := by
  obtain ⟨s, rest, rfl, hs⟩ := exists_first_cdata hw
  obtain ⟨ret, r', hruns, hret, -⟩ := cdataLoop_first rest hs hok hscan
  exact ⟨ret, _, r', hruns, hret.le, hret.ranOut⟩

-- ==================================================== without the end

/-- The byte `peek` hands out over and over once the transport is dry. -/
def last (r : LookaheadReader) : UInt8 := r.ahead.getLastD r.data_

theorem getD_last {r : LookaheadReader} {i : Nat}
    (h : r.ahead.length ≤ i + 1) : r.ahead.getD i (last r) = last r := by
  by_cases hlt : r.ahead.length ≤ i
  · exact List.getD_eq_default _ _ hlt
  · have hi : i = r.ahead.length - 1 := by omega
    have hne : r.ahead ≠ [] := by
      intro hnil
      rw [hnil] at hlt
      exact hlt (Nat.zero_le i)
    rw [List.getD_eq_getElem _ _ (by omega), last, List.getLastD_eq_getLast?,
      List.getLast?_eq_some_getLast hne, Option.getD_some,
      List.getLast_eq_getElem]
    simp only [hi]

/-- Three characters found next to each other. -/
theorem infix_of_getD {l : Bytes} {x a b c : UInt8} {i : Nat}
    (hi : i + 2 < l.length) (ha : l.getD i x = a) (hb : l.getD (i + 1) x = b)
    (hc : l.getD (i + 2) x = c) : [a, b, c] <:+: l := by
  rw [List.getD_eq_getElem _ _ (by omega)] at ha hb hc
  refine ⟨l.take i, l.drop (i + 3), ?_⟩
  have hdrop : l.drop i = [a, b, c] ++ l.drop (i + 3) := by
    rw [List.drop_eq_getElem_cons (by omega),
      List.drop_eq_getElem_cons (by omega),
      List.drop_eq_getElem_cons (by omega), ha, hb, hc]
    rfl
  rw [List.append_assoc, ← hdrop, List.take_append_drop]

/-- The `i`-th character the loop will look at, when the transport has run
dry its last byte over and over. -/
def coming (t : CData) (r : LookaheadReader) (i : Nat) : UInt8 :=
  (t.held ++ r.ahead).getD i (last r)

/-- The next character, there or not. -/
theorem nextChar_coming (ch : Option UInt8) (r : LookaheadReader) (n : Int) :
    ∃ r₁ m, (∀ i, r₁.ahead.getD i (last r₁)
          = (ch.toList ++ r.ahead).getD (i + 1) (last r))
      ∧ ∀ {α : Type} {g : UInt8 × Int → Read α} {res : Except Abort α}
        {r' : LookaheadReader}, (nextChar ch n >>= g).Runs r res r'
          ↔ (g ((ch.toList ++ r.ahead).getD 0 (last r), m)).Runs r₁ res r' := by
  cases ch with
  | some c => exact ⟨r, n, fun _ => rfl, runs_nextChar_some⟩
  | none =>
      cases hr : r.ahead with
      | nil =>
          have hdried : (dried r).ahead = [] := by
            rw [ahead, List.append_eq_nil_iff] at hr
            exact hr.2
          have hlast : last r = r.data_ := by
            rw [last, hr]
            rfl
          have hlast' : last (dried r) = r.data_ := by
            rw [last, hdried]
            rfl
          refine ⟨dried r, n + 1, ?_, ?_⟩
          · intro i
            rw [hdried, hlast, hlast']
            rfl
          · intro α g res r'
            rw [runs_nextChar_nil hr, hlast]
            rfl
      | cons c s =>
          refine ⟨took r c s, n + 1, ?_, runs_nextChar_cons hr⟩
          intro i
          rw [last, last, hr, List.getLastD_cons]
          rfl

/-- The first of the coming characters. -/
theorem firstChar_coming {t : CData} (r : LookaheadReader) (hok : t.Ok) :
    ∃ r₁ m, (∀ i, (t.ch2.toList ++ r₁.ahead).getD i (last r₁)
          = coming t r (i + 1))
      ∧ (coming t r 0 ≠ kcXMLSBracketC → t.ch2 = none)
      ∧ ∀ {α : Type} {g : UInt8 × Int → Read α} {res : Except Abort α}
        {r' : LookaheadReader}, (nextChar t.ch t.result >>= g).Runs r res r'
          ↔ (g (coming t r 0, m)).Runs r₁ res r' := by
  unfold coming CData.held
  cases hch2 : t.ch2 with
  | none =>
      obtain ⟨r₁, m, hnext, hruns⟩ := nextChar_coming t.ch r t.result
      simp only [Option.toList_none, List.append_nil, List.nil_append]
      exact ⟨r₁, m, hnext, fun _ => trivial, hruns⟩
  | some d =>
      have hch := hok (by rw [hch2]; exact Option.some_ne_none d)
      rw [hch]
      refine ⟨r, t.result, fun _ => rfl, ?_, runs_nextChar_some⟩
      intro hne
      exact absurd rfl hne

/-- `]]>` does not come next: one character is taken. -/
theorem cdataTurn_coming {t : CData} {r : LookaheadReader} (hok : t.Ok)
    (h : ¬ (coming t r 0 = kcXMLSBracketC ∧ coming t r 1 = kcXMLSBracketC
      ∧ coming t r 2 = kcXMLTagC)) :
    ∃ t' r', (cdataTurn t).Runs r (.ok (.inl t')) r' ∧ t'.Ok
      ∧ ∀ i, coming t' r' i = coming t r (i + 1) := by
  obtain ⟨r₁, m₁, hnext₁, hch2, hruns₁⟩ := firstChar_coming r hok
  by_cases hc : coming t r 0 = kcXMLSBracketC
  · obtain ⟨r₂, m₂, hnext₂, hruns₂⟩ := nextChar_coming t.ch2 r₁ m₁
    rw [hnext₁] at hruns₂
    by_cases hd : coming t r 1 = kcXMLSBracketC
    · obtain ⟨r₃, m₃, hnext₃, hruns₃⟩ := nextChar_coming none r₂ m₂
      rw [Option.toList_none, List.nil_append] at hnext₃ hruns₃
      rw [hnext₂, hnext₁] at hruns₃
      have he : ¬ coming t r 2 = kcXMLTagC := fun he => h ⟨hc, hd, he⟩
      refine ⟨⟨m₃, t.str ++ [coming t r 0], some (coming t r 1),
        some (coming t r 2)⟩, r₃, ?_, ?_, ?_⟩
      · rw [cdataTurn_eq, hruns₁, afterFirst, if_pos hc, hruns₂,
          afterSecond, if_pos hd, hruns₃, afterThird, if_neg he]
        simp
      · intro _
        rw [hd]
      · intro i
        match i with
        | 0 => rfl
        | 1 => rfl
        | i + 2 =>
            have hi : coming ⟨m₃, t.str ++ [coming t r 0],
                some (coming t r 1), some (coming t r 2)⟩ r₃ (i + 2)
                = r₃.ahead.getD i (last r₃) := rfl
            rw [hi, hnext₃, hnext₂, hnext₁]
    · refine ⟨⟨m₂, t.str ++ [coming t r 0], some (coming t r 1), none⟩, r₂,
        ?_, ?_, ?_⟩
      · rw [cdataTurn_eq, hruns₁, afterFirst, if_pos hc, hruns₂,
          afterSecond, if_neg hd]
        simp
      · intro hne
        exact absurd rfl hne
      · intro i
        match i with
        | 0 => rfl
        | i + 1 =>
            have hi : coming ⟨m₂, t.str ++ [coming t r 0],
                some (coming t r 1), none⟩ r₂ (i + 1)
                = r₂.ahead.getD i (last r₂) := rfl
            rw [hi, hnext₂, hnext₁]
  · refine ⟨⟨m₁, t.str ++ [coming t r 0], none, t.ch2⟩, r₁, ?_, ?_, ?_⟩
    · rw [cdataTurn_eq, hruns₁, afterFirst, if_neg hc]
      simp
    · intro hne
      exact absurd (hch2 hc) hne
    · intro i
      exact hnext₁ i

/-- No `]]>` ahead: the loop never ends, whatever the transport repeats. -/
theorem cdataLoop_never {r : LookaheadReader} (h : ¬ kXMLCDATAC <:+: r.ahead)
    {n : Int} {str : Bytes} :
    ¬ (cdataLoop ⟨n, str, none, none⟩).Halts r := by
  rw [cdataLoop_eq]
  refine Prog.loop_diverges (I := fun t r => t.Ok ∧ ∀ i,
    ¬ (coming t r i = kcXMLSBracketC ∧ coming t r (i + 1) = kcXMLSBracketC
      ∧ coming t r (i + 2) = kcXMLTagC)) ?_ ⟨fun h => absurd rfl h, ?_⟩
  · intro t r hex
    obtain ⟨hok, hno⟩ := hex
    obtain ⟨t', r', hruns, hok', hnext⟩ := cdataTurn_coming hok (hno 0)
    refine ⟨t', r', hruns, hok', ?_⟩
    intro i
    rw [hnext, hnext, hnext]
    exact hno (i + 1)
  · intro i hex
    obtain ⟨h₁, h₂, h₃⟩ := hex
    have hget : ∀ j, coming ⟨n, str, none, none⟩ r j
        = r.ahead.getD j (last r) := fun _ => rfl
    rw [hget] at h₁ h₂ h₃
    by_cases hi : i + 2 < r.ahead.length
    · exact h (infix_of_getD hi h₁ h₂ h₃)
    · -- the last byte is both of the last two
      have hlast : r.ahead.getD (i + 1) (last r) = last r :=
        getD_last (by omega)
      rw [hlast] at h₂
      rw [List.getD_eq_default _ _ (by omega), h₂] at h₃
      exact absurd h₃ (by decide)

end Sandesh.Xml
