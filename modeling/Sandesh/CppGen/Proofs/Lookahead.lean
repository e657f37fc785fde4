/-
`LookaheadReader` hands out its input, in order and once.

`read` may be called at any time, but `peek` only while `data2_` is empty
and `peek2` only while `data_` is: then the bytes handed out and the bytes
still to come are always the whole input (`Kept`). What keeps the two
apart is a rule for what may be pending between two calls (`Fits`):

- nothing at all before `readFieldBegin`;
- up to two bytes once that has answered `T_STOP`, when only an end tag
  can follow;
- at most the one byte of a `peek` anywhere else.

A tag may start from any of these and leaves nothing behind, since it has
at least two characters; a string or a number leaves the character it
stopped at. Nothing is said of an input that has run out, where the reader
repeats itself.
-/
import Sandesh.CppGen.Calls
import Sandesh.Xml.Proofs.Ends

namespace Sandesh.CppGen

open Lib Xml Prog LookaheadReader

-- ========================================================== one peek

section Peek

variable {r : LookaheadReader}

/-- Nothing of `data2_` is overtaken. -/
theorem peek_stream (htwo : r.has2Data_ = false) (hout : r.peek.2.ranOut = false) :
    r.peek.2.stream = r.stream := by
  cases hr : r.ahead with
  | nil =>
      rw [peek_nil hr] at hout
      cases hout
  | cons c t =>
      rw [peek_cons hr]
      have hnone : r.held2 = [] := by
        rw [held2, htwo]
        rfl
      rw [LookaheadReader.stream, LookaheadReader.stream, look, look, hnone, List.append_nil]
      rw [LookaheadReader.ahead] at hr
      rw [hr]
      simp [held, held2, htwo]

/-- Nothing of `data_` is overtaken. -/
theorem peek2_stream (hone : r.hasData_ = false)
    (hfirst : r.firstRead_ = true → r.has2Data_ = true) (hout : r.peek2.2.ranOut = false) :
    r.peek2.2.stream = r.stream := by
  obtain ⟨trans, hasData_, data_, has2Data_, data2_, firstRead_, ranOut⟩ := r
  cases has2Data_ with
  | true => rfl
  | false =>
      have hread : firstRead_ = false := by
        cases firstRead_ with
        | false => rfl
        | true => cases hfirst rfl
      subst hone hread
      match trans with
      | [] => cases hout
      | [_] => cases hout
      | _ :: _ :: _ => rfl

/-- `peek2` leaves `data_` alone, and the transport can only run out. -/
theorem peek2_flags (r : LookaheadReader) :
    r.peek2.2.hasData_ = r.hasData_ ∧ r.peek2.2.has2Data_ = true
      ∧ (r.peek2.2.ranOut = false → r.ranOut = false) := by
  obtain ⟨trans, hasData_, data_, has2Data_, data2_, firstRead_, ranOut⟩ := r
  cases has2Data_ with
  | true => exact ⟨rfl, rfl, id⟩
  | false =>
      match trans with
      | [] => exact ⟨rfl, rfl, nofun⟩
      | [_] => exact ⟨rfl, rfl, nofun⟩
      | _ :: _ :: _ => exact ⟨rfl, rfl, id⟩

end Peek

-- ============================================================ the bytes

/-- An operation that does not overtake the other lookahead. -/
def Entry.Apart (e : Entry) : Prop :=
  (e.op = .peek2 → e.hasData_ = false) ∧ (e.op = .peek → e.has2Data_ = false)

/-- What was handed out and what is still to come are the input. -/
structure Kept (buf : Bytes) (s : Logged) : Prop where
  bytes : s.consumed ++ s.reader.stream = buf
  apart : ∀ e ∈ s.log, e.Apart
  first : s.reader.firstRead_ = true → s.reader.has2Data_ = true

/-- Nothing has been consumed yet. -/
theorem kept_new (buf : Bytes) (data_ : UInt8) (data2_ : UInt8 × UInt8) :
    Kept buf (Logged.new buf data_ data2_) where
  bytes := rfl
  apart := by
    intro e he
    cases he
  first := by
    intro h
    cases h

section Entries

variable {buf : Bytes} {s : Logged}

/-- One more entry that is apart from the other lookahead. -/
theorem Kept.apart_note (h : Kept buf s) {e : Entry} (he : e.Apart) :
    ∀ e' ∈ s.log ++ [e], e'.Apart := by
  intro e' hmem
  rcases List.mem_append.mp hmem with hold | hnew
  · exact h.apart e' hold
  · rw [List.mem_singleton.mp hnew]
    exact he

/-- Only a read consumes. -/
theorem consumed_read {e : Entry} (he : e.op = .read) (r : LookaheadReader) :
    (Logged.mk r (s.log ++ [e])).consumed = s.consumed ++ [e.byte] := by
  simp [Logged.consumed, he]

/-- Looking ahead consumes nothing. -/
theorem consumed_other {e : Entry} (he : e.op ≠ .read) (r : LookaheadReader) :
    (Logged.mk r (s.log ++ [e])).consumed = s.consumed := by
  simp [Logged.consumed, he]

/-- Each operation keeps the bytes in order; the looks ask that the other
kind is not pending. -/
theorem Kept.read (h : Kept buf s) (hout : s.reader.read.2.ranOut = false) :
    Kept buf (Logged.note .read LookaheadReader.read s).2 := by
  refine ⟨?_, h.apart_note ⟨nofun, nofun⟩, (moves_read s.reader).first h.first⟩
  cases hs : s.reader.stream with
  | nil =>
      rw [read_nil hs] at hout
      cases hout
  | cons c t =>
      obtain ⟨r', hread, hstream, -, -⟩ := read_cons hs
      have hbytes := h.bytes
      rw [hs] at hbytes
      show (Logged.mk s.reader.read.2 _).consumed ++ s.reader.read.2.stream = buf
      rw [consumed_read rfl, List.append_assoc, hread, hstream]
      exact hbytes

/-- A `peek` with nothing in `data2_` keeps the bytes in order. -/
theorem Kept.peek (h : Kept buf s) (htwo : s.reader.has2Data_ = false)
    (hout : s.reader.peek.2.ranOut = false) :
    Kept buf (Logged.note .peek LookaheadReader.peek s).2 := by
  refine ⟨?_, h.apart_note ⟨nofun, fun _ => htwo⟩, (moves_peek s.reader).first h.first⟩
  show (Logged.mk s.reader.peek.2 _).consumed ++ s.reader.peek.2.stream = buf
  rw [consumed_other (by simp), peek_stream htwo hout]
  exact h.bytes

/-- So does a `peek2` with nothing in `data_`. -/
theorem Kept.peek2 (h : Kept buf s) (hone : s.reader.hasData_ = false)
    (hout : s.reader.peek2.2.ranOut = false) :
    Kept buf (Logged.note .peek2 LookaheadReader.peek2 s).2 := by
  refine ⟨?_, h.apart_note ⟨fun _ => hone, nofun⟩, fun _ => (peek2_flags s.reader).2.1⟩
  show (Logged.mk s.reader.peek2.2 _).consumed ++ s.reader.peek2.2.stream = buf
  rw [consumed_other (by simp), peek2_stream hone h.first hout]
  exact h.bytes

end Entries

-- =========================================================== one program

/-- From a reader with `P`, as long as the input lasts, the bytes are kept
and a value is returned with `Q`. -/
def Safe {α : Type} (P : LookaheadReader → Prop) (m : Prog Logged Abort α)
    (Q : α → LookaheadReader → Prop) : Prop :=
  ∀ ⦃s s' : Logged⦄ ⦃res : Except Abort α⦄, m.Runs s res s' → s'.reader.ranOut = false →
    s.reader.ranOut = false ∧ ∀ buf, Kept buf s → P s.reader →
      Kept buf s' ∧ ∀ a, res = .ok a → Q a s'.reader

section Safe

variable {α β τ : Type} {P P' : LookaheadReader → Prop} {Q Q' : α → LookaheadReader → Prop}
  {T : β → LookaheadReader → Prop}

/-- The rules for programs that never look one way while the other is
pending. -/
theorem safe_imp {m : Prog Logged Abort α} (h : Safe P m Q) (hP : ∀ r, P' r → P r)
    (hQ : ∀ a r, Q a r → Q' a r) : Safe P' m Q' := by
  intro s s' res hruns hout
  obtain ⟨hbefore, hkeeps⟩ := h hruns hout
  refine ⟨hbefore, ?_⟩
  intro buf hkept hp
  obtain ⟨hkept', hq⟩ := hkeeps buf hkept (hP _ hp)
  exact ⟨hkept', fun a ha => hQ a _ (hq a ha)⟩

/-- The rule for `pure`. -/
theorem safe_pure {a : α} (h : ∀ r, P r → Q a r) :
    Safe P (Pure.pure a : Prog Logged Abort α) Q := by
  intro s s' res hruns hout
  obtain ⟨rfl, rfl⟩ := runs_pure.mp hruns
  refine ⟨hout, ?_⟩
  intro buf hkept hp
  refine ⟨hkept, ?_⟩
  intro b hb
  injection hb with hb
  rw [← hb]
  exact h _ hp

/-- After an error there are no more calls. -/
theorem safe_throw {e : Abort} : Safe P (throw e : Prog Logged Abort α) Q := by
  intro s s' res hruns hout
  obtain ⟨rfl, rfl⟩ := runs_throw.mp hruns
  exact ⟨hout, fun buf hkept _ => ⟨hkept, nofun⟩⟩

/-- What is pending behind the one is pending in front of the other. -/
theorem safe_bind {m : Prog Logged Abort α} {g : α → Prog Logged Abort β}
    (hm : Safe P m Q) (hg : ∀ a, Safe (Q a) (g a) T) : Safe P (m >>= g) T := by
  intro s s' res hruns hout
  rcases runs_bind.mp hruns with ⟨a, s₁, h₁, h₂⟩ | ⟨e, h₁, rfl⟩
  · obtain ⟨hout₁, hkeeps₂⟩ := hg a h₂ hout
    obtain ⟨hout₀, hkeeps₁⟩ := hm h₁ hout₁
    refine ⟨hout₀, ?_⟩
    intro buf hkept hp
    obtain ⟨hkept₁, hq⟩ := hkeeps₁ buf hkept hp
    exact hkeeps₂ buf hkept₁ (hq a rfl)
  · obtain ⟨hout₀, hkeeps⟩ := hm h₁ hout
    exact ⟨hout₀, fun buf hkept hp => ⟨(hkeeps buf hkept hp).1, nofun⟩⟩

/-- The rule for a branch. -/
theorem safe_ite {c : Prop} [Decidable c] {m₁ m₂ : Prog Logged Abort α}
    (h₁ : Safe P m₁ Q) (h₂ : Safe P m₂ Q) : Safe P (if c then m₁ else m₂) Q := by
  by_cases h : c
  · rw [if_pos h]
    exact h₁
  · rw [if_neg h]
    exact h₂

/-- A condition of the reader that every turn keeps. -/
theorem safe_loop {body : τ → Prog Logged Abort (τ ⊕ α)}
    (hbody : ∀ t, Safe P (body t) fun o r => Sum.elim (fun _ => P r) (fun a => Q a r) o)
    (t : τ) : Safe P (loop body t) Q := by
  intro s s' res hruns
  refine loop_rec (P := fun _ s res s' => s'.reader.ranOut = false →
    s.reader.ranOut = false ∧ ∀ buf, Kept buf s → P s.reader →
      Kept buf s' ∧ ∀ a, res = .ok a → Q a s'.reader) ?_ ?_ ?_ hruns
  · intro t s a s' hb hout
    obtain ⟨hbefore, hkeeps⟩ := hbody t hb hout
    refine ⟨hbefore, ?_⟩
    intro buf hkept hp
    obtain ⟨hkept', hq⟩ := hkeeps buf hkept hp
    refine ⟨hkept', ?_⟩
    intro a' ha
    injection ha with ha
    rw [← ha]
    exact hq _ rfl
  · intro t s e s' hb hout
    obtain ⟨hbefore, hkeeps⟩ := hbody t hb hout
    exact ⟨hbefore, fun buf hkept hp => ⟨(hkeeps buf hkept hp).1, nofun⟩⟩
  · intro t s t₁ s₁ res s' hb hnext hout
    obtain ⟨hout₁, hkeeps₂⟩ := hnext hout
    obtain ⟨hbefore, hkeeps₁⟩ := hbody t hb hout₁
    refine ⟨hbefore, ?_⟩
    intro buf hkept hp
    obtain ⟨hkept₁, hq⟩ := hkeeps₁ buf hkept hp
    exact hkeeps₂ buf hkept₁ (hq _ rfl)

/-- One operation on the reader. -/
theorem safe_act {op : ReaderOp} {f : LookaheadReader → UInt8 × LookaheadReader}
    {Q : UInt8 → LookaheadReader → Prop}
    (hout : ∀ r, (f r).2.ranOut = false → r.ranOut = false)
    (hkept : ∀ {buf s}, Kept buf s → P s.reader → (f s.reader).2.ranOut = false →
      Kept buf (Logged.note op f s).2)
    (hQ : ∀ r, P r → Q (f r).1 (f r).2) :
    Safe P (act fun s => (.ok (Logged.note op f s).1, (Logged.note op f s).2)) Q := by
  intro s s' res hruns hran
  obtain ⟨rfl, rfl⟩ := Prod.mk.inj (runs_act.mp hruns)
  refine ⟨hout _ hran, ?_⟩
  intro buf hk hp
  refine ⟨hkept hk hp hran, ?_⟩
  intro a ha
  injection ha with ha
  rw [← ha]
  exact hQ _ hp

end Safe

-- ========================================================= what is pending

/-- At most `n` bytes are pending. -/
def Within (n : Nat) (r : LookaheadReader) : Prop := r.look.length ≤ n

/-- At most the byte of a `peek` is pending. -/
def Single (r : LookaheadReader) : Prop := r.has2Data_ = false

/-- What is pending is no more than so many bytes. -/
theorem within_mono {n m : Nat} {r : LookaheadReader} (hnm : n ≤ m) (h : Within n r) :
    Within m r :=
  Nat.le_trans h hnm

/-- With one byte held two may be looked at. -/
theorem Single.within {r : LookaheadReader} (h : Single r) : Within 2 r := by
  have htwo : r.has2Data_ = false := h
  rw [Within, look, held, held2, htwo]
  cases r.hasData_ <;> simp

/-- Without the byte of a `peek` at most two are pending. -/
theorem within_of_one {r : LookaheadReader} (h : r.hasData_ = false) : Within 2 r := by
  rw [Within, look, held, held2, h]
  cases r.has2Data_ <;> cases r.firstRead_ <;> simp

/-- Nothing is pending. -/
theorem within_zero {r : LookaheadReader} (h : Within 0 r) :
    r.hasData_ = false ∧ r.has2Data_ = false :=
  look_eq_nil.mp (List.length_eq_zero_iff.mp (Nat.le_zero.mp h))

/-- A reader that has run out stays so. -/
theorem ranOut_back {r r' : LookaheadReader} (h : Moves r r') (hout : r'.ranOut = false) :
    r.ranOut = false := by
  rw [← Bool.not_eq_true] at hout ⊢
  exact mt h.ranOut hout

/-- One byte less is pending. -/
theorem safe_getChar (n : Nat) :
    Safe (Within (n + 1)) Ops.logged.getChar fun _ => Within n := by
  refine safe_act (fun r => ranOut_back (moves_read r)) (fun hk _ hout => hk.read hout) ?_
  intro r hr
  show r.read.2.look.length ≤ n
  rw [(read_tail r).2, List.length_tail]
  exact Nat.sub_le_of_le_add hr

/-- The calls, each with what it leaves pending. -/
theorem safe_getChar_single : Safe Single Ops.logged.getChar fun _ => Single :=
  safe_act (fun r => ranOut_back (moves_read r)) (fun hk _ hout => hk.read hout)
    fun r => (moves_read r).two

/-- `peekChar` between reads. -/
theorem safe_peekChar : Safe Single Ops.logged.peekChar fun _ => Single :=
  safe_act (fun r => ranOut_back (moves_peek r)) (fun hk htwo hout => hk.peek htwo hout)
    fun r => (moves_peek r).two

/-- `peek2Char` before a tag. -/
theorem safe_peek2Char :
    Safe (fun r => r.hasData_ = false) Ops.logged.peek2Char fun _ r => r.hasData_ = false :=
  safe_act (fun r => (peek2_flags r).2.2) (fun hk hone hout => hk.peek2 hone hout)
    fun r hone => (peek2_flags r).1.trans hone

-- ======================================================== the four reads

/-- The loops leave nothing pending but what ends them. -/
theorem safe_tagLoop (t : Int × Bytes) :
    Safe (Within 1) (Ops.logged.tagLoop t) fun _ => Within 0 := by
  refine safe_loop (fun t => safe_bind (safe_getChar 0) fun ch => safe_pure ?_) t
  intro r hr
  by_cases hc : ch = kcXMLTagC
  · rw [if_pos hc]
    exact hr
  · rw [if_neg hc]
    exact within_mono (Nat.zero_le 1) hr

/-- A character takes one byte of what is pending. -/
theorem safe_readXMLSyntaxChar (n : Nat) (ch : UInt8) :
    Safe (Within (n + 1)) (Ops.logged.readXMLSyntaxChar ch) fun _ => Within n :=
  safe_bind (safe_getChar n) fun _ => safe_pure fun _ => id

/-- A tag has an opening and a closing character at least, so it leaves
nothing pending; unless it is not there. -/
theorem safe_readXMLTag (endTag : Bool) :
    Safe (Within 2) (Ops.logged.readXMLTag endTag) fun x r => 0 ≤ x.1 → Within 0 r := by
  refine safe_bind (safe_readXMLSyntaxChar 1 _) fun ret => ?_
  by_cases hret : ret < 0
  · rw [if_pos hret]
    exact safe_pure fun r _ hle => absurd hret (Int.not_lt.mpr hle)
  · rw [if_neg hret]
    refine safe_ite ?_ ?_
    · refine safe_bind (safe_readXMLSyntaxChar 0 _) fun ret2 => ?_
      by_cases hret2 : ret2 < 0
      · rw [if_pos hret2]
        exact safe_pure fun r _ hle => absurd hret2 (Int.not_lt.mpr hle)
      · rw [if_neg hret2]
        exact safe_imp (safe_tagLoop _) (fun r => within_mono (Nat.zero_le 1))
          fun _ r hr _ => hr
    · exact safe_imp (safe_tagLoop _) (fun r => id) fun _ r hr _ => hr

/-- The loop over a text. -/
theorem safe_charsLoop (stop : UInt8 → Bool) (t : Int × Bytes) :
    Safe Single (Ops.logged.charsLoop stop t) fun _ => Single := by
  refine safe_loop (fun t => safe_bind safe_peekChar fun ch => ?_) t
  refine safe_ite (safe_pure fun _ => id) ?_
  exact safe_bind safe_getChar_single fun _ => safe_pure fun _ => id

/-- One turn of it. -/
theorem safe_nextChar (ch : Option UInt8) (result : Int) :
    Safe Single (Ops.logged.nextChar ch result) fun _ => Single := by
  cases ch with
  | some ch => exact safe_pure fun _ => id
  | none =>
      refine safe_bind safe_peekChar fun ch => ?_
      exact safe_bind safe_getChar_single fun _ => safe_pure fun _ => id

/-- The loop over a CDATA section. -/
theorem safe_cdataLoop (t : CData) :
    Safe Single (Ops.logged.cdataLoop t) fun _ => Single := by
  refine safe_loop (fun t => safe_bind (safe_nextChar _ _) fun x => ?_) t
  refine safe_ite ?_ (safe_pure fun _ => id)
  refine safe_bind (safe_nextChar _ _) fun y => ?_
  refine safe_ite ?_ (safe_pure fun _ => id)
  refine safe_bind (safe_nextChar _ _) fun z => ?_
  exact safe_ite (safe_pure fun _ => id) (safe_pure fun _ => id)

/-- A string of syntax. -/
theorem safe_readXMLSyntaxString (str : Bytes) :
    ∀ result : Int, Safe Single (Ops.logged.readXMLSyntaxString str result) fun _ => Single := by
  induction str with
  | nil =>
      intro result
      exact safe_pure fun _ => id
  | cons ch str ih =>
      intro result
      have hchar : Safe Single (Ops.logged.readXMLSyntaxChar ch) fun _ => Single :=
        safe_bind safe_getChar_single fun _ => safe_pure fun _ => id
      exact safe_bind hchar fun ret => safe_ite (safe_pure fun _ => id) (ih _)

/-- A read that starts behind a value leaves at most one byte pending. -/
theorem safe_get_tag (endTag : Bool) :
    Safe (Within 2) (Ops.logged.get (.tag endTag)) fun _ => Within 0 := by
  refine safe_bind (safe_readXMLTag endTag) fun x => ?_
  by_cases hx : x.1 < 0
  · rw [if_pos hx]
    exact safe_throw
  · rw [if_neg hx]
    exact safe_pure fun r hr => hr (Int.not_lt.mp hx)

/-- The reads of a value leave at most one byte pending. -/
theorem safe_get_value {op : ReadOp} (hop : ∀ endTag, op ≠ .tag endTag) :
    Safe Single (Ops.logged.get op) fun _ => Single := by
  have hcode : Safe Single (Ops.logged.code op) fun _ => Single := by
    cases op with
    | tag endTag => exact absurd rfl (hop endTag)
    | string => exact safe_charsLoop _ _
    | numeric => exact safe_charsLoop _ _
    | cdata =>
        refine safe_bind (safe_readXMLSyntaxString _ _) fun ret => ?_
        exact safe_ite (safe_pure fun _ => id) (safe_cdataLoop _)
  exact safe_bind hcode fun x => safe_ite safe_throw (safe_pure fun _ => id)

-- ============================================================= the calls

/-- What looks at no byte changes nothing. -/
theorem safe_lift {α : Type} {P : LookaheadReader → Prop} (x : Except Fault α) :
    Safe P (Ops.lift x) fun _ => P := by
  cases x with
  | ok a => exact safe_pure fun _ => id
  | error f => exact safe_throw

/-- A tag takes what `peek2` has left. -/
theorem safe_readTagTokens : Safe (Within 2) Ops.logged.readTagTokens fun _ => Within 0 := by
  refine safe_bind (safe_get_tag false) fun x => ?_
  obtain ⟨ret, str⟩ := x
  dsimp only
  cases tokens str with
  | nil => exact safe_throw
  | cons name rest => exact safe_pure fun _ => id

/-- The opening tag of a container. -/
theorem safe_readContainerBegin {τ : Type} (name : Bytes) (attrs : List (Attr τ)) (s : τ) :
    Safe (Within 2) (Ops.logged.readContainerBegin name attrs s) fun _ => Within 0 := by
  refine safe_bind safe_readTagTokens fun x => ?_
  refine safe_ite safe_throw ?_
  exact safe_bind (safe_lift _) fun _ => safe_pure fun _ => id

variable {W : World}

/-- The calls of the grammar, each from what may be pending in front of it.
-/
theorem safe_containerBegin (kind : Kind) :
    Safe (Within 2) (kind.readBegin Ops.logged W) fun _ => Within 0 := by
  cases kind <;>
    exact safe_bind (safe_readContainerBegin _ _ _) fun _ => safe_pure fun _ => id

/-- The two looks, then a tag; or the two bytes stay where they are. -/
theorem safe_readFieldBegin (name : Bytes) (fieldType : TType) (fieldId : BitVec 16) :
    Safe (Within 0) (Ops.logged.readFieldBegin W name fieldType fieldId)
      fun x r => Within 2 r ∧ (x.2.2.1 ≠ .T_STOP → Within 0 r) := by
  refine safe_imp (P := fun r => r.hasData_ = false) ?_
    (fun r hr => (within_zero hr).1) (fun _ _ => id)
  refine safe_bind safe_peek2Char fun ch => ?_
  refine safe_bind safe_peek2Char fun ch1 => ?_
  refine safe_ite ?_ ?_
  · refine safe_pure ?_
    intro r hr
    exact ⟨within_of_one hr, fun hne => absurd rfl hne⟩
  · refine safe_bind (safe_imp safe_readTagTokens (fun r => within_of_one) fun _ _ => id) ?_
    intro x
    refine safe_bind (safe_lift _) fun y => safe_pure ?_
    intro r hr
    exact ⟨within_mono (Nat.zero_le 2) hr, fun _ => hr⟩

/-- A base value. -/
theorem safe_leaf (l : Leaf) : Safe Single (l.read Ops.logged W) fun _ => Single := by
  have hstring : Safe Single (Ops.logged.get .string) fun _ => Single := safe_get_value nofun
  have hnone : ∀ {α : Type} {m : Prog Logged Abort α}, (Safe Single m fun _ => Single) →
      Safe Single (m >>= fun _ => Pure.pure (none : Option TType)) fun _ => Single :=
    fun hm => safe_bind hm fun _ => safe_pure fun _ => id
  cases l with
  | bool value => exact hnone (safe_bind hstring fun _ => safe_pure fun _ => id)
  | integer w =>
      have hnumeric : Safe Single (Ops.logged.get .numeric) fun _ => Single :=
        safe_get_value nofun
      exact hnone (safe_bind hnumeric fun _ => safe_pure fun _ => id)
  | string => exact hnone (safe_bind hstring fun _ => safe_pure fun _ => id)
  | text => exact hnone hstring
  | ipaddr =>
      exact hnone (safe_bind hstring fun _ => safe_ite (safe_pure fun _ => id) safe_throw)
  | xml => exact hnone (safe_get_value nofun)
  | double => exact safe_throw

-- ============================================================= the order

/-- What may be pending at each place. -/
def Fits : List Frame → LookaheadReader → Prop
  | [], r => Within 0 r
  | .fields _ :: _, r => Within 0 r
  | .stopped _ :: _, r => Within 2 r
  | .field _ :: _, r => Single r
  | .elements _ :: _, r => Single r
  | .element _ :: _, r => Single r

/-- A reader with nothing pending fits everywhere. -/
theorem fits_of_none {r : LookaheadReader} (h : Within 0 r) (p : List Frame) : Fits p r := by
  match p with
  | [] => exact h
  | .fields _ :: _ => exact h
  | .stopped _ :: _ => exact within_mono (Nat.zero_le 2) h
  | .field _ :: _ => exact (within_zero h).2
  | .elements _ :: _ => exact (within_zero h).2
  | .element _ :: _ => exact (within_zero h).2

/-- A tag may be read everywhere. -/
theorem within_of_fits {r : LookaheadReader} {p : List Frame} (h : Fits p r) :
    Within 2 r := by
  match p with
  | [] => exact within_mono (Nat.zero_le 2) h
  | .fields _ :: _ => exact within_mono (Nat.zero_le 2) h
  | .stopped _ :: _ => exact h
  | .field _ :: _ => exact Single.within h
  | .elements _ :: _ => exact Single.within h
  | .element _ :: _ => exact Single.within h

/-- A value may be read where there is room for one. -/
theorem fits_slot {p p' : List Frame} (h : Slot p p') :
    (∀ r, Fits p r → Single r) ∧ ∀ r, Single r → Fits p' r := by
  cases h <;> exact ⟨fun _ => id, fun _ => id⟩

section Call

variable {p p' : List Frame}

/-- A call that reads a tag and nothing else. -/
theorem safe_tag_call {α : Type} {m : Prog Logged Abort α} {a : Option TType}
    (hm : Safe (Within 2) m fun _ => Within 0) :
    Safe (Fits p) (m >>= fun _ => Pure.pure a) fun _ => Fits p' :=
  safe_bind (safe_imp hm (fun _ => within_of_fits) fun _ _ => id)
    fun _ => safe_pure fun _ hr => fits_of_none hr p'

/-- An opening tag, as the grammar has it. -/
theorem safe_openCall (sandesh : Bool) :
    Safe (Fits p) ((openCall sandesh).code Ops.logged W) fun _ => Fits p' := by
  cases sandesh with
  | false => exact safe_tag_call (safe_get_tag false)
  | true =>
      refine safe_tag_call (safe_bind safe_readTagTokens fun x => ?_)
      exact safe_bind (safe_lift _) fun _ => safe_pure fun _ => id

/-- A closing tag. -/
theorem safe_readEnd : Safe (Within 2) Ops.logged.readEnd fun _ => Within 0 :=
  safe_bind (safe_get_tag true) fun _ => safe_pure fun _ => id

/-- Each call, from a place where it may come. -/
theorem safe_call {c : Call} {a : Option TType} (h : Next p c a p') :
    Safe (Fits p) (c.code Ops.logged W) fun b r => b = a → Fits p' r := by
  -- all but the begin of a field end in the same way, whatever they answer
  have hany : ∀ {m : Prog Logged Abort (Option TType)}, (Safe (Fits p) m fun _ => Fits p') →
      Safe (Fits p) m fun b r => b = a → Fits p' r :=
    fun hm => safe_imp hm (fun _ => id) fun _ _ hr _ => hr
  cases h with
  | start => exact hany (safe_openCall _)
  | opened slot => exact hany (safe_openCall _)
  | stop =>
      refine safe_bind (safe_readFieldBegin _ _ _) fun x => safe_pure ?_
      intro r hr _
      exact hr.1
  | fieldBegin htype =>
      refine safe_bind (safe_readFieldBegin _ _ _) fun x => safe_pure ?_
      intro r hr heq
      injection heq with heq
      exact fits_of_none (hr.2 (heq ▸ htype)) _
  | fieldEnd => exact hany (safe_tag_call safe_readEnd)
  | closed =>
      rename_i sandesh
      cases sandesh <;> exact hany (safe_tag_call safe_readEnd)
  | leaf slot =>
      obtain ⟨hbefore, hbehind⟩ := fits_slot slot
      exact hany (safe_imp (safe_leaf _) hbefore fun _ => hbehind)
  | containerBegin slot =>
      exact hany (safe_imp (safe_containerBegin _) (fun _ => within_of_fits)
        fun _ r hr => fits_of_none hr _)
  | elementBegin =>
      refine hany (safe_tag_call ?_)
      exact safe_bind (safe_get_tag false) fun _ => safe_pure fun _ => id
  | elementEnd => exact hany (safe_tag_call safe_readEnd)
  | containerEnd => exact hany (safe_tag_call safe_readEnd)

end Call

/-- Up to now all bytes are kept, and what is pending fits. -/
theorem session_kept {buf : Bytes} {s₀ : Logged} (h₀ : Kept buf s₀) (hnone : Within 0 s₀.reader)
    {place : Option (List Frame)} {s : Logged} (h : Session W s₀ place s)
    (hlong : s.reader.ranOut = false) :
    Kept buf s ∧ ∀ p, place = some p → Fits p s.reader := by
  induction h with
  | nil =>
      refine ⟨h₀, ?_⟩
      intro p hp
      injection hp with hp
      subst hp
      exact hnone
  | call before runs next ih =>
      obtain ⟨hbefore, hkeeps⟩ := safe_call next runs hlong
      obtain ⟨hkept, hfits⟩ := ih hbefore
      obtain ⟨hkept', hfits'⟩ := hkeeps buf hkept (hfits _ rfl)
      refine ⟨hkept', ?_⟩
      intro q hq
      injection hq with hq
      subst hq
      exact hfits' _ rfl rfl
  | failed before runs next ih =>
      obtain ⟨hbefore, hkeeps⟩ := safe_call next runs hlong
      obtain ⟨hkept, hfits⟩ := ih hbefore
      exact ⟨(hkeeps buf hkept (hfits _ rfl)).1, nofun⟩

/-- On an input that is long enough, whatever the calls, the bytes that
`read` has returned are the input up to what is still pending; nothing is
pending behind a whole struct; `peek2` never finds `data_` pending, nor
`peek` `data2_`. -/
theorem lookahead_in_order (W : World) (buf : Bytes) (data_ : UInt8) (data2_ : UInt8 × UInt8)
    (place : Option (List Frame)) (s : Logged)
    (hcalls : Session W (Logged.new buf data_ data2_) place s)
    (hlong : s.reader.ranOut = false) :
    s.consumed ++ s.reader.look ++ s.reader.trans = buf
      ∧ (place = some [] → s.reader.look = [])
      ∧ ∀ e ∈ s.log, (e.op = .peek2 → e.hasData_ = false)
        ∧ (e.op = .peek → e.has2Data_ = false) := by
  obtain ⟨hkept, hfits⟩ := session_kept (kept_new buf data_ data2_) (Nat.le_refl 0) hcalls hlong
  refine ⟨?_, ?_, hkept.apart⟩
  · rw [List.append_assoc]
    exact hkept.bytes
  · intro hplace
    exact List.length_eq_zero_iff.mp (Nat.le_zero.mp (hfits [] hplace))

-- ===================================================== a struct that is read

/-- The reader after a call that ends within `n` turns. -/
def Call.after (W : World) (n : Nat) (c : Call) (s : Logged) : Logged :=
  match (c.code Ops.logged W s).run n with
  | some x => x.2
  | none => s

/-- A call that is in the grammar goes on with the session. -/
theorem Session.after {s₀ s : Logged} {p p' : List Frame} {a : Option TType}
    (before : Session W s₀ (some p) s) (n : Nat) (c : Call)
    (hruns : ((c.code Ops.logged W s).run n).map Prod.fst = some (.ok a))
    (next : Next p c a p') : Session W s₀ (some p') (c.after W n s) := by
  obtain ⟨x, hx, hres⟩ := Option.map_eq_some_iff.mp hruns
  have hafter : c.after W n s = x.2 := by
    rw [Call.after, hx]
  refine before.call ⟨n, ?_⟩ next
  rw [hx, hafter, ← hres]

/-- A struct with one integer in it. -/
def oneField : Bytes := lit "<a><b type=\"i32\">7</b></a>"

/-- The example's reader at the start. -/
def oneFieldNew : Logged := Logged.new oneField 0 (0, 0)

/-- Its reader once the struct is read. -/
def oneFieldRead : Logged :=
  [Call.structBegin, .fieldBegin [] .T_STOP 0, .leaf (.integer 32), .fieldEnd,
    .fieldBegin [] .T_STOP 0, .structEnd].foldl (fun s c => c.after World.plain 20 s)
    oneFieldNew

/-- The example's session, call by call. -/
theorem oneField_session : Session World.plain oneFieldNew (some []) oneFieldRead := by
  have hnew : Session World.plain oneFieldNew (some []) oneFieldNew := .nil
  have hopened := hnew.after 20 .structBegin rfl (@Next.start false)
  have hfield := hopened.after 20 (.fieldBegin [] .T_STOP 0) rfl
    (.fieldBegin (show TType.T_I32 ≠ .T_STOP by decide))
  have hvalue := hfield.after 20 (.leaf (.integer 32)) rfl (.leaf .field)
  have hnext := hvalue.after 20 .fieldEnd rfl .fieldEnd
  have hstop := hnext.after 20 (.fieldBegin [] .T_STOP 0) rfl .stop
  exact hstop.after 20 .structEnd rfl (@Next.closed false _)

/-- A structure with one field is read, and nothing is left behind. -/
theorem one_field_in_order :
    (oneFieldRead.log.filter fun e => e.op = .peek2).length = 4
      ∧ oneFieldRead.reader.ranOut = false
      ∧ oneFieldRead.consumed ++ oneFieldRead.reader.look ++ oneFieldRead.reader.trans = oneField
      ∧ (some [] = some ([] : List Frame) → oneFieldRead.reader.look = [])
      ∧ ∀ e ∈ oneFieldRead.log, (e.op = .peek2 → e.hasData_ = false)
        ∧ (e.op = .peek → e.has2Data_ = false) :=
  ⟨by decide +kernel, by decide +kernel,
    lookahead_in_order World.plain oneField 0 (0, 0) (some []) oneFieldRead oneField_session
      (by decide +kernel)⟩

end Sandesh.CppGen
