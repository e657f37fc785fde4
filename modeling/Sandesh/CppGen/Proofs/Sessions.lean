/-
The generated readers make their calls in order.

`Session` is a grammar of calls. Here every run of the code that the
compiler generates for a type, whatever the type, the input and the value
that the variable had before, is shown to be one: of the calls that it
makes, each is one that `Next` allows, and the reader is the one that
these calls leave behind. `skip` is such code too, for a field that nobody
knows.

The log is no part of the program. The code over a reader with a log does
what the code over the reader does (`over_code`), so a run can be replayed
with one, call by call (`Leads`).
-/
import Sandesh.CppGen.Proofs.Lookahead
import Sandesh.Lib.Focus
import Sandesh.Xml.Proofs.Reader

namespace Sandesh.CppGen

open Lib Xml Prog

-- ============================================================ the replay

section Over

/-- Without the log, each function over the logged reader is the one over
the plain reader; from the calls up. -/
theorem over_getChar : Over Logged.reader Ops.logged.getChar Ops.plain.getChar :=
  fun _ _ => rfl

theorem over_peekChar : Over Logged.reader Ops.logged.peekChar Ops.plain.peekChar :=
  fun _ _ => rfl

theorem over_peek2Char : Over Logged.reader Ops.logged.peek2Char Ops.plain.peek2Char :=
  fun _ _ => rfl

theorem over_readXMLSyntaxChar (ch : UInt8) :
    Over Logged.reader (Ops.logged.readXMLSyntaxChar ch) (Ops.plain.readXMLSyntaxChar ch) :=
  over_bind over_getChar fun _ => over_pure _

/-- By induction on the string. -/
theorem over_readXMLSyntaxString (str : Bytes) :
    ∀ result : Int, Over Logged.reader (Ops.logged.readXMLSyntaxString str result)
      (Ops.plain.readXMLSyntaxString str result) := by
  induction str with
  | nil =>
      intro result
      exact over_pure _
  | cons ch str ih =>
      intro result
      exact over_bind (over_readXMLSyntaxChar ch) fun ret => over_ite (over_pure _) (ih _)

/-- The loops, turn by turn. -/
theorem over_tagLoop (t : Int × Bytes) :
    Over Logged.reader (Ops.logged.tagLoop t) (Ops.plain.tagLoop t) :=
  over_loop (fun _ => over_bind over_getChar fun _ => over_pure _) t

theorem over_charsLoop (stop : UInt8 → Bool) (t : Int × Bytes) :
    Over Logged.reader (Ops.logged.charsLoop stop t) (Ops.plain.charsLoop stop t) := by
  refine over_loop (fun t => over_bind over_peekChar fun ch => ?_) t
  exact over_ite (over_pure _) (over_bind over_getChar fun _ => over_pure _)

theorem over_nextChar (ch : Option UInt8) (result : Int) :
    Over Logged.reader (Ops.logged.nextChar ch result) (Ops.plain.nextChar ch result) := by
  cases ch with
  | some ch => exact over_pure _
  | none =>
      refine over_bind over_peekChar fun ch => ?_
      exact over_bind over_getChar fun _ => over_pure _

theorem over_cdataLoop (t : CData) :
    Over Logged.reader (Ops.logged.cdataLoop t) (Ops.plain.cdataLoop t) := by
  refine over_loop (fun t => over_bind (over_nextChar _ _) fun x => ?_) t
  refine over_ite ?_ (over_pure _)
  refine over_bind (over_nextChar _ _) fun y => ?_
  refine over_ite ?_ (over_pure _)
  refine over_bind (over_nextChar _ _) fun z => ?_
  exact over_ite (over_pure _) (over_pure _)

theorem over_readXMLTag (endTag : Bool) :
    Over Logged.reader (Ops.logged.readXMLTag endTag) (Ops.plain.readXMLTag endTag) := by
  refine over_bind (over_readXMLSyntaxChar _) fun ret => over_ite (over_pure _) ?_
  refine over_ite ?_ (over_tagLoop _)
  refine over_bind (over_readXMLSyntaxChar _) fun ret2 => ?_
  exact over_ite (over_pure _) (over_tagLoop _)

/-- The four reads. -/
theorem over_get (op : ReadOp) :
    Over Logged.reader (Ops.logged.get op) (Ops.plain.get op) := by
  have hcode : Over Logged.reader (Ops.logged.code op) (Ops.plain.code op) := by
    cases op with
    | tag endTag => exact over_readXMLTag endTag
    | string => exact over_charsLoop _ _
    | numeric => exact over_charsLoop _ _
    | cdata =>
        refine over_bind (over_readXMLSyntaxString _ _) fun ret => ?_
        exact over_ite (over_pure _) (over_cdataLoop _)
  exact over_bind hcode fun x => over_ite (over_throw _) (over_pure _)

theorem over_lift {α : Type} (x : Except Fault α) :
    Over Logged.reader (Ops.lift x) (Ops.lift x) := by
  cases x with
  | ok a => exact over_pure a
  | error f => exact over_throw _

/-- What is made of them. -/
theorem over_readTagTokens :
    Over Logged.reader Ops.logged.readTagTokens Ops.plain.readTagTokens := by
  refine over_bind (over_get _) fun x => ?_
  obtain ⟨ret, str⟩ := x
  dsimp only
  cases tokens str with
  | nil => exact over_throw _
  | cons name rest => exact over_pure _

theorem over_readContainerBegin {τ : Type} (name : Bytes) (attrs : List (Attr τ)) (s : τ) :
    Over Logged.reader (Ops.logged.readContainerBegin name attrs s)
      (Ops.plain.readContainerBegin name attrs s) := by
  refine over_bind over_readTagTokens fun x => over_ite (over_throw _) ?_
  exact over_bind (over_lift _) fun _ => over_pure _

variable {W : World}

theorem over_readFieldBegin (name : Bytes) (fieldType : TType) (fieldId : BitVec 16) :
    Over Logged.reader (Ops.logged.readFieldBegin W name fieldType fieldId)
      (Ops.plain.readFieldBegin W name fieldType fieldId) := by
  refine over_bind over_peek2Char fun ch => over_bind over_peek2Char fun ch1 => ?_
  refine over_ite (over_pure _) (over_bind over_readTagTokens fun x => ?_)
  exact over_bind (over_lift _) fun _ => over_pure _

/-- The reads of values. -/
theorem over_leaf (l : Leaf) :
    Over Logged.reader (l.read Ops.logged W) (l.read Ops.plain W) := by
  have hnone : ∀ {α : Type} {m' : Prog Logged Abort α} {m : Read α},
      Over Logged.reader m' m → Over Logged.reader (m' >>= fun _ => Pure.pure none)
        (m >>= fun _ => (Pure.pure none : Read (Option TType))) :=
    fun hm => over_bind hm fun _ => over_pure _
  cases l with
  | bool value => exact hnone (over_bind (over_get _) fun _ => over_pure _)
  | integer w => exact hnone (over_bind (over_get _) fun _ => over_pure _)
  | string => exact hnone (over_bind (over_get _) fun _ => over_pure _)
  | text => exact hnone (over_get _)
  | ipaddr =>
      refine hnone (over_bind (over_get _) fun _ => ?_)
      exact over_ite (over_pure _) (over_throw _)
  | xml => exact hnone (over_get _)
  | double => exact over_throw _

/-- The log does not change what a call does. -/
theorem over_code (c : Call) : Over Logged.reader (c.code Ops.logged W) (c.source W) := by
  rw [← Call.code_plain]
  have hend : Over Logged.reader (Ops.logged.readEnd >>= fun _ => Pure.pure none)
      (Ops.plain.readEnd >>= fun _ => (Pure.pure none : Read (Option TType))) :=
    over_bind (over_bind (over_get _) fun _ => over_pure _) fun _ => over_pure _
  cases c with
  | sandeshBegin =>
      refine over_bind (over_bind over_readTagTokens fun x => ?_) fun _ => over_pure _
      exact over_bind (over_lift _) fun _ => over_pure _
  | structBegin => exact over_bind (over_get _) fun _ => over_pure _
  | elementBegin =>
      exact over_bind (over_bind (over_get _) fun _ => over_pure _) fun _ => over_pure _
  | sandeshEnd => exact hend
  | structEnd => exact hend
  | fieldEnd => exact hend
  | containerEnd kind => exact hend
  | elementEnd => exact hend
  | fieldBegin name fieldType fieldId =>
      exact over_bind (over_readFieldBegin _ _ _) fun _ => over_pure _
  | containerBegin kind =>
      cases kind <;> exact over_bind (over_readContainerBegin _ _ _) fun _ => over_pure _
  | leaf l => exact over_leaf l

end Over

-- ====================================================== one program

/-- From the place `p` every run is a session, and one that returns a value
ends at a place with `Q`. -/
def Leads {α : Type} (W : World) (p : List Frame) (m : Read α)
    (Q : α → List Frame → Prop) : Prop :=
  ∀ ⦃s₀ s : Logged⦄ ⦃res : Except Abort α⦄ ⦃r' : LookaheadReader⦄,
    Session W s₀ (some p) s → m.Runs s.reader res r' →
      ∃ place s', s'.reader = r' ∧ Session W s₀ place s'
        ∧ ∀ a, res = .ok a → ∃ p', place = some p' ∧ Q a p'

section Leads

variable {α β τ : Type} {W : World} {p p' : List Frame} {Q Q' : α → List Frame → Prop}
  {T : β → List Frame → Prop}

/-- The rules for sequences of calls that stay in the grammar: `Q` says what
is open behind them. -/
theorem leads_imp {m : Read α} (h : Leads W p m Q) (hQ : ∀ a q, Q a q → Q' a q) :
    Leads W p m Q' := by
  intro s₀ s res r' hs hruns
  obtain ⟨place, s', hr, hs', hplace⟩ := h hs hruns
  refine ⟨place, s', hr, hs', ?_⟩
  intro a ha
  obtain ⟨q, hq, hQa⟩ := hplace a ha
  exact ⟨q, hq, hQ a q hQa⟩

theorem leads_pure {a : α} (h : Q a p) : Leads W p (Pure.pure a) Q := by
  intro s₀ s res r' hs hruns
  obtain ⟨rfl, rfl⟩ := runs_pure.mp hruns
  refine ⟨some p, s, rfl, hs, ?_⟩
  intro b hb
  injection hb with hb
  exact ⟨p, rfl, hb ▸ h⟩

/-- An error ends the session wherever it is. -/
theorem leads_throw {e : Abort} : Leads W p (throw e : Read α) Q := by
  intro s₀ s res r' hs hruns
  obtain ⟨rfl, rfl⟩ := runs_throw.mp hruns
  exact ⟨some p, s, rfl, hs, nofun⟩

/-- What is open behind the one is open in front of the other. -/
theorem leads_bind {m : Read α} {f : α → Read β} (hm : Leads W p m Q)
    (hf : ∀ a q, Q a q → Leads W q (f a) T) : Leads W p (m >>= f) T := by
  intro s₀ s res r' hs hruns
  rcases runs_bind.mp hruns with ⟨a, r₁, h₁, h₂⟩ | ⟨e, h₁, rfl⟩
  · obtain ⟨place, s₁, rfl, hs₁, hplace⟩ := hm hs h₁
    obtain ⟨q, rfl, hq⟩ := hplace a rfl
    exact hf a q hq hs₁ h₂
  · obtain ⟨place, s₁, hr, hs₁, -⟩ := hm hs h₁
    exact ⟨place, s₁, hr, hs₁, nofun⟩

/-- The next piece starts at a place that is known. -/
theorem leads_then {m : Read α} {f : α → Read β} (hm : Leads W p m fun _ q => q = p')
    (hf : ∀ a, Leads W p' (f a) T) : Leads W p (m >>= f) T := by
  refine leads_bind hm ?_
  intro a q hq
  rw [hq]
  exact hf a

theorem leads_map {m : Read α} {f : α → β} (hm : Leads W p m fun _ q => q = p') :
    Leads W p (f <$> m) fun _ q => q = p' :=
  leads_then hm fun _ => leads_pure rfl

theorem leads_ite {c : Prop} [Decidable c] {m₁ m₂ : Read α} (h₁ : c → Leads W p m₁ Q)
    (h₂ : ¬ c → Leads W p m₂ Q) : Leads W p (if c then m₁ else m₂) Q := by
  by_cases h : c
  · rw [if_pos h]
    exact h₁ h
  · rw [if_neg h]
    exact h₂ h

/-- Every turn but the last comes back to the place where it started. -/
theorem leads_loop {body : τ → Read (τ ⊕ α)}
    (hbody : ∀ t, Leads W p (body t) fun o q => Sum.elim (fun _ => q = p) (fun a => Q a q) o)
    (t : τ) : Leads W p (loop body t) Q := by
  intro s₀ s res r' hs hruns
  refine loop_rec (P := fun _ r res r' => ∀ s, s.reader = r → Session W s₀ (some p) s →
    ∃ place s', s'.reader = r' ∧ Session W s₀ place s'
      ∧ ∀ a, res = .ok a → ∃ p', place = some p' ∧ Q a p') ?_ ?_ ?_ hruns s rfl hs
  · rintro t _ a r' hb s rfl hs
    obtain ⟨place, s', hr, hs', hplace⟩ := hbody t hs hb
    refine ⟨place, s', hr, hs', ?_⟩
    intro b hb
    injection hb with hb
    subst hb
    exact hplace _ rfl
  · rintro t _ e r' hb s rfl hs
    obtain ⟨place, s', hr, hs', -⟩ := hbody t hs hb
    exact ⟨place, s', hr, hs', nofun⟩
  · rintro t _ t₁ r₁ res r' hb hnext s rfl hs
    obtain ⟨place, s₁, hr, hs₁, hplace⟩ := hbody t hs hb
    obtain ⟨q, rfl, hq⟩ := hplace _ rfl
    obtain rfl : q = p := hq
    exact hnext s₁ hr hs₁

/-- One call, of which the program may look at more than the answer. -/
theorem leads_call {m : Read α} (c : Call) (answer : α → Option TType)
    (hsource : c.source W = m >>= fun a => Pure.pure (answer a))
    (hany : ∃ b q, Next p c b q) (hnext : ∀ a, ∃ q, Next p c (answer a) q ∧ Q a q) :
    Leads W p m Q := by
  intro s₀ s res r' hs hruns
  cases res with
  | error e =>
      have hcall : (c.source W).Runs s.reader (.error e) r' := by
        rw [hsource]
        exact Runs.bind_error hruns
      obtain ⟨s', hruns', hr⟩ := (over_code c).exists_runs hcall
      obtain ⟨b, q, hnext⟩ := hany
      exact ⟨none, s', hr, .failed hs hruns' hnext, nofun⟩
  | ok a =>
      have hcall : (c.source W).Runs s.reader (.ok (answer a)) r' := by
        rw [hsource]
        exact Runs.bind_ok hruns (runs_pure.mpr ⟨rfl, rfl⟩)
      obtain ⟨s', hruns', hr⟩ := (over_code c).exists_runs hcall
      obtain ⟨q, hq, hQ⟩ := hnext a
      refine ⟨some q, s', hr, .call hs hruns' hq, ?_⟩
      intro a' ha
      injection ha with ha
      exact ⟨q, rfl, ha ▸ hQ⟩

/-- One call without an answer. -/
theorem leads_step {m : Read α} {c : Call} (next : Next p c none p')
    (hsource : c.source W = m >>= fun _ => Pure.pure none) :
    Leads W p m fun _ q => q = p' :=
  leads_call c (fun _ => none) hsource ⟨none, p', next⟩ fun _ => ⟨p', next, rfl⟩

end Leads

-- ============================================================ the fields

section Fields

variable {α ρ : Type} {W : World} {p p' : List Frame} {sandesh : Bool}

/-- Where a struct's reader is behind `readFieldBegin`. -/
def behind (sandesh : Bool) (p : List Frame) (ftype : TType) : List Frame :=
  if ftype = .T_STOP then .stopped sandesh :: p else .field false :: .fields sandesh :: p

/-- A begin of a field may come at any place among the fields. -/
theorem next_behind (name : Bytes) (fieldType : TType) (fieldId : BitVec 16)
    (ftype : TType) :
    Next (.fields sandesh :: p) (.fieldBegin name fieldType fieldId) (some ftype)
      (behind sandesh p ftype) := by
  unfold behind
  by_cases hstop : ftype = .T_STOP
  · rw [if_pos hstop, hstop]
    exact .stop
  · rw [if_neg hstop]
    exact .fieldBegin hstop

/-- Behind it a field is open, or the fields are at their end. -/
theorem leads_readFieldBegin (name : Bytes) (fieldType : TType) (fieldId : BitVec 16) :
    Leads W (.fields sandesh :: p) (readFieldBegin W Reads.code name fieldType fieldId)
      fun x q => q = behind sandesh p x.2.2.1 := by
  refine leads_call (.fieldBegin name fieldType fieldId) (fun x => some x.2.2.1) rfl
    ⟨_, _, next_behind name fieldType fieldId .T_STOP⟩ ?_
  intro x
  exact ⟨_, next_behind name fieldType fieldId x.2.2.1, rfl⟩

/-- What `skip` calls is the same call, without the name. -/
theorem readFieldBegin_named {R : Reads} {t : TType} {i : BitVec 16} {r r' : LookaheadReader}
    {res : Except Abort (Int × TType × BitVec 16)} (name : Bytes)
    (h : (Xml.readFieldBegin W R t i).Runs r res r') :
    (∃ x, (readFieldBegin W R name t i).Runs r (.ok x) r' ∧ res = .ok (x.1, x.2.2))
      ∨ ∃ e, (readFieldBegin W R name t i).Runs r (.error e) r' ∧ res = .error e := by
  rw [Xml.readFieldBegin, runs_peek2Char, runs_peek2Char] at h
  rw [readFieldBegin]
  simp only [runs_peek2Char]
  split at h
  · next hslash =>
      obtain ⟨rfl, rfl⟩ := runs_pure.mp h
      refine .inl ⟨(0, name, .T_STOP, i), ?_, rfl⟩
      rw [if_pos hslash]
      exact runs_pure.mpr ⟨rfl, rfl⟩
  · next hslash =>
      simp only [if_neg hslash]
      rcases runs_bind.mp h with ⟨x, r₁, htokens, h⟩ | ⟨e, htokens, rfl⟩
      · rcases runs_bind.mp h with ⟨y, r₂, hattrs, h⟩ | ⟨e, hattrs, rfl⟩
        · obtain ⟨rfl, rfl⟩ := runs_pure.mp h
          refine .inl ⟨(x.1, x.2.1, y), ?_, rfl⟩
          exact htokens.bind_ok (hattrs.bind_ok (runs_pure.mpr ⟨rfl, rfl⟩))
        · exact .inr ⟨e, htokens.bind_ok hattrs.bind_error, rfl⟩
      · exact .inr ⟨e, htokens.bind_error, rfl⟩

/-- The same for the begin inside a skip. -/
theorem leads_skippedFieldBegin (t : TType) (i : BitVec 16) :
    Leads W (.fields sandesh :: p) (Xml.readFieldBegin W Reads.code t i)
      fun x q => q = behind sandesh p x.2.1 := by
  intro s₀ s res r' hs hruns
  rcases readFieldBegin_named [] hruns with ⟨x, hx, rfl⟩ | ⟨e, he, rfl⟩
  · obtain ⟨place, s', hr, hs', hplace⟩ := leads_readFieldBegin [] t i hs hx
    refine ⟨place, s', hr, hs', ?_⟩
    intro a ha
    injection ha with ha
    subst ha
    exact hplace x rfl
  · obtain ⟨place, s', hr, hs', -⟩ := leads_readFieldBegin [] t i hs he
    exact ⟨place, s', hr, hs', nofun⟩

/-- A field is closed, with or without its value. -/
theorem leads_fieldEnd (read : Bool) :
    Leads W (.field read :: p) (readFieldEnd Reads.code) fun _ q => q = p :=
  leads_step .fieldEnd rfl

/-- The value of a field, or nothing. -/
def InField (p : List Frame) (q : List Frame) : Prop := ∃ read, q = .field read :: p

/-- `while (true)` around the fields stops where the struct can be closed. -/
theorem leads_readLoop {field : BitVec 16 → TType → ρ → Read (Int × List Int × ρ)}
    (hfield : ∀ fid ftype value p,
      Leads W (.field false :: p) (field fid ftype value) fun _ => InField p)
    (t : Reading ρ) :
    Leads W (.fields sandesh :: p) (readLoop W Reads.code field t)
      fun _ q => q = .stopped sandesh :: p := by
  refine leads_loop (fun t => leads_bind (leads_readFieldBegin _ _ _) ?_) t
  rintro ⟨ret, fname, ftype, fid⟩ _ rfl
  refine leads_ite ?_ ?_
  · intro hstop
    refine leads_pure ?_
    show behind sandesh p ftype = _
    rw [behind, if_pos hstop]
  · intro hstop
    show Leads W (behind sandesh p ftype) _ _
    rw [behind, if_neg hstop]
    refine leads_bind (hfield fid ftype t.value _) ?_
    rintro ⟨ret2, isset, value⟩ _ ⟨read, rfl⟩
    exact leads_then (leads_fieldEnd read) fun ret3 => leads_pure rfl

/-- The loop of a skip through a structure. -/
theorem leads_skipFields {skip : TType → Read Int}
    (hskip : ∀ t p, Leads W (.field false :: p) (skip t) fun _ => InField p) (result : Int) :
    Leads W (.fields sandesh :: p) (skipFields W Reads.code skip result)
      fun _ q => q = .stopped sandesh :: p := by
  refine leads_loop (fun t => leads_bind (leads_skippedFieldBegin _ _) ?_) _
  rintro ⟨ret, ftype, fid⟩ _ rfl
  refine leads_ite ?_ ?_
  · intro hstop
    refine leads_pure ?_
    show behind sandesh p ftype = _
    rw [behind, if_pos hstop]
  · intro hstop
    show Leads W (behind sandesh p ftype) _ _
    rw [behind, if_neg hstop]
    refine leads_bind (hskip ftype _) ?_
    rintro ret2 _ ⟨read, rfl⟩
    exact leads_then (leads_fieldEnd read) fun ret3 => leads_pure rfl

/-- A struct may be opened here, and is followed by `p'`. -/
def Opens (p p' : List Frame) : Prop :=
  ∀ sandesh, Next p (openCall sandesh) none (.fields sandesh :: p')

/-- The loop of a generated reader, if the `switch` reads one value in each
field. -/
theorem leads_readStruct {required : List Int}
    {field : BitVec 16 → TType → ρ → Read (Int × List Int × ρ)}
    (hfield : ∀ fid ftype value p,
      Leads W (.field false :: p) (field fid ftype value) fun _ => InField p)
    (hopens : Opens p p') (value : ρ) :
    Leads W p (readStruct W Reads.code required field value) fun _ q => q = p' := by
  have hbegin : Leads W p (readStructBegin Reads.code) fun _ q => q = .fields false :: p' :=
    leads_step (hopens false) rfl
  have hclosed : Next (.stopped false :: p') (closeCall false) none p' := .closed
  have hend : Leads W (.stopped false :: p') (readStructEnd Reads.code) fun _ q => q = p' :=
    leads_step hclosed rfl
  refine leads_then hbegin fun x => ?_
  refine leads_then (leads_readLoop hfield _) fun t => ?_
  refine leads_then hend fun ret2 => ?_
  exact leads_ite (fun _ => leads_pure rfl) fun _ => leads_throw

end Fields

-- =============================================================== values

section Values

variable {W : World} {p p' : List Frame}

/-- A structure may stand wherever a value may. -/
theorem opens_slot (slot : Slot p p') : Opens p p' := fun _ => .opened slot

/-- A value that is no container is one call. -/
theorem leads_leaf {α : Type} {m : Read α} (l : Leaf) (slot : Slot p p')
    (hsource : (Call.leaf l).source W = m >>= fun _ => Pure.pure none) :
    Leads W p m fun _ q => q = p' :=
  leads_step (.leaf slot) hsource

/-- The end of a container closes it. -/
theorem leads_containerEnd (kind : Kind) :
    Leads W (.elements kind :: p) (readContainerEnd Reads.code) fun _ q => q = p := by
  have hnext : Next (.elements kind :: p) (.containerEnd kind) none p := .containerEnd
  exact leads_step hnext rfl

/-- `skip` reads a value, or nothing at all. -/
def Skips (p p' q : List Frame) : Prop := q = p ∨ q = p'

/-- The loop over elements, if each leaves what it finds. -/
theorem leads_skipElems {elem : Read Int} (helem : Leads W p elem fun _ q => q = p)
    (n : Nat) :
    ∀ result, Leads W p (skipElems elem n result) fun _ q => q = p := by
  induction n with
  | zero =>
      intro result
      exact leads_pure rfl
  | succ n ih =>
      intro result
      exact leads_then helem fun ret => ih _

/-- One level of `skip`. -/
theorem leads_skipBody {skip : TType → Read Int}
    (hskip : ∀ t {p p'}, Slot p p' → Leads W p (skip t) fun _ => Skips p p')
    (t : TType) (slot : Slot p p') :
    Leads W p (skipBody W Reads.code skip t) fun _ => Skips p p' := by
  have hbehind : ∀ {α : Type} {m : Read α}, (Leads W p m fun _ q => q = p') →
      Leads W p m fun _ => Skips p p' :=
    fun hm => leads_imp hm fun _ _ hq => .inr hq
  have hfield : ∀ t p, Leads W (.field false :: p) (skip t) fun _ => InField p := by
    intro t p
    refine leads_imp (hskip t .field) ?_
    rintro _ q (rfl | rfl)
    · exact ⟨false, rfl⟩
    · exact ⟨true, rfl⟩
  have helem : ∀ kind t, Leads W (.elements kind :: p') (skip t)
      fun _ q => q = .elements kind :: p' := by
    intro kind t
    refine leads_imp (hskip t .elements) ?_
    rintro _ q (rfl | rfl)
    · rfl
    · rfl
  have hopens := opens_slot slot
  cases t with
  | T_BOOL => exact hbehind (leads_map (leads_leaf .text slot rfl))
  | T_BYTE => exact hbehind (leads_map (leads_leaf (.integer 8) slot rfl))
  | T_I16 => exact hbehind (leads_map (leads_leaf (.integer 16) slot rfl))
  | T_I32 => exact hbehind (leads_map (leads_leaf (.integer 32) slot rfl))
  | T_I64 => exact hbehind (leads_map (leads_leaf (.integer 64) slot rfl))
  | T_U16 => exact hbehind (leads_map (leads_leaf (.integer 16) slot rfl))
  | T_U32 => exact hbehind (leads_map (leads_leaf (.integer 32) slot rfl))
  | T_U64 => exact hbehind (leads_map (leads_leaf (.integer 64) slot rfl))
  | T_IPV4 => exact hbehind (leads_map (leads_leaf (.integer 32) slot rfl))
  | T_IPADDR => exact hbehind (leads_leaf .ipaddr slot rfl)
  | T_DOUBLE => exact leads_throw
  | T_STRING => exact hbehind (leads_map (leads_leaf .text slot rfl))
  | T_XML => exact hbehind (leads_map (leads_leaf .xml slot rfl))
  | T_UUID => exact hbehind (leads_map (leads_leaf .text slot rfl))
  | T_STRUCT =>
      have hclosed : Next (.stopped false :: p') (closeCall false) none p' := .closed
      refine hbehind (leads_then (leads_step (hopens false) rfl) fun x => ?_)
      refine leads_then (leads_skipFields hfield _) fun result => ?_
      exact leads_then (leads_step hclosed rfl) fun ret2 => leads_pure rfl
  | T_SANDESH =>
      have hclosed : Next (.stopped true :: p') (closeCall true) none p' := .closed
      refine hbehind (leads_then (leads_step (hopens true) rfl) fun x => ?_)
      refine leads_then (leads_skipFields hfield _) fun result => ?_
      exact leads_then (leads_step hclosed rfl) fun ret2 => leads_pure rfl
  | T_MAP =>
      have hbegin : Next p (.containerBegin .map) none (.elements .map :: p') :=
        .containerBegin slot
      refine hbehind (leads_then (leads_step hbegin rfl) fun x => ?_)
      refine leads_then (leads_skipElems ?_ _ _) fun result => ?_
      · refine leads_then (helem _ _) fun ret => ?_
        exact leads_then (helem _ _) fun ret2 => leads_pure rfl
      · exact leads_then (leads_containerEnd .map) fun ret2 => leads_pure rfl
  | T_SET =>
      have hbegin : Next p (.containerBegin .set) none (.elements .set :: p') :=
        .containerBegin slot
      refine hbehind (leads_then (leads_step hbegin rfl) fun x => ?_)
      refine leads_then (leads_skipElems (helem _ _) _ _) fun result => ?_
      exact leads_then (leads_containerEnd .set) fun ret2 => leads_pure rfl
  | T_LIST =>
      have hbegin : Next p (.containerBegin .list) none (.elements .list :: p') :=
        .containerBegin slot
      refine hbehind (leads_then (leads_step hbegin rfl) fun x => ?_)
      refine leads_then (leads_skipElems (helem _ _) _ _) fun result => ?_
      exact leads_then (leads_containerEnd .list) fun ret2 => leads_pure rfl
  | T_STOP => exact leads_pure (.inl rfl)
  | T_VOID => exact leads_pure (.inl rfl)
  | T_UTF8 => exact leads_pure (.inl rfl)
  | T_UTF16 => exact leads_pure (.inl rfl)

/-- `skip`, down to any depth. -/
theorem leads_skip (t : TType) (slot : Slot p p') :
    Leads W p (skip W Reads.code t) fun _ => Skips p p' := by
  intro s₀ s res r' hs hruns
  refine fix_rec (P := fun t r res r' => ∀ {p p'}, Slot p p' → ∀ s₀ s, s.reader = r →
    Session W s₀ (some p) s → ∃ place s', s'.reader = r' ∧ Session W s₀ place s'
      ∧ ∀ a, res = .ok a → ∃ q, place = some q ∧ Skips p p' q) ?_ hruns slot s₀ s rfl hs
  rintro g ih t _ res r' hbody p p' slot s₀ s rfl hs
  have hskip : ∀ t {p p'}, Slot p p' → Leads W p (g t) fun _ => Skips p p' := by
    intro t p p' slot s₀ s res r' hs hruns
    exact ih hruns slot s₀ s rfl hs
  exact leads_skipBody hskip t slot hs hbody

end Values

-- ===================================================== generated readers

section Generated

variable {W : World} {F : Foreign} {p p' : List Frame}

/-- The reader of a base type. -/
theorem leads_read (b : Base) (v : b.Val F) (slot : Slot p p') :
    Leads W p (b.read W Reads.code v) fun _ q => q = p' := by
  have hstring : Leads W p (Reads.code.get .string) fun _ q => q = p' :=
    leads_leaf .text slot rfl
  cases b with
  | bool => exact leads_leaf (.bool v) slot rfl
  | byte => exact leads_leaf (.integer 8) slot rfl
  | i16 => exact leads_leaf (.integer 16) slot rfl
  | u16 => exact leads_leaf (.integer 16) slot rfl
  | i32 => exact leads_leaf (.integer 32) slot rfl
  | u32 => exact leads_leaf (.integer 32) slot rfl
  | ipv4 => exact leads_leaf (.integer 32) slot rfl
  | i64 => exact leads_leaf (.integer 64) slot rfl
  | u64 => exact leads_leaf (.integer 64) slot rfl
  | ipaddr =>
      refine leads_then hstring fun x => ?_
      obtain ⟨ret, str⟩ := x
      dsimp only
      cases F.address_from_string str with
      | some a => exact leads_pure rfl
      | none => exact leads_throw
  | double => exact leads_throw
  | string => exact leads_leaf .string slot rfl
  | xml => exact leads_leaf .xml slot rfl
  | uuid => exact leads_then hstring fun x => leads_pure rfl

/-- An element, in its tags or without. -/
theorem leads_element {α : Type} {kind : Kind} {value : Read (Int × α)}
    (hvalue : ∀ {p p'}, Slot p p' → Leads W p value fun _ q => q = p') (delimited : Bool) :
    Leads W (.elements kind :: p) (deserializeElement Reads.code delimited value)
      fun _ q => q = .elements kind :: p := by
  cases delimited with
  | false => exact hvalue .elements
  | true =>
      have hbegin : Next (.elements kind :: p) .elementBegin none
        (.element false :: .elements kind :: p) := .elementBegin
      have hend : Next (.element true :: .elements kind :: p) .elementEnd none
        (.elements kind :: p) := .elementEnd
      refine leads_then (leads_step hbegin rfl) fun ret => ?_
      refine leads_then (hvalue .element) fun x => ?_
      exact leads_then (leads_step hend rfl) fun ret3 => leads_pure rfl

/-- The loops over elements and entries of a generated reader. -/
theorem leads_readElems {α : Type} {elem : Read (Int × α)}
    (helem : Leads W p elem fun _ q => q = p) (n : Nat) :
    Leads W p (readElems elem n) fun _ q => q = p := by
  induction n with
  | zero => exact leads_pure rfl
  | succ n ih => exact leads_then helem fun x => leads_then ih fun y => leads_pure rfl

theorem leads_readEntries {α β : Type} {less : α → α → Bool} {key : Read (Int × α)}
    {val : β → Read (Int × β)} {zero : β} (hkey : Leads W p key fun _ q => q = p)
    (hval : ∀ w, Leads W p (val w) fun _ q => q = p) (n : Nat) :
    ∀ m, Leads W p (readEntries less key val zero n m) fun _ q => q = p := by
  induction n with
  | zero =>
      intro m
      exact leads_pure rfl
  | succ n ih =>
      intro m
      refine leads_then hkey fun x => ?_
      refine leads_then (hval _) fun y => ?_
      exact leads_then (ih _) fun z => leads_pure rfl

/-- A field that is not known. -/
theorem leads_skipField {ρ : Type} (ftype : TType) (value : ρ) :
    Leads W (.field false :: p) (skipField W Reads.code ftype value) fun _ => InField p := by
  refine leads_bind (leads_skip ftype .field) ?_
  rintro ret q (rfl | rfl)
  · exact leads_pure ⟨false, rfl⟩
  · exact leads_pure ⟨true, rfl⟩

variable (junk : Bool) (less : (t : Ty) → t.Val F → t.Val F → Bool)

mutual

/-- The reader of a value of any type, where there is room for one. -/
theorem leads_deserialize : (t : Ty) → (v : t.Val F) → ∀ {p p' : List Frame}, Slot p p' →
    Leads W p (t.deserialize W Reads.code junk less v) fun _ q => q = p'
  | .base b, v, _, _, slot => leads_read b v slot
  | .enum, _, _, _, slot => leads_leaf (.integer 32) slot rfl
  | .typedef t, v, _, _, slot => leads_deserialize t v slot
  | .struct _ fs, r, _, _, slot =>
      leads_readStruct (fun fid ftype value p => leads_switch fs fid ftype value p)
        (opens_slot slot) r
  | .list e, _, p, p', slot => by
      have hbegin : Next p (.containerBegin .list) none (.elements .list :: p') :=
        .containerBegin slot
      refine leads_then (leads_step hbegin rfl) fun x => ?_
      refine leads_then (leads_readElems (leads_element ?_ _) _) fun y => ?_
      · exact fun slot => leads_deserialize e (e.zero F) slot
      · exact leads_then (leads_containerEnd .list) fun ret3 => leads_pure rfl
  | .set e, _, p, p', slot => by
      have hbegin : Next p (.containerBegin .set) none (.elements .set :: p') :=
        .containerBegin slot
      refine leads_then (leads_step hbegin rfl) fun x => ?_
      refine leads_then (leads_readElems (leads_element ?_ _) _) fun y => ?_
      · exact fun slot => leads_deserialize e (e.declared F junk) slot
      · exact leads_then (leads_containerEnd .set) fun ret3 => leads_pure rfl
  | .map k v, _, p, p', slot => by
      have hbegin : Next p (.containerBegin .map) none (.elements .map :: p') :=
        .containerBegin slot
      refine leads_then (leads_step hbegin rfl) fun x => ?_
      refine leads_then (leads_readEntries (leads_element ?_ _)
        (fun w => leads_element ?_ _) _ _) fun y => ?_
      · exact fun slot => leads_deserialize k (k.declared F junk) slot
      · exact fun slot => leads_deserialize v w slot
      · exact leads_then (leads_containerEnd .map) fun ret3 => leads_pure rfl

/-- The `switch` over the fields. -/
theorem leads_switch : (fs : Fields) → (fid : BitVec 16) → (ftype : TType) →
    (r : fs.Rec F) → (p : List Frame) →
    Leads W (.field false :: p) (fs.deserialize W Reads.code junk less fid ftype r)
      fun _ => InField p
  | .nil, _, ftype, r, _ => leads_skipField ftype r
  | .cons f t fs, fid, ftype, r, p => by
      refine leads_ite ?_ ?_
      · intro hkey
        refine leads_ite ?_ ?_
        · intro htype
          refine leads_then (leads_deserialize t _ .field) fun x => ?_
          exact leads_pure ⟨true, rfl⟩
        · intro htype
          exact leads_skipField ftype r
      · intro hkey
        refine leads_bind (leads_switch fs fid ftype r.2 p) ?_
        intro x q hq
        exact leads_pure hq

end

-- ============================================================ a message

/-- A structure may stand alone. -/
theorem opens_nil : Opens [] [] := fun _ => .start

variable {buf : Bytes} {data_ : UInt8} {data2_ : UInt8 × UInt8} {fs : Fields}
  {value : fs.Rec F} {r' : LookaheadReader}

/-- Whatever a generated reader of a struct does with its input, its calls
are a session, and a whole one if it returns. -/
theorem readStruct_session {res : Except Abort (Int × fs.Rec F)}
    (h : (readStruct W Reads.code fs.required (fs.deserialize W Reads.code junk less)
      value).Runs (LookaheadReader.new buf data_ data2_) res r') :
    ∃ place s, s.reader = r' ∧ Session W (Logged.new buf data_ data2_) place s
      ∧ ∀ x, res = .ok x → place = some [] := by
  have hleads : Leads W [] (readStruct W Reads.code fs.required
      (fs.deserialize W Reads.code junk less) value) fun _ q => q = [] :=
    leads_readStruct (leads_switch junk less fs) opens_nil value
  have hstart : Session W (Logged.new buf data_ data2_) (some [])
      (Logged.new buf data_ data2_) := .nil
  obtain ⟨place, s, hr, hs, hplace⟩ := hleads hstart h
  refine ⟨place, s, hr, hs, ?_⟩
  intro x hx
  obtain ⟨q, hq, hnil⟩ := hplace x hx
  rw [hq, hnil]

/-- A struct that is read takes the bytes in front of what is left, in
order. -/
theorem readStruct_takes {x : Int × fs.Rec F}
    (h : (readStruct W Reads.code fs.required (fs.deserialize W Reads.code junk less)
      value).Runs (LookaheadReader.new buf data_ data2_) (.ok x) r')
    (hlong : r'.ranOut = false) :
    ∃ s : Logged, s.reader = r' ∧ s.consumed ++ r'.trans = buf ∧ ∀ e ∈ s.log, e.Apart := by
  obtain ⟨place, s, rfl, hs, hplace⟩ := readStruct_session junk less h
  obtain ⟨hkept, hfits⟩ := session_kept (kept_new buf data_ data2_) (Nat.le_refl 0) hs hlong
  refine ⟨s, rfl, ?_, hkept.apart⟩
  have hnone : Fits [] s.reader := hfits [] (hplace x rfl)
  have hlook : s.reader.look = [] := List.length_eq_zero_iff.mp (Nat.le_zero.mp hnone)
  have hbytes := hkept.bytes
  rw [LookaheadReader.stream, hlook, List.nil_append] at hbytes
  exact hbytes

end Generated

end Sandesh.CppGen
