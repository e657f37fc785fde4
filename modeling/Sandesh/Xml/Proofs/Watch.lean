/-
Reads with a watch kept on them.

A read that never returns cannot be observed, but whether it will return
can be told from the bytes the reader holds before it starts (`Returns`):
its delimiter is ahead, or the transport is dry and the byte it repeats
happens to be one. `Reads.watched` tests that before every read and stops
the run where the code would never come back. The two kinds of reads make
the same runs except for that: `watched_within` and `within_watched`,
carried up through the protocol by `Alike`.
-/
import Sandesh.Lib.Logic
import Sandesh.Xml.Protocol
import Sandesh.Xml.Proofs.Delimited

namespace Sandesh.Xml

open Lib Prog LookaheadReader

-- ======================================================= the condition

/-- When a read comes back at all. -/
def ReadOp.Returns (op : ReadOp) (r : LookaheadReader) : Prop :=
  op.Delimited r ∨ match op with
    | .tag endTag => (matchSyntax (tagOpen endTag) r).2.trans = []
        ∧ (matchSyntax (tagOpen endTag) r).2.data_ = kcXMLTagC
    | .string => r.ahead = [] ∧ (r.data_ == kcXMLTagO) = true
    | .numeric => r.ahead = [] ∧ (!isXMLNumeric r.data_) = true
    | .cdata => False

instance (op : ReadOp) (r : LookaheadReader) : Decidable (op.Returns r) := by
  cases op <;> exact inferInstanceAs (Decidable (_ ∨ _))

/-- A loop up to a delimiter returns exactly if there is one ahead, or the
byte left in `data_` is one. -/
theorem charsLoop_returns {stop : UInt8 → Bool} {r : LookaheadReader}
    {t : Int × Bytes} : (charsLoop stop t).Halts r
      ↔ (∃ ch ∈ r.ahead, stop ch = true)
        ∨ r.ahead = [] ∧ stop r.data_ = true := by
  constructor
  · intro hhalts
    by_contra hno
    rw [not_or] at hno
    refine charsLoop_never ?_ ?_ hhalts
    · intro d hd
      rw [Bool.eq_false_iff]
      exact fun h => hno.1 ⟨d, hd, h⟩
    · intro htrans
      rw [Bool.eq_false_iff]
      intro hdata
      cases hheld : r.hasData_ with
      | true =>
          refine hno.1 ⟨r.data_, ?_, hdata⟩
          rw [ahead, held, hheld]
          exact List.mem_cons_self
      | false =>
          refine hno.2 ⟨?_, hdata⟩
          rw [ahead, held, hheld, htrans]
          rfl
  · intro hex
    rcases hex with h | ⟨hr, hdata⟩
    · obtain ⟨s, c, rest, hahead, hs, hc⟩ := exists_first h
      exact ⟨_, _, charsLoop_runs s rest hs hc r t hahead⟩
    · exact ⟨_, _, charsLoop_stale t hr hdata⟩

/-- The loop of a tag that is open. -/
theorem tagLoop_returns {r : LookaheadReader} {t : Int × Bytes} :
    (tagLoop t).Halts r ↔ kcXMLTagC ∈ r.stream
      ∨ r.trans = [] ∧ r.data_ = kcXMLTagC := by
  constructor
  · intro hhalts
    by_contra hno
    rw [not_or] at hno
    exact tagLoop_never hno.1 (fun htrans hdata => hno.2 ⟨htrans, hdata⟩)
      hhalts
  · intro h
    by_cases hmem : kcXMLTagC ∈ r.stream
    · obtain ⟨s, rest, hstream, hs⟩ := List.eq_append_cons_of_mem hmem
      obtain ⟨r', hruns, -⟩ := tagLoop_runs s rest hs r t hstream
      exact ⟨_, r', hruns⟩
    · obtain ⟨htrans, hdata⟩ := h.resolve_left hmem
      obtain ⟨ret, r', hruns, -⟩ := tagLoop_stale _ hmem t rfl htrans hdata
      exact ⟨_, r', hruns⟩

/-- An opening, and a loop behind it. -/
theorem halts_opened {α : Type} {m loop : Read α} {a : α} {c : Bool}
    {r r₁ : LookaheadReader}
    (h : ∀ {res r'}, m.Runs r res r'
      ↔ (if c then loop else Pure.pure a : Read α).Runs r₁ res r') :
    m.Halts r ↔ (c = true → loop.Halts r₁) := by
  unfold Halts
  simp only [h]
  cases c with
  | true => simp
  | false => simp

/-- A read returns exactly if its delimiter is ahead, or left over at the
end of the input. -/
theorem returns_iff (op : ReadOp) (r : LookaheadReader) :
    op.code.Halts r ↔ op.Returns r := by
  cases op with
  | tag endTag =>
      unfold ReadOp.code ReadOp.Returns ReadOp.Delimited
      rw [halts_opened runs_readXMLTag, tagLoop_returns]
      by_cases hm : (matchSyntax (tagOpen endTag) r).1 = true
      · simp [hm]
      · simp [hm]
  | string => exact charsLoop_returns
  | numeric => exact charsLoop_returns
  | cdata =>
      unfold ReadOp.code ReadOp.Returns ReadOp.Delimited
      rw [halts_opened runs_readXMLCDATA, or_false]
      refine imp_congr_right fun _ => ⟨fun h => ?_, fun h => ?_⟩
      · by_contra hno
        exact cdataLoop_never hno h
      · obtain ⟨ret, str, r', hruns, -⟩ := cdataLoop_runs _ h
          (t := ⟨kXMLCDATAO.length, [], none, none⟩)
          (fun h => absurd rfl h) rfl
        exact ⟨_, r', hruns⟩

/-- One character of syntax is read without an exception. -/
theorem readXMLSyntaxChar_always (ch : UInt8) :
    Always (fun _ => True) (readXMLSyntaxChar ch) :=
  always_bind always_getChar fun _ _ => always_pure trivial

/-- So is a string of them. -/
theorem readXMLSyntaxString_always (str : Bytes) :
    ∀ n, Always (fun _ => True) (readXMLSyntaxString str n) := by
  induction str with
  | nil =>
      intro n
      exact always_pure trivial
  | cons ch str ih =>
      intro n
      refine always_bind (readXMLSyntaxChar_always ch) fun _ _ => ?_
      exact always_ite (always_pure trivial) (ih _)

/-- A read goes only forward, and hands out a count and a string. -/
theorem readOp_always (op : ReadOp) : Always (fun _ => True) op.code := by
  have hweak : ∀ {m : Read (Int × Bytes)} {P : Int × Bytes → Prop},
      Always P m → Always (fun _ => True) m := by
    intro m P hm r r' res hruns
    obtain ⟨hmoves, a, ha, -⟩ := hm hruns
    exact ⟨hmoves, a, ha, trivial⟩
  cases op with
  | tag endTag =>
      refine always_bind (readXMLSyntaxChar_always _) fun _ _ => ?_
      refine always_ite (always_pure trivial) (always_ite ?_ ?_)
      · refine always_bind (readXMLSyntaxChar_always _) fun _ _ => ?_
        exact always_ite (always_pure trivial) (hweak (tagLoop_always _))
      · exact hweak (tagLoop_always _)
  | string => exact hweak (charsLoop_always _)
  | numeric => exact hweak (charsLoop_always _)
  | cdata =>
      refine always_bind (readXMLSyntaxString_always _ _) fun _ _ => ?_
      exact always_ite (always_pure trivial) (hweak (cdataLoop_always _))

-- =========================================================== the watch

/-- Go on only if `c` holds of the reader. -/
def guard (c : LookaheadReader → Prop) [DecidablePred c] : Read Unit :=
  Prog.act fun r => if c r then (.ok (), r) else (.error .watch, r)

/-- A guard runs on or stops with the watch. -/
theorem runs_guard {α : Type} {c : LookaheadReader → Prop} [DecidablePred c]
    {m : Read α} {r r' : LookaheadReader} {res : Except Abort α} :
    (guard c >>= fun _ => m).Runs r res r' ↔ (if c r then m.Runs r res r'
      else res = .error .watch ∧ r' = r) := by
  rw [runs_bind]
  by_cases hc : c r
  · simp [guard, hc]
  · simp [guard, hc, and_comm]

/-- The reads of the code, each looked at before it is made. -/
def Reads.watched : Reads where
  read := fun op => do
    guard op.Returns
    op.code

/-- Reads that make the same runs, up to their exits. -/
def Alike (p q : Abort → Prop) (R R' : Reads) : Prop :=
  ∀ op, Within p q (R.read op) (R'.read op)

/-- The code makes no run that the watch would have stopped. -/
theorem code_alike_watched :
    Alike (fun _ => True) (· ≠ .watch) Reads.code Reads.watched := by
  intro op r res r' hruns _
  have hret : op.Returns r := (returns_iff op r).mp ⟨res, r', hruns⟩
  refine ⟨runs_guard.mpr ?_, ?_⟩
  · rw [if_pos hret]
    exact hruns
  · obtain ⟨-, x, rfl, -⟩ := readOp_always op hruns
    exact exits_ok

/-- Until the watch stops it, the watched read is the code's. -/
theorem watched_alike_code :
    Alike (· ≠ .watch) (fun _ => True) Reads.watched Reads.code := by
  intro op r res r' hruns hexit
  refine ⟨?_, fun _ _ => trivial⟩
  have hcases := runs_guard.mp hruns
  by_cases hret : op.Returns r
  · rwa [if_pos hret] at hcases
  · rw [if_neg hret] at hcases
    rw [hcases.1] at hexit
    have hne := exits_error.mp hexit
    exact absurd rfl hne

-- ========================================================= the protocol

section Alike

variable {p q : Abort → Prop} {R R' : Reads} (W : World)
  (hq : ∀ f, q (.fault f)) (hR : Alike p q R R')

include hq in
/-- A step that reads nothing is the same on both sides. -/
theorem lift_within {α : Type} (x : Except Fault α) :
    Within p q (lift x) (lift x) := by
  cases x with
  | ok a => exact within_pure
  | error f => exact within_throw (hq f)

/-- So is looking two bytes ahead. -/
theorem peek2Char_within : Within p q peek2Char peek2Char := by
  intro r res r' hruns _
  have heq := runs_act.mp hruns
  rw [Prod.mk.injEq] at heq
  refine ⟨hruns, ?_⟩
  rw [heq.1]
  exact exits_ok

/-- Any read of which only the count is used. -/
theorem count_within {α : Type} {m m' : Read (Int × α)}
    (hm : Within p q m m') : Within p q (Prod.fst <$> m) (Prod.fst <$> m') :=
  within_bind hm fun _ => within_pure

/-- The loops over elements agree if the elements do. -/
theorem skipElems_within {x x' : Read Int} (hx : Within p q x x') :
    ∀ (n : Nat) (result : Int),
      Within p q (skipElems x n result) (skipElems x' n result) := by
  intro n
  induction n with
  | zero =>
      intro result
      exact within_pure
  | succ n ih =>
      intro result
      exact within_bind hx fun ret => ih (result + ret)

include hq hR

/-- The reads agree by assumption. -/
theorem get_within (op : ReadOp) : Within p q (R.get op) (R'.get op) :=
  within_bind (hR op) fun _ => within_ite (within_throw (hq _)) within_pure

/-- A read that is nothing but a count. -/
theorem readCount_within (op : ReadOp) :
    Within p q (Prod.fst <$> R.get op) (Prod.fst <$> R'.get op) :=
  count_within (get_within hq hR op)

/-- The tokens of a tag. -/
theorem readTagTokens_within :
    Within p q (readTagTokens R) (readTagTokens R') := by
  refine within_bind (get_within hq hR _) fun ⟨ret, str⟩ => ?_
  cases htokens : tokens str with
  | nil =>
      simp only [htokens]
      exact within_throw (hq _)
  | cons name rest =>
      simp only [htokens]
      exact within_pure

/-- The opening tag of a message. -/
theorem readSandeshBegin_within :
    Within p q (readSandeshBegin R) (readSandeshBegin R') :=
  within_bind (readTagTokens_within hq hR) fun _ =>
    within_bind (lift_within hq _) fun _ => within_pure

/-- The tag of a field. -/
theorem readFieldBegin_within (ftype : TType) (fid : BitVec 16) :
    Within p q (readFieldBegin W R ftype fid)
      (readFieldBegin W R' ftype fid) := by
  refine within_bind peek2Char_within fun _ => ?_
  refine within_bind peek2Char_within fun _ => ?_
  refine within_ite within_pure ?_
  refine within_bind (readTagTokens_within hq hR) fun _ => ?_
  exact within_bind (lift_within hq _) fun _ => within_pure

/-- The tag of a container. -/
theorem readContainerBegin_within {σ : Type} (name : Bytes)
    (attrs : List (Attr σ)) (s : σ) :
    Within p q (readContainerBegin R name attrs s)
      (readContainerBegin R' name attrs s) := by
  refine within_bind (readTagTokens_within hq hR) fun _ => ?_
  refine within_ite (within_throw (hq _)) ?_
  exact within_bind (lift_within hq _) fun _ => within_pure

/-- An integer. -/
theorem readXMLInteger_within (w : Nat) :
    Within p q (readXMLInteger W R w) (readXMLInteger W R' w) :=
  within_bind (get_within hq hR _) fun _ => within_pure

/-- A string. -/
theorem readString_within : Within p q (readString R) (readString R') :=
  within_bind (get_within hq hR _) fun _ => within_pure

/-- The loop over the fields of a struct. -/
theorem skipFields_within {g g' : TType → Read Int}
    (hg : ∀ t, Within p q (g t) (g' t)) (result : Int) :
    Within p q (skipFields W R g result) (skipFields W R' g' result) := by
  refine within_loop (fun t => ?_) _
  refine within_bind (readFieldBegin_within W hq hR _ _) fun x => ?_
  refine within_ite within_pure (within_bind (hg _) fun _ => ?_)
  exact within_bind (readCount_within hq hR _) fun _ =>
    within_pure

/-- An address. -/
theorem readIPADDR_within : Within p q (readIPADDR W R) (readIPADDR W R') :=
  within_bind (get_within hq hR _) fun _ =>
    within_ite within_pure (within_throw (hq _))

/-- `skip` under two sets of reads that agree. -/
theorem skip_within (t : TType) :
    Within p q (skip W R t) (skip W R' t) := by
  refine within_fix ?_ t
  intro g g' hg t
  cases t with
  | T_BOOL => exact readCount_within hq hR _
  | T_STRING => exact readCount_within hq hR _
  | T_XML => exact readCount_within hq hR _
  | T_UUID => exact readCount_within hq hR _
  | T_BYTE => exact count_within (readXMLInteger_within W hq hR _)
  | T_I16 => exact count_within (readXMLInteger_within W hq hR _)
  | T_I32 => exact count_within (readXMLInteger_within W hq hR _)
  | T_I64 => exact count_within (readXMLInteger_within W hq hR _)
  | T_U16 => exact count_within (readXMLInteger_within W hq hR _)
  | T_U32 => exact count_within (readXMLInteger_within W hq hR _)
  | T_U64 => exact count_within (readXMLInteger_within W hq hR _)
  | T_IPV4 => exact count_within (readXMLInteger_within W hq hR _)
  | T_IPADDR => exact readIPADDR_within W hq hR
  | T_DOUBLE => exact within_throw (hq _)
  | T_STRUCT =>
      refine within_bind (get_within hq hR _) fun _ => ?_
      refine within_bind (skipFields_within W hq hR hg _) fun _ => ?_
      exact within_bind (readCount_within hq hR _) fun _ => within_pure
  | T_SANDESH =>
      refine within_bind (readSandeshBegin_within hq hR) fun _ => ?_
      refine within_bind (skipFields_within W hq hR hg _) fun _ => ?_
      exact within_bind (readCount_within hq hR _) fun _ => within_pure
  | T_MAP =>
      refine within_bind (readContainerBegin_within hq hR _ _ _) fun _ => ?_
      refine within_bind (skipElems_within ?_ _ _) fun _ => ?_
      · exact within_bind (hg _) fun _ =>
          within_bind (hg _) fun _ => within_pure
      · exact within_bind (readCount_within hq hR _) fun _ => within_pure
  | T_SET =>
      refine within_bind (readContainerBegin_within hq hR _ _ _) fun _ => ?_
      refine within_bind (skipElems_within (hg _) _ _) fun _ => ?_
      exact within_bind (readCount_within hq hR _) fun _ => within_pure
  | T_LIST =>
      refine within_bind (readContainerBegin_within hq hR _ _ _) fun _ => ?_
      refine within_bind (skipElems_within (hg _) _ _) fun _ => ?_
      exact within_bind (readCount_within hq hR _) fun _ => within_pure
  | T_STOP => exact within_pure
  | T_VOID => exact within_pure
  | T_UTF8 => exact within_pure
  | T_UTF16 => exact within_pure

end Alike

end Sandesh.Xml
