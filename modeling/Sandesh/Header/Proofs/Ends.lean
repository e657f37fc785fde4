/-
When `ExtractMsgHeader` comes to an end.

Under the watch it always does (`total_extract`), and if it returns 0 the
input has not run out. The code makes the same runs as long as each of its
reads comes back, so it ends, with `EINVAL` if the input ran out, exactly
when the watch has nothing to stop.

What the watch stops is then told from the message. The call follows the
parts of a message (`follows_extract`): a struct, which is an open tag, fields
and an end tag, and an open tag of a sandesh. So it ends exactly where these
parts, read off the bytes of the message one after another, do not get stuck
(`extractEnds_iff_through`): no part misses its delimiter, and once something
was looked for behind the last byte, nothing is refused but with a -1.
-/
import Sandesh.Header.Basic
import Sandesh.Xml.Proofs.Parts

namespace Sandesh.Header

open Lib Prog Xml LookaheadReader

variable {S : Type} (W : World)

-- ========================================================== two readers

section Alike

variable {p q : Abort → Prop} {R R' : Reads} (hq : ∀ f, q (.fault f))
  (hR : Alike p q R R')

include hq hR

/-- A value of the header. -/
theorem readKind_within (kind : Kind) :
    Within p q (readKind W R kind) (readKind W R' kind) := by
  cases kind with
  | string => exact readString_within hq hR
  | i64 => exact readXMLInteger_within W hq hR 64
  | i32 => exact readXMLInteger_within W hq hR 32

/-- A field of the header. -/
theorem readField_within (slots : List (Slot S)) (ftype : TType)
    (fid : BitVec 16) (s : S) :
    Within p q (readField W R slots ftype fid s)
      (readField W R' slots ftype fid s) := by
  have hskip : Within p q (skipField W R ftype s) (skipField W R' ftype s) :=
    within_bind (skip_within W hq hR ftype) fun _ => within_pure
  unfold readField
  cases slots.find? (fun slot => BitVec.ofNat 16 slot.id == fid) with
  | none => exact hskip
  | some slot =>
      refine within_ite ?_ hskip
      exact within_bind (readKind_within W hq hR _) fun _ => within_pure

/-- The header. -/
theorem readStruct_within (slots : List (Slot S)) (init : S) :
    Within p q (readStruct W R slots init) (readStruct W R' slots init) := by
  refine within_bind (get_within hq hR _) fun _ => ?_
  refine within_bind (within_loop (fun t => ?_) _) fun _ => ?_
  · refine within_bind (readFieldBegin_within W hq hR _ _) fun _ => ?_
    refine within_ite within_pure ?_
    refine within_bind (readField_within W hq hR _ _ _ _) fun _ => ?_
    exact within_bind (readCount_within hq hR _) fun _ => within_pure
  · exact within_bind (readCount_within hq hR _) fun _ => within_pure

/-- `ExtractMsgHeader` under two sets of reads that agree. -/
theorem extract_within :
    Within p q (ExtractMsgHeader W R) (ExtractMsgHeader W R') := by
  refine within_bind (readStruct_within W hq hR _ _) fun _ => ?_
  refine within_ite (within_throw (hq _)) ?_
  refine within_bind (readSandeshBegin_within hq hR) fun _ => ?_
  exact within_ite (within_throw (hq _)) within_pure

end Alike

-- ========================================================= under watch

section Total

variable {n : Nat}

/-- A field of the header, under the watch. -/
theorem total_readField (slots : List (Slot S)) (ftype : TType)
    (fid : BitVec 16) (s : S) :
    Total (At n) (readField W Reads.watched slots ftype fid s) fun _ =>
      At n := by
  have hskip : Total (At n) (skipField W Reads.watched ftype s) fun _ =>
      At n :=
    total_bind (total_skip W n ftype) fun _ => total_pure fun _ h => h
  unfold readField
  cases slots.find? (fun slot => BitVec.ofNat 16 slot.id == fid) with
  | none => exact hskip
  | some slot =>
      refine total_ite (fun _ => ?_) fun _ => hskip
      refine total_bind (Q := fun _ => At n) ?_ fun _ => total_pure
        fun _ h => h
      cases slot.kind with
      | string => exact total_map (total_op _)
      | i64 => exact total_map (total_op _)
      | i32 => exact total_map (total_op _)

/-- The loop over the fields. -/
theorem total_readFields (slots : List (Slot S)) (t : Fields S) :
    Total (Behind n) (readFields W Reads.watched slots t) fun _ =>
      Peeked n := by
  unfold readFields
  refine total_fieldLoop (fun m _ t => ?_) t
  refine total_conseq (total_fieldTurn W t.ftype t.fid
    (fun x => readField W Reads.watched slots x.2.1 x.2.2 t.value)
    (fun x => total_readField W slots x.2.1 x.2.2 t.value)
    (fun x => (t.xfer + x.1, t.value))
    (fun x v ret3 => Fields.mk (t.xfer + x.1 + v.1 + ret3) x.2.1 x.2.2 v.2))
    (fun _ h => h) fun _ _ h => h

/-- The header takes something. -/
theorem total_readStruct (slots : List (Slot S)) (init : S) :
    Total (At n) (readStruct W Reads.watched slots init) fun _ =>
      Behind n := by
  refine total_bind (total_conseq (total_tag false) (fun _ h => h)
    fun _ _ h => h.1) fun _ => ?_
  refine total_bind (total_readFields W slots _) fun _ => ?_
  refine total_bind (total_map (total_tag_peeked true)) fun _ => ?_
  exact total_pure fun _ h => h

/-- It stops, and when it returns 0 the input has not run out. -/
theorem total_extract :
    Total (At n) (ExtractMsgHeader W Reads.watched) fun _ r =>
      r.ranOut = false := by
  refine total_bind (total_readStruct W _ _) fun _ => ?_
  refine total_ite (fun _ => total_throw) fun _ => ?_
  refine total_bind (total_conseq total_readSandeshBegin
    (fun _ h => h.between) fun _ _ h => h.2) fun _ => ?_
  exact total_ite (fun _ => total_throw) fun _ => total_pure fun _ h => h

end Total

-- ============================================================= together

/-- The call returns, and with `EINVAL` if the input ran out. -/
def ExtractEnds (r : LookaheadReader) : Prop :=
  ∃ res r', (ExtractMsgHeader W Reads.code).Runs r res r'
    ∧ (r'.ranOut = true → res = .error (.fault .failed))

/-- Every read the call makes comes back; and behind the end of the input
it is not stopped by an empty tag or a broken attribute. -/
def ReadsReturn (r : LookaheadReader) : Prop :=
  ∀ e r', (ExtractMsgHeader W Reads.watched).Runs r (.error e) r' →
    e ≠ .watch ∧ (r'.ranOut = true → e = .fault .failed)

/-- The message ends exactly if every read of it returns. -/
theorem extractEnds_iff {n : Nat} {r : LookaheadReader} (hr : At n r) :
    ExtractEnds W r ↔ ReadsReturn W r := by
  have hfault : ∀ f, Abort.fault f ≠ .watch := by
    intro f h
    cases h
  constructor
  · intro hex e r'' hwatched
    obtain ⟨res, r', hruns, hright⟩ := hex
    obtain ⟨hsame, hexit⟩ := extract_within W hfault code_alike_watched hruns
      fun _ _ => trivial
    obtain ⟨rfl, rfl⟩ := hsame.unique hwatched
    have hne := exits_error.mp hexit
    refine ⟨hne, fun hout => ?_⟩
    injection hright hout
  · intro hreturn
    obtain ⟨res, r', hwatched, hright⟩ := total_extract W r hr
    have hexit : Exits (· ≠ Abort.watch) res := by
      intro e heq
      obtain rfl := heq
      exact (hreturn e r' hwatched).1
    obtain ⟨hruns, -⟩ := extract_within W (fun _ => trivial)
      watched_alike_code hwatched hexit
    refine ⟨res, r', hruns, fun hout => ?_⟩
    cases res with
    | ok x =>
        rw [hright x rfl] at hout
        cases hout
    | error e => rw [(hreturn e r' hwatched).2 hout]

/-- A new reader is between two reads. -/
theorem at_new (buf : Bytes) (data_ : UInt8) (data2_ : UInt8 × UInt8) :
    At buf.length (LookaheadReader.new buf data_ data2_) where
  two := rfl
  size := Nat.le_refl _
  out := by
    intro h
    cases h

-- ========================================================== by its parts

section Follow

/-- A value is read by one read. -/
theorem follows_readKind (kind : Kind) :
    Follows (parts W) Snag.Fits Between [.value kind.ttype] (readKind W Reads.watched kind)
      (fun _ => []) (Counts Prod.fst) := by
  cases kind with
  | string =>
      refine Follows.turn (l := [.read .string]) ?_ fun _ _ _ => rfl
      exact (follows_string W).map (fun _ => rfl) fun _ _ _ h => ⟨Int.natCast_nonneg _, h.2⟩
  | i64 =>
      refine Follows.turn (l := [.read .numeric]) ?_ fun _ _ _ => rfl
      exact follows_integer W 64
  | i32 =>
      refine Follows.turn (l := [.read .numeric]) ?_ fun _ _ _ => rfl
      exact follows_integer W 32

/-- The value of a field is read or skipped, which takes the same bytes. -/
theorem follows_readField (slots : List (Slot S)) (ftype : TType) (fid : BitVec 16) (s : S) :
    Follows (parts W) Snag.Fits Between [.value ftype]
      (readField W Reads.watched slots ftype fid s) (fun _ => []) (Counts Prod.fst) := by
  have hskip : Follows (parts W) Snag.Fits Between [.value ftype]
      (skipField W Reads.watched ftype s) (fun _ => []) (Counts Prod.fst) :=
    (follows_skip W ftype).map (fun _ => rfl) fun _ _ _ h => h
  unfold readField
  cases slots.find? (fun slot => BitVec.ofNat 16 slot.id == fid) with
  | none => exact hskip
  | some slot =>
      refine follows_ite (fun hkind => ?_) fun _ => hskip
      rw [hkind]
      exact (follows_readKind W slot.kind).map (fun _ => rfl) fun _ _ _ h => h

/-- The header follows the grammar. -/
theorem follows_readStruct (slots : List (Slot S)) (init : S) :
    Follows (parts W) Snag.Fits Between (.read (.tag false) :: fieldParts W)
      (readStruct W Reads.watched slots init) (fun _ => []) fun x l r => 0 < x.1 ∧ Bare l r := by
  refine (((follows_tag W false).frame (fieldParts W)).conseq (A := Between)
    (fun l r h => h.toStands) fun _ _ _ h => h).bind fun x => follows_given fun hx => ?_
  have hloop : Follows (parts W) Snag.Fits Bare [.fields W.junk.ftype W.junk.fid]
      (readFields W Reads.watched slots ⟨x.1, W.junk.ftype, W.junk.fid, init⟩) (fun _ => [])
      fun y l r => 0 < y.1 ∧ Stands l r := by
    unfold readFields
    refine Follows.conseq (follows_loop (I := fun (t : Fields S) l r => 0 < t.xfer ∧ Bare l r)
      (l := fun t => [Part.fields t.ftype t.fid]) (fun t => follows_given fun ht => ?_)
      ⟨x.1, W.junk.ftype, W.junk.fid, init⟩) (fun l r h => ⟨hx, h⟩) fun _ _ _ h => h
    exact follows_fieldTurn W t.ftype t.fid
      (fun y => follows_readField W slots y.2.1 y.2.2 t.value)
      (fun y l r hy h => ⟨Int.add_pos_of_pos_of_nonneg ht hy, h⟩) (fun _ _ _ => rfl)
      fun y v ret l r hy hv hret h => by
        refine ⟨?_, h⟩
        show 0 < t.xfer + y.1 + v.1 + ret
        omega
  refine (hloop.frame [.read (.tag true)]).bind fun y => follows_given fun hy => ?_
  refine (follows_end W).bind fun ret => follows_given fun hret => ?_
  exact follows_pure (fun l r h => ⟨Int.add_pos_of_pos_of_nonneg hy hret, h⟩) rfl

/-- What the call reads of a message. -/
def messageParts : List Part :=
  .read (.tag false) :: fieldParts W ++ [.opened .sandesh]

/-- So does the message. -/
theorem follows_extract :
    Follows (parts W) Snag.Fits Between (messageParts W) (ExtractMsgHeader W Reads.watched)
      (fun _ => []) fun _ _ _ => True := by
  refine ((follows_readStruct W headerSlots SandeshHeader.init).frame
    [.opened .sandesh]).bind fun ⟨ret, header⟩ => follows_given fun hret => ?_
  -- a count that is not positive cannot come back
  have hpos : ¬ ret ≤ 0 := Int.not_le.mpr hret
  simp only [if_neg hpos]
  refine ((follows_readSandeshBegin W).conseq (A := Bare) (fun l r h => h.toStands)
    fun _ _ _ h => h).bind fun ⟨ret2, msg_type⟩ => follows_given fun hret2 => ?_
  have hpos2 : ¬ ret2 ≤ 0 := Int.not_le.mpr hret2
  simp only [if_neg hpos2]
  exact follows_pure (fun _ _ _ => trivial) rfl

end Follow

/-- The parts of the message are gone through, one after another, as long as
none is refused: where that is, and at every part before, it is not for a
delimiter that is not left. -/
def Through (msg : Bytes) (data2_ : UInt8 × UInt8) : Prop :=
  ∀ x o, (parts W).Reaches (messageParts W, ⟨msg, data2_, false, false⟩) x →
    (parts W).Stops x o → ¬ o.Bad

/-- A reader of a new message is between two reads. -/
theorem between_new (msg : Bytes) (data2_ : UInt8 × UInt8) :
    Between ⟨msg, data2_, false, false⟩ (LookaheadReader.new msg kcXMLTagC data2_) where
  stream := rfl
  pair := rfl
  looked := rfl
  out := rfl
  dry := by
    intro h
    cases h
  first := rfl
  one := by
    intro h
    cases h
  last := fun _ => rfl
  two := rfl

/-- The reads return exactly if the grammar goes through. -/
theorem readsReturn_iff_through (msg : Bytes) (data2_ : UInt8 × UInt8) :
    ReadsReturn W (LookaheadReader.new msg kcXMLTagC data2_) ↔ Through W msg data2_ := by
  obtain ⟨res, r', hruns, -⟩ := total_extract W _ (at_new msg kcXMLTagC data2_)
  have hends := follows_extract W (between_new msg data2_) hruns []
  rw [List.append_nil] at hends
  rcases hends with ⟨a, l, rfl, hdone, -⟩ | ⟨e, y, o, rfl, hreach, hstops, hfits⟩
  · -- the call returns 0: every part was found
    refine iff_of_true (fun e r'' hruns' => ?_) fun x o hx ho => ?_
    · cases (hruns.unique hruns').1
    · exact absurd ho (StackMachine.reaches_done hdone hx)
  · constructor
    · intro hreturn x o' hx ho' hbad
      obtain rfl := StackMachine.reaches_stops hreach hstops hx ho'
      obtain ⟨hwatch, hout⟩ := hreturn e r' hruns
      cases o with
      | missing => exact hwatch hfits
      | refused f out =>
          obtain ⟨rfl, hran⟩ := hfits
          obtain ⟨rfl, hne⟩ := hbad
          injection hout (hran hne) with heq
          exact hne heq
    · intro hthrough e' r'' hruns'
      obtain ⟨heq, rfl⟩ := hruns.unique hruns'
      obtain rfl := Except.error.inj heq
      have hgood := hthrough y o hreach hstops
      cases o with
      | missing => exact absurd trivial hgood
      | refused f out =>
          obtain ⟨rfl, hran⟩ := hfits
          refine ⟨(by intro h; cases h), fun hout => ?_⟩
          by_contra hne
          have hf : f ≠ .failed := fun h => hne (h ▸ rfl)
          exact hgood ⟨(hran hf).symm.trans hout, hf⟩

/-- What `data_` held before the first byte is read does not matter. -/
theorem extractEnds_data (b : UInt8) (msg : Bytes) (d d' : UInt8) (data2_ : UInt8 × UInt8) :
    ExtractEnds W (LookaheadReader.new (b :: msg) d data2_)
      ↔ ExtractEnds W (LookaheadReader.new (b :: msg) d' data2_) := by
  have htag : ∀ res r', (readXMLTag false).Runs (LookaheadReader.new (b :: msg) d data2_) res r'
      ↔ (readXMLTag false).Runs (LookaheadReader.new (b :: msg) d' data2_) res r' := by
    intro res r'
    unfold readXMLTag
    rw [runs_readXMLSyntaxChar, runs_readXMLSyntaxChar]
    exact Iff.rfl
  have hall : ∀ res r', (ExtractMsgHeader W Reads.code).Runs
      (LookaheadReader.new (b :: msg) d data2_) res r' ↔ (ExtractMsgHeader W Reads.code).Runs
      (LookaheadReader.new (b :: msg) d' data2_) res r' :=
    runs_bind_congr (runs_bind_congr (runs_bind_congr htag))
  unfold ExtractEnds
  simp only [hall]

/-- The call on no bytes finds what `data_` held, for ever if that is a `<`. -/
theorem extractEnds_nil (d : UInt8) (data2_ : UInt8 × UInt8) :
    ExtractEnds W (LookaheadReader.new [] d data2_) ↔ d ≠ kcXMLTagO := by
  have hopen : (matchSyntax (tagOpen false) (LookaheadReader.new [] d data2_)).1 = true
      ↔ d = kcXMLTagO := by
    have hread : (LookaheadReader.new [] d data2_).read.1 = d := rfl
    rw [tagOpen, if_neg Bool.false_ne_true, matchSyntax, hread]
    by_cases hd : d = kcXMLTagO
    · rw [if_neg (not_not.mpr hd)]
      exact iff_of_true rfl hd
    · rw [if_pos hd]
      exact iff_of_false Bool.false_ne_true hd
  constructor
  · intro hex hd
    obtain ⟨res, r', hruns, -⟩ := hex
    have hhalts : (ExtractMsgHeader W Reads.code).Halts (LookaheadReader.new [] d data2_) :=
      ⟨res, r', hruns⟩
    have htag : (readXMLTag false).Halts (LookaheadReader.new [] d data2_) :=
      hhalts.of_bind.of_bind.of_bind
    have hloop := (halts_opened runs_readXMLTag).mp htag (hopen.mpr hd)
    have hm := hopen.mpr hd
    refine tagLoop_never ?_ (fun _ => matchSyntax_data rfl hm) hloop
    rw [(matchSyntax_nil _).1 rfl]
    exact List.not_mem_nil
  · intro hd
    have hread : (readXMLTag false).Runs (LookaheadReader.new [] d data2_) (.ok (-1, []))
        (matchSyntax (tagOpen false) (LookaheadReader.new [] d data2_)).2 := by
      rw [runs_readXMLTag, if_neg fun h => hd (hopen.mp h)]
      exact runs_pure.mpr ⟨rfl, rfl⟩
    have hget : (Reads.code.get (.tag false)).Runs (LookaheadReader.new [] d data2_)
        (.error (.fault .failed))
        (matchSyntax (tagOpen false) (LookaheadReader.new [] d data2_)).2 := by
      refine Runs.bind_ok hread ?_
      rw [if_pos (show (-1 : Int) < 0 by decide)]
      exact runs_throw.mpr ⟨rfl, rfl⟩
    exact ⟨_, _, hget.bind_error.bind_error, fun _ => rfl⟩

/-- The condition on the bytes, for every byte left in `data_`. -/
theorem extractEnds_iff_through (msg : Bytes) (data_ : UInt8) (data2_ : UInt8 × UInt8) :
    ExtractEnds W (LookaheadReader.new msg data_ data2_)
      ↔ (msg = [] → data_ ≠ kcXMLTagO) ∧ Through W msg data2_ := by
  have hthrough := (extractEnds_iff W (at_new msg kcXMLTagC data2_)).trans
    (readsReturn_iff_through W msg data2_)
  cases msg with
  | nil =>
      -- the parts of no bytes are refused at the first tag
      have hgood := hthrough.mp ((extractEnds_nil W kcXMLTagC data2_).mpr (by decide))
      rw [extractEnds_nil]
      exact ⟨fun hd => ⟨fun _ => hd, hgood⟩, fun h => h.1 rfl⟩
  | cons b msg =>
      rw [extractEnds_data W b msg data_ kcXMLTagC, hthrough]
      exact ⟨fun h => ⟨fun hnil => (List.cons_ne_nil _ _ hnil).elim, h⟩, And.right⟩

/-- Each of the four reads, in every state of the reader, and the call on
every message, whatever `data_` and `data2_` were before: it ends as it should
where the parts of the message are gone through. An empty message is asked for
a tag, and finds what `data_` held. -/
theorem reads_end_iff :
    (∀ (op : ReadOp) (r : LookaheadReader), r.ranOut = false →
      (EndsRight op.code r ↔ op.Delimited r))
    ∧ ∀ (msg : Bytes) (data_ : UInt8) (data2_ : UInt8 × UInt8),
      ExtractEnds W (LookaheadReader.new msg data_ data2_)
        ↔ (msg = [] → data_ ≠ kcXMLTagO) ∧ Through W msg data2_ :=
  ⟨fun op _ hr => readOp_ends_iff op hr, extractEnds_iff_through W⟩

theorem reads_end_at_tag :
    (LookaheadReader.new (lit "a<") 0 (0, 0)).ranOut = false
      ∧ EndsRight readXMLString (LookaheadReader.new (lit "a<") 0 (0, 0)) := by
  refine ⟨rfl, ?_⟩
  exact ((reads_end_iff World.plain).1 .string _ rfl).mpr (by decide)

/-- A string that no `<` follows, and a message cut off in its first tag. -/
theorem reads_run_on :
    ¬ EndsRight readXMLString (LookaheadReader.new (lit "a") 0 (0, 0))
      ∧ ¬ ExtractEnds World.plain
        (LookaheadReader.new (lit "<SandeshHeader") 0 (0, 0)) := by
  refine ⟨?_, ?_⟩
  · intro h
    have hno := (readOp_ends_iff .string rfl).mp h
    revert hno
    decide
  · intro h
    have hthrough := ((extractEnds_iff_through World.plain _ _ _).mp h).2
    exact hthrough _ .missing .refl ⟨_, _, rfl, rfl⟩ trivial

end Sandesh.Header
