/-
When a read comes to an end: exactly when its delimiter is there.

`EndsRight` is what one expects of a read on any input: it returns, and
if it ran out of input on the way it returns an error. Each of the four
reads does so exactly when its input is `Delimited`, a condition on the
bytes the reader holds and has ahead of it. Without the delimiter a read
that does return has met an old byte, and returns it as good.
-/
import Sandesh.Xml.Proofs.CData

namespace Sandesh.Xml

open Lib LookaheadReader

-- ======================================================= the condition

/-- Did the next bytes match, and the reader after the last of them. -/
def matchSyntax : Bytes → LookaheadReader → Bool × LookaheadReader
  | [], r => (true, r)
  | ch :: str, r =>
      if r.read.1 ≠ ch then (false, r.read.2) else matchSyntax str r.read.2

/-- The opening of a tag. -/
def tagOpen (endTag : Bool) : Bytes :=
  if endTag then [kcXMLTagO, kcXMLSlash] else [kcXMLTagO]

/-- What a read needs to find in its input. One that starts with the
wrong bytes needs nothing: it fails there. -/
def ReadOp.Delimited : ReadOp → LookaheadReader → Prop
  | .tag endTag, r => (matchSyntax (tagOpen endTag) r).1 = true →
      kcXMLTagC ∈ (matchSyntax (tagOpen endTag) r).2.stream
  | .string, r => ∃ ch ∈ r.ahead, (ch == kcXMLTagO) = true
  | .numeric, r => ∃ ch ∈ r.ahead, (!isXMLNumeric ch) = true
  | .cdata, r => (matchSyntax kXMLCDATAO r).1 = true →
      kXMLCDATAC <:+: (matchSyntax kXMLCDATAO r).2.ahead

instance : (op : ReadOp) → (r : LookaheadReader) → Decidable (op.Delimited r)
  | .tag _, _ => inferInstanceAs (Decidable (_ → _))
  | .string, _ => inferInstanceAs (Decidable (∃ ch ∈ _, _))
  | .numeric, _ => inferInstanceAs (Decidable (∃ ch ∈ _, _))
  | .cdata, _ => inferInstanceAs (Decidable (_ → _))

/-- The read returns, and with an error if the input ran out. -/
def EndsRight (m : Read (Int × Bytes)) (r : LookaheadReader) : Prop :=
  ∃ ret str r', m.Runs r (.ok (ret, str)) r' ∧ (r'.ranOut = true → ret < 0)

-- ============================================================ openings

theorem runs_readXMLSyntaxString {α : Type} (str : Bytes) :
    ∀ {n : Int} {g : Int → Read α} {r r' : LookaheadReader}
      {res : Except Abort α},
      (readXMLSyntaxString str n >>= g).Runs r res r'
        ↔ (g (if (matchSyntax str r).1 then n + str.length else -1)).Runs
            (matchSyntax str r).2 res r' := by
  induction str with
  | nil =>
      intro n g r r' res
      rw [readXMLSyntaxString, Prog.runs_bind]
      simp [matchSyntax]
  | cons ch str ih =>
      intro n g r r' res
      have hassoc : (readXMLSyntaxString (ch :: str) n >>= g).Runs r res r'
          ↔ (readXMLSyntaxChar ch >>= fun ret => (if ret < 0 then
              (pure ret : Read Int) else readXMLSyntaxString str (n + ret))
              >>= g).Runs r res r' := by
        rw [readXMLSyntaxString, Prog.runs_assoc]
      rw [hassoc, runs_readXMLSyntaxChar, matchSyntax]
      by_cases hc : r.read.1 ≠ ch
      · rw [if_pos hc, if_pos (by decide), if_pos hc, Prog.runs_bind]
        simp
      · rw [if_neg hc, if_neg (by decide), if_neg hc, ih]
        have hlen : n + 1 + (str.length : Int) = n + ((ch :: str).length : Int) := by
          rw [List.length_cons]
          omega
        rw [hlen]

/-- `read` takes nothing away from `peek` but its front. -/
theorem read_ahead_nil {r : LookaheadReader} (h : r.ahead = []) :
    r.read.2.ahead = [] := by
  obtain ⟨trans, hasData_, data_, has2Data_, data2_, firstRead_, ranOut⟩ := r
  cases hasData_ with
  | true => simp [ahead, held] at h
  | false =>
      cases trans with
      | cons b trans => simp [ahead, held] at h
      | nil =>
          cases has2Data_ with
          | false => rfl
          | true => cases firstRead_ <;> rfl

/-- A read that leaves something has not run out. -/
theorem read_ranOut_of_ne {r : LookaheadReader}
    (h : r.read.2.stream ≠ [] ∨ r.read.2.ahead ≠ []) :
    r.read.2.ranOut = r.ranOut := by
  cases hs : r.stream with
  | cons c t =>
      obtain ⟨r', hread, -, -, hout⟩ := read_cons hs
      rw [hread]
      exact hout
  | nil =>
      have hahead : r.ahead = [] := by
        rw [stream, look, List.append_assoc, List.append_eq_nil_iff,
          List.append_eq_nil_iff] at hs
        rw [ahead, hs.1, hs.2.2]
        rfl
      rcases h with h | h
      · exact absurd (read_stream_nil hs) h
      · exact absurd (read_ahead_nil hahead) h

theorem matchSyntax_nil (str : Bytes) :
    ∀ {r : LookaheadReader}, (r.stream = [] →
        (matchSyntax str r).2.stream = [])
      ∧ (r.ahead = [] → (matchSyntax str r).2.ahead = []) := by
  induction str with
  | nil => exact ⟨id, id⟩
  | cons ch str ih =>
      intro r
      rw [matchSyntax]
      by_cases hc : r.read.1 ≠ ch
      · rw [if_pos hc]
        exact ⟨read_stream_nil, read_ahead_nil⟩
      · rw [if_neg hc]
        exact ⟨fun h => ih.1 (read_stream_nil h),
          fun h => ih.2 (read_ahead_nil h)⟩

/-- The same for an opening. -/
theorem matchSyntax_ranOut (str : Bytes) :
    ∀ {r : LookaheadReader}, (matchSyntax str r).2.stream ≠ []
        ∨ (matchSyntax str r).2.ahead ≠ [] →
      (matchSyntax str r).2.ranOut = r.ranOut := by
  induction str with
  | nil =>
      intro r _
      rfl
  | cons ch str ih =>
      intro r h
      rw [matchSyntax] at h ⊢
      by_cases hc : r.read.1 ≠ ch
      · rw [if_pos hc] at h ⊢
        exact read_ranOut_of_ne h
      · rw [if_neg hc] at h ⊢
        rw [ih h]
        refine read_ranOut_of_ne ?_
        rcases h with h | h
        · exact .inl fun hnil => h ((matchSyntax_nil str).1 hnil)
        · exact .inr fun hnil => h ((matchSyntax_nil str).2 hnil)

-- ==================================================== strings, numbers

/-- The first element with a property. -/
theorem exists_first {p : UInt8 → Bool} {l : Bytes}
    (h : ∃ c ∈ l, p c = true) :
    ∃ s c rest, l = s ++ c :: rest ∧ (∀ d ∈ s, p d = false) ∧ p c = true := by
  induction l with
  | nil =>
      obtain ⟨c, hc, -⟩ := h
      exact absurd hc List.not_mem_nil
  | cons d l ih =>
      by_cases hd : p d = true
      · refine ⟨[], d, l, rfl, ?_, hd⟩
        intro x hx
        exact absurd hx List.not_mem_nil
      · obtain ⟨c, hc, hpc⟩ := h
        rcases List.mem_cons.mp hc with rfl | hc
        · exact absurd hpc hd
        · obtain ⟨s, c, rest, rfl, hs, hpc⟩ := ih ⟨c, hc, hpc⟩
          refine ⟨d :: s, c, rest, rfl, ?_, hpc⟩
          intro x hx
          rcases List.mem_cons.mp hx with rfl | hx
          · exact Bool.eq_false_iff.mpr hd
          · exact hs x hx

theorem charsLoop_ends_iff {stop : UInt8 → Bool} {r : LookaheadReader}
    (hr : r.ranOut = false) :
    EndsRight (charsLoop stop (0, [])) r
      ↔ ∃ ch ∈ r.ahead, stop ch = true := by
  constructor
  · intro hex
    obtain ⟨ret, str, r', hruns, hright⟩ := hex
    by_contra hno
    have hdry : ∀ d ∈ r.ahead, stop d = false := by
      intro d hd
      rw [Bool.eq_false_iff]
      exact fun h => hno ⟨d, hd, h⟩
    have hneg := hright (charsLoop_dry _ hdry rfl hruns)
    obtain ⟨-, x, hx, hle⟩ := charsLoop_always _ hruns
    injection hx with hx
    subst hx
    exact absurd hneg (Int.not_lt.mpr hle)
  · intro h
    obtain ⟨s, c, rest, hahead, hs, hc⟩ := exists_first h
    refine ⟨_, _, _, charsLoop_runs s rest hs hc r (0, []) hahead, ?_⟩
    intro hout
    rw [hr] at hout
    cases hout

-- ================================================================ tags

/-- The program of a tag: its opening, and then the loop. -/
theorem runs_readXMLTag {endTag : Bool} {r r' : LookaheadReader}
    {res : Except Abort (Int × Bytes)} :
    (readXMLTag endTag).Runs r res r'
      ↔ (if (matchSyntax (tagOpen endTag) r).1 then
            tagLoop ((tagOpen endTag).length, [])
          else pure (-1, [])).Runs (matchSyntax (tagOpen endTag) r).2 res
            r' := by
  unfold readXMLTag
  rw [runs_readXMLSyntaxChar]
  cases endTag with
  | false =>
      by_cases hc : r.read.1 ≠ kcXMLTagO
      · simp [tagOpen, matchSyntax, hc]
      · simp [tagOpen, matchSyntax, hc]
  | true =>
      by_cases hc : r.read.1 ≠ kcXMLTagO
      · simp [tagOpen, matchSyntax, hc]
      · rw [if_neg hc, if_neg (by decide), if_pos rfl,
          runs_readXMLSyntaxChar]
        by_cases hc2 : r.read.2.read.1 ≠ kcXMLSlash
        · simp [tagOpen, matchSyntax, hc, hc2]
        · simp [tagOpen, matchSyntax, hc, hc2]

theorem tag_ends_iff {endTag : Bool} {r : LookaheadReader}
    (hr : r.ranOut = false) :
    EndsRight (readXMLTag endTag) r ↔ (ReadOp.tag endTag).Delimited r := by
  unfold EndsRight ReadOp.Delimited
  simp only [runs_readXMLTag]
  by_cases hm : (matchSyntax (tagOpen endTag) r).1 = true
  · rw [if_pos hm]
    constructor
    · intro hex _
      obtain ⟨ret, str, r', hruns, hright⟩ := hex
      by_contra hno
      have hneg := hright (tagLoop_dry _ hno rfl hruns)
      obtain ⟨-, x, hx, hle⟩ := tagLoop_always _ hruns
      injection hx with hx
      subst hx
      have hpos : (0 : Int) ≤ (tagOpen endTag).length := Int.natCast_nonneg _
      exact absurd hneg (Int.not_lt.mpr (hpos.trans hle))
    · intro h
      have hmem := h hm
      obtain ⟨s, rest, hstream, hs⟩ := List.eq_append_cons_of_mem hmem
      obtain ⟨r', hruns, -, -, hout⟩ := tagLoop_runs s rest hs _
        ((tagOpen endTag).length, []) hstream
      refine ⟨_, _, r', hruns, ?_⟩
      intro hran
      rw [hout, matchSyntax_ranOut _ (.inl (List.ne_nil_of_mem hmem)), hr]
        at hran
      cases hran
  · rw [if_neg hm]
    refine iff_of_true ⟨-1, [], _, Prog.runs_pure.mpr ⟨rfl, rfl⟩, ?_⟩ ?_
    · intro _
      decide
    · intro h
      exact absurd h hm

-- =============================================================== CDATA

theorem runs_readXMLCDATA {r r' : LookaheadReader}
    {res : Except Abort (Int × Bytes)} :
    readXMLCDATA.Runs r res r'
      ↔ (if (matchSyntax kXMLCDATAO r).1 then
            cdataLoop ⟨kXMLCDATAO.length, [], none, none⟩
          else pure (-1, [])).Runs (matchSyntax kXMLCDATAO r).2 res r' := by
  unfold readXMLCDATA
  rw [runs_readXMLSyntaxString]
  by_cases hm : (matchSyntax kXMLCDATAO r).1 = true
  · rw [if_pos hm, if_pos hm, if_neg (by decide), Int.zero_add]
  · rw [if_neg hm, if_neg hm, if_pos (by decide)]

theorem cdata_ends_iff {r : LookaheadReader} (hr : r.ranOut = false) :
    EndsRight readXMLCDATA r ↔ ReadOp.cdata.Delimited r := by
  unfold EndsRight ReadOp.Delimited
  simp only [runs_readXMLCDATA]
  have hok : (CData.mk kXMLCDATAO.length [] none none).Ok :=
    fun h => absurd rfl h
  by_cases hm : (matchSyntax kXMLCDATAO r).1 = true
  · rw [if_pos hm]
    constructor
    · intro hex _
      obtain ⟨ret, str, r', hruns, hright⟩ := hex
      by_contra hno
      exact cdataLoop_never hno ⟨_, _, hruns⟩
    · intro h
      have hocc := h hm
      obtain ⟨ret, str, r', hruns, -, hout⟩ :=
        cdataLoop_runs _ hocc hok rfl
      refine ⟨ret, str, r', hruns, ?_⟩
      intro hran
      have hne : (matchSyntax kXMLCDATAO r).2.ahead ≠ [] := by
        intro hnil
        rw [hnil, List.infix_nil] at hocc
        cases hocc
      rw [hout, matchSyntax_ranOut _ (.inr hne), hr] at hran
      cases hran
  · rw [if_neg hm]
    refine iff_of_true ⟨-1, [], _, Prog.runs_pure.mpr ⟨rfl, rfl⟩, ?_⟩ ?_
    · intro _
      decide
    · intro h
      exact absurd h hm

/-- All four reads. -/
theorem readOp_ends_iff (op : ReadOp) {r : LookaheadReader}
    (hr : r.ranOut = false) : EndsRight op.code r ↔ op.Delimited r := by
  cases op with
  | tag endTag => exact tag_ends_iff hr
  | string => exact charsLoop_ends_iff hr
  | numeric => exact charsLoop_ends_iff hr
  | cdata => exact cdata_ends_iff hr

end Sandesh.Xml
