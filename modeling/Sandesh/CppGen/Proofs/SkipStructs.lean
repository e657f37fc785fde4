/-
`skip` on a struct: from field to field, up to the end tag.

A struct is skipped by its tags alone, whatever their names. So it can be
skipped from the tag of an element that is not a struct at all, if there is
nothing in it (`Ty.goes_element`).
-/
import Sandesh.CppGen.Proofs.SkipElems

namespace Sandesh.CppGen

open Lib Xml Header LookaheadReader TType
open Lib.Prog (Runs runs_pure runs_throw runs_bind)

variable {W : World} {F : Foreign}

-- ============================================================== fields

/-- The reader that `skip` calls is the same but for the name. -/
theorem readFieldBegin_unnamed {R : Reads} {name name' : Bytes} {t t' : TType}
    {i i' : BitVec 16} {n : Int} {r r' : LookaheadReader}
    (h : (readFieldBegin W R name t i).Runs r (.ok (n, name', t', i')) r') :
    (Xml.readFieldBegin W R t i).Runs r (.ok (n, t', i')) r' := by
  rw [readFieldBegin, runs_peek2Char, runs_peek2Char] at h
  rw [Xml.readFieldBegin, runs_peek2Char, runs_peek2Char]
  split at h
  · rename_i hslash
    rw [if_pos hslash]
    obtain ⟨heq, rfl⟩ := runs_pure.mp h
    cases heq
    exact runs_pure.mpr ⟨rfl, rfl⟩
  · rename_i hslash
    rw [if_neg hslash]
    rcases runs_bind.mp h with ⟨x, r₁, htokens, h⟩ | ⟨e, -, he⟩
    · refine htokens.bind_ok ?_
      rcases runs_bind.mp h with ⟨y, r₂, hattrs, h⟩ | ⟨e, -, he⟩
      · obtain ⟨heq, rfl⟩ := runs_pure.mp h
        cases heq
        exact hattrs.bind_ok (runs_pure.mpr ⟨rfl, rfl⟩)
      · cases he
    · cases he

/-- The loop of `skipFields`, wherever it is. -/
def skipLoop (W : World) : Int × TType × BitVec 16 → Read Int :=
  Prog.loop fun t => do
    let (ret, ftype, fid) ← Xml.readFieldBegin W Reads.code t.2.1 t.2.2
    if ftype = T_STOP then pure (.inr (t.1 + ret))
    else
      let ret2 ← skip W Reads.code ftype
      let ret3 ← readFieldEnd Reads.code
      pure (.inl (t.1 + ret + ret2 + ret3, ftype, fid))

/-- All the fields are skipped, or the loop fails. -/
def Fields.Skips (W : World) (fs : Fields) (x : fs.Rec F) : Prop :=
  ∀ (st : Int × TType × BitVec 16) ⦃rest : Bytes⦄ ⦃r : LookaheadReader⦄,
    Fresh (fs.text W x ++ kcXMLTagO :: kcXMLSlash :: rest) r →
    (fs.Skippable W x → ∃ r', (skipLoop W st).Runs r (.ok (st.1 + (fs.text W x).length)) r'
      ∧ Near (kcXMLTagO :: kcXMLSlash :: rest) r')
    ∧ (¬ fs.Skippable W x → ∃ e r', (skipLoop W st).Runs r (.error (.fault e)) r')

/-- An end tag ends the loop. -/
theorem skipLoop_slash {rest : Bytes} {r : LookaheadReader}
    (hr : Fresh (kcXMLTagO :: kcXMLSlash :: rest) r) (st : Int × TType × BitVec 16) :
    ∃ r', (skipLoop W st).Runs r (.ok st.1) r' ∧ Near (kcXMLTagO :: kcXMLSlash :: rest) r' := by
  obtain ⟨r', hbegin, hnear⟩ := readFieldBegin_slash (W := W) hr [] st.2.1 st.2.2
  refine ⟨r', Runs.leave ((readFieldBegin_unnamed hbegin).bind_ok ?_), hnear⟩
  simp only [if_pos, Int.add_zero]
  exact runs_pure.mpr ⟨rfl, rfl⟩

theorem Fields.skips_nil (x : Fields.nil.Rec F) : Fields.nil.Skips W x := by
  intro st rest r hr
  refine ⟨fun _ => ?_, fun hbad => absurd trivial hbad⟩
  have hzero : st.1 + ((Fields.nil.text W x).length : Int) = st.1 := Int.add_zero _
  rw [hzero]
  exact skipLoop_slash hr st

section Cons

variable (hW : Decimals W) {f : Field} {t : Ty} (hf : f.Sound W t.type_to_enum)

include hW hf

/-- One field: its tag, its value, its end tag. -/
theorem skipLoop_field {v : t.Val F} (hv : t.Skips W v) {rest : Bytes} {r : LookaheadReader}
    (hr : Fresh (between f.name (attrText W t.type_to_enum (BitVec.ofInt 16 f.key)
      f.annotations) (t.text W v) ++ rest) r) (st : Int × TType × BitVec 16) :
    (t.Skippable W v → ∃ st' r', Fresh rest r'
      ∧ st'.1 = st.1 + (between f.name (attrText W t.type_to_enum (BitVec.ofInt 16 f.key)
        f.annotations) (t.text W v)).length
      ∧ ∀ {res r''}, (skipLoop W st').Runs r' res r'' → (skipLoop W st).Runs r res r'')
    ∧ (¬ t.Skippable W v → ∃ e r', (skipLoop W st).Runs r (.error (.fault e)) r') := by
  rw [between, List.append_assoc, List.append_assoc] at hr
  obtain ⟨ra, hbegin, hfresh⟩ := readFieldBegin_field hW.toDecimal hf.tag
    (plainName_of_isName hf.name) t.named hf.harmless hr [] st.2.1 st.2.2
  have hbegin := readFieldBegin_unnamed hbegin
  have htagged : t.Loose → Tagged (closeTag f.name ++ rest) := fun _ =>
    tagged_closeTag f.name rest
  have hsettles := hv htagged
  constructor
  · intro hgood
    obtain ⟨n, rb, hskip, hn, hready⟩ := hsettles.takes hgood ra hfresh.ready
    obtain ⟨rc, hend, hfresh'⟩ := runs_closeTag hf.name hready.near
    have hfieldEnd : (readFieldEnd Reads.code).Runs rb (.ok ((closeTag f.name).length : Int)) rc :=
      hend.bind_ok (runs_pure.mpr ⟨rfl, rfl⟩)
    refine ⟨(st.1 + (openTag f.name (attrText W t.type_to_enum (BitVec.ofInt 16 f.key)
        f.annotations)).length + n + (closeTag f.name).length, t.type_to_enum,
        BitVec.ofInt 16 f.key), rc, hfresh', ?_,
      fun hnext => Runs.again (hbegin.bind_ok ?_) hnext⟩
    · simp only [hn, between, List.length_append, Int.natCast_add, Int.add_assoc]
    · simp only [if_neg t.ne_stop]
      exact hskip.bind_ok (hfieldEnd.bind_ok (runs_pure.mpr ⟨rfl, rfl⟩))
  · intro hbad
    obtain ⟨e, rb, hskip⟩ := hsettles.fails hbad ra hfresh.ready
    refine ⟨e, rb, Runs.stop (hbegin.bind_ok ?_)⟩
    simp only [if_neg t.ne_stop]
    exact Runs.bind_error hskip

theorem Fields.skips_cons {fs : Fields} {x : (Fields.cons f t fs).Rec F}
    (hv : ∀ v, f.req.get x.1 = some v → t.Skips W v) (hfs : fs.Skips W x.2) :
    (Fields.cons f t fs).Skips W x := by
  intro st rest r hr
  rw [Fields.text] at hr ⊢
  cases hget : f.req.get x.1 with
  | none =>
      have hiff : (Fields.cons f t fs).Skippable W x ↔ fs.Skippable W x.2 := by
        refine and_iff_right fun v hsome => ?_
        rw [hget] at hsome
        cases hsome
      rw [hget] at hr
      rw [hiff]
      exact hfs st hr
  | some v =>
      have hiff : (Fields.cons f t fs).Skippable W x
          ↔ t.Skippable W v ∧ fs.Skippable W x.2 := by
        refine and_congr_left fun _ => ?_
        rw [hget]
        exact ⟨fun h => h v rfl, fun h w hw => Option.some.inj hw ▸ h⟩
      rw [hget] at hr
      simp only [List.append_assoc] at hr
      obtain ⟨htakes, hfails⟩ := skipLoop_field hW hf (hv v hget) hr st
      rw [hiff]
      by_cases hgood : t.Skippable W v
      · obtain ⟨st', r', hfresh, hst', hnext⟩ := htakes hgood
        obtain ⟨hrest, hrest'⟩ := hfs st' hfresh
        constructor
        · intro hboth
          obtain ⟨r'', hruns, hnear⟩ := hrest hboth.2
          refine ⟨r'', ?_, hnear⟩
          rw [List.length_append, Int.natCast_add, ← Int.add_assoc, ← hst']
          exact hnext hruns
        · intro hbad
          obtain ⟨e, r'', hruns⟩ := hrest' fun h => hbad ⟨hgood, h⟩
          exact ⟨e, r'', hnext hruns⟩
      · exact ⟨fun hboth => absurd hboth.1 hgood, fun _ => hfails hgood⟩

end Cons

-- ============================================================= structs

theorem Ty.skips_struct {name : Bytes} (hname : IsName name) {fs : Fields} {x : fs.Rec F}
    (hfs : fs.Skips W x) : (Ty.struct name fs).Skips W x := by
  intro rest _
  have htext : (Ty.struct name fs).text W x = between name [] (fs.text W x) := rfl
  have hno : kcXMLTagC ∉ name ++ [] := by
    rw [List.append_nil]
    exact not_mem_name hname
  have hopens : ∀ r, Ready (between name [] (fs.text W x) ++ rest) r → ∃ r',
      (readStructBegin Reads.code).Runs r (.ok ((openTag name []).length, name ++ [])) r'
      ∧ Fresh (fs.text W x ++ kcXMLTagO :: kcXMLSlash :: (name ++ lit ">" ++ rest)) r' := by
    intro r hr
    rw [between, List.append_assoc, List.append_assoc] at hr
    obtain ⟨r', hruns, hfresh⟩ := runs_openTag hno hr.near
    rw [closeTag_eq] at hfresh
    exact ⟨r', hruns, hfresh⟩
  rw [htext]
  refine Settles.skip ⟨fun hgood r hr => ?_, fun hbad r hr => ?_⟩
  · obtain ⟨ra, hbegin, hfresh⟩ := hopens r hr
    obtain ⟨rb, hloop, hnear⟩ := (hfs (_, W.junk.ftype, W.junk.fid) hfresh).1 hgood
    rw [← closeTag_eq] at hnear
    obtain ⟨rc, hend, hfresh'⟩ := runs_closeTag hname hnear
    have hstructEnd : (readStructEnd Reads.code).Runs rb (.ok ((closeTag name).length : Int)) rc :=
      hend.bind_ok (runs_pure.mpr ⟨rfl, rfl⟩)
    refine ⟨_, rc, hbegin.bind_ok (hloop.bind_ok (hstructEnd.bind_ok
      (runs_pure.mpr ⟨rfl, rfl⟩))), ?_, hfresh'.ready⟩
    simp only [between, List.length_append, Int.natCast_add]
  · obtain ⟨ra, hbegin, hfresh⟩ := hopens r hr
    obtain ⟨e, rb, hloop⟩ := (hfs (((openTag name []).length : Int), W.junk.ftype,
      W.junk.fid) hfresh).2 hbad
    exact ⟨e, rb, hbegin.bind_ok (Runs.bind_error hloop)⟩

-- ================================================= an element that is none

/-- A tag is expected and there is none. -/
theorem runs_noTag {c : UInt8} (hc : c ≠ kcXMLTagO) {tail : Bytes} {r : LookaheadReader}
    (hr : Near (c :: tail) r) :
    ∃ r', (Reads.code.get (.tag false)).Runs r (.error (.fault .failed)) r' := by
  obtain ⟨r₁, hread, -⟩ := read_cons hr.stream
  have hm : matchSyntax (tagOpen false) r = (false, r₁) := by
    show matchSyntax [kcXMLTagO] r = (false, r₁)
    rw [matchSyntax, hread, if_pos hc]
  have htag : (readXMLTag false).Runs r (.ok (-1, [])) r₁ := by
    rw [runs_readXMLTag, hm, if_neg Bool.false_ne_true]
    exact runs_pure.mpr ⟨rfl, rfl⟩
  exact ⟨r₁, runs_failed htag⟩

/-- The loop over the fields fails at a character. -/
theorem skipLoop_char {c : UInt8} (hc : c ≠ kcXMLTagO) {d : UInt8} {tail : Bytes}
    {r : LookaheadReader} (hr : Fresh (c :: d :: tail) r) (st : Int × TType × BitVec 16) :
    ∃ r', (skipLoop W st).Runs r (.error (.fault .failed)) r' := by
  obtain ⟨r₁, hnear, hpeek⟩ := runs_peek2 hr
  obtain ⟨r₂, hruns⟩ := runs_noTag hc hnear
  have hbegin : (Xml.readFieldBegin W Reads.code st.2.1 st.2.2).Runs r
      (.error (.fault .failed)) r₂ := by
    refine hpeek.mpr ?_
    rw [if_neg fun h => hc h.1]
    exact Runs.bind_error (Runs.bind_error hruns)
  exact ⟨r₂, Runs.stop (Runs.bind_error hbegin)⟩

/-- A struct in place of an element: it is skipped if there is nothing in
it, and fails if there is. -/
theorem goes_struct_element {y : Bytes} (hy : kcXMLTagO ∉ y) (more : Bytes) :
    Goes (skip W Reads.code T_STRUCT) (elementText true y ++ more) (fun s => s = more) := by
  have htext : elementText true y ++ more
      = openTag (lit "element") [] ++ (y ++ (closeTag (lit "element") ++ more)) := by
    simp [elementText]
  intro r hr
  rw [htext] at hr
  obtain ⟨ra, hbegin, hfresh⟩ := runs_openTag (by decide) hr.near
  cases y with
  | nil =>
      rw [List.nil_append, closeTag_eq] at hfresh
      obtain ⟨rb, hloop, hnear⟩ := skipLoop_slash (W := W) hfresh
        (((openTag (lit "element") []).length : Int), W.junk.ftype, W.junk.fid)
      rw [← closeTag_eq] at hnear
      obtain ⟨rc, hend, hfresh'⟩ := runs_closeTag (by decide) hnear
      have hstructEnd : (readStructEnd Reads.code).Runs rb
          (.ok ((closeTag (lit "element")).length : Int)) rc :=
        hend.bind_ok (runs_pure.mpr ⟨rfl, rfl⟩)
      refine .inr ⟨_, rc, more, Prog.runs_fix.mpr (hbegin.bind_ok (hloop.bind_ok
        (hstructEnd.bind_ok (runs_pure.mpr ⟨rfl, rfl⟩)))), rfl, hfresh'.ready⟩
  | cons c y =>
      have hc : c ≠ kcXMLTagO := fun heq => hy (heq ▸ List.mem_cons_self)
      obtain ⟨d, tail, hnext⟩ : ∃ d tail, y ++ (closeTag (lit "element") ++ more)
          = d :: tail := by
        refine List.exists_cons_of_ne_nil ?_
        rw [closeTag_eq]
        exact List.append_ne_nil_of_right_ne_nil _ (List.cons_ne_nil _ _)
      rw [List.cons_append, hnext] at hfresh
      obtain ⟨rb, hloop⟩ := skipLoop_char (W := W) hc hfresh
        (((openTag (lit "element") []).length : Int), W.junk.ftype, W.junk.fid)
      exact .inl ⟨.failed, rb, Prog.runs_fix.mpr (hbegin.bind_ok (Runs.bind_error hloop))⟩

/-- Another container does not begin with the tag of an element. -/
theorem fails_begin_element {σ : Type} {name : Bytes} (hne : lit "element" ≠ name)
    (as : List (Attr σ)) (st : σ) (y more : Bytes) :
    Fails (readContainerBegin Reads.code name as st) (elementText true y ++ more) := by
  have htext : elementText true y ++ more
      = openTag (lit "element") [] ++ (y ++ (closeTag (lit "element") ++ more)) := by
    simp [elementText]
  have htokens : tokens (lit "element" ++ []) = lit "element" :: [] := by decide
  intro r hr
  rw [htext] at hr
  obtain ⟨r', hruns, -⟩ := readTagTokens_runs (by decide) htokens hr.near
  refine ⟨.failed, r', hruns.bind_ok ?_⟩
  simp only [ne_eq, hne, not_false_eq_true, if_true]
  exact runs_throw.mpr ⟨rfl, rfl⟩

/-- What has tags of its own, in place of an element without any. -/
theorem Ty.goes_element {y : Bytes} (hy : kcXMLTagO ∉ y) (more : Bytes) : (t : Ty) →
    t.leaf = none →
    Goes (skip W Reads.code t.type_to_enum) (elementText true y ++ more) (fun s => s = more)
  | .typedef t, ht => t.goes_element hy more ht
  | .struct _ _, _ => goes_struct_element hy more
  | .list _, _ => Fails.goes (Fails.skip (Fails.bind (fails_begin_element (by decide) _ _ y more)))
  | .set _, _ => Fails.goes (Fails.skip (Fails.bind (fails_begin_element (by decide) _ _ y more)))
  | .map _ _, _ => Fails.goes (Fails.skip (Fails.bind (fails_begin_element (by decide) _ _ y more)))

end Sandesh.CppGen
