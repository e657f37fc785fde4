/-
One CDATA section, read by C++ and by Python.

The loop of the C++ reader rotates up to three characters and ends at the
first `]]>` behind the opener (`runs_cdata`). The Python reader looks for
`]]>` from the start of its buffer; as the opener has no `]`, it finds the
same one (`find_section`). So both return the same value and stop at the
same byte.

The length is a count of bytes: an unbounded integer in Python, an
`int32_t` in C++. The count is only ever added to, so it does not matter
whether it wraps at each step or at the end.
-/
import Sandesh.CppGen.Read
import Sandesh.Lib.Wire
import Sandesh.Py.Proofs.RoundTrip
import Sandesh.Py.Protocol
import Sandesh.Xml.Proofs.Runs

namespace Sandesh.Py

open Lib Xml

-- =============================================================== C++

/-- `int32_t readXMLCDATA(std::string &str)`, its count an `int32_t`. -/
def cppReadXMLCDATA : Read (Int × Bytes) := do
  let (result, str) ← Xml.readXMLCDATA
  pure (i32 result, str)

/-- A read that was good, without its check. -/
theorem code_of_get {op : Xml.ReadOp} {x : Int × Bytes} {r r' : LookaheadReader}
    (h : (Reads.code.get op).Runs r (.ok x) r') : op.code.Runs r (.ok x) r' := by
  unfold Reads.get at h
  rcases Prog.runs_bind.mp h with ⟨y, r₁, hy, hrest⟩ | ⟨e, -, he⟩
  · split at hrest
    · obtain ⟨he, -⟩ := Prog.runs_throw.mp hrest
      cases he
    · obtain ⟨hx, rfl⟩ := Prog.runs_pure.mp hrest
      injection hx with hx
      rw [hx]
      exact hy
  · cases he

theorem runs_cppReadXMLCDATA {s rest : Bytes} {r : LookaheadReader}
    (hs : ¬ kXMLCDATAC <:+: s)
    (h : Near (kXMLCDATAO ++ s ++ kXMLCDATAC ++ rest) r) :
    ∃ r', cppReadXMLCDATA.Runs r (.ok (i32 (s.length + 12), s)) r'
      ∧ Fresh rest r' := by
  obtain ⟨r', hruns, hfresh⟩ := runs_cdata hs h
  have hlen : (kXMLCDATAO.length + s.length + kXMLCDATAC.length : Int)
      = s.length + 12 := by
    show (9 : Int) + s.length + 3 = s.length + 12
    omega
  rw [hlen] at hruns
  refine ⟨r', Prog.Runs.bind_ok (code_of_get hruns) ?_, hfresh⟩
  exact Prog.runs_pure.mpr ⟨rfl, rfl⟩

-- ============================================================== Python

/-- An occurrence that starts with none of the first characters starts
behind them. -/
theorem infix_of_append {c : UInt8} {pat front s : Bytes} (hc : c ∉ front)
    (h : c :: pat <:+: front ++ s) : c :: pat <:+: s := by
  induction front with
  | nil => exact h
  | cons d front ih =>
      rw [List.mem_cons, not_or] at hc
      rw [List.cons_append, List.infix_cons_iff] at h
      rcases h with hpre | hin
      · exact absurd (List.cons_prefix_cons.mp hpre).1 hc.1
      · exact ih hc.2 hin

/-- The first `]]>`. -/
theorem find_first {s : Bytes} (hs : ¬ kXMLCDATAC <:+: s) (rest : Bytes) :
    find kXMLCDATAC (s ++ (kXMLCDATAC ++ rest)) = some s.length := by
  induction s with
  | nil =>
      exact if_pos (List.prefix_append kXMLCDATAC rest)
  | cons c s ih =>
      have htail : ¬ kXMLCDATAC <:+: s := by
        intro hin
        exact hs (List.infix_cons_iff.mpr (.inr hin))
      have hpre := cdata_early hs rest
      rw [List.cons_append] at hpre ⊢
      rw [find, if_neg hpre, ih htail]
      rfl

/-- The opener hides no `]]>`. -/
theorem find_section {s : Bytes} (hs : ¬ kXMLCDATAC <:+: s) (rest : Bytes) :
    find kXMLCDATAC (kXMLCDATAO ++ s ++ kXMLCDATAC ++ rest)
      = some (kXMLCDATAO.length + s.length) := by
  have hopen : ¬ kXMLCDATAC <:+: kXMLCDATAO ++ s := by
    intro hin
    exact hs (infix_of_append (by decide) hin)
  have hfind := find_first hopen rest
  rw [List.length_append] at hfind
  rw [List.append_assoc (kXMLCDATAO ++ s)]
  exact hfind

theorem cdataText_section {s : Bytes} (hs : ¬ kXMLCDATAC <:+: s) (rest : Bytes) :
    cdataText (kXMLCDATAO ++ s ++ kXMLCDATAC ++ rest) = some (s, s.length + 12) := by
  have htake : (kXMLCDATAO ++ s ++ kXMLCDATAC ++ rest).take kXMLCDATAO.length
      = kXMLCDATAO := by
    rw [List.append_assoc, List.append_assoc, List.take_left]
  have hdata : ((kXMLCDATAO ++ s ++ kXMLCDATAC ++ rest).take
      (kXMLCDATAO.length + s.length)).drop kXMLCDATAO.length = s := by
    rw [List.append_assoc (kXMLCDATAO ++ s), ← List.length_append, List.take_left,
      List.drop_left]
  have hlen : kXMLCDATAO.length + s.length + kXMLCDATAC.length = s.length + 12 := by
    show 9 + s.length + 3 = s.length + 12
    omega
  have hopen : lit "<![CDATA[" = kXMLCDATAO := rfl
  have hclose : lit "]]>" = kXMLCDATAC := by decide
  unfold cdataText
  simp only [hopen, hclose]
  rw [if_neg (not_not.mpr htake.symm), find_section hs, Option.map_some, hdata, hlen]

theorem readXMLCDATA_section {s rest : Bytes} {p : TXMLProtocol}
    (hs : ¬ kXMLCDATAC <:+: s)
    (hp : p.read_buf = some (kXMLCDATAO ++ s ++ kXMLCDATAC ++ rest)) :
    readXMLCDATA p
      = .ok (some (s, s.length + 12), { p with read_buf := some rest }) := by
  have hrest : (kXMLCDATAO ++ s ++ kXMLCDATAC ++ rest).drop (s.length + 12) = rest := by
    apply List.drop_left'
    rw [List.length_append, List.length_append]
    show 9 + s.length + 3 = s.length + 12
    omega
  unfold readXMLCDATA reading
  rw [hp]
  simp only []
  rw [cdataText_section hs]
  simp only []
  rw [hrest]

-- ================================================================ both

/-- Where the first `]]>` of a text is. -/
structure FirstEnd (text value rest : Bytes) : Prop where
  split : text = value ++ kXMLCDATAC ++ rest
  first : ∀ value' rest', text = value' ++ kXMLCDATAC ++ rest' →
    value.length ≤ value'.length

theorem firstEnd_of_not_infix {value rest : Bytes} (h : ¬ kXMLCDATAC <:+: value) :
    FirstEnd (value ++ kXMLCDATAC ++ rest) value rest := by
  refine ⟨rfl, fun value' rest' heq => ?_⟩
  rw [List.append_assoc, List.append_assoc] at heq
  rcases List.append_eq_append_iff.mp heq with ⟨w, rfl, -⟩ | ⟨w, rfl, hw⟩
  · rw [List.length_append]
    omega
  · cases w with
    | nil => rw [List.append_nil]
    | cons c w =>
        have hno : ¬ kXMLCDATAC <:+: c :: w := by
          intro hin
          exact h (hin.trans (List.suffix_append value' _).isInfix)
        refine absurd ?_ (cdata_early hno rest)
        rw [← hw]
        exact List.prefix_append kXMLCDATAC rest'

/-- A text that starts with the opener and has a `]]>` behind it: both
readers return what is between the opener and the first one, and go on at
the byte after it. C++ returns the number of bytes as an `int32_t`. -/
theorem cdata_read_alike {text : Bytes} (hend : kXMLCDATAC <:+: text)
    {r : LookaheadReader} (hr : Near (kXMLCDATAO ++ text) r)
    {p : TXMLProtocol} (hp : p.read_buf = some (kXMLCDATAO ++ text)) :
    ∃ value rest, FirstEnd text value rest
      ∧ (∃ r', cppReadXMLCDATA.Runs r (.ok (i32 (value.length + 12), value)) r'
        ∧ Fresh rest r')
      ∧ readXMLCDATA p
        = .ok (some (value, value.length + 12), { p with read_buf := some rest })
      ∧ (value.length + 12 < 2 ^ 31 →
        i32 (value.length + 12) = (value.length + 12 : Nat)) := by
  obtain ⟨value, rest, rfl, hvalue⟩ := exists_first_cdata hend
  rw [← List.append_assoc, ← List.append_assoc] at hr hp
  refine ⟨value, rest, ?_, runs_cppReadXMLCDATA hvalue hr,
    readXMLCDATA_section hvalue hp, ?_⟩
  · rw [← List.append_assoc]
    exact firstEnd_of_not_infix hvalue
  · intro hlt
    rw [i32_eq (by omega) (by omega)]
    omega

/-- `]]]]>`: two of the brackets belong to the value. -/
theorem brackets_before_end :
    ∃ value rest, FirstEnd (lit "a]]]]>b") value rest
      ∧ (∃ r', cppReadXMLCDATA.Runs
          (LookaheadReader.new (lit "<![CDATA[a]]]]>b") 0 (0, 0))
          (.ok (i32 (value.length + 12), value)) r'
        ∧ Fresh rest r')
      ∧ readXMLCDATA ⟨[], some (lit "<![CDATA[a]]]]>b"), []⟩
        = .ok (some (value, value.length + 12), ⟨[], some rest, []⟩)
      ∧ (value.length + 12 < 2 ^ 31 →
        i32 (value.length + 12) = (value.length + 12 : Nat)) :=
  have hend : kXMLCDATAC <:+: lit "a]]]]>b" := by decide
  cdata_read_alike hend (fresh_new _ _ _).toNear rfl

/-- What C++ returns for a section of plain bytes is no count of them, if
the count does not fit. -/
theorem cdata_length_not {n : Nat} (h : i32 (n + 12) < 0) {r : LookaheadReader}
    (hr : Near (kXMLCDATAO ++ (List.replicate n 97 ++ kXMLCDATAC)) r) :
    ¬ ∃ value : Bytes, ∃ r',
      cppReadXMLCDATA.Runs r (.ok ((value.length + 12 : Nat), value)) r' := by
  intro hex
  obtain ⟨value, r'', hruns'⟩ := hex
  have hplain : ¬ kXMLCDATAC <:+: List.replicate n 97 := by
    intro hin
    have hmem : kcXMLSBracketC ∈ List.replicate n (97 : UInt8) :=
      hin.subset List.mem_cons_self
    exact absurd (List.eq_of_mem_replicate hmem) (by decide)
  rw [← List.append_assoc, ← List.append_nil (kXMLCDATAO ++ _ ++ _)] at hr
  obtain ⟨r', hruns, -⟩ := runs_cppReadXMLCDATA hplain hr
  obtain ⟨hres, -⟩ := Prog.Runs.unique hruns hruns'
  obtain ⟨hlen, hvalue⟩ := Prod.mk.inj (Except.ok.inj hres)
  rw [← hvalue, List.length_replicate] at hlen
  omega

/-- 2^31 - 12 bytes: C++ returns -2^31 as the length. -/
theorem cdata_length_wraps :
    ¬ ∀ (text : Bytes), kXMLCDATAC <:+: text → ∀ r, Near (kXMLCDATAO ++ text) r →
      ∃ value rest, FirstEnd text value rest
        ∧ ∃ r', cppReadXMLCDATA.Runs r (.ok ((value.length + 12 : Nat), value)) r' := by
  intro h
  obtain ⟨n, hn⟩ : ∃ n : Nat, i32 (n + 12) < 0 := ⟨2147483636, by decide +kernel⟩
  have hr := (fresh_new (kXMLCDATAO ++ (List.replicate n 97 ++ kXMLCDATAC)) 0 (0, 0)).toNear
  have hend : kXMLCDATAC <:+: List.replicate n 97 ++ kXMLCDATAC :=
    (List.suffix_append _ _).isInfix
  obtain ⟨value, rest, -, r', hruns⟩ := h _ hend _ hr
  exact cdata_length_not hn hr ⟨value, r', hruns⟩

end Sandesh.Py

/-
The round trip of a text in CDATA, in C++ and in Python.

Both writers copy the text between the delimiters as it is, and both
readers stop at the first `]]>` after the opening: C++ holds back up to two
characters until it knows, Python searches. So the text comes back exactly
when there is no `]]>` in it. One that ends in `]` or in `]]` is no
exception: the first `]]>` is still the one that was written.
-/

namespace Sandesh.CppGen

open Lib Xml Header Prog

-- ================================================================= C++

/-- `readXML` after `writeXML`, from a reader at the text: the text comes
back, and the reader is where it ends. -/
def CppTrip (s rest : Bytes) : Prop :=
  ∀ r, Near ((writeXML s .init).out ++ rest) r →
    ∃ ret r', (readXML Reads.code).Runs r (.ok (ret, s)) r' ∧ Fresh rest r'

/-- What is written, in the reader's terms. -/
theorem writeXML_out (s rest : Bytes) :
    (writeXML s .init).out ++ rest = kXMLCDATAO ++ s ++ kXMLCDATAC ++ rest := rfl

/-- The part of a text before its first `]]>` is not the text. -/
theorem first_ne {s s₀ s₁ : Bytes} (h : s = s₀ ++ (kXMLCDATAC ++ s₁)) : s ≠ s₀ := by
  intro heq
  have hlen := congrArg List.length h
  rw [heq, List.length_append, List.length_append] at hlen
  simp [kXMLCDATAC] at hlen

/-- A text with `]]>` in it, as the readers see it: they find an end before
the one that was written. -/
theorem early_end {s s₀ s₁ : Bytes} (h : s = s₀ ++ (kXMLCDATAC ++ s₁)) (rest : Bytes) :
    kXMLCDATAO ++ s ++ kXMLCDATAC ++ rest
      = kXMLCDATAO ++ s₀ ++ kXMLCDATAC ++ (s₁ ++ (kXMLCDATAC ++ rest)) := by
  rw [h]
  simp only [List.append_assoc]

theorem cppTrip_iff (s rest : Bytes) : CppTrip s rest ↔ ¬ kXMLCDATAC <:+: s := by
  constructor
  · intro h hin
    obtain ⟨s₀, s₁, hs, hs₀⟩ := exists_first_cdata hin
    have hfresh := fresh_new ((writeXML s .init).out ++ rest) 0 (0, 0)
    obtain ⟨ret, r', hruns, -⟩ := h _ hfresh.toNear
    have hstream := hfresh.stream.trans ((writeXML_out s rest).trans (early_end hs rest))
    obtain ⟨r₁, hruns₁, -⟩ := runs_cdata hs₀ ⟨hstream, hfresh.look, hfresh.first⟩
    have heq := (hruns.unique hruns₁).1
    injection heq with heq
    injection heq with _ heq
    exact first_ne hs heq
  · intro hs r hr
    obtain ⟨r', hruns, hfresh⟩ := runs_cdata hs hr
    exact ⟨_, r', hruns, hfresh⟩

-- ============================================================== Python

/-- `readXML` after `writeXML`, from a reader at the text. -/
def PyTrip (s rest : Bytes) : Prop :=
  ∀ p : Py.TXMLProtocol, p.read_buf = some ((Py.writeXML s .init).out ++ rest) →
    Py.readXML p = .ok ((s.length, some s), { p with read_buf := some rest })

theorem readXML_first {s rest : Bytes} (hs : ¬ kXMLCDATAC <:+: s) {p : Py.TXMLProtocol}
    (hp : p.read_buf = some (kXMLCDATAO ++ s ++ kXMLCDATAC ++ rest)) :
    Py.readXML p = .ok ((s.length, some s), { p with read_buf := some rest }) :=
  Py.bind_run (Py.readXMLCDATA_section hs hp)

theorem pyTrip_iff (s rest : Bytes) : PyTrip s rest ↔ ¬ kXMLCDATAC <:+: s := by
  constructor
  · intro h hin
    obtain ⟨s₀, s₁, hs, hs₀⟩ := exists_first_cdata hin
    have hread := h ⟨[], some ((Py.writeXML s .init).out ++ rest), []⟩ rfl
    have hread₀ := readXML_first hs₀ (p := ⟨[], some ((Py.writeXML s .init).out ++ rest), []⟩)
      (congrArg some (early_end hs rest))
    rw [hread₀] at hread
    injection hread with hread
    injection hread with hread
    injection hread with _ hread
    injection hread with hread
    exact first_ne hs hread.symm
  · intro hs p hp
    exact readXML_first hs hp

-- ================================================================ both

/-- The text comes back, in both languages, exactly when it has no `]]>`. -/
theorem xml_round_trip_iff (s rest : Bytes) :
    (CppTrip s rest ↔ ¬ kXMLCDATAC <:+: s) ∧ (PyTrip s rest ↔ ¬ kXMLCDATAC <:+: s) :=
  ⟨cppTrip_iff s rest, pyTrip_iff s rest⟩

/-- A message that has a CDATA section of its own, as an xml value. -/
def nested : Bytes := lit "<a><![CDATA[x]]></a>"

theorem xml_round_trip_fails :
    ¬ CppTrip nested (lit "</b>") ∧ ¬ PyTrip nested (lit "</b>") := by
  have hin : kXMLCDATAC <:+: nested := ⟨lit "<a><![CDATA[x", lit "</a>", by decide⟩
  exact ⟨fun h => (cppTrip_iff _ _).mp h hin, fun h => (pyTrip_iff _ _).mp h hin⟩

end Sandesh.CppGen
