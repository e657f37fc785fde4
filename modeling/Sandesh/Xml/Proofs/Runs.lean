/-
Reading what is there: the reads on well formed input, with their counts.

Between tags the reader holds nothing back (`Fresh`); before one it may
have looked at up to two bytes (`Near`). A tag leads from the second to
the first, a string or a number and a look at two bytes the other way.
Strings and numbers can themselves be read with one byte looked at
(`Ready`), which they leave behind.
-/
import Sandesh.Xml.Protocol
import Sandesh.Xml.Proofs.Ends

namespace Sandesh.Xml

open Lib Prog LookaheadReader

/-- `s` is what is left to read. -/
structure Near (s : Bytes) (r : LookaheadReader) : Prop where
  stream : r.stream = s
  look : r.look.length ≤ 2
  first : r.firstRead_ = true → r.has2Data_ = true

/-- The same, with nothing looked at. -/
structure Fresh (s : Bytes) (r : LookaheadReader) : Prop
    extends Near s r where
  none : r.look = []

theorem fresh_new (buf : Bytes) (data_ : UInt8) (data2_ : UInt8 × UInt8) :
    Fresh buf (LookaheadReader.new buf data_ data2_) where
  stream := rfl
  look := Nat.zero_le 2
  first := by
    intro h
    cases h
  none := rfl

namespace Fresh

variable {s : Bytes} {r : LookaheadReader}

theorem ahead (h : Fresh s r) : r.ahead = s := by
  have hone := (look_eq_nil.mp h.none).1
  have hs := h.stream
  rw [LookaheadReader.stream, h.none] at hs
  rw [LookaheadReader.ahead, held, hone]
  exact hs

theorem trans (h : Fresh s r) : r.trans = s := by
  have hs := h.stream
  rwa [LookaheadReader.stream, h.none] at hs

end Fresh

/-- The same, with one byte looked at at most. -/
structure Ready (s : Bytes) (r : LookaheadReader) : Prop where
  stream : r.stream = s
  two : r.has2Data_ = false
  first : r.firstRead_ = false

theorem Fresh.ready {s : Bytes} {r : LookaheadReader} (h : Fresh s r) : Ready s r where
  stream := h.stream
  two := (look_eq_nil.mp h.none).2
  first := by
    rw [Bool.eq_false_iff]
    intro hfirst
    have htwo := h.first hfirst
    rw [(look_eq_nil.mp h.none).2] at htwo
    cases htwo

namespace Ready

variable {s : Bytes} {r : LookaheadReader}

theorem near (h : Ready s r) : Near s r where
  stream := h.stream
  look := by
    rw [LookaheadReader.look, held, held2, h.two]
    split
    · exact Nat.le_succ 1
    · exact Nat.zero_le 2
  first := by
    intro hfirst
    rw [h.first] at hfirst
    cases hfirst

theorem ahead (h : Ready s r) : r.ahead = s := by
  have hs := h.stream
  rw [LookaheadReader.stream, LookaheadReader.look, held2, h.two] at hs
  simpa [LookaheadReader.ahead] using hs

end Ready

/-- A read that is good. -/
theorem runs_get {op : ReadOp} {ret : Int} {str : Bytes}
    {r r' : LookaheadReader} (h : op.code.Runs r (.ok (ret, str)) r')
    (hret : 0 ≤ ret) : (Reads.code.get op).Runs r (.ok (ret, str)) r' := by
  refine Runs.bind_ok h ?_
  rw [if_neg (Int.not_lt.mpr hret)]
  exact runs_pure.mpr ⟨rfl, rfl⟩

-- ================================================================ tags

theorem matchSyntax_stream (str : Bytes) :
    ∀ {s : Bytes} {r : LookaheadReader}, r.stream = str ++ s →
      (matchSyntax str r).1 = true := by
  induction str with
  | nil =>
      intro s r _
      rfl
  | cons ch str ih =>
      intro s r hr
      obtain ⟨r', hread, hstream, -, -⟩ := read_cons hr
      rw [matchSyntax, hread, if_neg (not_not.mpr rfl)]
      exact ih hstream

/-- A whole tag. -/
theorem runs_tag {endTag : Bool} {s rest : Bytes} {r : LookaheadReader}
    (hs : kcXMLTagC ∉ s)
    (h : Near (tagOpen endTag ++ s ++ kcXMLTagC :: rest) r) :
    ∃ r', (Reads.code.get (.tag endTag)).Runs r
        (.ok ((tagOpen endTag).length + s.length + 1, s)) r'
      ∧ Fresh rest r' := by
  have hstream := h.stream
  rw [List.append_assoc] at hstream
  have hm := matchSyntax_stream _ hstream
  obtain ⟨hdrop, hlook⟩ := matchSyntax_drop _ hm
  rw [hstream, List.drop_left] at hdrop
  obtain ⟨r', hloop, hrest, hlook', -⟩ := tagLoop_runs s rest hs _
    ((tagOpen endTag).length, []) hdrop
  have hread : (readXMLTag endTag).Runs r
      (.ok ((tagOpen endTag).length + s.length + 1, s)) r' := by
    rw [runs_readXMLTag, if_pos hm]
    exact hloop
  have hnil : r'.look = [] := by
    rw [hlook', hlook, List.drop_drop]
    refine List.drop_eq_nil_of_le (h.look.trans ?_)
    have hopen : 1 ≤ (tagOpen endTag).length := by
      cases endTag <;> decide
    omega
  have hmoves := (readOp_always (.tag endTag) hread).1
  refine ⟨r', runs_get hread (by omega), ⟨hrest, ?_, ?_⟩, hnil⟩
  · rw [hnil]
    exact Nat.zero_le 2
  · exact hmoves.first h.first

-- =============================================================== CDATA

/-- A whole section, up to the first `]]>`. -/
theorem runs_cdata {s rest : Bytes} {r : LookaheadReader}
    (hs : ¬ kXMLCDATAC <:+: s)
    (h : Near (kXMLCDATAO ++ s ++ kXMLCDATAC ++ rest) r) :
    ∃ r', (Reads.code.get .cdata).Runs r
        (.ok (kXMLCDATAO.length + s.length + kXMLCDATAC.length, s)) r'
      ∧ Fresh rest r' := by
  have hstream := h.stream
  rw [List.append_assoc, List.append_assoc] at hstream
  have hm := matchSyntax_stream _ hstream
  obtain ⟨hdrop, hlook⟩ := matchSyntax_drop _ hm
  rw [hstream, List.drop_left] at hdrop
  -- the nine characters of the opening are more than can be held back
  have hopen : (matchSyntax kXMLCDATAO r).2.look = [] := by
    rw [hlook]
    exact List.drop_eq_nil_of_le (h.look.trans (by decide))
  obtain ⟨hone, htwo⟩ := look_eq_nil.mp hopen
  have hahead : (matchSyntax kXMLCDATAO r).2.ahead = s ++ (kXMLCDATAC ++ rest) := by
    rw [LookaheadReader.stream, hopen, List.nil_append] at hdrop
    rw [LookaheadReader.ahead, held, hone]
    exact hdrop
  obtain ⟨ret, r', hruns, hcounted, hrest⟩ := cdataLoop_first rest hs
    (t := ⟨kXMLCDATAO.length, [], none, none⟩) (fun h => absurd rfl h) hahead
  have hread : readXMLCDATA.Runs r (.ok (ret, s)) r' := by
    rw [runs_readXMLCDATA, if_pos hm]
    exact hruns
  have hret : ret = kXMLCDATAO.length + s.length + kXMLCDATAC.length := by
    have hcount := hcounted.count
    rw [hrest, hahead, List.length_append, List.length_append] at hcount
    show ret = _
    change ret + _ = (kXMLCDATAO.length : Int) + _ at hcount
    push_cast at hcount
    omega
  have hnil : r'.look = [] :=
    look_eq_nil.mpr ⟨hcounted.one hone, hcounted.two.trans htwo⟩
  have hmoves := (readOp_always .cdata hread).1
  rw [hret] at hread
  refine ⟨r', runs_get hread (by omega), ⟨?_, ?_, hmoves.first h.first⟩, hnil⟩
  · rw [LookaheadReader.stream, hnil, List.nil_append, ← hrest,
      LookaheadReader.ahead, held, hcounted.one hone]
    rfl
  · rw [hnil]
    exact Nat.zero_le 2

-- ===================================================== strings, numbers

/-- Characters up to one that stops them. -/
theorem ready_chars {op : ReadOp} {stop : UInt8 → Bool}
    (hop : op.code = charsLoop stop (0, [])) {s rest : Bytes} {c : UInt8}
    {r : LookaheadReader} (hs : ∀ d ∈ s, stop d = false)
    (hc : stop c = true) (h : Ready (s ++ c :: rest) r) :
    ∃ r', (Reads.code.get op).Runs r (.ok (s.length, s)) r'
      ∧ Ready (c :: rest) r' := by
  have hread := charsLoop_runs s rest hs hc r (0, []) h.ahead
  rw [← hop, Int.zero_add, List.nil_append] at hread
  refine ⟨_, runs_get hread (Int.natCast_nonneg _), ?_, h.two, h.first⟩
  simp [LookaheadReader.stream, LookaheadReader.look, held, held2, h.two]

theorem ready_string {s rest : Bytes} {r : LookaheadReader}
    (hs : kcXMLTagO ∉ s) (h : Ready (s ++ kcXMLTagO :: rest) r) :
    ∃ r', (Reads.code.get .string).Runs r (.ok (s.length, s)) r'
      ∧ Ready (kcXMLTagO :: rest) r' := by
  refine ready_chars rfl ?_ (by decide) h
  intro d hd
  rw [beq_eq_false_iff_ne]
  intro heq
  obtain rfl := heq
  exact hs hd

theorem ready_numeric {s rest : Bytes} {r : LookaheadReader}
    (hs : ∀ d ∈ s, isXMLNumeric d = true)
    (h : Ready (s ++ kcXMLTagO :: rest) r) :
    ∃ r', (Reads.code.get .numeric).Runs r (.ok (s.length, s)) r'
      ∧ Ready (kcXMLTagO :: rest) r' := by
  refine ready_chars rfl ?_ (by decide) h
  intro d hd
  rw [hs d hd]
  rfl

theorem runs_string {s rest : Bytes} {r : LookaheadReader}
    (hs : kcXMLTagO ∉ s) (h : Fresh (s ++ kcXMLTagO :: rest) r) :
    ∃ r', (Reads.code.get .string).Runs r (.ok (s.length, s)) r'
      ∧ Near (kcXMLTagO :: rest) r' := by
  obtain ⟨r', hruns, hready⟩ := ready_string hs h.ready
  exact ⟨r', hruns, hready.near⟩

theorem runs_numeric {s rest : Bytes} {r : LookaheadReader}
    (hs : ∀ d ∈ s, isXMLNumeric d = true)
    (h : Fresh (s ++ kcXMLTagO :: rest) r) :
    ∃ r', (Reads.code.get .numeric).Runs r (.ok (s.length, s)) r'
      ∧ Near (kcXMLTagO :: rest) r' := by
  obtain ⟨r', hruns, hready⟩ := ready_numeric hs h.ready
  exact ⟨r', hruns, hready.near⟩

/-- Two looks at the next two bytes. -/
theorem runs_peek2 {α : Type} {a b : UInt8} {rest : Bytes}
    {r : LookaheadReader} (h : Fresh (a :: b :: rest) r) :
    ∃ r', Near (a :: b :: rest) r' ∧ ∀ {g : UInt8 → UInt8 → Read α} {res r''},
      (do let ch ← peek2Char
          let ch1 ← peek2Char
          g ch ch1).Runs r res r'' ↔ (g a b).Runs r' res r'' := by
  have htrans := h.trans
  have hfirst := h.ready.first
  obtain ⟨hone, htwo⟩ := look_eq_nil.mp h.none
  obtain ⟨trans, hasData_, data_, has2Data_, data2_, firstRead_, ranOut⟩ := r
  subst htrans hone htwo hfirst
  refine ⟨⟨rest, false, data_, true, (a, b), false, ranOut⟩,
    ⟨rfl, Nat.le_refl 2, fun _ => rfl⟩, ?_⟩
  intro g res r''
  rw [runs_peek2Char, runs_peek2Char]
  rfl

end Sandesh.Xml
