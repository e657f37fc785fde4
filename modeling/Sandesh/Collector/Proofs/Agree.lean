/-
A written string, as pugixml hands it out and as the reader does.

pugixml leaves the spellings alone, turns `\r` into `\n` and drops a text
of blanks; the reader undoes the spellings and nothing else. The two agree
exactly on the strings that neither touches (`loadedString_eq_iff`).
-/
import Sandesh.Collector.Basic
import Sandesh.Header.Proofs.Offset

namespace Sandesh.Collector

open Lib Xml Header XmlNode

-- ============================================================ line ends

/-- Without a carriage return the line ends stay. -/
theorem eol_eq_self {s : Bytes} (h : 13 ∉ s) : eol s = s := by
  unfold eol
  induction s with
  | nil => rfl
  | cons c s ih =>
      rw [List.mem_cons, not_or] at h
      rw [eolFrom, if_neg (Ne.symm h.1), if_neg (by simp), ih h.2]

/-- Behind it there is no carriage return left. -/
theorem not_mem_eolFrom (cr : Bool) (s : Bytes) : 13 ∉ eolFrom cr s := by
  induction s generalizing cr with
  | nil => exact List.not_mem_nil
  | cons c s ih =>
      rw [eolFrom]
      by_cases hc : c = 13
      · rw [if_pos hc, List.mem_cons, not_or]
        exact ⟨by decide, ih true⟩
      · rw [if_neg hc]
        by_cases hlf : cr = true ∧ c = 10
        · rw [if_pos hlf]
          exact ih false
        · rw [if_neg hlf, List.mem_cons, not_or]
          exact ⟨Ne.symm hc, ih false⟩

-- ============================================================== strings

/-- A text as `child_value()` gives it. -/
def loadedText (t : Bytes) : Bytes := if t.all isBlank then [] else eol t

/-- The value of an element with one text. -/
theorem child_value_loaded (name : Bytes) (attributes : List (Bytes × Bytes))
    (t : Bytes) :
    (XmlNode.element name attributes (loadeds [.pcdata t])).child_value
      = loadedText t := by
  unfold loadedText
  simp only [loadeds, loaded]
  by_cases h : t.all isBlank = true
  · rw [if_pos h, if_pos h]
    rfl
  · rw [if_neg h, if_neg h]
    rfl

/-- A string of a header, from the document. -/
def loadedString (v : Bytes) : Bytes := loadedText (escapeXMLControlChars v)

/-- A string that neither parser changes. -/
def Clean (v : Bytes) : Prop :=
  (∀ c ∈ v, c ∉ lit "&'<>\r") ∧ (v = [] ∨ v.all isBlank = false)

instance (v : Bytes) : Decidable (Clean v) :=
  inferInstanceAs (Decidable (_ ∧ _))

/-- A character to escape is no blank, and neither is its spelling. -/
theorem not_blank_escape {v : Bytes} {c : UInt8} (hc : c ∈ v)
    (hmem : c ∈ lit "&'<>") :
    (escapeXMLControlCharsInternal v).all isBlank = false := by
  have hamp : chAmp ∈ escapeXMLControlCharsInternal v := by
    refine List.mem_flatMap.mpr ⟨c, hc, ?_⟩
    simp only [lit, String.reduceToList, List.map_cons, List.map_nil,
      List.mem_cons, List.not_mem_nil, or_false] at hmem
    rcases hmem with rfl | rfl | rfl | rfl
    all_goals decide
  rw [List.all_eq_false]
  exact ⟨chAmp, hamp, by decide⟩

/-- The reader keeps a carriage return, pugixml does not. -/
theorem loadedString_ne_of_cr {v : Bytes} (hnul : nul ∉ v) (h : 13 ∈ v) :
    loadedString v ≠ backString v := by
  have hescape : 13 ∈ escapeXMLControlCharsInternal v :=
    List.mem_flatMap.mpr ⟨13, h, by decide⟩
  have hback : 13 ∈ backString v := by
    rw [backString, escapeXMLControlChars_eq hnul]
    exact mem_unescape (by decide) hescape
  have hloaded : 13 ∉ loadedString v := by
    unfold loadedString loadedText
    split
    · exact List.not_mem_nil
    · exact not_mem_eolFrom false _
  intro heq
  rw [heq] at hloaded
  exact hloaded hback

/-- The two sides see one string exactly if it is clean. -/
theorem loadedString_eq_iff {v : Bytes} (hnul : nul ∉ v) :
    loadedString v = backString v ↔ Clean v := by
  have hsplit : (∀ c ∈ v, c ∉ lit "&'<>\r")
      ↔ (∀ c ∈ v, c ∉ lit "&'<>") ∧ 13 ∉ v := by
    have hlit : ∀ c, c ∈ lit "&'<>\r" ↔ c ∈ lit "&'<>" ∨ c = 13 := by
      intro c
      rw [show lit "&'<>\r" = lit "&'<>" ++ [13] from rfl, List.mem_append,
        List.mem_singleton]
    constructor
    · intro h
      refine ⟨fun c hc hmem => h c hc ((hlit c).mpr (.inl hmem)), ?_⟩
      exact fun hcr => h 13 hcr (by decide)
    · intro hex c hc hmem
      obtain ⟨h, hcr⟩ := hex
      rcases (hlit c).mp hmem with hmem | rfl
      · exact h c hc hmem
      · exact hcr hc
  unfold Clean
  rw [hsplit]
  by_cases hcr : 13 ∈ v
  · refine iff_of_false (loadedString_ne_of_cr hnul hcr) ?_
    exact fun h => h.1.2 hcr
  rw [and_iff_left hcr, loadedString, backString,
    escapeXMLControlChars_eq hnul]
  by_cases hplain : ∀ c ∈ v, c ∉ lit "&'<>"
  · rw [and_iff_right hplain, escapeInternal_plain hplain]
    have hamp : chAmp ∉ v := fun hmem => hplain _ hmem (by decide)
    have hself : unescapeXMLControlChars v = v := by
      have h := (unescape_escapeInternal_eq_iff v).mpr
        (not_hasEntity_of_amp hamp)
      rwa [escapeInternal_plain hplain] at h
    rw [hself]
    unfold loadedText
    by_cases hblank : v.all isBlank = true
    · rw [if_pos hblank, hblank]
      simp [eq_comm]
    · rw [if_neg hblank, eol_eq_self hcr]
      exact iff_of_true rfl (.inr (Bool.eq_false_iff.mpr hblank))
  · -- the reader's string is shorter
    refine iff_of_false (fun heq => ?_) (fun h => hplain h.1)
    have hlen : (unescapeXMLControlChars
        (escapeXMLControlCharsInternal v)).length
          ≠ (escapeXMLControlCharsInternal v).length := by
      rw [ne_eq, length_unescape_eq_iff, escapeInternal_spells_iff]
      exact hplain
    obtain ⟨c, hc, hmem⟩ : ∃ c ∈ v, c ∈ lit "&'<>" := by
      simpa using hplain
    have hcr' : 13 ∉ escapeXMLControlCharsInternal v := fun h =>
      hcr (mem_of_mem_escapeInternal (by decide) h)
    rw [loadedText, if_neg (by simp [not_blank_escape hc hmem]),
      eol_eq_self hcr'] at heq
    rw [← heq] at hlen
    exact hlen rfl

end Sandesh.Collector

/-
When the two parsers of the collector agree on a header.

A written message is a document of two elements (`message_text`). Loaded,
its header comes out of `ParseHeader` with every string as pugixml has it
(`create_eq`); `ExtractMsgHeader` returns every string as the reader has
it. Integers are the same on both ways, whatever their sign and size.
-/

namespace Sandesh.Collector

open Lib Prog Xml Header XmlNode

-- =========================================================== documents

section Document

variable (W : World)

/-- A field of a struct. -/
def fieldNode {S : Type} (value : S) (slot : Slot S) : Option XmlNode :=
  (slot.get value).map fun v => .element slot.name
    [(lit "type", TXMLWriter.fieldTypeName slot.kind.ttype),
      (lit "identifier", W.integerToString slot.id)]
    [.pcdata (slot.kind.text W v)]

/-- The header as a node of the tree. -/
def headerNode (h : SandeshHeader) : XmlNode :=
  .element (lit "SandeshHeader") [] (headerSlots.filterMap (fieldNode W h))

/-- The message as a node of the tree. -/
def sandeshNode (name : Bytes) (children : List XmlNode) : XmlNode :=
  .element name [(lit "type", lit "sandesh")] children

/-- A header, and a sandesh behind it. -/
def document (h : SandeshHeader) (name : Bytes) (children : List XmlNode) :
    List XmlNode :=
  [headerNode W h, sandeshNode name children]

/-- Everything behind the open tag of the sandesh. -/
def sandeshBody (name : Bytes) (children : List XmlNode) : Bytes :=
  texts children ++ closeTag name

/-- The text of the tree of the fields is what is written. -/
theorem texts_fields {S : Type} (value : S) (slots : List (Slot S)) :
    texts (slots.filterMap (fieldNode W value))
      = slots.flatMap (slotText W value) := by
  induction slots with
  | nil => rfl
  | cons slot slots ih =>
      rw [List.filterMap_cons, List.flatMap_cons, ← ih]
      unfold fieldNode slotText
      cases slot.get value with
      | none => rfl
      | some v =>
          simp [texts, text, entryText, openTag, closeTag,
            TXMLWriter.fieldTag, lit]

/-- What is written is the text of the document. -/
theorem message_text (h : SandeshHeader) (name : Bytes)
    (children : List XmlNode) :
    message W h name (sandeshBody name children)
      = texts (document W h name children) := by
  rw [message_eq]
  simp [document, headerNode, sandeshNode, texts, text, texts_fields,
    headerText, structText, sandeshBody, openTag, closeTag, lit,
    TXMLWriter.formXMLAttr]

end Document

-- ============================================================= headers

/-- A header with its strings changed. -/
def mapStrings (f : Bytes → Bytes) (h : SandeshHeader) : SandeshHeader :=
  { h with
    Namespace := f h.Namespace
    Module := f h.Module
    Source := f h.Source
    Context := f h.Context
    Category := f h.Category
    NodeType := f h.NodeType
    InstanceId := f h.InstanceId
    IPAddress := h.IPAddress.map f }

/-- Two functions of the strings agree on a header if they agree on its
strings. -/
theorem mapStrings_eq_iff (f g : Bytes → Bytes) (h : SandeshHeader) :
    mapStrings f h = mapStrings g h
      ↔ ∀ v ∈ h.strings, f v = g v := by
  obtain ⟨_, _, _, _, _, _, _, _, _, _, _, _, _, ip, _⟩ := h
  cases ip with
  | none =>
      simp [mapStrings, SandeshHeader.strings]
  | some ip =>
      simp [mapStrings, SandeshHeader.strings]

/-- A value of a field, with a string changed. -/
def mapVal (f : Bytes → Bytes) : (kind : Kind) → kind.Val → kind.Val
  | .string, v => f v
  | .i64, v => v
  | .i32, v => v

/-- The fields that are set, put one after the other. -/
def putSlot (f : Bytes → Bytes) (value s : SandeshHeader)
    (slot : Slot SandeshHeader) : SandeshHeader :=
  match slot.get value with
  | none => s
  | some v => slot.put (mapVal f slot.kind v) s

/-- All slots put into an empty header. -/
theorem putSlots_eq (f : Bytes → Bytes) (h : SandeshHeader) :
    headerSlots.foldl (putSlot f h) SandeshHeader.init = mapStrings f h := by
  obtain ⟨_, _, _, _, _, _, _, _, _, _, _, _, _, ip, pid⟩ := h
  cases ip <;> cases pid <;> rfl

-- ============================================================= parsing

section Parse

variable {P : Pugixml} {W : World} (hW : W.Decimal)

/-- A field as it is loaded. -/
def loadedNode (W : World) (slot : Slot SandeshHeader) (v : slot.kind.Val) :
    XmlNode :=
  .element slot.name
    [(lit "type", TXMLWriter.fieldTypeName slot.kind.ttype),
      (lit "identifier", W.integerToString slot.id)]
    (loadeds [.pcdata (slot.kind.text W v)])

/-- The value of a field's element. -/
theorem child_value_loadedNode (slot : Slot SandeshHeader)
    (v : slot.kind.Val) :
    (loadedNode W slot v).child_value = loadedText (slot.kind.text W v) :=
  child_value_loaded _ _ _

/-- The text of a number is neither blank nor has line ends. -/
theorem loadedText_decimalInt (i : Int) :
    loadedText (decimalInt i) = decimalInt i := by
  have hspace := isSpace_of_mem_decimalInt (i := i)
  have hne : decimalInt i ≠ [] := by
    unfold decimalInt
    split
    · exact List.cons_ne_nil _ _
    · exact decimal_ne_nil _
  obtain ⟨c, hc⟩ := List.exists_mem_of_ne_nil _ hne
  have hblank : isBlank c = false := by
    rw [Bool.eq_false_iff]
    intro hblank
    have hmem : c ∈ lit "\t\n\r " := List.contains_iff_mem.mp hblank
    have hno := hspace c hc
    simp only [lit, String.reduceToList, List.map_cons, List.map_nil,
      List.mem_cons, List.not_mem_nil, or_false] at hmem
    rcases hmem with rfl | rfl | rfl | rfl
    all_goals exact absurd hno (by decide)
  have hall : ¬ (decimalInt i).all isBlank = true := by
    intro hall
    have h := List.all_eq_true.mp hall c hc
    rw [hblank] at h
    cases h
  have hcr : 13 ∉ decimalInt i := by
    intro hmem
    exact absurd (hspace 13 hmem) (by decide)
  rw [loadedText, if_neg hall, eol_eq_self hcr]

/-- `ParseInteger` on a decimal text. -/
theorem parseInteger_eq {node : XmlNode} {v : BitVec 32}
    (h : node.child_value = decimalInt v.toInt) :
    ParseInteger node = some v := by
  unfold ParseInteger
  rw [h, strtoulEnd_decimalInt, List.headD_nil, if_pos rfl,
    strtoul_decimalInt v (by decide)]

/-- `ParseUnsignedLong` on a decimal text. -/
theorem parseUnsignedLong_eq {node : XmlNode} {v : BitVec 64}
    (h : node.child_value = decimalInt v.toInt) :
    ParseUnsignedLong node = some v := by
  unfold ParseUnsignedLong
  rw [h, strtoulEnd_decimalInt, List.headD_nil, if_pos rfl,
    strtoul_decimalInt v (by decide)]

/-- What the switch does with a value, by the type of its field. -/
def parseKind : (kind : Kind) → XmlNode → Option kind.Val
  | .string, node => some node.child_value
  | .i64, node => ParseUnsignedLong node
  | .i32, node => ParseInteger node

/-- The switch knows the fields of the header. -/
theorem parseIdentifier_eq {slot : Slot SandeshHeader}
    (hslot : slot ∈ headerSlots) (node : XmlNode) (header : SandeshHeader) :
    ParseIdentifier slot.id node header
      = (parseKind slot.kind node).map fun v => slot.put v header := by
  simp only [headerSlots, List.mem_cons, List.not_mem_nil, or_false] at hslot
  rcases hslot with rfl | rfl | rfl | rfl | rfl | rfl | rfl | rfl | rfl | rfl
    | rfl | rfl | rfl | rfl | rfl
  all_goals rfl

include hW

/-- The value of a field, whatever its kind. -/
theorem parseKind_eq (kind : Kind) (v : kind.Val) {node : XmlNode}
    (h : node.child_value = loadedText (kind.text W v)) :
    parseKind kind node = some (mapVal loadedString kind v) := by
  have hnumber : ∀ {w : Nat} {i : BitVec w},
      node.child_value = loadedText (W.integerToString i.toInt) →
        node.child_value = decimalInt i.toInt := by
    intro w i hi
    rw [hi, hW.text, loadedText_decimalInt]
  cases kind with
  | string =>
      rw [parseKind, h]
      rfl
  | i64 => exact parseUnsignedLong_eq (hnumber h)
  | i32 => exact parseInteger_eq (hnumber h)

/-- One turn of the loop. -/
theorem parseField_eq (hint : ∀ n < 2 ^ 31, P.as_int (decimal n) = n)
    {slot : Slot SandeshHeader} (hslot : slot ∈ headerSlots)
    (v : slot.kind.Val) (header : SandeshHeader) :
    ParseField P header (loadedNode W slot v)
      = .ok (some (slot.put (mapVal loadedString slot.kind v) header)) := by
  have hlast : (loadedNode W slot v).last_attribute
      = (lit "identifier", decimal slot.id) := by
    rw [← integerToString_nat hW]
    rfl
  have hid : ∀ slot ∈ headerSlots, slot.id < 2 ^ 31 := by decide
  unfold ParseField
  rw [hlast, if_neg (fun h => h rfl), hint _ (hid slot hslot),
    parseIdentifier_eq hslot,
    parseKind_eq hW slot.kind v (child_value_loadedNode slot v)]
  rfl

omit hW in
/-- The tree of the fields, loaded. -/
theorem loadeds_fields (value : SandeshHeader)
    (slots : List (Slot SandeshHeader)) :
    loadeds (slots.filterMap (fieldNode W value))
      = slots.filterMap fun slot =>
        (slot.get value).map (loadedNode W slot) := by
  induction slots with
  | nil => rfl
  | cons slot slots ih =>
      rw [List.filterMap_cons, List.filterMap_cons, ← ih]
      unfold fieldNode
      cases slot.get value with
      | none => rfl
      | some v => rfl

/-- `ParseHeader` on the fields of a header. -/
theorem parseHeader_eq (hint : ∀ n < 2 ^ 31, P.as_int (decimal n) = n)
    (value : SandeshHeader) {slots : List (Slot SandeshHeader)}
    (hslots : ∀ slot ∈ slots, slot ∈ headerSlots) (header : SandeshHeader) :
    ParseHeader P (loadeds (slots.filterMap (fieldNode W value))) header
      = .ok (some (slots.foldl (putSlot loadedString value) header)) := by
  rw [loadeds_fields]
  induction slots generalizing header with
  | nil => rfl
  | cons slot slots ih =>
      have hrest := ih fun x hx => hslots x (List.mem_cons_of_mem _ hx)
      rw [List.filterMap_cons, List.foldl_cons]
      unfold putSlot at hrest ⊢
      cases hget : slot.get value with
      | none => exact hrest header
      | some v =>
          have hfield := parseField_eq hW hint
            (hslots slot List.mem_cons_self) v header
          rw [Option.map_some]
          dsimp only
          rw [ParseHeader, hfield]
          exact hrest _

/-- The builder, on a written message. -/
theorem create_eq {h : SandeshHeader} {name : Bytes} (hname : IsName name)
    {children : List XmlNode} (hP : P.Documented (document W h name children)) :
    Create P (message W h name (sandeshBody name children))
      = .ok (some ⟨mapStrings loadedString h, name⟩) := by
  have hparse := parseHeader_eq hW hP.as_int h (fun _ hx => hx)
    SandeshHeader.init
  rw [putSlots_eq] at hparse
  have hdoc : loadeds (document W h name children)
      = [.element (lit "SandeshHeader") []
          (loadeds (headerSlots.filterMap (fieldNode W h))),
        .element name [(lit "type", lit "sandesh")] (loadeds children)] := by
    simp [document, headerNode, sandeshNode, loadeds, loaded]
  unfold Create
  rw [message_text, hP.load, hdoc]
  dsimp only [List.headD_cons, XmlNode.children]
  rw [hparse]
  exact if_neg hname.1

end Parse

-- =========================================================== agreement

/-- Both parsers return a header and a type, and they are the same. -/
def Agree (S : Setting) (msg : Bytes) : Prop :=
  ∃ xmessage m r', Create S.pugixml msg = .ok (some xmessage)
    ∧ (ExtractMsgHeader S.world Reads.code).Runs
        (LookaheadReader.new msg S.data_ S.data2_) (.ok m) r'
    ∧ xmessage.header_ = m.header ∧ xmessage.message_type_ = m.msg_type

/-- Strings without NUL are read unbroken. -/
theorem unbroken_of_nul {vs : List Bytes} (h : ∀ v ∈ vs, nul ∉ v) :
    Unbroken vs := by
  intro v hv
  rw [escapeXMLControlChars_eq (h v hv)]
  exact not_mem_escapeInternal v

/-- The two headers are equal exactly if all strings are clean. -/
theorem loaded_eq_back_iff {h : SandeshHeader}
    (hnul : ∀ v ∈ h.strings, nul ∉ v) :
    mapStrings loadedString h = h.back ↔ ∀ v ∈ h.strings, Clean v := by
  refine (mapStrings_eq_iff loadedString backString h).trans ?_
  exact forall₂_congr fun v hv => loadedString_eq_iff (hnul v hv)

/-- The last step of a control message that was read twice. -/
theorem onExtracted_mismatch_iff (xmessage : SandeshXMLMessage)
    (m : MsgHeader) :
    ∃ outcome, onExtracted xmessage (.ok m) = .ok outcome
      ∧ ((∃ t, outcome = .mismatch t) ↔ ¬ (xmessage.header_ = m.header
        ∧ xmessage.message_type_ = m.msg_type)) := by
  by_cases hne : xmessage.header_ ≠ m.header
      ∨ xmessage.message_type_ ≠ m.msg_type
  · refine ⟨.mismatch xmessage.message_type_, if_pos hne, ?_⟩
    exact iff_of_true ⟨_, rfl⟩ (not_and_or.mpr hne)
  · refine ⟨.ctrl m, if_neg hne, ?_⟩
    refine iff_of_false ?_ (fun h => hne (not_and_or.mp h))
    intro hex
    obtain ⟨t, ht⟩ := hex
    cases ht

section Written

variable {S : Setting} (hW : S.world.Decimal) {h : SandeshHeader}
  (hnul : ∀ v ∈ h.strings, nul ∉ v) {name : Bytes} (hname : IsName name)
  {children : List XmlNode}
  (hP : S.pugixml.Documented (document S.world h name children))

include hW hnul hname hP

theorem agree_iff :
    Agree S (message S.world h name (sandeshBody name children))
      ↔ ∀ v ∈ h.strings, Clean v := by
  have hcreate := create_eq hW hname hP
  obtain ⟨r', hextract⟩ := extract_runs hW (unbroken_of_nul hnul) hname
    (sandeshBody name children) S.data_ S.data2_
  rw [← loaded_eq_back_iff hnul]
  constructor
  · intro hex
    obtain ⟨xmessage, m, r'', hx, hm, hheader, -⟩ := hex
    rw [hcreate] at hx
    cases hx
    obtain ⟨heq, -⟩ := hextract.unique hm
    cases heq
    exact hheader
  · intro heq
    exact ⟨_, _, r', hcreate, hextract, heq, rfl⟩

/-- A control message is dropped, stopped or let through. -/
theorem onSandeshMessage_ends (hcontrol : h.control = true) :
    ∃ outcome, (OnSandeshMessage S
        (message S.world h name (sandeshBody name children))).Ends
          (.ok outcome)
      ∧ ((∃ t, outcome = .mismatch t) ↔
        DoDropSandeshMessage S.flowDisabled h S.message_drop_level_ = false
          ∧ ¬ ∀ v ∈ h.strings, Clean v) := by
  obtain ⟨r', hextract⟩ := extract_runs hW (unbroken_of_nul hnul) hname
    (sandeshBody name children) S.data_ S.data2_
  unfold OnSandeshMessage
  rw [create_eq hW hname hP]
  dsimp only
  cases hdrop : DoDropSandeshMessage S.flowDisabled h
      S.message_drop_level_ with
  | true =>
      refine ⟨.QueueLevel name, ?_, ?_⟩
      · rw [if_pos (by exact hdrop)]
        exact Comp.ends_pure.mpr rfl
      · refine iff_of_false ?_ (fun h => Bool.noConfusion h.1)
        intro hex
        obtain ⟨t, ht⟩ := hex
        cases ht
  | false =>
      obtain ⟨outcome, hout, hiff⟩ := onExtracted_mismatch_iff
        ⟨mapStrings loadedString h, name⟩ ⟨h.back, name, structCount S.world
          (lit "SandeshHeader") headerSlots h⟩
      refine ⟨outcome, ?_, ?_⟩
      · rw [if_neg (by exact Bool.eq_false_iff.mp hdrop),
          if_pos (by exact hcontrol)]
        refine Comp.ends_bind.mpr ⟨_, hextract, ?_⟩
        exact Comp.ends_pure.mpr hout.symm
      · rw [hiff, ← loaded_eq_back_iff hnul]
        simp

end Written

/-- The parsers agree exactly when no string of the header is changed by
either, and a control message that is not dropped is stopped exactly when
they do not. -/
theorem parsers_agree_iff (S : Setting) (hW : S.world.Decimal)
    {h : SandeshHeader} (hcontrol : h.control = true)
    (hnul : ∀ v ∈ h.strings, nul ∉ v) {name : Bytes} (hname : IsName name)
    {children : List XmlNode}
    (hP : S.pugixml.Documented (document S.world h name children)) :
    (Agree S (message S.world h name (sandeshBody name children))
        ↔ ∀ v ∈ h.strings, Clean v)
      ∧ ∃ outcome, (OnSandeshMessage S
            (message S.world h name (sandeshBody name children))).Ends
              (.ok outcome)
          ∧ ((∃ t, outcome = .mismatch t) ↔
            DoDropSandeshMessage S.flowDisabled h S.message_drop_level_
                = false
              ∧ ¬ ∀ v ∈ h.strings, Clean v) :=
  ⟨agree_iff hW hnul hname hP, onSandeshMessage_ends hW hnul hname hP hcontrol⟩

-- ============================================================ examples

/-- A library that can load one document. -/
def Pugixml.ofDocument (doc : List XmlNode) : Pugixml where
  load_buffer := fun b => if b = texts doc then some (loadeds doc) else none
  as_int := fun s => decVal s

/-- A loader that gives back one document. -/
theorem documented_ofDocument (doc : List XmlNode) :
    (Pugixml.ofDocument doc).Documented doc where
  load := if_pos rfl
  as_int := by
    intro n _
    exact congrArg Nat.cast (decVal_decimal n)

/-- A control message from a module. -/
def ctrlHeader (v : Bytes) : SandeshHeader :=
  { SandeshHeader.init with Module := v, Hints := SANDESH_CONTROL_HINT }

/-- A collector that drops nothing. -/
def settingOf (h : SandeshHeader) (name : Bytes) : Setting where
  pugixml := .ofDocument (document World.plain h name [])
  world := World.plain
  message_drop_level_ := 0x7fffffff
  flowDisabled := false
  data_ := 0
  data2_ := (0, 0)

theorem parsers_agree_agent :
    Agree (settingOf (ctrlHeader (lit "agent")) (lit "Hello"))
      (message World.plain (ctrlHeader (lit "agent")) (lit "Hello")
        (sandeshBody (lit "Hello") [])) := by
  have h := parsers_agree_iff
    (settingOf (ctrlHeader (lit "agent")) (lit "Hello")) posix_decimal
    (h := ctrlHeader (lit "agent")) (by decide) (by decide) (by decide)
    (documented_ofDocument _)
  exact h.1.mpr (by decide)

/-- A `<` in a string: the message is thrown away. -/
theorem parsers_disagree :
    (ctrlHeader (lit "<")).control = true
      ∧ ¬ Agree (settingOf (ctrlHeader (lit "<")) (lit "Hello"))
        (message World.plain (ctrlHeader (lit "<")) (lit "Hello")
          (sandeshBody (lit "Hello") []))
      ∧ ∃ t, (OnSandeshMessage
        (settingOf (ctrlHeader (lit "<")) (lit "Hello"))
        (message World.plain (ctrlHeader (lit "<")) (lit "Hello")
          (sandeshBody (lit "Hello") []))).Ends (.ok (.mismatch t)) := by
  have hnul : ∀ v ∈ (ctrlHeader (lit "<")).strings, nul ∉ v := by decide
  have hP := documented_ofDocument
    (document World.plain (ctrlHeader (lit "<")) (lit "Hello") [])
  have hname : IsName (lit "Hello") := by decide
  refine ⟨by decide, ?_, ?_⟩
  · intro hagree
    have hclean := (agree_iff
      (S := settingOf (ctrlHeader (lit "<")) (lit "Hello")) posix_decimal
      hnul hname hP).mp hagree
    revert hclean
    decide
  · obtain ⟨outcome, hends, hiff⟩ := onSandeshMessage_ends
      (S := settingOf (ctrlHeader (lit "<")) (lit "Hello")) posix_decimal
      hnul hname hP (by decide)
    obtain ⟨t, rfl⟩ := hiff.mpr (by decide)
    exact ⟨t, hends⟩

end Sandesh.Collector
