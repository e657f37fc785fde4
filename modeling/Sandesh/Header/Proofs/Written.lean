/-
What `write` leaves in the transport, and what `read` makes of it.

`writeStruct_eq` is the text of a struct. Reading it back goes field by
field (`readFields_runs`): every count is the length of the text it stands
for, except that of a string, which is counted after unescaping. The
string must not break off at a `<` of its own, which only a string with a
nul in it can have.
-/
import Mathlib.Tactic.IntervalCases
import Sandesh.Header.Basic
import Sandesh.Xml.Proofs.Runs

namespace Sandesh.Header

open Lib Prog Xml TXMLWriter

variable {S : Type} (W : World)

-- ================================================================ text

/-- An open tag. -/
def openTag (name attrs : Bytes) : Bytes :=
  lit "<" ++ name ++ attrs ++ lit ">"

/-- A closing tag. -/
def closeTag (name : Bytes) : Bytes := lit "</" ++ name ++ lit ">"

/-- The text of a field. -/
def entryText (slot : Slot S) (v : slot.kind.Val) : Bytes :=
  openTag slot.name (fieldTag W slot.kind.ttype slot.id)
    ++ slot.kind.text W v ++ closeTag slot.name

/-- The same, or nothing for a field that is not set. -/
def slotText (value : S) (slot : Slot S) : Bytes :=
  match slot.get value with
  | none => []
  | some v => entryText W slot v

/-- A structure as text. -/
def structText (name : Bytes) (slots : List (Slot S)) (value : S) : Bytes :=
  openTag name [] ++ slots.flatMap (slotText W value) ++ closeTag name

/-- A field appends its text. -/
theorem writeField_eq (value : S) (w : TXMLWriter) (slot : Slot S) :
    writeField W value w slot
      = ⟨w.out ++ slotText W value slot, w.xml_state_⟩ := by
  unfold writeField slotText
  cases slot.get value with
  | none => simp
  | some v =>
      simp [writeFieldEnd, writeFieldBegin, writePlain, writeBegin, writeEnd,
        entryText, openTag, closeTag]

/-- So do all of them, in order. -/
theorem writeFields_eq (value : S) (slots : List (Slot S)) :
    ∀ w, slots.foldl (writeField W value) w
      = ⟨w.out ++ slots.flatMap (slotText W value), w.xml_state_⟩ := by
  induction slots with
  | nil =>
      intro w
      simp
  | cons slot slots ih =>
      intro w
      rw [List.foldl_cons, writeField_eq, ih, List.flatMap_cons,
        List.append_assoc]

/-- `write` appends the text of the struct. -/
theorem writeStruct_eq (name : Bytes) (slots : List (Slot S)) (value : S)
    (w : TXMLWriter) :
    writeStruct W name slots value w
      = ⟨w.out ++ structText W name slots value, w.xml_state_⟩ := by
  unfold writeStruct
  rw [writeFields_eq]
  simp [writeStructEnd, writeStructBegin, writeBegin, writeEnd, structText,
    openTag, closeTag]

/-- A header as text. -/
def headerText (h : SandeshHeader) : Bytes :=
  structText W (lit "SandeshHeader") headerSlots h

/-- A message: its header, its opening tag and its body. -/
theorem message_eq (h : SandeshHeader) (name body : Bytes) :
    message W h name body
      = headerText W h ++ openTag name (lit " type=\"sandesh\"") ++ body := by
  unfold message SandeshHeader.write
  rw [writeStruct_eq]
  simp [writeSandeshBegin, writePlain, writeBegin, headerText, openTag,
    TXMLWriter.init]

-- ============================================================== tokens

/-- A separator in front makes no token. -/
theorem tokens_sep {c : UInt8} (hc : isSeparator c = true) (s : Bytes) :
    tokens (c :: s) = tokens s := by
  simp [tokens, tokensFrom, hc]

/-- Bytes that are no separators go into the current token. -/
theorem tokensFrom_word (word : Bytes)
    (hword : ∀ c ∈ word, isSeparator c = false) :
    ∀ cur s, tokensFrom cur (word ++ s) = tokensFrom (cur ++ word) s := by
  induction word with
  | nil =>
      intro cur s
      simp
  | cons c word ih =>
      intro cur s
      have hc := hword c List.mem_cons_self
      rw [List.cons_append, tokensFrom, hc, if_neg Bool.false_ne_true,
        ih (fun d hd => hword d (List.mem_cons_of_mem _ hd))]
      simp

/-- A word, and a separator behind it. -/
theorem tokens_word {word : Bytes} (hne : word ≠ [])
    (hword : ∀ c ∈ word, isSeparator c = false) {c : UInt8}
    (hc : isSeparator c = true) (s : Bytes) :
    tokens (word ++ c :: s) = word :: tokens s := by
  unfold tokens
  rw [tokensFrom_word word hword, List.nil_append, tokensFrom, if_pos hc,
    if_neg hne]

/-- The characters of a name in the IDL. -/
def isNameChar (c : UInt8) : Bool :=
  decide (97 ≤ c.toNat ∧ c.toNat ≤ 122) || decide (65 ≤ c.toNat ∧ c.toNat ≤ 90)
    || isDigit c || c == 95 || c == 46

/-- A name in the IDL. -/
def IsName (name : Bytes) : Prop :=
  name ≠ [] ∧ ∀ c ∈ name, isNameChar c = true

instance (name : Bytes) : Decidable (IsName name) :=
  inferInstanceAs (Decidable (_ ∧ _))

/-- No byte of a name separates. -/
theorem isNameChar_separator {c : UInt8} (h : isNameChar c = true) :
    isSeparator c = false := by
  rw [Bool.eq_false_iff]
  intro hsep
  have hmem : c ∈ lit "=\" " := List.contains_iff_mem.mp hsep
  simp only [lit, String.reduceToList, List.map_cons, List.map_nil,
    List.mem_cons, List.not_mem_nil, or_false] at hmem
  rcases hmem with rfl | rfl | rfl
  · revert h; decide
  · revert h; decide
  · revert h; decide

/-- A byte of a name differs from one that cannot be in a name. -/
theorem isNameChar_ne {c d : UInt8} (h : isNameChar c = true)
    (hd : isNameChar d = false) : c ≠ d := by
  intro heq
  obtain rfl := heq
  rw [h] at hd
  cases hd

/-- Digits may stand in names. -/
theorem isNameChar_of_isDigit {c : UInt8} (h : isDigit c = true) :
    isNameChar c = true := by
  simp [isNameChar, h]

/-- The decimal text of an id. -/
theorem isName_decimal (n : Nat) : IsName (decimal n) :=
  ⟨decimal_ne_nil n, fun _ hc =>
    isNameChar_of_isDigit (isDigit_of_mem_decimal hc)⟩

/-- The names of the types are names. -/
theorem isName_fieldTypeName (kind : Kind) :
    IsName (fieldTypeName kind.ttype) := by
  cases kind <;> decide

/-- The word in front, when it is a name. -/
theorem tokens_name {name : Bytes} (hname : IsName name) {c : UInt8}
    (hc : isSeparator c = true) (s : Bytes) :
    tokens (name ++ c :: s) = name :: tokens s :=
  tokens_word hname.1 (fun d hd => isNameChar_separator (hname.2 d hd)) hc s

variable {W} in
/-- The decimal text of a natural number. -/
theorem integerToString_nat (hW : W.Decimal) (n : Nat) :
    W.integerToString n = decimal n := by
  rw [hW.text, decimalInt, if_neg (by omega)]
  rfl

variable {W} in
/-- The open tag of a field, token by token. -/
theorem tokens_field (hW : W.Decimal) {name : Bytes} (hname : IsName name)
    (kind : Kind) (id : Nat) :
    tokens (name ++ fieldTag W kind.ttype id)
      = [name, lit "type", fieldTypeName kind.ttype, lit "identifier",
        decimal id] := by
  have htag : name ++ fieldTag W kind.ttype id = name ++ 32 :: (lit "type"
      ++ 61 :: 34 :: (fieldTypeName kind.ttype ++ 34 :: 32 ::
        (lit "identifier" ++ 61 :: 34 :: (decimal id ++ 34 :: [])))) := by
    simp [fieldTag, formXMLAttr, integerToString_nat hW, lit]
    decide
  rw [htag, tokens_name hname (by decide),
    tokens_name (by decide) (by decide), tokens_sep (by decide),
    tokens_name (isName_fieldTypeName kind) (by decide),
    tokens_sep (by decide), tokens_name (by decide) (by decide),
    tokens_sep (by decide), tokens_name (isName_decimal id) (by decide)]
  rfl

/-- The tokens of the opening tag of a message. -/
theorem tokens_sandesh {name : Bytes} (hname : IsName name) :
    tokens (name ++ lit " type=\"sandesh\"")
      = [name, lit "type", lit "sandesh"] := by
  have htag : name ++ lit " type=\"sandesh\"" = name ++ 32 :: (lit "type"
      ++ 61 :: 34 :: (lit "sandesh" ++ 34 :: [])) := rfl
  rw [htag, tokens_name hname (by decide),
    tokens_name (by decide) (by decide), tokens_sep (by decide),
    tokens_name (by decide) (by decide)]
  rfl

/-- No name contains `>`. -/
theorem not_mem_name {name : Bytes} (hname : IsName name) :
    kcXMLTagC ∉ name := by
  intro hmem
  exact isNameChar_ne (hname.2 _ hmem) (by decide) rfl

variable {W} in
/-- There is no `>` inside the tag of a field. -/
theorem not_mem_fieldTag (hW : W.Decimal) {name : Bytes}
    (hname : IsName name) (kind : Kind) (id : Nat) :
    kcXMLTagC ∉ name ++ fieldTag W kind.ttype id := by
  have hlit : kcXMLTagC ∉ lit " type=\"" ∧ kcXMLTagC ∉ lit "\" identifier=\""
      ∧ kcXMLTagC ∉ lit "\"" := by decide
  have htag : name ++ fieldTag W kind.ttype id = name ++ (lit " type=\""
      ++ (fieldTypeName kind.ttype ++ (lit "\" identifier=\"" ++ (decimal id
        ++ lit "\"")))) := by
    simp [fieldTag, formXMLAttr, integerToString_nat hW, lit]
  rw [htag]
  simp only [List.mem_append, not_or]
  exact ⟨not_mem_name hname, hlit.1, not_mem_name (isName_fieldTypeName kind),
    hlit.2.1, not_mem_name (isName_decimal id), hlit.2.2⟩

-- ============================================================== fields

/-- A value as it is read back. -/
def Kind.back : (kind : Kind) → kind.Val → kind.Val
  | .string, v => unescapeXMLControlChars (escapeXMLControlChars v)
  | .i64, v => v
  | .i32, v => v

/-- What reading a value counts. -/
def Kind.count : (kind : Kind) → kind.Val → Nat
  | .string, v => (unescapeXMLControlChars (escapeXMLControlChars v)).length
  | .i64, v => (Kind.text W .i64 v).length
  | .i32, v => (Kind.text W .i32 v).length

/-- What reading a field counts. -/
def entryCount (slot : Slot S) (v : slot.kind.Val) : Nat :=
  (openTag slot.name (fieldTag W slot.kind.ttype slot.id)).length
    + slot.kind.count W v + (closeTag slot.name).length

/-- What the reads of a field return in all. -/
def slotCount (value : S) (slot : Slot S) : Nat :=
  match slot.get value with
  | none => 0
  | some v => entryCount W slot v

/-- A field read back, if it was written. -/
def slotBack (value : S) (s : S) (slot : Slot S) : S :=
  match slot.get value with
  | none => s
  | some v => slot.put (slot.kind.back v) s

/-- The strings among the values of a struct. -/
def Kind.strings : (kind : Kind) → Option kind.Val → List Bytes
  | .string, v => v.toList
  | .i64, _ => []
  | .i32, _ => []

/-- The strings of a field. -/
def Slot.strings (value : S) (slot : Slot S) : List Bytes :=
  slot.kind.strings (slot.get value)

/-- No `<` is written for any of the strings. -/
def Unbroken (vs : List Bytes) : Prop :=
  ∀ v ∈ vs, kcXMLTagO ∉ escapeXMLControlChars v

instance (vs : List Bytes) : Decidable (Unbroken vs) :=
  inferInstanceAs (Decidable (∀ v ∈ vs, _))

/-- Digits are numeric. -/
theorem isXMLNumeric_of_isDigit {c : UInt8} (h : isDigit c = true) :
    isXMLNumeric c = true := by
  simp only [isDigit, decide_eq_true_eq] at h
  have hc : c = UInt8.ofNat c.toNat := UInt8.ofNat_toNat.symm
  obtain ⟨hlo, hhi⟩ := h
  generalize c.toNat = n at hc hlo hhi
  subst hc
  interval_cases n <;> decide

variable {W} in
/-- So is the text of every integer. -/
theorem isXMLNumeric_text (hW : W.Decimal) (i : Int) :
    ∀ c ∈ W.integerToString i, isXMLNumeric c = true := by
  rw [hW.text, decimalInt]
  intro c hc
  by_cases hi : i < 0
  · rw [if_pos hi] at hc
    rcases List.mem_cons.mp hc with rfl | hc
    · decide
    · exact isXMLNumeric_of_isDigit (isDigit_of_mem_decimal hc)
  · rw [if_neg hi] at hc
    exact isXMLNumeric_of_isDigit (isDigit_of_mem_decimal hc)

variable {W} in
/-- A number of any width. -/
theorem readXMLInteger_runs (hW : W.Decimal) {w : Nat} (v : BitVec w)
    (hw : w ≤ 64) {rest : Bytes} {r : LookaheadReader}
    (hr : Fresh (W.integerToString v.toInt ++ kcXMLTagO :: rest) r) :
    ∃ r', (readXMLInteger W Reads.code w).Runs r
        (.ok ((W.integerToString v.toInt).length, v)) r'
      ∧ Near (kcXMLTagO :: rest) r' := by
  obtain ⟨r', hruns, hnear⟩ := runs_numeric (isXMLNumeric_text hW _) hr
  refine ⟨r', hruns.bind_ok (runs_pure.mpr ⟨?_, rfl⟩), hnear⟩
  rw [hW.text, hW.parse w v hw]

variable {W} in
/-- A value is read back from its text, up to the tag behind it. -/
theorem readKind_runs (hW : W.Decimal) (kind : Kind) (v : kind.Val)
    (hv : Unbroken (kind.strings (some v))) {rest : Bytes}
    {r : LookaheadReader} (hr : Fresh (kind.text W v ++ kcXMLTagO :: rest) r) :
    ∃ r', (readKind W Reads.code kind).Runs r
        (.ok ((kind.count W v : Nat), kind.back v)) r'
      ∧ Near (kcXMLTagO :: rest) r' := by
  cases kind with
  | string =>
      obtain ⟨r', hruns, hnear⟩ := runs_string (hv v List.mem_cons_self) hr
      exact ⟨r', hruns.bind_ok (runs_pure.mpr ⟨rfl, rfl⟩), hnear⟩
  | i64 => exact readXMLInteger_runs hW v (by decide) hr
  | i32 => exact readXMLInteger_runs hW v (by decide) hr

-- ================================================================ tags

/-- An opening tag is read whole. -/
theorem runs_openTag {name attrs rest : Bytes} {r : LookaheadReader}
    (hno : kcXMLTagC ∉ name ++ attrs)
    (hr : Near (openTag name attrs ++ rest) r) :
    ∃ r', (Reads.code.get (.tag false)).Runs r
        (.ok ((openTag name attrs).length, name ++ attrs)) r'
      ∧ Fresh rest r' := by
  have htext : openTag name attrs ++ rest
      = tagOpen false ++ (name ++ attrs) ++ kcXMLTagC :: rest := by
    simp [openTag, tagOpen, lit]
    decide
  have hlen : ((openTag name attrs).length : Int)
      = (tagOpen false).length + (name ++ attrs).length + 1 := by
    simp [openTag, tagOpen, lit]
    omega
  rw [htext] at hr
  rw [hlen]
  exact runs_tag hno hr

/-- A closing tag too. -/
theorem runs_closeTag {name rest : Bytes} {r : LookaheadReader}
    (hname : IsName name) (hr : Near (closeTag name ++ rest) r) :
    ∃ r', (Reads.code.get (.tag true)).Runs r
        (.ok ((closeTag name).length, name)) r' ∧ Fresh rest r' := by
  have htext : closeTag name ++ rest
      = tagOpen true ++ name ++ kcXMLTagC :: rest := by
    simp [closeTag, tagOpen, lit]
    decide
  have hlen : ((closeTag name).length : Int)
      = (tagOpen true).length + name.length + 1 := by
    simp [closeTag, tagOpen, lit]
    omega
  rw [htext] at hr
  rw [hlen]
  exact runs_tag (not_mem_name hname) hr

/-- An open tag and its tokens. -/
theorem readTagTokens_runs {name attrs rest first : Bytes}
    {toks : List Bytes} {r : LookaheadReader}
    (hno : kcXMLTagC ∉ name ++ attrs)
    (htokens : tokens (name ++ attrs) = first :: toks)
    (hr : Near (openTag name attrs ++ rest) r) :
    ∃ r', (readTagTokens Reads.code).Runs r
        (.ok ((openTag name attrs).length, first, toks)) r'
      ∧ Fresh rest r' := by
  obtain ⟨r', hruns, hfresh⟩ := runs_openTag hno hr
  refine ⟨r', hruns.bind_ok ?_, hfresh⟩
  simp only [htokens]
  exact runs_pure.mpr ⟨rfl, rfl⟩

section Fields

variable {W}
variable (hW : W.Decimal) {slots : List (Slot S)}

/-- A slot that is found by its id, and has a name. -/
structure Slot.Keyed (slots : List (Slot S)) (slot : Slot S) : Prop where
  found : slots.find? (fun s => BitVec.ofNat 16 s.id == BitVec.ofNat 16 slot.id)
    = some slot
  id : slot.id < 2 ^ 15
  name : IsName slot.name

include hW

/-- The id in a tag, read back. -/
theorem stringToInteger_id {id : Nat} (hid : id < 2 ^ 15) :
    W.stringToInteger 16 (decimal id) = BitVec.ofNat 16 id := by
  have hint : (BitVec.ofNat 16 id).toInt = id := by
    rw [BitVec.toInt_ofNat', Int.bmod_eq_of_le (by omega) (by omega)]
  have htext : decimal id = decimalInt (BitVec.ofNat 16 id).toInt := by
    rw [hint, decimalInt, if_neg (by omega)]
    rfl
  rw [htext, hW.parse 16 _ (by decide)]

/-- The tag of a field gives its type and its id. -/
theorem readFieldBegin_runs {slot : Slot S} (hslot : slot.Keyed slots)
    (ftype : TType) (fid : BitVec 16) {rest : Bytes} {r : LookaheadReader}
    (hr : Fresh (openTag slot.name (fieldTag W slot.kind.ttype slot.id)
      ++ rest) r) :
    ∃ r', (readFieldBegin W Reads.code ftype fid).Runs r
        (.ok ((openTag slot.name
            (fieldTag W slot.kind.ttype slot.id)).length,
          slot.kind.ttype, BitVec.ofNat 16 slot.id)) r'
      ∧ Fresh rest r' := by
  obtain ⟨c, name, hname⟩ := List.exists_cons_of_ne_nil hslot.name.1
  have hc : c ≠ kcXMLSlash := by
    refine isNameChar_ne (hslot.name.2 c ?_) (by decide)
    rw [hname]
    exact List.mem_cons_self
  have htext : openTag slot.name (fieldTag W slot.kind.ttype slot.id) ++ rest
      = kcXMLTagO :: c :: (name ++ fieldTag W slot.kind.ttype slot.id
        ++ lit ">" ++ rest) := by
    rw [hname]
    simp only [openTag, List.append_assoc]
    rfl
  rw [htext] at hr
  obtain ⟨r₁, hnear, hpeek⟩ := runs_peek2 hr
  rw [← htext] at hnear
  obtain ⟨r', hruns, hfresh⟩ := readTagTokens_runs
    (not_mem_fieldTag hW hslot.name slot.kind slot.id)
    (tokens_field hW hslot.name slot.kind slot.id) hnear
  refine ⟨r', hpeek.mpr ?_, hfresh⟩
  rw [if_neg (fun h => hc h.2)]
  refine hruns.bind_ok ?_
  have hattrs : readAttrs (fieldAttrs W) [lit "type",
      fieldTypeName slot.kind.ttype, lit "identifier", decimal slot.id] none
        (ftype, fid) = .ok (slot.kind.ttype, BitVec.ofNat 16 slot.id) := by
    rw [← stringToInteger_id hW hslot.id]
    cases slot.kind <;> rfl
  simp only [hattrs, lift]
  exact (runs_pure.mpr ⟨rfl, rfl⟩ : Runs _ _ _ _).bind_ok
    (runs_pure.mpr ⟨rfl, rfl⟩)

/-- The value of a field goes into its slot. -/
theorem readField_runs {slot : Slot S} (hslot : slot.Keyed slots)
    (v : slot.kind.Val) (hv : Unbroken (slot.kind.strings (some v))) (s : S)
    {rest : Bytes} {r : LookaheadReader}
    (hr : Fresh (slot.kind.text W v ++ kcXMLTagO :: rest) r) :
    ∃ r', (readField W Reads.code slots slot.kind.ttype
        (BitVec.ofNat 16 slot.id) s).Runs r
        (.ok ((slot.kind.count W v : Nat), slot.put (slot.kind.back v) s)) r'
      ∧ Near (kcXMLTagO :: rest) r' := by
  obtain ⟨r', hvalue, hnear⟩ := readKind_runs hW slot.kind v hv hr
  refine ⟨r', ?_, hnear⟩
  unfold readField
  rw [hslot.found]
  simp only [if_pos]
  exact hvalue.bind_ok (runs_pure.mpr ⟨rfl, rfl⟩)

/-- A field in front is read into its slot. -/
theorem readFields_cons {slot : Slot S} (hslot : slot.Keyed slots)
    (v : slot.kind.Val) (hv : Unbroken (slot.kind.strings (some v)))
    (t : Fields S) {rest : Bytes} {r : LookaheadReader}
    (hr : Fresh (entryText W slot v ++ rest) r) :
    ∃ t₁ : Fields S, ∃ r₁, Fresh rest r₁
      ∧ t₁.xfer = t.xfer + (entryCount W slot v : Nat)
      ∧ t₁.value = slot.put (slot.kind.back v) t.value
      ∧ ∀ {res r'}, (readFields W Reads.code slots t₁).Runs r₁ res r' →
        (readFields W Reads.code slots t).Runs r res r' := by
  rw [entryText, List.append_assoc, List.append_assoc] at hr
  obtain ⟨ra, hbegin, hfresh⟩ := readFieldBegin_runs hW hslot t.ftype t.fid hr
  have hclose : closeTag slot.name ++ rest
      = kcXMLTagO :: (kcXMLSlash :: (slot.name ++ lit ">" ++ rest)) := by
    simp only [closeTag, List.append_assoc]
    rfl
  rw [hclose] at hfresh
  obtain ⟨rb, hvalue, hnear⟩ := readField_runs hW hslot v hv t.value hfresh
  rw [← hclose] at hnear
  obtain ⟨rc, hend, hfresh'⟩ := runs_closeTag hslot.name hnear
  have hfieldEnd : (readFieldEnd Reads.code).Runs rb
      (.ok ((closeTag slot.name).length : Int)) rc :=
    hend.bind_ok (runs_pure.mpr ⟨rfl, rfl⟩)
  have hkind : slot.kind.ttype ≠ .T_STOP := by
    cases slot.kind <;> decide
  refine ⟨⟨t.xfer + (openTag slot.name
      (fieldTag W slot.kind.ttype slot.id)).length + slot.kind.count W v
      + (closeTag slot.name).length, slot.kind.ttype,
    BitVec.ofNat 16 slot.id, slot.put (slot.kind.back v) t.value⟩, rc,
    hfresh', ?_, rfl, ?_⟩
  · simp only [entryCount]
    omega
  · intro res r' hnext
    refine Runs.again (hbegin.bind_ok ?_) hnext
    simp only [if_neg hkind]
    exact hvalue.bind_ok (hfieldEnd.bind_ok (runs_pure.mpr ⟨rfl, rfl⟩))

omit hW in
/-- The end tag of the struct ends the loop. -/
theorem readFields_nil (t : Fields S) {rest : Bytes} {r : LookaheadReader}
    (hr : Fresh (kcXMLTagO :: kcXMLSlash :: rest) r) :
    ∃ r', (readFields W Reads.code slots t).Runs r (.ok (t.xfer, t.value)) r'
      ∧ Near (kcXMLTagO :: kcXMLSlash :: rest) r' := by
  obtain ⟨r', hnear, hpeek⟩ := runs_peek2 hr
  have hbegin : (readFieldBegin W Reads.code t.ftype t.fid).Runs r
      (.ok (0, .T_STOP, t.fid)) r' := by
    refine hpeek.mpr ?_
    rw [if_pos ⟨rfl, rfl⟩]
    exact runs_pure.mpr ⟨rfl, rfl⟩
  refine ⟨r', Runs.leave (hbegin.bind_ok ?_), hnear⟩
  simp only [if_pos, Int.add_zero]
  exact runs_pure.mpr ⟨rfl, rfl⟩

/-- All the fields of a struct. -/
theorem readFields_runs (value : S) (todo : List (Slot S))
    (htodo : ∀ slot ∈ todo, slot.Keyed slots)
    (hv : Unbroken (todo.flatMap (Slot.strings value))) :
    ∀ (t : Fields S) {rest : Bytes} {r : LookaheadReader},
      Fresh (todo.flatMap (slotText W value) ++ kcXMLTagO :: kcXMLSlash
        :: rest) r →
      ∃ r', (readFields W Reads.code slots t).Runs r
          (.ok (t.xfer + ((todo.map (slotCount W value)).sum : Nat),
            todo.foldl (slotBack value) t.value)) r'
        ∧ Near (kcXMLTagO :: kcXMLSlash :: rest) r' := by
  induction todo with
  | nil =>
      intro t rest r hr
      obtain ⟨r', hruns, hnear⟩ := readFields_nil t hr
      refine ⟨r', ?_, hnear⟩
      simpa using hruns
  | cons slot todo ih =>
      intro t rest r hr
      have htodo' : ∀ s ∈ todo, s.Keyed slots := fun s hs =>
        htodo s (List.mem_cons_of_mem _ hs)
      rw [List.flatMap_cons] at hv hr
      have hv' : Unbroken (todo.flatMap (Slot.strings value)) := fun v hmem =>
        hv v (List.mem_append_right _ hmem)
      cases hget : slot.get value with
      | none =>
          have hr' : slotText W value slot = [] := by
            rw [slotText, hget]
          rw [hr', List.nil_append] at hr
          obtain ⟨r', hruns, hnear⟩ := ih htodo' hv' t hr
          refine ⟨r', ?_, hnear⟩
          simpa [slotCount, slotBack, hget] using hruns
      | some v =>
          have htext : slotText W value slot = entryText W slot v := by
            rw [slotText, hget]
          have hstrings : Unbroken (slot.kind.strings (some v)) := by
            intro w hw
            refine hv w (List.mem_append_left _ ?_)
            rwa [Slot.strings, hget]
          rw [htext, List.append_assoc] at hr
          obtain ⟨t₁, r₁, hfresh, hxfer, hvalue, hnext⟩ := readFields_cons hW
            (htodo slot List.mem_cons_self) v hstrings t hr
          obtain ⟨r', hruns, hnear⟩ := ih htodo' hv' t₁ hfresh
          refine ⟨r', hnext ?_, hnear⟩
          rw [hxfer, hvalue] at hruns
          simpa [slotCount, slotBack, hget, Int.add_assoc] using hruns

/-- What reading a struct counts. -/
def structCount (W : World) (name : Bytes) (slots : List (Slot S))
    (value : S) : Nat :=
  (openTag name []).length + (slots.map (slotCount W value)).sum
    + (closeTag name).length

/-- A whole struct. -/
theorem readStruct_runs {name : Bytes} (hname : IsName name)
    (hslots : ∀ slot ∈ slots, slot.Keyed slots) (value init : S)
    (hv : Unbroken (slots.flatMap (Slot.strings value))) {rest : Bytes}
    {r : LookaheadReader}
    (hr : Fresh (structText W name slots value ++ rest) r) :
    ∃ r', (readStruct W Reads.code slots init).Runs r
        (.ok ((structCount W name slots value : Nat),
          slots.foldl (slotBack value) init)) r'
      ∧ Fresh rest r' := by
  rw [structText, List.append_assoc, List.append_assoc] at hr
  have hno : kcXMLTagC ∉ name ++ [] := by
    rw [List.append_nil]
    exact not_mem_name hname
  obtain ⟨ra, hbegin, hfresh⟩ := runs_openTag hno hr.toNear
  have hclose : closeTag name ++ rest
      = kcXMLTagO :: kcXMLSlash :: (name ++ lit ">" ++ rest) := by
    simp only [closeTag, List.append_assoc]
    rfl
  rw [hclose] at hfresh
  obtain ⟨rb, hfields, hnear⟩ := readFields_runs hW value slots hslots hv
    ⟨(openTag name []).length, W.junk.ftype, W.junk.fid, init⟩ hfresh
  rw [← hclose] at hnear
  obtain ⟨rc, hend, hfresh'⟩ := runs_closeTag hname hnear
  have hstructEnd : (readStructEnd Reads.code).Runs rb
      (.ok ((closeTag name).length : Int)) rc :=
    hend.bind_ok (runs_pure.mpr ⟨rfl, rfl⟩)
  refine ⟨rc, hbegin.bind_ok (hfields.bind_ok (hstructEnd.bind_ok ?_)),
    hfresh'⟩
  refine runs_pure.mpr ⟨?_, rfl⟩
  simp [structCount]

end Fields

end Sandesh.Header
