/-
Reading a header from the wire, in Python.

A field on the wire is an `Entry`: its slot, the text between its tags, and
what reading that text gives. The reader takes a header entry by entry
(`fields_run`), whichever side wrote it, and returns the sum of what the
single reads returned (`extract_run`).
-/
import Sandesh.Header.Proofs.Offset
import Sandesh.Py.Proofs.RoundTrip

namespace Sandesh.Py

open Lib Prog
open Xml (TType chAmp chLt chGt escapeXMLControlChars)
open Header (Kind IsName openTag closeTag isNameChar_ne not_mem_name
  isName_decimal)

variable {s : TXMLProtocol}

-- ================================================================= tags

/-- The state with something else to read. -/
def TXMLProtocol.at (s : TXMLProtocol) (buf : Bytes) : TXMLProtocol :=
  { s with read_buf := some buf }

/-- The state inside a tag. -/
def TXMLProtocol.within (s : TXMLProtocol) (tag : Bytes) : TXMLProtocol :=
  { s with xml_tag := some tag :: s.xml_tag }

/-- The text of an opening tag. -/
theorem tagText_open {name attrs : Bytes} (h : chGt ∉ name ++ attrs)
    (rest : Bytes) :
    tagText false (openTag name attrs ++ rest)
      = some (name ++ attrs, (openTag name attrs).length) := by
  have htext : openTag name attrs ++ rest
      = (chLt :: (name ++ attrs)) ++ chGt :: rest := by
    simp [openTag, lit]
    decide
  have hno : chGt ∉ chLt :: (name ++ attrs) := by
    rw [List.mem_cons, not_or]
    exact ⟨by decide, h⟩
  have hlen : (openTag name attrs).length = (name ++ attrs).length + 1 + 1 := by
    simp [openTag, lit]
    omega
  have hstart : lit "<" = ((chLt :: (name ++ attrs)) ++ chGt :: rest).take
      (lit "<").length := rfl
  rw [htext, hlen, tagText]
  simp only [Bool.false_eq_true, if_false]
  rw [if_neg (fun hne => hne hstart), show lit ">" = [chGt] from rfl,
    find_split hno, Option.map_some, List.take_left]
  rfl

/-- The text of a closing tag. -/
theorem tagText_close {name : Bytes} (h : chGt ∉ name) (rest : Bytes) :
    tagText true (closeTag name ++ rest)
      = some (name, (closeTag name).length) := by
  have htext : closeTag name ++ rest
      = (lit "</" ++ name) ++ chGt :: rest := by
    simp [closeTag, lit]
    decide
  have hno : chGt ∉ lit "</" ++ name := by
    rw [List.mem_append, not_or]
    exact ⟨by decide, h⟩
  have hlen : (closeTag name).length = name.length + 2 + 1 := by
    simp [closeTag, lit]
  have hstart : lit "</" = ((lit "</" ++ name) ++ chGt :: rest).take
      (lit "</").length := rfl
  rw [htext, hlen, tagText]
  simp only [if_true]
  rw [if_neg (fun hne => hne hstart), show lit ">" = [chGt] from rfl,
    find_split hno, Option.map_some, List.take_left]
  rfl

/-- An opening tag is read whole. -/
theorem readXMLTag_open {name attrs rest : Bytes} (h : chGt ∉ name ++ attrs) :
    readXMLTag false (s.at (openTag name attrs ++ rest))
      = .ok (some (name ++ attrs, (openTag name attrs).length),
          s.at rest) := by
  have hrun := reading_run (s := s.at (openTag name attrs ++ rest)) rfl
    (tagText_open h rest)
  rw [List.drop_left] at hrun
  exact hrun

/-- A closing tag too. -/
theorem readXMLTag_close {name rest : Bytes} (h : chGt ∉ name) :
    readXMLTag true (s.at (closeTag name ++ rest))
      = .ok (some (name, (closeTag name).length), s.at rest) := by
  have hrun := reading_run (s := s.at (closeTag name ++ rest)) rfl
    (tagText_close h rest)
  rw [List.drop_left] at hrun
  exact hrun

-- =========================================================== attributes

/-- The name of a tag ends at the first space. -/
theorem extractXMLTagName_split {name : Bytes} (h : 32 ∉ name)
    (rest : Bytes) :
    extractXMLTagName (name ++ 32 :: rest) = some (name, rest) := by
  rw [extractXMLTagName, show lit " " = [32] from rfl, find_split h]
  simp

/-- An attribute, and what follows its blank. -/
theorem namedAttr_split {name val : Bytes} (hname : 61 ∉ name)
    (hval : 34 ∉ val) (rest : Bytes) :
    namedAttr name (name ++ lit "=\"" ++ val ++ lit "\"" ++ rest)
      = some (val, rest.drop 1) := by
  have htext : name ++ lit "=\"" ++ val ++ lit "\"" ++ rest
      = name ++ 61 :: (34 :: (val ++ 34 :: rest)) := by
    simp [lit]
    decide
  have hdrop : (name ++ 61 :: (34 :: (val ++ 34 :: rest))).drop
      (name.length + 2) = val ++ 34 :: rest := by
    rw [← List.drop_drop, List.drop_left]
    rfl
  have hdrop' : (name ++ 61 :: (34 :: (val ++ 34 :: rest))).drop
      (name.length + 2 + val.length + 1 + 1) = rest.drop 1 := by
    rw [show name.length + 2 + val.length + 1 + 1
      = (name.length + 2) + (val.length + (1 + 1)) by omega,
      ← List.drop_drop, hdrop, ← List.drop_drop, List.drop_left,
      ← List.drop_drop]
    rfl
  have hattr : extractXMLAttr (name ++ 61 :: (34 :: (val ++ 34 :: rest)))
      = some (name, val, rest.drop 1) := by
    simp only [extractXMLAttr, show lit "=" = [61] from rfl,
      show lit "\"" = [34] from rfl, find_split hname, Option.bind_eq_bind,
      Option.bind_some, hdrop, find_split hval, hdrop', List.take_left]
    rfl
  rw [htext, namedAttr, hattr]
  simp

-- =============================================================== fields

/-- The attributes of a field's open tag. -/
def fieldAttrs (kind : Kind) (id : Nat) : Bytes :=
  lit " " ++ Header.TXMLWriter.formXMLAttr (lit "type")
      (Header.TXMLWriter.fieldTypeName kind.ttype)
    ++ lit " " ++ Header.TXMLWriter.formXMLAttr (lit "identifier") (decimal id)

/-- A slot that the reader finds. -/
structure Slot.Keyed (slot : Slot) : Prop where
  found : headerSlots.find? (fun x => some (slot.id : Int) == some (x.id : Int))
    = some slot
  name : IsName slot.name

/-- The fields of the header are found by their ids. -/
theorem headerSlots_keyed : ∀ slot ∈ headerSlots, slot.Keyed := by
  intro slot hslot
  simp only [headerSlots, List.mem_cons, List.not_mem_nil, or_false] at hslot
  rcases hslot with rfl | rfl | rfl | rfl | rfl | rfl | rfl | rfl | rfl | rfl
    | rfl | rfl | rfl | rfl | rfl
  all_goals exact ⟨rfl, by decide⟩

/-- `int(str(i))`. -/
theorem int_decimalInt (i : Int) : int (decimalInt i) = some i := by
  rw [int_of_takeSign isSpace_of_mem_decimalInt (takeSign_decimalInt i)
    (decimal_ne_nil _) fun _ hc => isDigit_of_mem_decimal hc, decVal_decimal]
  by_cases hi : i < 0
  · simp only [hi, decide_true, if_true]
    congr 1
    omega
  · simp only [hi, decide_false, Bool.false_eq_true, if_false]
    congr 1
    omega

/-- A byte that cannot be in a name is not in one. -/
theorem not_mem_of_name {name : Bytes} (hname : IsName name) {c : UInt8}
    (hc : Header.isNameChar c = false) : c ∉ name := by
  intro hmem
  exact isNameChar_ne (hname.2 c hmem) hc rfl

/-- The name of a type gives the type. -/
theorem fieldType_name (kind : Kind) (s : TXMLProtocol) :
    fieldType (Header.TXMLWriter.fieldTypeName kind.ttype) s
      = .ok (kind.ttype, s) := by
  cases kind <;> rfl

/-- The tag of a field gives its name, its type and its id. -/
theorem readFieldTag_run {name : Bytes} (hname : IsName name) (kind : Kind)
    (id : Nat) (rest : Bytes) :
    readFieldTag (s.at (openTag name (fieldAttrs kind id) ++ rest))
      = .ok (⟨(openTag name (fieldAttrs kind id)).length, some name,
          some kind.ttype, some id⟩,
        (s.within name).at rest) := by
  have hid := isName_decimal id
  have htype := Header.isName_fieldTypeName kind
  have hno : chGt ∉ name ++ fieldAttrs kind id := by
    simp only [fieldAttrs, Header.TXMLWriter.formXMLAttr, List.mem_append,
      not_or]
    have hgt : Header.isNameChar chGt = false := by decide
    refine ⟨not_mem_of_name hname hgt, ⟨⟨by decide, ?_⟩, by decide⟩, ?_⟩
    · exact ⟨⟨by decide, not_mem_of_name htype hgt⟩, by decide⟩
    · exact ⟨⟨by decide, not_mem_of_name hid hgt⟩, by decide⟩
  have hattrs : name ++ fieldAttrs kind id = name ++ 32 :: (lit "type"
      ++ lit "=\"" ++ Header.TXMLWriter.fieldTypeName kind.ttype ++ lit "\""
      ++ 32 :: (lit "identifier" ++ lit "=\"" ++ decimal id ++ lit "\""
        ++ [])) := by
    simp [fieldAttrs, Header.TXMLWriter.formXMLAttr, lit]
    decide
  rw [readFieldTag, bind_run (readXMLTag_open hno)]
  dsimp only
  rw [hattrs, extractXMLTagName_split (not_mem_of_name hname (by decide))]
  dsimp only
  rw [bind_run (a := ()) rfl, namedAttr_split (by decide)
    (not_mem_of_name htype (by decide))]
  dsimp only
  rw [bind_run (fieldType_name kind _), List.drop_one, List.tail_cons,
    namedAttr_split (by decide) (not_mem_of_name hid (by decide))]
  have hint : int (decimal id) = some (id : Int) := by
    have h := int_decimalInt id
    rwa [decimalInt, if_neg (by omega)] at h
  simp only [Option.bind_some, hint]
  rfl

/-- So does `readFieldBegin`. -/
theorem readFieldBegin_run {name : Bytes} (hname : IsName name)
    (kind : Kind) (id : Nat) (rest : Bytes) :
    readFieldBegin (s.at (openTag name (fieldAttrs kind id) ++ rest))
      = .ok (⟨(openTag name (fieldAttrs kind id)).length, some name,
          some kind.ttype, some id⟩,
        (s.within name).at rest) := by
  obtain ⟨c, name', hcons⟩ := List.exists_cons_of_ne_nil hname.1
  have hc : c ≠ 47 := by
    refine isNameChar_ne (hname.2 c ?_) (by decide)
    rw [hcons]
    exact List.mem_cons_self
  have htext : openTag name (fieldAttrs kind id) ++ rest
      = chLt :: c :: (name' ++ fieldAttrs kind id ++ lit ">" ++ rest) := by
    rw [hcons]
    simp [openTag, lit]
    decide
  have hpeek : peekXMLTag 2 (s.at (openTag name (fieldAttrs kind id) ++ rest))
      = .ok (some [chLt, c],
        s.at (openTag name (fieldAttrs kind id) ++ rest)) := by
    rw [htext]
    simp [peekXMLTag, TXMLProtocol.at]
  have hstop : ([chLt, c] : Bytes) ≠ lit "</" := by
    intro h
    injection h with _ h
    injection h with h
    exact hc h
  rw [readFieldBegin, bind_run hpeek]
  simp only [hstop, if_false]
  exact readFieldTag_run hname kind id rest

/-- At a closing tag the fields are over. -/
theorem readFieldBegin_stop (name rest : Bytes) :
    readFieldBegin (s.at (closeTag name ++ rest))
      = .ok (⟨0, none, some .T_STOP, none⟩, s.at (closeTag name ++ rest)) := by
  have hpeek : peekXMLTag 2 (s.at (closeTag name ++ rest))
      = .ok (some (lit "</"), s.at (closeTag name ++ rest)) := by
    simp [peekXMLTag, TXMLProtocol.at, closeTag, lit]
  rw [readFieldBegin, bind_run hpeek]
  rfl

/-- The closing tag of a field. -/
theorem readFieldEnd_run {name : Bytes} (hname : IsName name)
    (rest : Bytes) :
    readFieldEnd ((s.within name).at (closeTag name ++ rest))
      = .ok ((closeTag name).length, s.at rest) := by
  have hpop : pop ((s.within name).at rest) = .ok (some name, s.at rest) := rfl
  rw [readFieldEnd, bind_run (readXMLTag_close (not_mem_name hname))]
  dsimp only
  rw [bind_run hpop, if_neg (fun h => h rfl)]
  rfl

-- ============================================================== entries

/-- A field on the wire. -/
structure Entry where
  slot : Slot
  text : Bytes
  /-- what reading the text returns -/
  length : Nat
  val : PyVal slot.kind

namespace Entry

/-- The text is read to its end. -/
structure Ok (e : Entry) : Prop where
  mem : e.slot ∈ headerSlots
  reads : ∀ (s : TXMLProtocol) (rest : Bytes),
    readVal e.slot.kind (s.at (e.text ++ chLt :: rest))
      = .ok ((e.length, some e.val), s.at (chLt :: rest))

/-- The open tag of a field. -/
def openText (e : Entry) : Bytes :=
  openTag e.slot.name (fieldAttrs e.slot.kind e.slot.id)

/-- A field as text. -/
def wire (e : Entry) : Bytes := e.openText ++ e.text ++ closeTag e.slot.name

/-- What its reads return in all. -/
def total (e : Entry) : Nat :=
  e.openText.length + e.length + (closeTag e.slot.name).length

/-- The header with the field in it. -/
def put (hdr : SandeshHeader) (e : Entry) : SandeshHeader :=
  e.slot.put (some e.val) hdr

end Entry

variable (L : Libs)

/-- The value of a field goes into its slot. -/
theorem readField_run {e : Entry} (he : e.Ok) (hdr : SandeshHeader)
    (s : TXMLProtocol) (rest : Bytes) :
    readField L (some e.slot.kind.ttype) (some (e.slot.id : Int)) hdr
        (s.at (e.text ++ chLt :: rest))
      = .ok (some ((e.length : Int), e.put hdr), s.at (chLt :: rest)) := by
  have hfound := (headerSlots_keyed e.slot he.mem).found
  unfold readField
  rw [hfound]
  simp only [if_true]
  rw [bind_run (he.reads s rest)]
  have hpos : ¬ ((e.length : Int) < 0) := by omega
  simp only [hpos, if_false]
  rfl

/-- One turn of the loop, over one field. -/
theorem fieldTurn_run {e : Entry} (he : e.Ok) (t : Int × SandeshHeader)
    (s : TXMLProtocol) (rest : Bytes) :
    fieldTurn L t (s.at (e.wire ++ rest))
      = .ok (.inl (t.1 + e.total, e.put t.2), s.at rest) := by
  have hname := (headerSlots_keyed e.slot he.mem).name
  have htext : e.wire ++ rest = e.openText
      ++ (e.text ++ (closeTag e.slot.name ++ rest)) := by
    simp [Entry.wire]
  have hclose : closeTag e.slot.name ++ rest
      = chLt :: (lit "/" ++ e.slot.name ++ lit ">" ++ rest) := by
    simp [closeTag, lit]
    decide
  rw [htext, Entry.openText, fieldTurn,
    bind_run (readFieldBegin_run hname _ _ _)]
  have hpos : ¬ ((openTag e.slot.name
      (fieldAttrs e.slot.kind e.slot.id)).length : Int) < 0 := by omega
  have hstop : some e.slot.kind.ttype ≠ some TType.T_STOP := by
    cases e.slot.kind <;> decide
  simp only [hpos, hstop, if_false]
  have hread := readField_run L he t.2 (s.within e.slot.name)
    (lit "/" ++ e.slot.name ++ lit ">" ++ rest)
  rw [← hclose] at hread
  rw [bind_run hread]
  dsimp only
  rw [bind_run (readFieldEnd_run hname rest)]
  have hpos' : ¬ ((closeTag e.slot.name).length : Int) < 0 := by omega
  simp only [hpos', if_false]
  have hsum : t.1 + (openTag e.slot.name
      (fieldAttrs e.slot.kind e.slot.id)).length + e.length
        + (closeTag e.slot.name).length = t.1 + e.total := by
    simp only [Entry.total, Entry.openText]
    omega
  rw [hsum]
  rfl

/-- The turn that ends the loop. -/
theorem fieldTurn_stop (t : Int × SandeshHeader) (name rest : Bytes) :
    fieldTurn L t (s.at (closeTag name ++ rest))
      = .ok (.inr (some t), s.at (closeTag name ++ rest)) := by
  rw [fieldTurn, bind_run (readFieldBegin_stop name rest)]
  simp only [Int.lt_irrefl, if_true, if_false, Int.add_zero]
  rfl

/-- A method that returns, as a run. -/
theorem runs_call {α : Type} {m : Method α} {s s' : TXMLProtocol} {a : α}
    (h : m s = .ok (a, s')) : (call m).Runs s (.ok a) s' := by
  refine runs_act.mpr ?_
  rw [h]

/-- The loop over the fields. -/
theorem fields_run {es : List Entry} (hes : ∀ e ∈ es, e.Ok)
    (t : Int × SandeshHeader) (name rest : Bytes) :
    (Prog.loop (fun t => call (fieldTurn L t)) t).Runs
      (s.at (es.flatMap Entry.wire ++ (closeTag name ++ rest)))
      (.ok (some (t.1 + (es.map Entry.total).sum, es.foldl Entry.put t.2)))
      (s.at (closeTag name ++ rest)) := by
  induction es generalizing t with
  | nil =>
      refine Runs.leave (runs_call ?_)
      simpa using fieldTurn_stop L t name rest
  | cons e es ih =>
      have he := hes e List.mem_cons_self
      have hrest := ih (fun x hx => hes x (List.mem_cons_of_mem _ hx))
        (t.1 + e.total, Entry.put t.2 e)
      have hsum : t.1 + (((e :: es).map Entry.total).sum : Nat)
          = t.1 + e.total + ((es.map Entry.total).sum : Nat) := by
        rw [List.map_cons, List.sum_cons]
        omega
      rw [List.flatMap_cons, List.append_assoc, hsum]
      exact Runs.again (runs_call (fieldTurn_run L he t s _)) hrest

-- =============================================================== header

/-- The name of the structure. -/
def headerName : Bytes := lit "SandeshHeader"

/-- A header of these fields. -/
def headerWire (es : List Entry) : Bytes :=
  openTag headerName [] ++ (es.flatMap Entry.wire ++ closeTag headerName)

/-- What reading a header returns. -/
def headerTotal (es : List Entry) : Nat :=
  (openTag headerName []).length + (es.map Entry.total).sum
    + (closeTag headerName).length

/-- The opening tag of the header, for a new protocol object. -/
theorem readStructBegin_new {name : Bytes} (hname : IsName name)
    (rest : Bytes) :
    readStructBegin (.new (openTag name [] ++ rest))
      = .ok (some ((openTag name []).length : Int),
        ((TXMLProtocol.new (openTag name [] ++ rest)).within name).at rest) := by
  have hne : openTag name [] ++ rest ≠ [] := by
    simp [openTag, lit]
  have hnew : newReader (.new (openTag name [] ++ rest))
      = .ok ((), (TXMLProtocol.new (openTag name [] ++ rest)).at
          (openTag name [] ++ rest)) := by
    rw [newReader, if_neg (by exact hne)]
    rfl
  have hno : chGt ∉ name ++ [] := by
    rw [List.append_nil]
    exact not_mem_name hname
  change (newReader >>= fun _ => _) _ = _
  rw [bind_run hnew]
  dsimp only
  rw [bind_run (readXMLTag_open hno), List.append_nil]
  rfl

/-- Its closing tag. -/
theorem readStructEnd_run {name : Bytes} (hname : IsName name)
    (rest : Bytes) :
    readStructEnd ((s.within name).at (closeTag name ++ rest))
      = .ok (some ((closeTag name).length : Int), s.at rest) := by
  have hpop : pop ((s.within name).at rest) = .ok (some name, s.at rest) := rfl
  rw [readStructEnd, readNamedEnd,
    bind_run (readXMLTag_close (not_mem_name hname)), bind_run hpop,
    if_neg (fun h => h rfl)]
  rfl

/-- A header is read from its text, field by field. -/
theorem read_run {es : List Entry} (hes : ∀ e ∈ es, e.Ok) (rest : Bytes) :
    (SandeshHeader.init.read L).Runs (.new (headerWire es ++ rest))
      (.ok (some ((headerTotal es : Int), es.foldl Entry.put .init)))
      ((TXMLProtocol.new (headerWire es ++ rest)).at rest) := by
  have hname : IsName headerName := by decide
  have htext : headerWire es ++ rest = openTag headerName []
      ++ (es.flatMap Entry.wire ++ (closeTag headerName ++ rest)) := by
    simp [headerWire]
  rw [htext]
  refine Runs.bind_ok (runs_call (readStructBegin_new hname _)) ?_
  have hpos : negative (some ((openTag headerName []).length : Int))
      = false := by decide
  simp only [hpos, Bool.false_eq_true, if_false]
  refine Runs.bind_ok (fields_run L hes _ headerName rest) ?_
  refine Runs.bind_ok (runs_call (readStructEnd_run hname rest)) ?_
  have hpos' : negative (some ((closeTag headerName).length : Int))
      = false := by decide
  simp only [hpos', Bool.false_eq_true, if_false]
  refine runs_pure.mpr ⟨?_, rfl⟩
  simp only [Option.getD_some, headerTotal, Nat.cast_add]

/-- The opening tag of the message behind it. -/
theorem readSandeshBegin_run {name : Bytes} (hname : IsName name)
    (rest : Bytes) :
    readSandeshBegin (s.at (openTag name (lit " type=\"sandesh\"") ++ rest))
      = .ok (((openTag name (lit " type=\"sandesh\"")).length, some name),
          (s.within name).at rest) := by
  have hno : chGt ∉ name ++ lit " type=\"sandesh\"" := by
    rw [List.mem_append, not_or]
    exact ⟨not_mem_name hname, by decide⟩
  have hattrs : name ++ lit " type=\"sandesh\"" = name ++ 32 :: (lit "type"
      ++ lit "=\"" ++ lit "sandesh" ++ lit "\"" ++ []) := rfl
  change (readXMLTag false >>= _) _ = _
  rw [bind_run (readXMLTag_open hno), hattrs]
  dsimp only
  rw [extractXMLTagName_split (not_mem_of_name hname (by decide))]
  dsimp only
  rw [bind_run (a := ()) rfl, namedAttr_split (by decide) (by decide)]
  rfl

/-- The header on the wire, and a sandesh behind it. -/
theorem extract_run {es : List Entry} (hes : ∀ e ∈ es, e.Ok) {name : Bytes}
    (hname : IsName name) (body : Bytes) :
    ∃ s', (extract_sandesh_header L).Runs
      (.new (headerWire es ++ (openTag name (lit " type=\"sandesh\"") ++ body)))
      (.ok (some (es.foldl Entry.put .init), (headerTotal es : Int),
        some name)) s' := by
  refine ⟨((TXMLProtocol.new (headerWire es
    ++ (openTag name (lit " type=\"sandesh\"") ++ body))).within name).at body,
    Runs.bind_ok (read_run L hes _) ?_⟩
  refine Runs.bind_ok (runs_call (readSandeshBegin_run hname body)) ?_
  have hpos : ((openTag name (lit " type=\"sandesh\"")).length : Int)
      ≠ -1 := by omega
  simp only [hpos, if_false]
  exact runs_pure.mpr ⟨rfl, rfl⟩

end Sandesh.Py
