/-
`hdr_len` against the header it stands for.

Both sides write a header as the same entries; they differ in how they
escape (`esc`). Read back, an entry counts for what unescaping left of it,
so `hdr_len` is the length of the header exactly when nothing was
unescaped (`cut_iff`).
-/
import Mathlib.Data.List.ReduceOption
import Sandesh.Py.Proofs.Fields

namespace Sandesh.Py

open Lib Prog
open Xml (World chLt escapeXMLControlChars escapeInternal_spells_iff
  length_unescape_eq_iff length_unescape_le)
open Header (Kind IsName openTag closeTag TXMLWriter)
open Header.TXMLWriter (writeBegin writeEnd writePlain)

-- =============================================================== values

section Values

variable (esc : Bytes → Bytes)

/-- The text of a value. -/
def valText : (kind : Kind) → PyVal kind → Bytes
  | .string, v => esc v
  | .i64, v => intText 64 v
  | .i32, v => intText 32 v

/-- What reading that text returns. -/
def valLength : (kind : Kind) → PyVal kind → Nat
  | .string, v => (unescape (esc v)).length
  | .i64, v => (intText 64 v).length
  | .i32, v => (intText 32 v).length

/-- The value that is read. -/
def valBack : (kind : Kind) → PyVal kind → PyVal kind
  | .string, v => unescape (esc v)
  | .i64, v => (BitVec.ofInt 64 v).toInt
  | .i32, v => (BitVec.ofInt 32 v).toInt

/-- The strings of a value. -/
def valStrings : (kind : Kind) → PyVal kind → List Bytes
  | .string, v => [v]
  | .i64, _ => []
  | .i32, _ => []

/-- A number has no `<` in it. -/
theorem not_mem_intText (w : Nat) (i : Int) : chLt ∉ intText w i := by
  unfold intText decimalInt
  have hdigits : ∀ n, chLt ∉ decimal n := by
    intro n hmem
    have hdigit := isDigit_of_mem_decimal hmem
    revert hdigit
    decide
  split
  · rw [List.mem_cons, not_or]
    exact ⟨by decide, hdigits _⟩
  · exact hdigits _

/-- A number is read up to the next tag, and the length returned is that of
its text. -/
theorem readInt_run (w : Nat) (i : Int) (s : TXMLProtocol) (rest : Bytes) :
    readScalar intConv (s.at (intText w i ++ chLt :: rest))
      = .ok (((intText w i).length, some (BitVec.ofInt w i).toInt),
        s.at (chLt :: rest)) := by
  have hrun := readXMLValue_run (s := s.at (intText w i ++ chLt :: rest))
    (not_mem_intText w i) rfl
  rw [readScalar, bind_run hrun]
  dsimp only
  rw [intConv, intText, int_decimalInt]
  rfl

/-- So is every kind of value; a string must have no `<` in it. -/
theorem readVal_run (kind : Kind) (v : PyVal kind)
    (h : ∀ x ∈ valStrings kind v, chLt ∉ esc x) (s : TXMLProtocol)
    (rest : Bytes) :
    readVal kind (s.at (valText esc kind v ++ chLt :: rest))
      = .ok (((valLength esc kind v : Nat), some (valBack esc kind v)),
        s.at (chLt :: rest)) := by
  cases kind with
  | string => exact readString_run (h v List.mem_cons_self) rfl
  | i64 => exact readInt_run 64 v s rest
  | i32 => exact readInt_run 32 v s rest

/-- What a read returns is never more than it takes. -/
theorem valLength_le (kind : Kind) (v : PyVal kind) :
    valLength esc kind v ≤ (valText esc kind v).length := by
  cases kind with
  | string => exact length_unescape_le (esc v)
  | i64 => exact Nat.le_refl _
  | i32 => exact Nat.le_refl _

/-- It is less exactly for a string with an entity in it. -/
theorem valLength_eq_iff (kind : Kind) (v : PyVal kind) :
    valLength esc kind v = (valText esc kind v).length
      ↔ ∀ x ∈ valStrings kind v, ∀ e ∈ entities, ¬ e <:+: esc x := by
  cases kind with
  | string =>
      rw [valStrings, List.forall_mem_singleton]
      exact length_unescape_iff (esc v)
  | i64 => exact iff_of_true rfl fun x hx => absurd hx List.not_mem_nil
  | i32 => exact iff_of_true rfl fun x hx => absurd hx List.not_mem_nil

end Values

-- ============================================================== entries

/-- The strings of a header. -/
def SandeshHeader.strings (hdr : SandeshHeader) : List Bytes :=
  [hdr.Namespace, hdr.Module, hdr.Source, hdr.Context, hdr.Category,
    hdr.NodeType, hdr.InstanceId, hdr.IPAddress].reduceOption

section Entries

variable (esc : Bytes → Bytes) (hdr : SandeshHeader)

/-- The field on the wire, if it is set. -/
def Slot.entry (slot : Slot) : Option Entry :=
  (slot.get hdr).map fun v => ⟨slot, valText esc slot.kind v,
    valLength esc slot.kind v, valBack esc slot.kind v⟩

/-- The fields that are there. -/
def entries (slots : List Slot) : List Entry :=
  slots.filterMap (Slot.entry esc hdr)

variable {esc hdr}

/-- Every entry is that of a slot with a value. -/
theorem mem_entries {slots : List Slot} {e : Entry}
    (he : e ∈ entries esc hdr slots) :
    ∃ slot ∈ slots, ∃ v, slot.get hdr = some v
      ∧ e = ⟨slot, valText esc slot.kind v, valLength esc slot.kind v,
        valBack esc slot.kind v⟩ := by
  obtain ⟨slot, hslot, hentry⟩ := List.mem_filterMap.mp he
  obtain ⟨v, hv, rfl⟩ := Option.map_eq_some_iff.mp hentry
  exact ⟨slot, hslot, v, hv, rfl⟩

/-- The strings of a header are those of its slots. -/
theorem mem_strings_iff {x : Bytes} :
    x ∈ hdr.strings ↔ ∃ slot ∈ headerSlots, ∃ v, slot.get hdr = some v
      ∧ x ∈ valStrings slot.kind v := by
  simp [headerSlots, SandeshHeader.strings, valStrings,
    List.reduceOption_mem_iff, eq_comm]

/-- The entries of a header can be read. -/
theorem entries_ok (h : ∀ x ∈ hdr.strings, chLt ∉ esc x) :
    ∀ e ∈ entries esc hdr headerSlots, e.Ok := by
  intro e he
  obtain ⟨slot, hslot, v, hv, rfl⟩ := mem_entries he
  refine ⟨hslot, fun s rest => ?_⟩
  refine readVal_run esc slot.kind v (fun x hx => ?_) s rest
  exact h x (mem_strings_iff.mpr ⟨slot, hslot, v, hv, hx⟩)

end Entries

-- ============================================================== lengths

/-- What an entry is shorter by when it is read. -/
def Entry.loss (e : Entry) : Nat := e.text.length - e.length

/-- What a field's reads return misses what its text loses. -/
theorem Entry.wire_length {e : Entry} (h : e.length ≤ e.text.length) :
    e.wire.length = e.total + e.loss := by
  simp only [Entry.wire, Entry.total, Entry.loss, List.length_append]
  omega

/-- The same for all fields. -/
theorem wires_length {es : List Entry}
    (h : ∀ e ∈ es, e.length ≤ e.text.length) :
    (es.flatMap Entry.wire).length
      = (es.map Entry.total).sum + (es.map Entry.loss).sum := by
  induction es with
  | nil => rfl
  | cons e es ih =>
      have he := Entry.wire_length (h e List.mem_cons_self)
      have hes := ih fun x hx => h x (List.mem_cons_of_mem _ hx)
      rw [List.flatMap_cons, List.length_append, List.map_cons, List.map_cons,
        List.sum_cons, List.sum_cons]
      omega

/-- The total is right exactly if no field loses anything. -/
theorem headerTotal_eq_iff {es : List Entry}
    (h : ∀ e ∈ es, e.length ≤ e.text.length) :
    headerTotal es = (headerWire es).length
      ↔ ∀ e ∈ es, e.length = e.text.length := by
  have hlen : (headerWire es).length = headerTotal es
      + (es.map Entry.loss).sum := by
    have hwires := wires_length h
    simp only [headerWire, headerTotal, List.length_append]
    omega
  have hzero : (es.map Entry.loss).sum = 0
      ↔ ∀ e ∈ es, e.length = e.text.length := by
    rw [List.sum_eq_zero_iff_forall_eq_nat]
    simp only [List.mem_map, forall_exists_index, and_imp,
      forall_apply_eq_imp_iff₂]
    refine forall₂_congr fun e he => ?_
    have hle := h e he
    simp only [Entry.loss]
    omega
  rw [← hzero]
  omega

/-- That is, if no string has an entity in it. -/
theorem total_entries_iff (esc : Bytes → Bytes) (hdr : SandeshHeader) :
    headerTotal (entries esc hdr headerSlots)
        = (headerWire (entries esc hdr headerSlots)).length
      ↔ ∀ x ∈ hdr.strings, ∀ e ∈ entities, ¬ e <:+: esc x := by
  rw [headerTotal_eq_iff]
  · constructor
    · intro h x hx
      obtain ⟨slot, hslot, v, hv, hmem⟩ := mem_strings_iff.mp hx
      have hentry : (⟨slot, valText esc slot.kind v,
          valLength esc slot.kind v, valBack esc slot.kind v⟩ : Entry)
            ∈ entries esc hdr headerSlots := by
        refine List.mem_filterMap.mpr ⟨slot, hslot, ?_⟩
        rw [Slot.entry, hv]
        rfl
      exact (valLength_eq_iff esc slot.kind v).mp (h _ hentry) x hmem
    · intro h e he
      obtain ⟨slot, hslot, v, hv, rfl⟩ := mem_entries he
      refine (valLength_eq_iff esc slot.kind v).mpr fun x hx => h x ?_
      exact mem_strings_iff.mpr ⟨slot, hslot, v, hv, hx⟩
  · intro e he
    obtain ⟨slot, hslot, v, hv, rfl⟩ := mem_entries he
    exact valLength_le esc slot.kind v

-- ============================================================== the cut

/-- `hdr_len` is where the sandesh starts, and what is passed on begins
with its open tag. -/
def Cut (L : Libs) (msg : Bytes) (start : Nat) (name : Bytes) : Prop :=
  ∃ hdr hdr_len s',
    (extract_sandesh_header L).Runs (.new msg)
        (.ok (some hdr, hdr_len, some name)) s'
      ∧ hdr_len = (start : Int)
      ∧ ∀ received s'', (receive_sandesh_msg L msg).Runs (.new msg)
          (.ok received) s'' → ∀ m, received.passed = some m →
            (writeSandeshBegin name .init).out <+: m

/-- Whatever is passed on has been cut at `hdr_len`. -/
theorem passed_eq {L : Libs} {msg : Bytes} {hdr : SandeshHeader}
    {hdr_len : Int} {name : Bytes} {s₀ s' s'' : TXMLProtocol}
    (hextract : (extract_sandesh_header L).Runs s₀
      (.ok (some hdr, hdr_len, some name)) s')
    {received : Received}
    (hruns : (receive_sandesh_msg L msg).Runs s₀ (.ok received) s'')
    {m : Bytes} (hm : received.passed = some m) :
    m = msg.drop hdr_len.toNat := by
  rcases runs_bind.mp hruns with ⟨a, s₁, ha, hrest⟩ | ⟨e, -, he⟩
  · obtain ⟨heq, -⟩ := hextract.unique ha
    injection heq with heq
    subst heq
    cases hhints : hdr.Hints with
    | none =>
        simp only [hhints] at hrest
        cases (runs_throw.mp hrest).1
    | some hints =>
        simp only [hhints] at hrest
        by_cases hcontrol : controlHint hints = true
        · by_cases hname : name ≠ lit "SandeshCtrlServerToClient"
          · simp only [hcontrol, hname, if_true, ne_eq, not_false_eq_true]
              at hrest
            obtain ⟨hres, -⟩ := runs_pure.mp hrest
            injection hres with hres
            subst hres
            cases hm
          · simp only [hcontrol, hname, if_true, if_false] at hrest
            obtain ⟨hres, -⟩ := runs_pure.mp hrest
            injection hres with hres
            subst hres
            injection hm with hm
            exact hm.symm
        · simp only [hcontrol] at hrest
          obtain ⟨hres, -⟩ := runs_pure.mp hrest
          injection hres with hres
          subst hres
          injection hm with hm
          exact hm.symm
  · cases he

/-- And then the message is cut where it begins. -/
theorem cut_iff (L : Libs) {esc : Bytes → Bytes} {hdr : SandeshHeader}
    (hesc : ∀ x ∈ hdr.strings, chLt ∉ esc x) {name : Bytes}
    (hname : IsName name) (body : Bytes) :
    Cut L (headerWire (entries esc hdr headerSlots)
        ++ (openTag name (lit " type=\"sandesh\"") ++ body))
        (headerWire (entries esc hdr headerSlots)).length name
      ↔ ∀ x ∈ hdr.strings, ∀ e ∈ entities, ¬ e <:+: esc x := by
  rw [← total_entries_iff]
  obtain ⟨s', hextract⟩ := extract_run L (entries_ok hesc) hname body
  constructor
  · intro hex
    obtain ⟨hdr', hdr_len, s'', hruns, hlen, -⟩ := hex
    obtain ⟨heq, -⟩ := hextract.unique hruns
    injection heq with heq
    injection heq with _ heq
    injection heq with heq
    omega
  · intro htotal
    refine ⟨_, _, s', hextract, by omega, ?_⟩
    intro received s'' hruns m hm
    rw [passed_eq hextract hruns hm, htotal, Int.toNat_natCast,
      List.drop_left]
    exact ⟨body, rfl⟩

-- ============================================================== writers

/-- The entries of the slots, one by one. -/
theorem flatMap_entries (esc : Bytes → Bytes) (hdr : SandeshHeader)
    (slots : List Slot) :
    (entries esc hdr slots).flatMap Entry.wire
      = slots.flatMap fun slot => ((slot.entry esc hdr).map Entry.wire).getD [] := by
  induction slots with
  | nil => rfl
  | cons slot slots ih =>
      rw [List.flatMap_cons, ← ih, entries, List.filterMap_cons]
      cases slot.entry esc hdr with
      | none => rfl
      | some e => rfl

/-- Both languages have the same names for the types. -/
theorem fieldTypeName_eq (kind : Kind) :
    fieldTypeName kind.ttype = TXMLWriter.fieldTypeName kind.ttype := by
  cases kind <;> rfl

/-- A value is written as its text. -/
theorem writeVal_eq (kind : Kind) (v : PyVal kind) :
    writeVal kind v = writePlain (valText escape kind v) := by
  cases kind <;> rfl

/-- A field as its entry. -/
theorem writeField_eq (hdr : SandeshHeader) (w : TXMLWriter) (slot : Slot) :
    writeField hdr w slot
      = ⟨w.out ++ ((slot.entry escape hdr).map Entry.wire).getD [],
        w.xml_state_⟩ := by
  unfold writeField Slot.entry
  cases slot.get hdr with
  | none => simp
  | some v =>
      simp [writeVal_eq, writeFieldBegin, writePlain, writeBegin, writeEnd,
        Entry.wire, Entry.openText, fieldAttrs, openTag, closeTag,
        fieldTypeName_eq]

/-- The loop over the slots, by induction. -/
theorem writeFields_eq (hdr : SandeshHeader) (slots : List Slot)
    (w : TXMLWriter) :
    slots.foldl (writeField hdr) w
      = ⟨w.out ++ (entries escape hdr slots).flatMap Entry.wire,
        w.xml_state_⟩ := by
  rw [flatMap_entries]
  induction slots generalizing w with
  | nil => simp
  | cons slot slots ih =>
      rw [List.foldl_cons, writeField_eq, ih, List.flatMap_cons,
        List.append_assoc]

/-- The header as Python writes it. -/
theorem write_eq (hdr : SandeshHeader) :
    hdr.write .init
      = ⟨headerWire (entries escape hdr headerSlots), []⟩ := by
  unfold SandeshHeader.write
  rw [writeFields_eq]
  simp [writeBegin, writeEnd, headerWire, openTag, closeTag, headerName,
    TXMLWriter.init]

/-- A message is a header and what follows. -/
theorem message_eq (hdr : SandeshHeader) (name body : Bytes) :
    message hdr name body
      = headerWire (entries escape hdr headerSlots)
        ++ (openTag name (lit " type=\"sandesh\"") ++ body) := by
  unfold message
  rw [write_eq]
  simp [writeSandeshBegin, writePlain, writeBegin, openTag,
    TXMLWriter.formXMLAttr, lit]

/-- A header of the C++ side. -/
def SandeshHeader.ofCpp (h : Header.SandeshHeader) : SandeshHeader where
  Namespace := some h.Namespace
  Timestamp := some h.Timestamp.toInt
  Module := some h.Module
  Source := some h.Source
  Context := some h.Context
  SequenceNum := some h.SequenceNum.toInt
  VersionSig := some h.VersionSig.toInt
  Type_ := some h.Type_.toInt
  Hints := some h.Hints.toInt
  Level := some h.Level.toInt
  Category := some h.Category
  NodeType := some h.NodeType
  InstanceId := some h.InstanceId
  IPAddress := h.IPAddress
  Pid := h.Pid.map BitVec.toInt

/-- A header has the same strings in either language. -/
theorem strings_ofCpp (h : Header.SandeshHeader) :
    (SandeshHeader.ofCpp h).strings = h.strings := by
  cases hip : h.IPAddress with
  | none =>
      simp [SandeshHeader.strings, SandeshHeader.ofCpp,
        Header.SandeshHeader.strings, List.reduceOption, hip]
  | some ip =>
      simp [SandeshHeader.strings, SandeshHeader.ofCpp,
        Header.SandeshHeader.strings, List.reduceOption, hip]

/-- The header as C++ writes it. -/
theorem headerText_eq {W : World} (hW : W.Decimal)
    (h : Header.SandeshHeader) :
    Header.headerText W h = headerWire
      (entries escapeXMLControlChars (.ofCpp h) headerSlots) := by
  have hattrs : ∀ kind id,
      TXMLWriter.fieldTag W (Kind.ttype kind) id = fieldAttrs kind id := by
    intro kind id
    simp [TXMLWriter.fieldTag, fieldAttrs, Header.integerToString_nat hW]
  have hint : ∀ {w : Nat} (v : BitVec w),
      W.integerToString v.toInt = intText w v.toInt := by
    intro w v
    rw [hW.text, intText, BitVec.ofInt_toInt]
  unfold Header.headerText Header.structText headerWire
  rw [flatMap_entries, List.append_assoc]
  -- only the fields differ, between the same two tags
  refine congrArg (_ ++ ·) (congrArg (· ++ _) ?_)
  cases hip : h.IPAddress <;> cases hpid : h.Pid <;>
    simp [Header.headerSlots, headerSlots, Header.slotText,
      Header.stringSlot, Header.i32Slot, Header.entryText, Slot.entry,
      Entry.wire, Entry.openText, hattrs, Header.Kind.text, hint, valText,
      SandeshHeader.ofCpp, hip, hpid]

-- ============================================================== results

/-- A header that Python wrote is cut off where it ends. -/
def PyCut (L : Libs) (hdr : SandeshHeader) (name body : Bytes) : Prop :=
  Cut L (message hdr name body) (hdr.write .init).out.length name

/-- The same for a header that C++ wrote. -/
def CppCut (L : Libs) (W : World) (h : Header.SandeshHeader)
    (name body : Bytes) : Prop :=
  Cut L (Header.message W h name body) (h.write W .init).out.length name

/-- What Python writes is cut right exactly if no string has one of the four
characters. -/
theorem pyCut_iff (L : Libs) (hdr : SandeshHeader) {name : Bytes}
    (hname : IsName name) (body : Bytes) :
    PyCut L hdr name body ↔ ∀ x ∈ hdr.strings, ∀ c ∈ x, c ∉ lit "&'<>" := by
  unfold PyCut
  rw [message_eq, write_eq, cut_iff L (fun x _ => not_mem_escape x) hname]
  refine forall₂_congr fun x _ => ?_
  rw [← length_unescape_iff, escape_eq, ← escapeInternal_spells_iff]
  exact length_unescape_eq_iff _

/-- A string that C++ escapes has neither a `<` nor an entity exactly if it
is plain. -/
theorem plain_iff_entities (v : Bytes) :
    Header.Plain v ↔ chLt ∉ escapeXMLControlChars v
      ∧ ∀ e ∈ entities, ¬ e <:+: escapeXMLControlChars v := by
  rw [← length_unescape_iff]
  exact and_congr Iff.rfl (length_unescape_eq_iff _).symm

/-- What C++ writes is cut right exactly if every string is plain. -/
theorem cppCut_iff (L : Libs) {W : World} (hW : W.Decimal)
    {h : Header.SandeshHeader} (hv : Header.Unbroken h.strings)
    {name : Bytes} (hname : IsName name) (body : Bytes) :
    CppCut L W h name body ↔ ∀ v ∈ h.strings, Header.Plain v := by
  have hout : (h.write W .init).out = Header.headerText W h := by
    rw [Header.SandeshHeader.write, Header.writeStruct_eq]
    rfl
  unfold CppCut
  rw [hout, Header.message_eq, headerText_eq hW, List.append_assoc,
    cut_iff L (by rw [strings_ofCpp]; exact hv) hname, strings_ofCpp]
  refine forall₂_congr fun v hmem => ?_
  rw [plain_iff_entities]
  exact (and_iff_right (hv v hmem)).symm

/-- The lengths of the single reads, and of the headers of either side. -/
theorem lengths_exact_iff (L : Libs) {W : World} (hW : W.Decimal) :
    (∀ (op : ReadOp) (s s' : TXMLProtocol) (n : Int),
        op.run L s = .ok (some n, s') → 0 ≤ n →
          (Removed s s' n ↔ op.Exact s))
      ∧ (∀ (hdr : SandeshHeader) (name body : Bytes), IsName name →
          (PyCut L hdr name body
            ↔ ∀ x ∈ hdr.strings, ∀ c ∈ x, c ∉ lit "&'<>"))
      ∧ ∀ (h : Header.SandeshHeader) (name body : Bytes), IsName name →
          ((∀ v ∈ h.strings, Header.Plain v) → CppCut L W h name body)
            ∧ (Header.Unbroken h.strings → CppCut L W h name body →
              ∀ v ∈ h.strings, Header.Plain v) := by
  refine ⟨fun op s s' n => run_removed_iff L op, fun hdr name body hname => ?_,
    fun h name body hname => ⟨fun hplain => ?_, fun hv => ?_⟩⟩
  · exact pyCut_iff L hdr hname body
  · have hv : Header.Unbroken h.strings := fun v hmem => (hplain v hmem).1
    exact (cppCut_iff L hW hv hname body).mpr hplain
  · exact (cppCut_iff L hW hv hname body).mp

/-- Objects that are their texts. -/
def Libs.texts : Libs where
  Object := Bytes
  IPAddress := fun s => .value s
  UUID := fun s => .value s
  float := fun s => .value s

/-- A header that only says which module it is from. -/
def SandeshHeader.ofModule (v : Bytes) : SandeshHeader :=
  { SandeshHeader.init with Module := some v }

/-- A protocol in the middle of a message. -/
def TXMLProtocol.ofText (buf : Bytes) : TXMLProtocol := ⟨[], some buf, []⟩

/-- Five characters and the tag behind them. -/
theorem lengths_exact_agent :
    Removed (.ofText (lit "agent</Module>")) (.ofText (lit "</Module>")) 5
      ∧ PyCut Libs.texts (.ofModule (lit "agent")) (lit "Hello") []
      ∧ CppCut Libs.texts World.plain (.ofModule (lit "agent"))
        (lit "Hello") [] := by
  obtain ⟨hop, hpy, hcpp⟩ := lengths_exact_iff Libs.texts
    (W := World.plain) Header.posix_decimal
  refine ⟨?_, ?_, ?_⟩
  · refine (hop .readString _ _ 5 rfl (by decide)).mpr ⟨by decide, ?_⟩
    intro _
    decide
  · exact (hpy _ _ _ (by decide)).mpr (by decide)
  · exact (hcpp _ _ _ (by decide)).1 (by decide)

/-- A `<` in a string, and a text in CDATA. -/
theorem lengths_short :
    (ReadOp.readString.run Libs.texts (.ofText (lit "a&lt;b</Module>"))
        = .ok (some 3, .ofText (lit "</Module>"))
      ∧ ¬ Removed (.ofText (lit "a&lt;b</Module>"))
        (.ofText (lit "</Module>")) 3)
      ∧ (ReadOp.readXML.run Libs.texts (.ofText (lit "<![CDATA[<a/>]]></x>"))
          = .ok (some 4, .ofText (lit "</x>"))
        ∧ ¬ Removed (.ofText (lit "<![CDATA[<a/>]]></x>"))
          (.ofText (lit "</x>")) 4)
      ∧ ¬ PyCut Libs.texts (.ofModule (lit "<")) (lit "Hello") [] := by
  refine ⟨⟨rfl, ?_⟩, ⟨rfl, ?_⟩, ?_⟩
  · rw [run_removed_iff Libs.texts .readString rfl (by decide)]
    intro hex
    obtain ⟨-, h⟩ := hex
    exact absurd (h rfl) (by decide)
  · rw [run_removed_iff Libs.texts .readXML rfl (by decide)]
    exact fun h => h.1 rfl
  · rw [pyCut_iff _ _ (by decide)]
    decide

end Sandesh.Py
