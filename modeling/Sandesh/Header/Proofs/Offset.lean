/-
Where `ExtractMsgHeader` says the header ends.

`header_offset` is the sum of the counts. Against the length of the header
it comes out short by what unescaping took from the strings (`loss`), so
it is right exactly when no string was shortened (`offset_exact_iff`), that
is, when none was written with one of the four spellings in it.
-/
import Sandesh.Header.Proofs.Written
import Sandesh.Xml.Proofs.Escape

namespace Sandesh.Header

open Lib Prog Xml

variable {S : Type} (W : World)

-- ========================================================== the lengths

/-- What unescaping takes from a written string. -/
def loss (v : Bytes) : Nat :=
  (escapeXMLControlChars v).length
    - (unescapeXMLControlChars (escapeXMLControlChars v)).length

theorem kindText_length (kind : Kind) (v : kind.Val) :
    (kind.text W v).length
      = kind.count W v + ((kind.strings (some v)).map loss).sum := by
  cases kind with
  | string =>
      have hle := length_unescape_le (escapeXMLControlChars v)
      simp only [Kind.text, Kind.count, Kind.strings, Option.toList_some,
        List.map_cons, List.map_nil, List.sum_cons, List.sum_nil, loss]
      omega
  | i64 => rfl
  | i32 => rfl

theorem slotText_length (value : S) (slot : Slot S) :
    (slotText W value slot).length
      = slotCount W value slot + ((slot.strings value).map loss).sum := by
  unfold slotText slotCount Slot.strings
  cases slot.get value with
  | none =>
      have hnil : slot.kind.strings none = [] := by
        cases slot.kind <;> rfl
      rw [hnil]
      rfl
  | some v =>
      have htext := kindText_length W slot.kind v
      simp only [entryText, entryCount, List.length_append]
      omega

theorem slotsText_length (value : S) (slots : List (Slot S)) :
    (slots.flatMap (slotText W value)).length
      = (slots.map (slotCount W value)).sum
        + ((slots.flatMap (Slot.strings value)).map loss).sum := by
  induction slots with
  | nil => rfl
  | cons slot slots ih =>
      have hslot := slotText_length W value slot
      rw [List.flatMap_cons, List.length_append, List.map_cons,
        List.sum_cons, List.flatMap_cons, List.map_append, List.sum_append]
      omega

theorem structText_length (name : Bytes) (slots : List (Slot S)) (value : S) :
    (structText W name slots value).length
      = structCount W name slots value
        + ((slots.flatMap (Slot.strings value)).map loss).sum := by
  have hslots := slotsText_length W value slots
  simp only [structText, structCount, List.length_append]
  omega

-- ========================================================== the header

/-- The strings of a header, as they are written. -/
def SandeshHeader.strings (h : SandeshHeader) : List Bytes :=
  [h.Namespace, h.Module, h.Source, h.Context, h.Category, h.NodeType,
    h.InstanceId] ++ h.IPAddress.toList

theorem headerStrings_eq (h : SandeshHeader) :
    headerSlots.flatMap (Slot.strings h) = h.strings := by
  cases hip : h.IPAddress with
  | none =>
      simp [headerSlots, stringSlot, i32Slot, Slot.strings, Kind.strings,
        SandeshHeader.strings, hip]
  | some ip =>
      simp [headerSlots, stringSlot, i32Slot, Slot.strings, Kind.strings,
        SandeshHeader.strings, hip]

theorem headerSlots_keyed :
    ∀ slot ∈ headerSlots, slot.Keyed headerSlots := by
  intro slot hslot
  simp only [headerSlots, List.mem_cons, List.not_mem_nil, or_false] at hslot
  rcases hslot with rfl | rfl | rfl | rfl | rfl | rfl | rfl | rfl | rfl | rfl
    | rfl | rfl | rfl | rfl | rfl
  all_goals exact ⟨rfl, by decide, by decide⟩

/-- A string as the reader gets it. -/
def backString (v : Bytes) : Bytes :=
  unescapeXMLControlChars (escapeXMLControlChars v)

/-- A header as it is read back. -/
def SandeshHeader.back (h : SandeshHeader) : SandeshHeader :=
  { h with
    Namespace := backString h.Namespace
    Module := backString h.Module
    Source := backString h.Source
    Context := backString h.Context
    Category := backString h.Category
    NodeType := backString h.NodeType
    InstanceId := backString h.InstanceId
    IPAddress := h.IPAddress.map backString }

theorem headerBack_eq (h : SandeshHeader) :
    headerSlots.foldl (slotBack h) SandeshHeader.init = h.back := by
  obtain ⟨_, _, _, _, _, _, _, _, _, _, _, _, _, ip, pid⟩ := h
  cases ip <;> cases pid <;> rfl

variable {W}

/-- The call on a written message whose strings are not broken. -/
theorem extract_runs (hW : W.Decimal) {h : SandeshHeader}
    (hv : Unbroken h.strings) {name : Bytes} (hname : IsName name)
    (body : Bytes) (data_ : UInt8) (data2_ : UInt8 × UInt8) :
    ∃ r', (ExtractMsgHeader W Reads.code).Runs
      (LookaheadReader.new (message W h name body) data_ data2_)
      (.ok ⟨h.back, name,
        structCount W (lit "SandeshHeader") headerSlots h⟩) r' := by
  have hr : Fresh (headerText W h
      ++ (openTag name (lit " type=\"sandesh\"") ++ body))
      (LookaheadReader.new (message W h name body) data_ data2_) := by
    rw [← List.append_assoc, ← message_eq]
    exact fresh_new _ _ _
  rw [← headerStrings_eq] at hv
  obtain ⟨ra, hstruct, hfresh⟩ := readStruct_runs hW (by decide)
    headerSlots_keyed h SandeshHeader.init hv hr
  rw [headerBack_eq] at hstruct
  have hno : kcXMLTagC ∉ name ++ lit " type=\"sandesh\"" := by
    rw [List.mem_append, not_or]
    exact ⟨not_mem_name hname, by decide⟩
  obtain ⟨rb, htokens, -⟩ := readTagTokens_runs hno (tokens_sandesh hname)
    hfresh.toNear
  have hbegin : (readSandeshBegin Reads.code).Runs ra
      (.ok ((openTag name (lit " type=\"sandesh\"")).length, name)) rb := by
    refine htokens.bind_ok ?_
    have hattrs : readAttrs sandeshAttrs [lit "type", lit "sandesh"] none ()
        = .ok () := rfl
    simp only [hattrs, lift]
    exact Runs.bind_ok (runs_pure.mpr ⟨rfl, rfl⟩) (runs_pure.mpr ⟨rfl, rfl⟩)
  refine ⟨rb, hstruct.bind_ok ?_⟩
  have hopen : ∀ name attrs, 0 < (openTag name attrs).length := by
    intro name attrs
    simp only [openTag, List.length_append]
    have hlt : (lit "<").length = 1 := rfl
    omega
  have hpos : ¬ ((structCount W (lit "SandeshHeader") headerSlots h : Nat)
      : Int) ≤ 0 := by
    have hname := hopen (lit "SandeshHeader") []
    unfold structCount
    omega
  have hpos' : ¬ ((openTag name (lit " type=\"sandesh\"")).length : Int)
      ≤ 0 := by
    have hname := hopen name (lit " type=\"sandesh\"")
    omega
  simp only [if_neg hpos]
  refine hbegin.bind_ok ?_
  simp only [if_neg hpos']
  exact runs_pure.mpr ⟨rfl, rfl⟩

-- ========================================================== the offset

/-- The call succeeds, the offset is the length of the header, and the
open tag of the sandesh is found there. -/
def OffsetExact (W : World) (h : SandeshHeader) (name body : Bytes) : Prop :=
  ∀ (data_ : UInt8) (data2_ : UInt8 × UInt8), ∃ m r',
    (ExtractMsgHeader W Reads.code).Runs
        (LookaheadReader.new (message W h name body) data_ data2_) (.ok m) r'
      ∧ m.header_offset = ((h.write W .init).out.length : Int)
      ∧ (TXMLWriter.writeSandeshBegin name .init).out
        <+: (message W h name body).drop m.header_offset.toNat

/-- A string that is written without a `<` and without any of the spellings
that unescaping looks for. -/
def Plain (v : Bytes) : Prop :=
  kcXMLTagO ∉ escapeXMLControlChars v
    ∧ ¬ lit "&amp;" <:+: escapeXMLControlChars v
    ∧ ¬ HasEntity (escapeXMLControlChars v)

instance (v : Bytes) : Decidable (Plain v) :=
  inferInstanceAs (Decidable (_ ∧ _))

/-- A string without a nul must have none of the four characters. -/
theorem plain_iff {v : Bytes} (hnul : nul ∉ v) :
    Plain v ↔ ∀ c ∈ v, c ∉ lit "&'<>" := by
  unfold Plain
  rw [escapeXMLControlChars_eq hnul, ← escapeInternal_spells_iff]
  exact and_iff_right (not_mem_escapeInternal v)

theorem offset_iff (hW : W.Decimal) {h : SandeshHeader}
    (hv : Unbroken h.strings) {name : Bytes} (hname : IsName name)
    (body : Bytes) :
    OffsetExact W h name body ↔ ∀ v ∈ h.strings, Plain v := by
  have hout : (h.write W .init).out = headerText W h := by
    rw [SandeshHeader.write, writeStruct_eq]
    rfl
  have hlen := structText_length W (lit "SandeshHeader") headerSlots h
  rw [headerStrings_eq] at hlen
  have hloss : ∀ v ∈ h.strings, (Plain v ↔ loss v = 0) := by
    intro v hmem
    have hle := length_unescape_le (escapeXMLControlChars v)
    have heq := length_unescape_eq_iff (escapeXMLControlChars v)
    unfold Plain loss
    rw [← heq]
    constructor
    · intro hex
      obtain ⟨-, h⟩ := hex
      omega
    · intro h
      exact ⟨hv v hmem, by omega⟩
  have hsum : (h.strings.map loss).sum = 0 ↔ ∀ v ∈ h.strings, Plain v := by
    rw [List.sum_eq_zero_iff_forall_eq_nat]
    simp only [List.mem_map, forall_exists_index, and_imp,
      forall_apply_eq_imp_iff₂]
    exact forall₂_congr fun v hmem => (hloss v hmem).symm
  rw [← hsum]
  constructor
  · intro hexact
    obtain ⟨m, r', hruns, hoffset, -⟩ := hexact 0 (0, 0)
    obtain ⟨r'', hruns'⟩ := extract_runs hW hv hname body 0 (0, 0)
    obtain ⟨hm, -⟩ := hruns.unique hruns'
    injection hm with hm
    subst hm
    rw [hout, headerText] at hoffset
    simp only at hoffset
    omega
  · intro hzero data_ data2_
    obtain ⟨r', hruns⟩ := extract_runs hW hv hname body data_ data2_
    refine ⟨_, r', hruns, ?_, ?_⟩
    · rw [hout, headerText]
      simp only
      omega
    · have hoffset : structCount W (lit "SandeshHeader") headerSlots h
          = (headerText W h).length := by
        rw [headerText]
        omega
      rw [Int.toNat_natCast, hoffset, message_eq, List.append_assoc,
        List.drop_left]
      exact List.prefix_append _ body

theorem posix_decimal {isAddress : Bytes → Bool} {junk : Junk} :
    (World.posix isAddress junk).Decimal where
  text := fun _ => rfl
  parse := by
    intro w v hw
    exact strtoul_decimalInt v hw

/-- A header of plain strings is measured right, and, unless a string
breaks off at a `<`, no other header is. -/
theorem header_offset_iff (hW : W.Decimal) (h : SandeshHeader)
    {name : Bytes} (hname : IsName name) (body : Bytes) :
    ((∀ v ∈ h.strings, Plain v) → OffsetExact W h name body)
      ∧ (Unbroken h.strings → OffsetExact W h name body →
        ∀ v ∈ h.strings, Plain v) := by
  refine ⟨fun hplain => ?_, fun hv => (offset_iff hW hv hname body).mp⟩
  have hv : Unbroken h.strings := fun v hmem => (hplain v hmem).1
  exact (offset_iff hW hv hname body).mpr hplain

/-- A header that only says which module it is from. -/
def SandeshHeader.ofModule (v : Bytes) : SandeshHeader :=
  { SandeshHeader.init with Module := v }

theorem header_offset_agent :
    IsName (lit "Hello") ∧ OffsetExact World.plain
      (SandeshHeader.ofModule (lit "agent")) (lit "Hello") [] := by
  refine ⟨by decide, ?_⟩
  exact (header_offset_iff posix_decimal _ (by decide) []).1 (by decide)

/-- One `<` in a string: the header is three bytes longer than it says. -/
theorem header_offset_short :
    ¬ OffsetExact World.plain (SandeshHeader.ofModule (lit "<"))
      (lit "Hello") [] := by
  intro hexact
  have hplain := (offset_iff posix_decimal
    (h := SandeshHeader.ofModule (lit "<")) (by decide) (by decide) []).mp
    hexact
  revert hplain
  decide

end Sandesh.Header
