/-
`skip` on values that have no tags of their own.

A number is skipped as far as there are digits, anything else up to the
next tag. Where no tag comes first (`Base.settles` at no characters at
all), nothing is read: only an ipaddr, a double and an xml are noticed to
be missing.
-/
import Sandesh.CppGen.Proofs.Settles

namespace Sandesh.CppGen

open Lib Xml Header LookaheadReader
open Lib.Prog (Runs runs_pure runs_throw runs_fix)

variable {W : World}

-- ====================================================== the recursion

section Recursion

variable {R : Reads} {type : TType} {s rest : Bytes} {good : Prop} {P : Int → Prop}
  {Q : Bytes → Prop}

theorem Takes.skip (h : Takes (skipBody W R (skip W R) type) s rest P) :
    Takes (skip W R type) s rest P := by
  intro r hr
  obtain ⟨n, r', hruns, hn, hr'⟩ := h r hr
  exact ⟨n, r', runs_fix.mpr hruns, hn, hr'⟩

theorem Fails.skip (h : Fails (skipBody W R (skip W R) type) s) : Fails (skip W R type) s := by
  intro r hr
  obtain ⟨e, r', hruns⟩ := h r hr
  exact ⟨e, r', runs_fix.mpr hruns⟩

theorem Settles.skip (h : Settles (skipBody W R (skip W R) type) s rest good P) :
    Settles (skip W R type) s rest good P :=
  ⟨fun hgood => (h.takes hgood).skip, fun hbad => (h.fails hbad).skip⟩

end Recursion

-- ================================================== characters to a tag

/-- What is skipped of the characters that stand before a tag. -/
def Base.front (b : Base) (s : Bytes) : Bytes :=
  if b.numeric then s.takeWhile isXMLNumeric else s

/-- What is left of them. -/
def Base.left (b : Base) (s : Bytes) : Bytes :=
  if b.numeric then s.dropWhile isXMLNumeric else []

/-- The characters before a tag will do. -/
def Base.Accepts (W : World) : Base → Bytes → Prop
  | ipaddr, s => W.isAddress s = true
  | double, _ => False
  | bool, _ | byte, _ | i16, _ | i32, _ | i64, _ | u16, _ | u32, _ | u64, _ | ipv4, _
  | string, _ | xml, _ | uuid, _ => True

theorem Base.front_append_left (b : Base) (s : Bytes) : b.front s ++ b.left s = s := by
  unfold Base.front Base.left
  split
  · exact List.takeWhile_append_dropWhile
  · exact List.append_nil s

/-- A number ends before a character that is none of its own. -/
theorem exists_stop (s tail : Bytes) : ∃ c tail',
    s.dropWhile isXMLNumeric ++ kcXMLTagO :: tail = c :: tail' ∧ isXMLNumeric c = false := by
  cases hdrop : s.dropWhile isXMLNumeric with
  | nil => exact ⟨kcXMLTagO, tail, rfl, by decide⟩
  | cons c cs =>
      have hhead := List.head?_dropWhile_not isXMLNumeric s
      rw [hdrop] at hhead
      exact ⟨c, cs ++ kcXMLTagO :: tail, rfl, by simpa using hhead⟩

section Characters

variable {s : Bytes} (tail : Bytes)

theorem takes_digits (w : Nat) (s : Bytes) :
    Takes (Prod.fst <$> readXMLInteger W Reads.code w) (s.takeWhile isXMLNumeric)
      (s.dropWhile isXMLNumeric ++ kcXMLTagO :: tail)
      (fun n => n = (s.takeWhile isXMLNumeric).length) := by
  obtain ⟨c, tail', hstop, hc⟩ := exists_stop s tail
  have hall : ∀ c ∈ s.takeWhile isXMLNumeric, readable true c :=
    fun c hmem => List.mem_takeWhile_imp hmem
  have hcount := (takes_numeric tail' hc hall).map (g := fun x => (x.1, W.stringToInteger w x.2))
    (Q := fun x => x.1 = ((s.takeWhile isXMLNumeric).length : Int)) fun x hx => by rw [hx]
  rw [hstop]
  exact hcount.map fun x hx => hx

theorem takes_upTo (hs : kcXMLTagO ∉ s) :
    Takes (Prod.fst <$> Reads.code.get .string) s (kcXMLTagO :: tail)
      (fun n => n = s.length) := by
  have hall : ∀ c ∈ s, readable false c := by
    intro c hmem heq
    exact hs (heq ▸ hmem)
  exact (takes_string tail hall).map fun x hx => by rw [hx]

/-- An ipaddr has to be one. -/
theorem settles_address (hs : kcXMLTagO ∉ s) :
    Settles (readIPADDR W Reads.code) s (kcXMLTagO :: tail) (W.isAddress s = true)
      (fun n => n = s.length) := by
  have hall : ∀ c ∈ s, readable false c := by
    intro c hmem heq
    exact hs (heq ▸ hmem)
  have hstring := (takes_string tail hall).settles trivial
  have hcheck : Settles (readIPADDR W Reads.code) (s ++ []) (kcXMLTagO :: tail)
      (True ∧ W.isAddress s = true) (fun n => n = s.length) := by
    refine hstring.bind fun x hx => ?_
    subst hx
    constructor
    · intro haddress
      simp only [if_pos haddress]
      exact takes_pure rfl
    · intro hno r _
      simp only [if_neg hno]
      exact ⟨.failed, r, runs_throw.mpr ⟨rfl, rfl⟩⟩
  rw [List.append_nil] at hcheck
  exact hcheck.congr (by rw [true_and])

/-- Any base type but xml, with whatever characters there are. -/
theorem Base.settles (b : Base) (hb : b ≠ .xml) (hs : kcXMLTagO ∉ s) :
    Settles (skip W Reads.code b.type_to_enum) (b.front s) (b.left s ++ kcXMLTagO :: tail)
      (b.Accepts W s) (fun n => n = (b.front s).length) := by
  have hdigits : ∀ w, Settles (Prod.fst <$> readXMLInteger W Reads.code w)
      (s.takeWhile isXMLNumeric) (s.dropWhile isXMLNumeric ++ kcXMLTagO :: tail) True
      (fun n => n = (s.takeWhile isXMLNumeric).length) := fun w =>
    (takes_digits tail w s).settles trivial
  have hstring := (takes_upTo tail hs).settles trivial
  apply Settles.skip
  cases b with
  | byte => exact hdigits 8
  | i16 => exact hdigits 16
  | u16 => exact hdigits 16
  | i32 => exact hdigits 32
  | u32 => exact hdigits 32
  | ipv4 => exact hdigits 32
  | i64 => exact hdigits 64
  | u64 => exact hdigits 64
  | bool => exact hstring
  | string => exact hstring
  | uuid => exact hstring
  | ipaddr => exact settles_address tail hs
  | double =>
      refine Fails.settles (fun r _ => ?_) not_false
      exact ⟨.double, r, runs_throw.mpr ⟨rfl, rfl⟩⟩
  | xml => exact absurd rfl hb

theorem Base.ne_double {b : Base} (h : b.Accepts W s) : b ≠ .double := by
  intro heq
  subst heq
  exact h

/-- Characters that are all of them skipped. -/
theorem Base.settles_all {b : Base} (hb : b ≠ .xml) (hs : kcXMLTagO ∉ s)
    (hnumeric : b.numeric = true → ∀ c ∈ s, isXMLNumeric c = true) :
    Settles (skip W Reads.code b.type_to_enum) s (kcXMLTagO :: tail) (b.Accepts W s)
      (fun n => n = s.length) := by
  have hleft : b.left s = [] := by
    unfold Base.left
    split
    · rename_i hnum
      exact List.dropWhile_eq_nil_iff.mpr (hnumeric hnum)
    · rfl
  have hfront := b.front_append_left s
  rw [hleft, List.append_nil] at hfront
  have hsettles := b.settles (W := W) tail hb hs
  rwa [hleft, hfront] at hsettles

end Characters

-- ================================================================= xml

variable {F : Foreign}

/-- A section without an end in it. -/
theorem takes_cdata {s : Bytes} (hs : ¬ kXMLCDATAC <:+: s) (rest : Bytes) :
    Takes (Prod.fst <$> Reads.code.get .cdata) (xmlText s) rest
      (fun n => n = (xmlText s).length) := by
  intro r hr
  obtain ⟨r', hruns, hfresh⟩ := runs_cdata hs hr.near
  refine ⟨_, r', hruns.bind_ok (runs_pure.mpr ⟨rfl, rfl⟩), ?_, hfresh.ready⟩
  simp only [xmlText, List.length_append, Int.natCast_add]
  rfl

/-- A tag is not a section. -/
theorem fails_cdata {c : UInt8} (hc : c ≠ 33) (tail : Bytes) :
    Fails (Prod.fst <$> Reads.code.get .cdata) (kcXMLTagO :: c :: tail) := by
  intro r hr
  obtain ⟨r₁, hread, hstream, -⟩ := read_cons hr.stream
  obtain ⟨r₂, hread₂, -⟩ := read_cons hstream
  have hm : matchSyntax kXMLCDATAO r = (false, r₂) := by
    show matchSyntax (kcXMLTagO :: 33 :: lit "[CDATA[") r = (false, r₂)
    rw [matchSyntax, hread, if_neg (not_not.mpr rfl), matchSyntax, hread₂, if_pos hc]
  have hcdata : readXMLCDATA.Runs r (.ok (-1, [])) r₂ := by
    rw [runs_readXMLCDATA, hm, if_neg Bool.false_ne_true]
    exact runs_pure.mpr ⟨rfl, rfl⟩
  exact ⟨.failed, r₂, Runs.bind_error (runs_failed hcdata)⟩

/-- Before a tag no base value gets ahead. -/
theorem Base.stays (b : Base) {c : UInt8} (hc : c ≠ 33) (tail : Bytes) :
    Goes (skip W Reads.code b.type_to_enum) (kcXMLTagO :: c :: tail)
      (fun s => s = kcXMLTagO :: c :: tail) := by
  by_cases hb : b = .xml
  · subst hb
    refine Fails.goes (Fails.skip ?_)
    exact fails_cdata hc tail
  · have hnone : b.front [] = [] ∧ b.left [] = [] := List.append_eq_nil_iff.mp
      (b.front_append_left [])
    have hsettles := b.settles (W := W) (s := []) (c :: tail) hb List.not_mem_nil
    rw [hnone.1, hnone.2] at hsettles
    exact hsettles.goes rfl

-- ============================================================== values

/-- What boost and the standard library print for addresses, uuids and
doubles; and an address is one. -/
structure Foreign.Texts (W : World) (F : Foreign) : Prop where
  address : ∀ a, W.isAddress (F.address_to_string a) = true
  addressTag : ∀ a, kcXMLTagO ∉ F.address_to_string a
  uuid : ∀ u, PlainText (F.uuid_to_string u)
  double : ∀ d, kcXMLTagO ∉ F.double_to_string d

/-- No string has a `<` left once it is escaped, which takes a nul in front
of it, and no xml has the end of a section in it. -/
def Base.Clean : (b : Base) → b.Val F → Prop
  | string, v => kcXMLTagO ∉ escapeXMLControlChars v
  | xml, v => ¬ kXMLCDATAC <:+: v
  | bool, _ | byte, _ | i16, _ | i32, _ | i64, _ | u16, _ | u32, _ | u64, _ | ipv4, _
  | ipaddr, _ | double, _ | uuid, _ => True

theorem numeric_ne {s : Bytes} (hs : ∀ c ∈ s, isXMLNumeric c = true) : kcXMLTagO ∉ s := by
  intro hmem
  exact absurd (hs _ hmem) (by decide)

section Written

variable (hW : Decimals W) (hF : F.Texts W)

include hW

theorem Base.text_numeric (b : Base) (hb : b.numeric = true) (v : b.Val F) :
    ∀ c ∈ b.text W v, isXMLNumeric c = true := by
  have hint := isXMLNumeric_text hW.toDecimal
  cases b with
  | byte => exact hint _
  | i16 => exact hint _
  | i32 => exact hint _
  | i64 => exact hint _
  | u16 => exact hint _
  | u32 => exact hint _
  | u64 => exact hint _
  | ipv4 => exact hint _
  | bool => cases hb
  | string => cases hb
  | ipaddr => cases hb
  | double => cases hb
  | xml => cases hb
  | uuid => cases hb

include hF

/-- The text of a value has no tag in it. -/
theorem Base.text_ne (b : Base) (hb : b ≠ .xml) (v : b.Val F) (hv : b.Clean v) :
    kcXMLTagO ∉ b.text W v := by
  by_cases hnumeric : b.numeric = true
  · exact numeric_ne (b.text_numeric hW hnumeric v)
  · cases b with
    | bool =>
        have hall : ∀ v : Bool, kcXMLTagO ∉ boolText v := by decide
        exact hall v
    | string => exact hv
    | ipaddr => exact hF.addressTag v
    | double => exact hF.double v
    | uuid =>
        show kcXMLTagO ∉ escapeXMLControlChars (F.uuid_to_string v)
        rw [escape_plain (hF.uuid v)]
        exact fun hmem => hF.uuid v _ hmem (by decide)
    | xml => exact absurd rfl hb
    | _ => exact absurd rfl hnumeric

omit hW in
theorem Base.accepts_text (b : Base) (v : b.Val F) : b.Accepts W (b.text W v) ↔ b ≠ .double := by
  cases b with
  | ipaddr => exact iff_of_true (hF.address v) nofun
  | double => exact iff_of_false not_false (not_not.mpr rfl)
  | _ => exact iff_of_true trivial nofun

end Written

end Sandesh.CppGen
