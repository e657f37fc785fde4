/-
Which types and values are meant to come back, and the values that stand in
the text without tags around them.

A base value is read up to the next tag, or as far as there are digits. Two
of them side by side cannot be told apart, so that it matters whether a
container puts tags around its elements. It does for an element whose
declared type is a base type or an enum, and not for a typedef of one
(`Ty.undelimited`).
-/
import Sandesh.CppGen.Proofs.Containers

namespace Sandesh.CppGen

open Lib Xml Header TXMLWriter
open Lib.Prog (Runs runs_pure)

-- =============================================================== types

/-- Not ipaddr, double, xml and uuid. -/
def Base.plain : Base → Bool
  | ipaddr | double | xml | uuid => false
  | bool | byte | i16 | i32 | i64 | u16 | u32 | u64 | ipv4 | string => true

mutual

/-- Every base type below is. -/
def Ty.Plain : Ty → Prop
  | .base b => b.plain = true
  | .enum => True
  | .typedef t => t.Plain
  | .struct _ fs => fs.Plain
  | .list e => e.Plain
  | .set e => e.Plain
  | .map k v => k.Plain ∧ v.Plain

/-- The same for every field. -/
def Fields.Plain : Fields → Prop
  | .nil => True
  | .cons _ t fs => t.Plain ∧ fs.Plain

end

/-- A field whose tag comes back, with a key that an `int16_t` can hold. -/
structure Field.Sound (W : World) (f : Field) (type : TType) : Prop where
  name : IsName f.name
  key : (BitVec.ofInt 16 f.key).toInt = f.key
  tag : ∀ a ∈ f.annotations, kcXMLTagC ∉ a.1 ∧ kcXMLTagC ∉ a.2
  harmless : Harmless W type (BitVec.ofInt 16 f.key) (annotationWords f.annotations)

mutual

/-- Names are those of the IDL, and no key is used twice. -/
def Ty.Sound (W : World) : Ty → Prop
  | .base _ => True
  | .enum => True
  | .typedef t => t.Sound W
  | .struct name fs => IsName name ∧ fs.Sound W
  | .list e => e.Sound W
  | .set e => e.Sound W
  | .map k v => k.Sound W ∧ v.Sound W

/-- Every field is sound, and no id is there twice. -/
def Fields.Sound (W : World) : Fields → Prop
  | .nil => True
  | .cons f t fs => f.Sound W t.type_to_enum ∧ f.key ∉ fs.keys ∧ t.Sound W ∧ fs.Sound W

end

/-- A typedef of a base type or of an enum. -/
def Ty.undelimited (t : Ty) : Bool := t.trueBaseOrEnum && !t.isBaseOrEnum

mutual

/-- No list or set has elements without tags, and no map keys and values
both without tags. -/
def Ty.Separable : Ty → Prop
  | .base _ => True
  | .enum => True
  | .typedef t => t.Separable
  | .struct _ fs => fs.Separable
  | .list e => e.undelimited = false ∧ e.Separable
  | .set e => e.undelimited = false ∧ e.Separable
  | .map k v => (k.undelimited = false ∨ v.undelimited = false) ∧ k.Separable ∧ v.Separable

/-- The same for every field. -/
def Fields.Separable : Fields → Prop
  | .nil => True
  | .cons _ t fs => t.Separable ∧ fs.Separable

end

-- ============================================================== values

variable {F : Foreign}

/-- None of the four characters that are escaped. -/
def PlainText (s : Bytes) : Prop := ∀ c ∈ s, c ∉ lit "&'<>"

/-- Strings are plain text. -/
def Base.Legal : (b : Base) → b.Val F → Prop
  | string, v => PlainText v
  | _, _ => True

/-- For every element of a list. -/
def Every {α : Type} (P : α → Prop) (l : List α) : Prop := ∀ a ∈ l, P a

section Legal

variable (less : (t : Ty) → t.Val F → t.Val F → Bool)

mutual

/-- No string has one of the four characters, sets and the keys of maps are
in order, and sizes fit in a `uint32_t`. -/
def Ty.Legal : (t : Ty) → t.Val F → Prop
  | .base b, v => b.Legal v
  | .enum, _ => True
  | .typedef t, v => t.Legal v
  | .struct _ fs, r => fs.Legal r
  | .list e, vs => List.length vs < 2 ^ 32 ∧ Every e.Legal vs
  | .set e, vs => List.length vs < 2 ^ 32 ∧ List.Pairwise (fun a b => less e a b = true) vs
      ∧ Every e.Legal vs
  | .map k v, es => List.length es < 2 ^ 32
      ∧ List.Pairwise (fun a b => less k a.1 b.1 = true) es
      ∧ Every (fun e => k.Legal e.1 ∧ v.Legal e.2) es

/-- The same for every field that is there. -/
def Fields.Legal : (fs : Fields) → fs.Rec F → Prop
  | .nil, _ => True
  | .cons f t fs, r => (∀ v, f.req.get r.1 = some v → t.Legal v) ∧ fs.Legal r.2

end

end Legal

/-- What the standard library's and the language's `operator <` do. -/
structure StdLess (less : (t : Ty) → t.Val F → t.Val F → Bool) : Prop where
  typedef : ∀ (t : Ty) (a b : t.Val F), less (.typedef t) a b = less t a b
  bool : ∀ a b : Bool, less (.base .bool) a b = (!a && b)
  enum : ∀ a b : BitVec 32, less .enum a b = a.slt b
  byte : ∀ a b : BitVec 8, less (.base .byte) a b = a.slt b
  i16 : ∀ a b : BitVec 16, less (.base .i16) a b = a.slt b
  i32 : ∀ a b : BitVec 32, less (.base .i32) a b = a.slt b
  i64 : ∀ a b : BitVec 64, less (.base .i64) a b = a.slt b
  u16 : ∀ a b : BitVec 16, less (.base .u16) a b = a.ult b
  u32 : ∀ a b : BitVec 32, less (.base .u32) a b = a.ult b
  u64 : ∀ a b : BitVec 64, less (.base .u64) a b = a.ult b
  ipv4 : ∀ a b : BitVec 32, less (.base .ipv4) a b = a.ult b
  string : ∀ a b : Bytes, less (.base .string) a b = decide (a < b)

-- ========================================================= base values

/-- Read as far as there are digits, and not up to a tag. -/
def Base.numeric : Base → Bool
  | byte | i16 | i32 | i64 | u16 | u32 | u64 | ipv4 => true
  | bool | ipaddr | double | string | xml | uuid => false

/-- The true type is numeric. -/
def Ty.numeric : Ty → Bool
  | base b => b.numeric
  | enum => true
  | typedef t => t.numeric
  | struct _ _ | list _ | set _ | map _ _ => false

variable (W : World)

/-- What a bool is after a read of `str`. -/
def boolBack (value : Bool) (str : Bytes) : Bool :=
  if str = lit "true" then true else if str = lit "false" then false else value

/-- What a variable is after a read of `str`. -/
def Base.back : (b : Base) → b.Val F → Bytes → b.Val F
  | bool, v, str => boolBack v str
  | byte, _, str => W.stringToInteger 8 str
  | i16, _, str | u16, _, str => W.stringToInteger 16 str
  | i32, _, str | u32, _, str | ipv4, _, str => W.stringToInteger 32 str
  | i64, _, str | u64, _, str => W.stringToInteger 64 str
  | string, _, str => unescapeXMLControlChars str
  | ipaddr, v, _ | double, v, _ | xml, v, _ | uuid, v, _ => v

/-- What a variable holds once the text is read into it. -/
def Ty.back : (t : Ty) → t.Val F → Bytes → t.Val F
  | base b, v, str => b.back W v str
  | enum, _, str => W.stringToInteger 32 str
  | typedef t, v, str => t.back v str
  | struct _ _, v, _ | list _, v, _ | set _, v, _ | map _ _, v, _ => v

/-- The characters a number, or any other value, is read over. -/
def readable (numeric : Bool) (c : UInt8) : Prop :=
  if numeric then isXMLNumeric c = true else c ≠ kcXMLTagO

/-- A digit is readable either way. -/
theorem readable_of_numeric {c : UInt8} (hc : isXMLNumeric c = true) (numeric : Bool) :
    readable numeric c := by
  cases numeric with
  | true => exact hc
  | false =>
      intro heq
      rw [heq] at hc
      exact absurd hc (by decide)

section Bare

variable {s : Bytes} (tail : Bytes)

/-- A text up to the next tag. -/
theorem takes_string (hs : ∀ c ∈ s, readable false c) :
    Takes (Reads.code.get .string) s (kcXMLTagO :: tail)
      (fun x => x = ((s.length : Int), s)) := by
  intro r hr
  obtain ⟨r', hruns, hready⟩ := ready_string (fun hmem => hs _ hmem rfl) hr
  exact ⟨_, r', hruns, rfl, hready⟩

/-- Digits up to something else. -/
theorem takes_numeric {c : UInt8} (hc : isXMLNumeric c = false)
    (hs : ∀ c ∈ s, readable true c) :
    Takes (Reads.code.get .numeric) s (c :: tail) (fun x => x = ((s.length : Int), s)) := by
  intro r hr
  have hstop : ∀ d ∈ s, (!isXMLNumeric d) = false := by
    intro d hd
    rw [show isXMLNumeric d = true from hs d hd]
    rfl
  have hcode : ReadOp.numeric.code = charsLoop (fun ch => !isXMLNumeric ch) (0, []) := rfl
  obtain ⟨r', hruns, hready⟩ := ready_chars hcode hstop (by rw [hc]; rfl) hr
  exact ⟨_, r', hruns, rfl, hready⟩

variable {W}

/-- And the integer they stand for. -/
theorem takes_integer {c : UInt8} (hc : isXMLNumeric c = false) (w : Nat)
    (hs : ∀ c ∈ s, readable true c) :
    Takes (readXMLInteger W Reads.code w) s (c :: tail)
      (fun x => x.2 = W.stringToInteger w s) :=
  (takes_numeric tail hc hs).map fun _ hx => by rw [hx]

/-- A number ends where the digits end. -/
theorem Base.takes_number (b : Base) (hb : b.numeric = true) (v : b.Val F) {c : UInt8}
    (hc : isXMLNumeric c = false) (hs : ∀ c ∈ s, readable true c) :
    Takes (b.read W Reads.code v) s (c :: tail) (fun x => x.2 = b.back W v s) := by
  cases b with
  | byte => exact takes_integer tail hc 8 hs
  | i16 => exact takes_integer tail hc 16 hs
  | u16 => exact takes_integer tail hc 16 hs
  | i32 => exact takes_integer tail hc 32 hs
  | u32 => exact takes_integer tail hc 32 hs
  | ipv4 => exact takes_integer tail hc 32 hs
  | i64 => exact takes_integer tail hc 64 hs
  | u64 => exact takes_integer tail hc 64 hs
  | bool => cases hb
  | string => cases hb
  | ipaddr => cases hb
  | double => cases hb
  | xml => cases hb
  | uuid => cases hb

/-- A base value is read from whatever characters are there. -/
theorem Base.takes (b : Base) (hb : b.plain = true) (v : b.Val F)
    (hs : ∀ c ∈ s, readable b.numeric c) :
    Takes (b.read W Reads.code v) s (kcXMLTagO :: tail) (fun x => x.2 = b.back W v s) := by
  by_cases hnumeric : b.numeric = true
  · rw [hnumeric] at hs
    exact b.takes_number tail hnumeric v (by decide) hs
  · cases b with
    | bool => exact (takes_string tail hs).map fun x hx => by rw [hx]; rfl
    | string => exact (takes_string tail hs).map fun x hx => by rw [hx]; rfl
    | ipaddr => cases hb
    | double => cases hb
    | xml => cases hb
    | uuid => cases hb
    | _ => exact absurd rfl hnumeric

end Bare

-- ==================================================== what was written

/-- A plain text is not escaped. -/
theorem escape_plain {s : Bytes} (hs : PlainText s) : escapeXMLControlChars s = s := by
  unfold escapeXMLControlChars
  split
  · exact escapeInternal_plain hs
  · rfl

/-- Nor unescaped. -/
theorem unescape_plain {s : Bytes} (hs : PlainText s) : unescapeXMLControlChars s = s := by
  have hamp : chAmp ∉ s := fun hmem => hs _ hmem (by decide)
  have hback := (unescape_escapeInternal_eq_iff s).mpr (not_hasEntity_of_amp hamp)
  rwa [escapeInternal_plain hs] at hback

section Written

variable {W} (hW : Decimals W)

include hW

/-- The text of an integer is readable. -/
theorem numeric_integer (i : Int) : ∀ c ∈ W.integerToString i, readable true c :=
  isXMLNumeric_text hW.toDecimal i

/-- A signed integer comes back. -/
theorem signed_back {w : Nat} (hw : w ≤ 64) (v : BitVec w) :
    W.stringToInteger w (W.integerToString v.toInt) = v := by
  rw [hW.text]
  exact hW.parse w v hw

/-- So does an unsigned one. -/
theorem unsigned_back {w : Nat} (hw : w ≤ 64) (v : BitVec w) :
    W.stringToInteger w (W.integerToString v.toNat) = v := by
  rw [integerToString_nat hW.toDecimal]
  exact hW.unsigned w v hw

/-- The text of a legal value is readable. -/
theorem Base.text_readable (b : Base) (hb : b.plain = true) (v : b.Val F) (hv : b.Legal v) :
    ∀ c ∈ b.text W v, readable b.numeric c := by
  have hint := numeric_integer hW
  cases b with
  | bool =>
      have hall : ∀ v : Bool, ∀ c ∈ boolText v, c ≠ kcXMLTagO := by decide
      exact hall v
  | string =>
      intro c hc heq
      rw [Base.text, escape_plain hv, heq] at hc
      exact hv _ hc (by decide)
  | byte => exact hint _
  | i16 => exact hint _
  | i32 => exact hint _
  | i64 => exact hint _
  | u16 => exact hint _
  | u32 => exact hint _
  | u64 => exact hint _
  | ipv4 => exact hint _
  | ipaddr => cases hb
  | double => cases hb
  | xml => cases hb
  | uuid => cases hb

/-- And is read back as the value. -/
theorem Base.back_text (b : Base) (hb : b.plain = true) (u v : b.Val F) (hv : b.Legal v) :
    b.back W u (b.text W v) = v := by
  cases b with
  | bool =>
      have hall : ∀ u v : Bool, boolBack u (boolText v) = v := by decide
      exact hall u v
  | string =>
      show unescapeXMLControlChars (escapeXMLControlChars v) = v
      rw [escape_plain hv, unescape_plain hv]
  | byte => exact signed_back hW (by decide) _
  | i16 => exact signed_back hW (by decide) _
  | i32 => exact signed_back hW (by decide) _
  | i64 => exact signed_back hW (by decide) _
  | u16 => exact unsigned_back hW (by decide) _
  | u32 => exact unsigned_back hW (by decide) _
  | u64 => exact unsigned_back hW (by decide) _
  | ipv4 => exact unsigned_back hW (by decide) _
  | ipaddr => cases hb
  | double => cases hb
  | xml => cases hb
  | uuid => cases hb

variable {less : (t : Ty) → t.Val F → t.Val F → Bool}

/-- The same through typedefs and enums. -/
theorem Ty.text_readable : (t : Ty) → t.trueBaseOrEnum = true → t.Plain → (v : t.Val F) →
    t.Legal less v → ∀ c ∈ t.text W v, readable t.numeric c
  | .base b, _, hb, v, hv => b.text_readable hW hb v hv
  | .enum, _, _, _, _ => numeric_integer hW _
  | .typedef t, ht, hplain, v, hv => t.text_readable ht hplain v hv

/-- The value comes back. -/
theorem Ty.back_text : (t : Ty) → t.trueBaseOrEnum = true → t.Plain → (u v : t.Val F) →
    t.Legal less v → t.back W u (t.text W v) = v
  | .base b, _, hb, u, v, hv => b.back_text hW hb u v hv
  | .enum, _, _, _, v, _ => signed_back hW (by decide) v
  | .typedef t, ht, hplain, u, v, hv => t.back_text ht hplain u v hv

omit hW in
/-- The emitted reader takes such a text. -/
theorem Ty.takes_bare {junk : Bool} : (t : Ty) → t.trueBaseOrEnum = true → t.Plain →
    (v : t.Val F) → {s : Bytes} → (∀ c ∈ s, readable t.numeric c) → (tail : Bytes) →
    Takes (t.deserialize W Reads.code junk less v) s (kcXMLTagO :: tail)
      (fun x => x.2 = t.back W v s)
  | .base b, _, hb, v, _, hs, tail => b.takes tail hb v hs
  | .enum, _, _, v, _, hs, tail => Base.takes (F := F) tail .i32 rfl v hs
  | .typedef t, ht, hplain, v, _, hs, tail => t.takes_bare ht hplain v hs tail

omit hW in
/-- Where it is a number, in front of anything else. -/
theorem Ty.takes_number {junk : Bool} : (t : Ty) → t.numeric = true → (v : t.Val F) →
    {s : Bytes} → (∀ c ∈ s, readable true c) → {c : UInt8} → isXMLNumeric c = false →
    (tail : Bytes) →
    Takes (t.deserialize W Reads.code junk less v) s (c :: tail) (fun x => x.2 = t.back W v s)
  | .base b, hb, v, _, hs, _, hc, tail => b.takes_number tail hb v hc hs
  | .enum, _, v, _, hs, _, hc, tail => Base.takes_number (F := F) tail .i32 rfl v hc hs
  | .typedef t, ht, v, _, hs, _, hc, tail => t.takes_number ht v hs hc tail

end Written

end Sandesh.CppGen
