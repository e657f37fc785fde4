/-
Reading a text piece by piece.

`Takes m s rest P` says what `m` does at the text `s` with `rest` behind
it: it reads `s`, leaves the reader at `rest`, and returns something with
`P`. The bytes behind are part of it, since a string or a number is read up
to a tag and a tag can be followed by anything. `Fails m s` says that `m`
stops short of its end. Both go through code from one call to the next
(`Takes.bind`, `Takes.fails`, `Fails.bind`).
-/
import Sandesh.CppGen.Proofs.Text

namespace Sandesh.CppGen

open Lib Xml Header LookaheadReader
open Lib.Prog (Runs runs_pure runs_throw)

variable {α β : Type} {m : Read α} {f : α → Read β} {s t rest : Bytes} {P : α → Prop}
  {Q : β → Prop}

/-- The read takes this text off what follows and returns a value of this
kind, whatever has been looked at. -/
def Takes (m : Read α) (s rest : Bytes) (P : α → Prop) : Prop :=
  ∀ r, Ready (s ++ rest) r → ∃ a r', m.Runs r (.ok a) r' ∧ P a ∧ Ready rest r'

/-- -1, an `assert`, or the end of a text that was expected to go on. -/
def Fails (m : Read α) (s : Bytes) : Prop :=
  ∀ r, Ready s r → ∃ e r', m.Runs r (.error (.fault e)) r'

-- =============================================================== rules

/-- The rules for reads in a row. -/
theorem takes_pure {a : α} (h : P a) : Takes (pure a) [] rest P :=
  fun r hr => ⟨a, r, runs_pure.mpr ⟨rfl, rfl⟩, h, hr⟩

theorem Takes.imp {P' : α → Prop} (h : Takes m s rest P) (hP : ∀ a, P a → P' a) :
    Takes m s rest P' := by
  intro r hr
  obtain ⟨a, r', hruns, ha, hr'⟩ := h r hr
  exact ⟨a, r', hruns, hP a ha, hr'⟩

theorem Takes.bind (h : Takes m s (t ++ rest) P) (hf : ∀ a, P a → Takes (f a) t rest Q) :
    Takes (m >>= f) (s ++ t) rest Q := by
  intro r hr
  rw [List.append_assoc] at hr
  obtain ⟨a, r₁, hruns, ha, hr₁⟩ := h r hr
  obtain ⟨b, r₂, hruns₂, hb, hr₂⟩ := hf a ha r₁ hr₁
  exact ⟨b, r₂, hruns.bind_ok hruns₂, hb, hr₂⟩

/-- Only the last step reads nothing. -/
theorem Takes.map (h : Takes m s rest P) {g : α → β} (hg : ∀ a, P a → Q (g a)) :
    Takes (m >>= fun a => pure (g a)) s rest Q := by
  have hbind := Takes.bind (t := []) h fun a ha => takes_pure (hg a ha)
  rwa [List.append_nil] at hbind

/-- A read that takes its text, and one that fails on what follows. -/
theorem Takes.fails (h : Takes m s rest P) (hf : ∀ a, P a → Fails (f a) rest) :
    Fails (m >>= f) (s ++ rest) := by
  intro r hr
  obtain ⟨a, r₁, hruns, ha, hr₁⟩ := h r hr
  obtain ⟨e, r₂, hruns₂⟩ := hf a ha r₁ hr₁
  exact ⟨e, r₂, hruns.bind_ok hruns₂⟩

/-- What fails, fails with anything behind it. -/
theorem Fails.bind (h : Fails m s) : Fails (m >>= f) s := by
  intro r hr
  obtain ⟨e, r₁, hruns⟩ := h r hr
  exact ⟨e, r₁, Runs.bind_error hruns⟩

-- ================================================================ tags

/-- An open tag that is read as a whole. -/
theorem takes_open {name attrs : Bytes} (hno : kcXMLTagC ∉ name ++ attrs) (rest : Bytes) :
    Takes (Reads.code.get (.tag false)) (openTag name attrs) rest
      (fun x => x = (((openTag name attrs).length : Int), name ++ attrs)) := by
  intro r hr
  obtain ⟨r', hruns, hfresh⟩ := runs_openTag hno hr.near
  exact ⟨_, r', hruns, rfl, hfresh.ready⟩

/-- A close tag, of which only the length is looked at. -/
theorem takes_close {name : Bytes} (hname : IsName name) (rest : Bytes) :
    Takes (Prod.fst <$> Reads.code.get (.tag true)) (closeTag name) rest
      (fun n => n = (closeTag name).length) := by
  intro r hr
  obtain ⟨r', hruns, hfresh⟩ := runs_closeTag hname hr.near
  exact ⟨_, r', hruns.bind_ok (runs_pure.mpr ⟨rfl, rfl⟩), rfl, hfresh.ready⟩

/-- A read that goes wrong at its first bytes. -/
theorem runs_failed {op : ReadOp} {x : Bytes} {r r' : LookaheadReader}
    (h : op.code.Runs r (.ok (-1, x)) r') :
    (Reads.code.get op).Runs r (.error (.fault .failed)) r' := by
  refine Runs.bind_ok h ?_
  have hneg : (-1 : Int) < 0 := by decide
  rw [if_pos hneg]
  exact runs_throw.mpr ⟨rfl, rfl⟩

/-- A close tag is expected and there is none. -/
theorem fails_close {c : UInt8} (hc : c ≠ kcXMLSlash) (tail : Bytes) :
    Fails (Prod.fst <$> Reads.code.get (.tag true)) (kcXMLTagO :: c :: tail) := by
  intro r hr
  obtain ⟨r₁, hread, hstream, -⟩ := read_cons hr.stream
  obtain ⟨r₂, hread₂, -⟩ := read_cons hstream
  have hm : matchSyntax (tagOpen true) r = (false, r₂) := by
    show matchSyntax [kcXMLTagO, kcXMLSlash] r = (false, r₂)
    rw [matchSyntax, hread, if_neg (not_not.mpr rfl), matchSyntax, hread₂, if_pos hc]
  have htag : (readXMLTag true).Runs r (.ok (-1, [])) r₂ := by
    rw [runs_readXMLTag, hm, if_neg Bool.false_ne_true]
    exact runs_pure.mpr ⟨rfl, rfl⟩
  exact ⟨.failed, r₂, Runs.bind_error (runs_failed htag)⟩

end Sandesh.CppGen

/-
The tags of containers, written and read: a tag comes back with its types
and its size, and then with the elements, one by one.
-/

namespace Sandesh.CppGen

open Lib Xml Header TXMLWriter TType
open Lib.Prog (Runs runs_pure)

/-- What is relied on in `base/string_util`, for the unsigned types too. -/
structure Decimals (W : World) : Prop extends W.Decimal where
  unsigned : ∀ (w : Nat) (v : BitVec w), w ≤ 64 →
    W.stringToInteger w (decimal v.toNat) = v

/-- The world of the examples prints and reads numbers in decimal. -/
theorem posix_decimals {isAddress : Bytes → Bool} {junk : Junk} :
    Decimals (World.posix isAddress junk) where
  toDecimal := posix_decimal
  unsigned := by
    intro w v hw
    have hlt : v.toNat < 2 ^ 64 :=
      Nat.lt_of_lt_of_le v.isLt (Nat.pow_le_pow_right (by decide) hw)
    have hparse := strtoul_digits (s := decimal v.toNat) (fun _ => isDigit_of_mem_decimal)
      (by rwa [decVal_decimal])
    show BitVec.ofNat w (strtoul (decimal v.toNat)) = v
    rw [hparse, decVal_decimal, BitVec.ofNat_toNat, BitVec.setWidth_eq]

variable {W : World} (hW : Decimals W)

-- =============================================================== words

/-- The attributes of a container are written as annotations are. -/
theorem elemsAttrs_eq (t : TType) (n : Nat) : elemsAttrs W t n
    = [(lit "type", fieldTypeName t),
        (lit "size", sizeText W n)].flatMap
      fun a => lit " " ++ formXMLAttr a.1 a.2 := by
  simp [elemsAttrs]

theorem mapAttrs_eq (k v : TType) (n : Nat) : mapAttrs W k v n
    = [(lit "key", fieldTypeName k), (lit "value", fieldTypeName v),
        (lit "size", sizeText W n)].flatMap
      fun a => lit " " ++ formXMLAttr a.1 a.2 := by
  simp [mapAttrs]

/-- The words of a tag, with its attributes. -/
theorem tokens_attributes {name : Bytes} (hname : IsName name) {a : Bytes × Bytes}
    (amap : List (Bytes × Bytes)) :
    tokens (name ++ (a :: amap).flatMap fun a => lit " " ++ formXMLAttr a.1 a.2)
      = name :: annotationWords (a :: amap) := by
  have hblank : name ++ (a :: amap).flatMap (fun a => lit " " ++ formXMLAttr a.1 a.2)
      = name ++ 32 :: (formXMLAttr a.1 a.2
        ++ amap.flatMap fun a => lit " " ++ formXMLAttr a.1 a.2) := by
    simp [lit]
    decide
  rw [hblank, tokens_name hname (by decide), tokens_formXMLAttr, tokens_annotations,
    annotationWords, annotationWords, List.flatMap_cons, List.append_assoc]

section Attributes

include hW

/-- A size is a word. -/
theorem isName_size (n : Nat) : IsName (sizeText W n) := by
  rw [sizeText, integerToString_nat hW.toDecimal]
  exact isName_decimal _

/-- And is read back. -/
theorem stringToInteger_size (n : Nat) :
    W.stringToInteger 32 (sizeText W n) = BitVec.ofNat 32 n := by
  rw [sizeText, integerToString_nat hW.toDecimal]
  exact hW.unsigned 32 _ (by decide)

/-- The words of the tag. -/
theorem tokens_elems {name : Bytes} (hname : IsName name) (t : TType) (n : Nat) :
    tokens (name ++ elemsAttrs W t n) = [name, lit "type", fieldTypeName t, lit "size",
      sizeText W n] := by
  have htype : tokens (lit "type") = [lit "type"] := by decide
  have hsize : tokens (lit "size") = [lit "size"] := by decide
  rw [elemsAttrs_eq, tokens_attributes hname]
  simp [annotationWords, htype, hsize, tokens_isWord (isWord_fieldTypeName t),
    tokens_isWord (isWord_of_isName (isName_size hW n))]

theorem tokens_map (k v : TType) (n : Nat) :
    tokens (lit "map" ++ mapAttrs W k v n) = [lit "map", lit "key", fieldTypeName k,
      lit "value", fieldTypeName v, lit "size",
      sizeText W n] := by
  have hkey : tokens (lit "key") = [lit "key"] := by decide
  have hvalue : tokens (lit "value") = [lit "value"] := by decide
  have hsize : tokens (lit "size") = [lit "size"] := by decide
  rw [mapAttrs_eq, tokens_attributes (by decide)]
  simp [annotationWords, hkey, hvalue, hsize, tokens_isWord (isWord_fieldTypeName k),
    tokens_isWord (isWord_fieldTypeName v), tokens_isWord (isWord_of_isName (isName_size hW n))]

/-- It ends where it should. -/
theorem not_mem_elems {name : Bytes} (hname : IsName name) (t : TType) (n : Nat) :
    kcXMLTagC ∉ name ++ elemsAttrs W t n := by
  have hkeys : kcXMLTagC ∉ lit "type" ∧ kcXMLTagC ∉ lit "size" := by decide
  rw [elemsAttrs_eq, List.mem_append, not_or]
  refine ⟨not_mem_name hname, not_mem_attributes ?_⟩
  simp only [List.forall_mem_cons]
  exact ⟨⟨hkeys.1, not_mem_fieldTypeName t⟩, ⟨hkeys.2, not_mem_name (isName_size hW n)⟩, nofun⟩

theorem not_mem_map (k v : TType) (n : Nat) : kcXMLTagC ∉ lit "map" ++ mapAttrs W k v n := by
  have hkeys : kcXMLTagC ∉ lit "key" ∧ kcXMLTagC ∉ lit "value" ∧ kcXMLTagC ∉ lit "size" := by
    decide
  rw [mapAttrs_eq, List.mem_append, not_or]
  refine ⟨by decide, not_mem_attributes ?_⟩
  simp only [List.forall_mem_cons]
  exact ⟨⟨hkeys.1, not_mem_fieldTypeName k⟩, ⟨hkeys.2.1, not_mem_fieldTypeName v⟩,
    ⟨hkeys.2.2, not_mem_name (isName_size hW n)⟩, nofun⟩

end Attributes

-- ============================================================= reading

/-- The type comes back from its name. -/
theorem getTypeIDForTypeName_name {t : TType} (ht : Named t) :
    getTypeIDForTypeName (fieldTypeName t) = .ok t := by
  cases t <;> first | decide | exact absurd ht (by decide)

/-- No word that names a type names an attribute. -/
theorem fieldTypeName_ne (t : TType) : fieldTypeName t ≠ lit "size"
    ∧ fieldTypeName t ≠ lit "value" := by
  cases t <;> decide

section Reading

include hW

/-- Type and size come back from the words. -/
theorem readAttrs_elems {t : TType} (ht : Named t) (n : Nat) (s : TType × BitVec 32) :
    readAttrs (elemAttrs W) [lit "type", fieldTypeName t, lit "size",
      sizeText W n] none s = .ok (t, BitVec.ofNat 32 n) := by
  have hne : lit "size" ≠ lit "type" := by decide
  have hsize := (fieldTypeName_ne t).1
  simp [elemAttrs, readAttrs, meets_cons, meets_nil, typeAttr, sizeAttr,
    getTypeIDForTypeName_name ht, Except.map, hne, hsize, stringToInteger_size hW]

theorem readAttrs_map {k v : TType} (hk : Named k) (hv : Named v) (n : Nat)
    (s : TType × TType × BitVec 32) :
    readAttrs [typeAttr (lit "key") fun t s => (t, s.2),
      typeAttr (lit "value") fun t s => (s.1, t, s.2.2),
      sizeAttr W fun n s => (s.1, s.2.1, n)] [lit "key", fieldTypeName k, lit "value",
      fieldTypeName v, lit "size", sizeText W n] none s
      = .ok (k, v, BitVec.ofNat 32 n) := by
  have hvalue : lit "value" ≠ lit "key" := by decide
  have hsize : lit "size" ≠ lit "key" ∧ lit "size" ≠ lit "value" := by decide
  have hk' := fieldTypeName_ne k
  have hv' := (fieldTypeName_ne v).1
  simp [readAttrs, meets_cons, meets_nil, typeAttr, sizeAttr,
    getTypeIDForTypeName_name hk, getTypeIDForTypeName_name hv, Except.map, hvalue, hsize.1,
    hsize.2, hk'.1, hk'.2, hv', stringToInteger_size hW]

omit hW in
/-- The tag of a container, by its words. -/
theorem takes_begin {σ : Type} {name attrs : Bytes} {words : List Bytes}
    {as : List (Attr σ)} {s s' : σ} (hno : kcXMLTagC ∉ name ++ attrs)
    (hwords : tokens (name ++ attrs) = name :: words)
    (hattrs : readAttrs as words none s = .ok s') (rest : Bytes) :
    Takes (readContainerBegin Reads.code name as s) (openTag name attrs) rest
      (fun x => x = (((openTag name attrs).length : Int), s')) := by
  intro r hr
  obtain ⟨r', hruns, hfresh⟩ := readTagTokens_runs hno hwords hr.near
  refine ⟨_, r', hruns.bind_ok ?_, rfl, hfresh.ready⟩
  simp only [ne_eq, not_true_eq_false, if_false]
  have hlift : (lift (readAttrs as words none s)).Runs r' (.ok s') r' := by
    rw [hattrs]
    exact runs_pure.mpr ⟨rfl, rfl⟩
  exact hlift.bind_ok (runs_pure.mpr ⟨rfl, rfl⟩)

/-- The begins of the containers, each from its tag. -/
theorem takes_listBegin {t : TType} (ht : Named t) (n : Nat) (rest : Bytes) :
    Takes (readListBegin W Reads.code) (openTag (lit "list") (elemsAttrs W t n)) rest
      (fun x => x = (((openTag (lit "list") (elemsAttrs W t n)).length : Int), t,
        BitVec.ofNat 32 n)) :=
  takes_begin (not_mem_elems hW (by decide) t n) (tokens_elems hW (by decide) t n)
    (readAttrs_elems hW ht n _) rest

theorem takes_setBegin {t : TType} (ht : Named t) (n : Nat) (rest : Bytes) :
    Takes (readSetBegin W Reads.code) (openTag (lit "set") (elemsAttrs W t n)) rest
      (fun x => x = (((openTag (lit "set") (elemsAttrs W t n)).length : Int), t,
        BitVec.ofNat 32 n)) :=
  takes_begin (not_mem_elems hW (by decide) t n) (tokens_elems hW (by decide) t n)
    (readAttrs_elems hW ht n _) rest

theorem takes_mapBegin {k v : TType} (hk : Named k) (hv : Named v) (n : Nat) (rest : Bytes) :
    Takes (readMapBegin W Reads.code) (openTag (lit "map") (mapAttrs W k v n)) rest
      (fun x => x = (((openTag (lit "map") (mapAttrs W k v n)).length : Int), k, v,
        BitVec.ofNat 32 n)) :=
  takes_begin (not_mem_map hW k v n) (tokens_map hW k v n) (readAttrs_map hW hk hv n _) rest

end Reading

/-- Every type of a definition has a name. -/
theorem Ty.named (t : Ty) : Named t.type_to_enum := by
  induction t using Ty.type_to_enum.induct with
  | case1 b => cases b <;> decide
  | case3 t ih => exact ih
  | _ => exact ⟨nofun, nofun, nofun⟩

/-- None of them is the stop. -/
theorem Ty.ne_stop (t : Ty) : t.type_to_enum ≠ T_STOP := by
  induction t using Ty.type_to_enum.induct with
  | case1 b => cases b <;> decide
  | case3 t ih => exact ih
  | _ => exact nofun

end Sandesh.CppGen
