/-
What the generated code writes for a value: its text goes behind what is
there, and the stack of open tags is as before (`serialize_eq`).
-/
import Sandesh.CppGen.Proofs.FieldBegin

namespace Sandesh.CppGen

open Lib Xml Header TXMLWriter

variable (W : World) {F : Foreign}

/-- The text of an element, with its tags or without. -/
def elementText (delimited : Bool) (s : Bytes) : Bytes :=
  if delimited then openTag (lit "element") [] ++ s ++ closeTag (lit "element") else s

/-- The size of a container in its tag. -/
def sizeText (size : Nat) : Bytes := W.integerToString (BitVec.ofNat 32 size).toNat

/-- What stands behind `list` or `set` in the tag. -/
def elemsAttrs (elemType : TType) (size : Nat) : Bytes :=
  lit " " ++ formXMLAttr (lit "type") (fieldTypeName elemType)
    ++ lit " " ++ formXMLAttr (lit "size") (sizeText W size)

/-- What stands behind `map` in the tag. -/
def mapAttrs (keyType valType : TType) (size : Nat) : Bytes :=
  lit " " ++ formXMLAttr (lit "key") (fieldTypeName keyType)
    ++ lit " " ++ formXMLAttr (lit "value") (fieldTypeName valType)
    ++ lit " " ++ formXMLAttr (lit "size") (sizeText W size)

/-- Something between the tags of a container. -/
def between (name attrs s : Bytes) : Bytes := openTag name attrs ++ s ++ closeTag name

mutual

/-- The text of a value. -/
def Ty.text : (t : Ty) → t.Val F → Bytes
  | .base b, v => b.text W v
  | .enum, v => W.integerToString (BitVec.toInt v)
  | .typedef t, v => t.text v
  | .struct name fs, r => between name [] (fs.text r)
  | .list e, vs => between (lit "list") (elemsAttrs W e.type_to_enum vs.length)
      (vs.flatMap fun v => elementText e.isBaseOrEnum (e.text v))
  | .set e, vs => between (lit "set") (elemsAttrs W e.type_to_enum vs.length)
      (vs.flatMap fun v => elementText e.isBaseOrEnum (e.text v))
  | .map k v, es => between (lit "map") (mapAttrs W k.type_to_enum v.type_to_enum es.length)
      (es.flatMap fun e => elementText k.isBaseOrEnum (k.text e.1)
        ++ elementText v.isBaseOrEnum (v.text e.2))

/-- The fields that are there, as text. -/
def Fields.text : (fs : Fields) → fs.Rec F → Bytes
  | .nil, _ => []
  | .cons f t fs, r =>
      (match f.req.get r.1 with
        | none => []
        | some v => between f.name (attrText W t.type_to_enum (BitVec.ofInt 16 f.key)
            f.annotations) (t.text v)) ++ fs.text r.2

end

-- ============================================================= writing

/-- Code that puts `s` behind what is there. -/
def Puts (code : TXMLWriter → TXMLWriter) (s : Bytes) : Prop :=
  ∀ w, code w = ⟨w.out ++ s, w.xml_state_⟩

theorem puts_plain (s : Bytes) : Puts (writePlain s) s := fun _ => rfl

theorem puts_element {code : TXMLWriter → TXMLWriter} {s : Bytes} (h : Puts code s)
    (delimited : Bool) : Puts (serializeElement delimited code) (elementText delimited s) := by
  intro w
  unfold serializeElement elementText
  split
  · rw [h]
    simp [writeContainerElementBegin, writeContainerElementEnd, writePlain, openTag, closeTag,
      lit]
  · exact h w

theorem puts_foldl {α : Type} {code : α → TXMLWriter → TXMLWriter} {s : α → Bytes}
    (h : ∀ a, Puts (code a) (s a)) (l : List α) :
    Puts (fun w => l.foldl (fun w a => code a w) w) (l.flatMap s) := by
  induction l with
  | nil =>
      intro w
      simp
  | cons a l ih =>
      intro w
      have hrest := ih ⟨w.out ++ s a, w.xml_state_⟩
      show l.foldl (fun w a => code a w) (code a w) = _
      rw [h, List.flatMap_cons, ← List.append_assoc]
      exact hrest

/-- A container: what its tags are made of does not matter here. -/
theorem puts_between {code : TXMLWriter → TXMLWriter} {s name attrs front back : Bytes}
    (h : Puts code s) (hfront : front = openTag name attrs) (hback : back = closeTag name) :
    Puts (fun w => writePlain back (code (writePlain front w))) (between name attrs s) := by
  intro w
  subst hfront hback
  show writePlain (closeTag name) (code (writePlain (openTag name attrs) w)) = _
  rw [h]
  simp [writePlain, between]

theorem elemsBegin_eq (name : Bytes) (t : TType) (size : Nat) :
    lit "<" ++ name ++ lit " " ++ formXMLAttr (lit "type") (fieldTypeName t)
      ++ lit " " ++ formXMLAttr (lit "size") (W.integerToString (BitVec.ofNat 32 size).toNat)
      ++ lit ">" = openTag name (elemsAttrs W t size) := by
  simp only [openTag, elemsAttrs, sizeText, List.append_assoc]

theorem mapBegin_eq (k v : TType) (size : Nat) :
    lit "<map " ++ formXMLAttr (lit "key") (fieldTypeName k)
      ++ lit " " ++ formXMLAttr (lit "value") (fieldTypeName v)
      ++ lit " " ++ formXMLAttr (lit "size") (W.integerToString (BitVec.ofNat 32 size).toNat)
      ++ lit ">" = openTag (lit "map") (mapAttrs W k v size) := by
  have hmap : lit "<map " = lit "<" ++ lit "map" ++ lit " " := by decide
  simp only [openTag, mapAttrs, sizeText, hmap, List.append_assoc]

mutual

theorem Ty.serialize_eq : (t : Ty) → (v : t.Val F) → Puts (t.serialize W v) (t.text W v)
  | .base _, _ => puts_plain _
  | .enum, _ => puts_plain _
  | .typedef t, v => t.serialize_eq v
  | .struct name fs, r => by
      intro w
      show writeStructEnd (fs.serialize W r (writeStructBegin name w)) = _
      rw [fs.serialize_eq r]
      simp [writeStructBegin, writeStructEnd, writeBegin, writeEnd, Ty.text, between, openTag,
        closeTag]
  | .list e, vs => puts_between (puts_foldl (fun v => puts_element (e.serialize_eq v) _) vs)
      (elemsBegin_eq W (lit "list") e.type_to_enum vs.length) (by decide)
  | .set e, vs => puts_between (puts_foldl (fun v => puts_element (e.serialize_eq v) _) vs)
      (elemsBegin_eq W (lit "set") e.type_to_enum vs.length) (by decide)
  | .map k v, es => by
      have hentry : ∀ e : k.Val F × v.Val F, Puts
          (fun w => serializeElement v.isBaseOrEnum (v.serialize W e.2)
            (serializeElement k.isBaseOrEnum (k.serialize W e.1) w))
          (elementText k.isBaseOrEnum (k.text W e.1)
            ++ elementText v.isBaseOrEnum (v.text W e.2)) := by
        intro e w
        show serializeElement v.isBaseOrEnum (v.serialize W e.2)
          (serializeElement k.isBaseOrEnum (k.serialize W e.1) w) = _
        rw [puts_element (k.serialize_eq e.1), puts_element (v.serialize_eq e.2),
          List.append_assoc]
      exact puts_between (puts_foldl hentry es)
        (mapBegin_eq W k.type_to_enum v.type_to_enum es.length) (by decide)

theorem Fields.serialize_eq : (fs : Fields) → (r : fs.Rec F) →
    Puts (fs.serialize W r) (fs.text W r)
  | .nil, _ => by
      intro w
      simp [Fields.serialize, Fields.text]
  | .cons f t fs, r => by
      intro w
      simp only [Fields.serialize, Fields.text]
      cases f.req.get r.1 with
      | none =>
          rw [fs.serialize_eq r.2]
          rfl
      | some v =>
          simp only
          rw [fs.serialize_eq r.2, t.serialize_eq v]
          simp [writeFieldBegin, writeFieldEnd, writeBegin, writeEnd, between, openTag,
            closeTag, attrText]

end

end Sandesh.CppGen
