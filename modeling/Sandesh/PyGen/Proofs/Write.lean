/-
What Python writes, read in C++ (`python_in_cpp`).

The text of an object is the text of its `value` under the IDL that is
`written` (`write_eq`): the only work is that the fields, which the writer
has sorted, are those of the sorted IDL. From there on it is a matter of
versions: what the reader adopts of that value is `toCpp`, and it can adopt
it if the object is `Complete`.
-/
import Sandesh.CppGen.Proofs.Versions
import Sandesh.Py.Proofs.HeaderLen
import Sandesh.PyGen.Views

namespace Sandesh.CppGen

open Lib Xml

variable {F : Foreign} {less : (t : Ty) → t.Val F → t.Val F → Bool} {W : World}

-- ==================================================== fields by their ids

/-- Inserted, a field is one of them. -/
theorem Fields.mem_insert {f : Field} {t : Ty} {key : Int} (gs : Fields) :
    key ∈ (gs.insert f t).keys ↔ key = f.key ∨ key ∈ gs.keys := by
  induction gs using Fields.induct with
  | nil => simp [Fields.insert, Fields.keys]
  | cons g u gs ih =>
      rw [Fields.insert]
      cases decide (f.key ≤ g.key) with
      | true => simp [Fields.place, Fields.keys]
      | false =>
          simp only [Fields.place, Fields.keys, List.mem_cons, ih]
          tauto

/-- A field is offered whatever its place. -/
theorem Fields.offer_insert {f : Field} {t : Ty} (v : f.req.Slot (t.Val F)) (key : Int) (u : Ty) :
    (gs : Fields) → f.key ∉ gs.keys → (x : gs.Rec F) →
    (gs.insert f t).offer less (gs.insertRec f v x) key u
      = if f.key = key then
          if t.type_to_enum = u.type_to_enum then (f.req.get v).map (t.adopt less u) else none
        else gs.offer less x key u
  | .nil, _, _ => rfl
  | .cons g w gs, hkey, x => by
      obtain ⟨hne, hkey⟩ := not_or.mp (mt List.mem_cons.mpr hkey)
      have ih := gs.offer_insert v key u hkey x.2
      rw [Fields.insertRec]
      show (Fields.place (decide (f.key ≤ g.key)) f t g w gs (gs.insert f t)).offer less _ key u = _
      cases decide (f.key ≤ g.key) with
      | true => rfl
      | false =>
          show (if g.key = key then _ else (gs.insert f t).offer less (gs.insertRec f v x.2) key u)
            = if f.key = key then _ else if g.key = key then _ else gs.offer less x.2 key u
          rw [ih]
          by_cases hg : g.key = key
          · have hf : f.key ≠ key := fun hf => hne (hf.trans hg.symm)
            rw [if_pos hg, if_neg hf, if_pos hg]
            rfl
          · rw [if_neg hg, if_neg hg]

/-- What is said of one field that is written, and of the others. -/
theorem Fields.meant_insert {f : Field} {t : Ty} {us : Fields} (v : f.req.Slot (t.Val F))
    (gs : Fields) (x : gs.Rec F) :
    (gs.insert f t).Meant less us (gs.insertRec f v x)
      ↔ (Fields.cons f t gs).Meant less us (v, x) := by
  induction gs using Fields.induct with
  | nil => exact Iff.rfl
  | cons g w gs ih =>
      have ih : (gs.insert f t).Meant less us (gs.insertRec f v x.2)
          ↔ (Fields.cons f t gs).Meant less us (v, x.2) := ih x.2
      rw [Fields.insertRec]
      show (Fields.place (decide (f.key ≤ g.key)) f t g w gs (gs.insert f t)).Meant less us _ ↔ _
      cases decide (f.key ≤ g.key) with
      | true => exact Iff.rfl
      | false =>
          refine (and_congr_right fun _ => ih).trans ?_
          exact and_left_comm

/-- What can be adopted does not depend on where a field stands. -/
theorem Fields.adoptable_insert {f : Field} {t : Ty} {us : Fields} (v : f.req.Slot (t.Val F))
    (gs : Fields) (x : gs.Rec F) :
    (gs.insert f t).Adoptable less W us (gs.insertRec f v x)
      ↔ (Fields.cons f t gs).Adoptable less W us (v, x) := by
  induction gs using Fields.induct with
  | nil => exact Iff.rfl
  | cons g w gs ih =>
      have ih : (gs.insert f t).Adoptable less W us (gs.insertRec f v x.2)
          ↔ (Fields.cons f t gs).Adoptable less W us (v, x.2) := ih x.2
      rw [Fields.insertRec]
      show (Fields.place (decide (f.key ≤ g.key)) f t g w gs (gs.insert f t)).Adoptable less W us _
        ↔ _
      cases decide (f.key ≤ g.key) with
      | true => exact Iff.rfl
      | false =>
          refine (and_congr_right fun _ => ih).trans ?_
          exact and_left_comm

/-- Each field of `fs` is a field of `us`. -/
def Fields.KnownIn : Fields → Fields → Prop
  | .nil, _ => True
  | .cons f t fs, us => us.known f.key t.type_to_enum = some t ∧ fs.KnownIn us

/-- One more field at the reader takes none away, if its id is new. -/
theorem Fields.KnownIn.cons {us : Fields} {g : Field} {u : Ty} : (fs : Fields) →
    fs.KnownIn us → g.key ∉ fs.keys → fs.KnownIn (.cons g u us)
  | .nil, _, _ => trivial
  | .cons f t fs, h, hkey => by
      obtain ⟨hne, hkey⟩ := not_or.mp (mt List.mem_cons.mpr hkey)
      refine ⟨?_, Fields.KnownIn.cons fs h.2 hkey⟩
      rw [Fields.known, if_neg fun heq => hne heq.symm]
      exact h.1

/-- Every field is known where all of them are declared. -/
theorem Fields.knownIn_self : (fs : Fields) → fs.keys.Nodup → fs.KnownIn fs
  | .nil, _ => trivial
  | .cons f t fs, h => by
      obtain ⟨hkey, hdistinct⟩ := List.nodup_cons.mp h
      refine ⟨?_, Fields.KnownIn.cons fs (fs.knownIn_self hdistinct) hkey⟩
      rw [Fields.known, if_pos rfl, if_pos rfl]

end Sandesh.CppGen

namespace Sandesh.PyGen

open Lib Xml Header CppGen
open Header.TXMLWriter (writePlain writeBegin writeEnd formXMLAttr)
open Lib.Prog (Runs)

variable {L : Libs} {F : Foreign} {A : Conversion L F} {W : World}
  {less : (t : Ty) → t.Val F → t.Val F → Bool}
  {order : List (Bytes × Bytes) → List (Bytes × Bytes)}

-- ============================================================= the text

/-- A writer that puts `s` behind what is there, and does not fail. -/
def Prints (m : Write) (s : Bytes) : Prop := ∀ w, m w = some ⟨w.out ++ s, w.xml_state_⟩

/-- Both languages have the same names for the types. -/
theorem fieldTypeName_eq (t : TType) : Py.fieldTypeName t = TXMLWriter.fieldTypeName t := by
  cases t <;> rfl

/-- The rules for what a write appends: a text, an element, a loop, nothing,
and one thing behind another. -/
theorem prints_plain (s : Bytes) : Prints (fun w => some (writePlain s w)) s := fun _ => rfl

/-- With or without tags around it. -/
theorem prints_element {m : Write} {s : Bytes} (h : Prints m s) (delimited : Bool) :
    Prints (writeElement delimited m) (elementText delimited s) := by
  intro w
  unfold writeElement elementText
  split
  · rw [h, Option.map_some]
    simp [writeContainerElementBegin, writeContainerElementEnd, writePlain, openTag, closeTag,
      lit]
  · exact h w

/-- A loop writes its items in a row. -/
theorem prints_foldlM {α : Type} {m : α → Write} {s : α → Bytes} {l : List α}
    (h : ∀ a ∈ l, Prints (m a) (s a)) :
    Prints (fun w => l.foldlM (fun w a => m a w) w) (l.flatMap s) := by
  induction l with
  | nil =>
      intro w
      simp
  | cons a l ih =>
      intro w
      obtain ⟨ha, hl⟩ := List.forall_mem_cons.mp h
      show List.foldlM (fun w a => m a w) w (a :: l) = _
      rw [List.foldlM_cons, ha, List.flatMap_cons, ← List.append_assoc]
      exact ih hl ⟨w.out ++ s a, w.xml_state_⟩

/-- A write that does nothing. -/
theorem prints_nothing : Prints some [] := fun w =>
  congrArg (fun s => some (TXMLWriter.mk s w.xml_state_)) (List.append_nil w.out).symm

/-- One write behind another. -/
theorem prints_entry {m m' : Write} {s s' : Bytes} (h : Prints m s) (h' : Prints m' s') :
    Prints (fun w => m w >>= m') (s ++ s') := by
  intro w
  show m w >>= m' = _
  rw [h, Option.bind_eq_bind, Option.bind_some, h', List.append_assoc]

/-- A container. -/
theorem prints_between {m : Write} {s name attrs front back : Bytes} (h : Prints m s)
    (hfront : front = openTag name attrs) (hback : back = closeTag name) :
    Prints (fun w => (m (writePlain front w)).map (writePlain back)) (between name attrs s) := by
  intro w
  subst hfront hback
  show (m (writePlain (openTag name attrs) w)).map _ = _
  rw [h]
  simp [writePlain, between]

/-- An xml stands in a CDATA section in either language. -/
theorem writeXML_prints (v : Bytes) : Prints (fun w => some (Py.writeXML v w))
    (Base.text W (F := F) .xml v) := by
  intro w
  have htext : Base.text W (F := F) .xml v = lit "<![CDATA[" ++ v ++ lit "]]>" := rfl
  rw [htext]
  simp [Py.writeXML, writePlain]

section Base

variable (hW : Decimals W) (hF : F.Texts W)

include hW

/-- A number is its decimal text in either language; the C++ side takes it
out of its width first. -/
theorem intText_eq (w : Nat) (i : Int) :
    Py.intText w i = W.integerToString (BitVec.ofInt w i).toInt := (hW.text _).symm

/-- The same without a sign. -/
theorem uintText_eq (w : Nat) (i : Int) :
    uintText w i = W.integerToString (BitVec.ofInt w i).toNat :=
  (integerToString_nat hW.toDecimal _).symm

/-- A size below 2^32 is itself in the attribute. -/
theorem sizeText_eq {n : Nat} (hn : n < 2 ^ 32) : sizeText W n = decimal n := by
  rw [sizeText, integerToString_nat hW.toDecimal, BitVec.toNat_ofNat, Nat.mod_eq_of_lt hn]

include hF

/-- A value of a base type is written as C++ writes what it stands for. -/
theorem base_prints (b : Base) (v : BaseObj L b) (hv : BaseFine A b v) :
    Prints (fun w => some (writeBase b v w)) (b.text W (baseValue A b v)) := by
  have hint : ∀ w : Nat, ∀ i : Int, Prints (fun x => some (writePlain (Py.intText w i) x))
      (W.integerToString (BitVec.ofInt w i).toInt) := by
    intro w i
    rw [← intText_eq hW]
    exact prints_plain _
  have huint : ∀ w : Nat, ∀ i : Int, Prints (fun x => some (writePlain (uintText w i) x))
      (W.integerToString (BitVec.ofInt w i).toNat) := by
    intro w i
    rw [← uintText_eq hW]
    exact prints_plain _
  cases b with
  | bool =>
      intro w
      cases v <;> rfl
  | byte => exact hint 8 v
  | i16 => exact hint 16 v
  | i32 => exact hint 32 v
  | i64 => exact hint 64 v
  | u16 => exact huint 16 v
  | u32 => exact huint 32 v
  | ipv4 => exact huint 32 v
  | u64 => exact huint 64 v
  | ipaddr =>
      have htext : Base.text W .ipaddr (baseValue A .ipaddr v) = L.str v := hv.1
      rw [htext]
      exact prints_plain _
  | uuid =>
      have htext : Base.text W .uuid (baseValue A .uuid v) = L.str v :=
        (escape_plain (hF.uuid _)).trans hv.1
      rw [htext]
      exact prints_plain _
  | double => exact hv.elim
  | string =>
      have htext : Base.text W (F := F) .string v = Py.escape v :=
        (escapeXMLControlChars_eq hv.1).trans (Py.escape_eq v).symm
      intro w
      show some (writePlain (Py.escape v) w) = _
      rw [← htext]
      rfl
  | xml => exact writeXML_prints v

end Base

-- ============================================================ what is written

section Shape

variable (order)

/-- The type on the wire does not change when the fields are sorted, and
nothing that depends on it does. -/
theorem written_enum : (t : Ty) → (written order t).type_to_enum = t.type_to_enum
  | .base _ | .enum | .struct _ _ | .list _ | .set _ | .map _ _ => rfl
  | .typedef t => written_enum t

theorem written_isBaseOrEnum (t : Ty) : (written order t).isBaseOrEnum = t.isBaseOrEnum := by
  cases t <;> rfl

theorem written_trueBaseOrEnum : (t : Ty) →
    (written order t).trueBaseOrEnum = t.trueBaseOrEnum
  | .base _ | .enum | .struct _ _ | .list _ | .set _ | .map _ _ => rfl
  | .typedef t => written_trueBaseOrEnum t

theorem written_undelimited (t : Ty) : (written order t).undelimited = t.undelimited := by
  rw [Ty.undelimited, Ty.undelimited, written_trueBaseOrEnum, written_isBaseOrEnum]

end Shape

/-- Sorting keeps the ids. -/
theorem mem_writtenFields {key : Int} (fs : Fields) :
    key ∈ (writtenFields order fs).keys ↔ key ∈ fs.keys := by
  induction fs using Fields.induct with
  | nil => exact Iff.rfl
  | cons f t fs ih =>
      rw [writtenFields, Fields.mem_insert, ih]
      exact List.mem_cons.symm

-- ============================================================ the fields

/-- What is written of a field. -/
def fieldText (W : World) (f : Field) (t : Ty) (v : f.req.Slot (t.Val F)) : Bytes :=
  match f.req.get v with
  | none => []
  | some v => between f.name (attrText W t.type_to_enum (BitVec.ofInt 16 f.key) f.annotations)
      (t.text W v)

/-- The writers of the fields, in step with them. -/
def PrintsAll (W : World) : List (Int × Write) → (gs : Fields) → gs.Rec F → Prop
  | [], .nil, _ => True
  | p :: ps, .cons g u gs, x => p.1 = g.key ∧ Prints p.2 (fieldText W g u x.1)
      ∧ PrintsAll W ps gs x.2
  | _, _, _ => False

/-- One is put where its field is put. -/
theorem printsAll_insert {f : Field} {t : Ty} {v : f.req.Slot (t.Val F)} {m : Write}
    (h : Prints m (fieldText W f t v)) : (ps : List (Int × Write)) → (gs : Fields) →
    (x : gs.Rec F) → PrintsAll W ps gs x →
    PrintsAll W (ps.orderedInsert (fun p q => p.1 ≤ q.1) (f.key, m)) (gs.insert f t)
      (gs.insertRec f v x)
  | [], .nil, _, _ => ⟨rfl, h, trivial⟩
  | p :: ps, .cons g u gs, x, hps => by
      have ih := printsAll_insert h ps gs x.2 hps.2.2
      rw [List.orderedInsert, Fields.insertRec]
      show PrintsAll W _ (Fields.place (decide (f.key ≤ g.key)) f t g u gs (gs.insert f t)) _
      simp only [hps.1]
      by_cases hle : f.key ≤ g.key
      · rw [if_pos hle, decide_eq_true hle]
        exact ⟨rfl, h, hps⟩
      · rw [if_neg hle, decide_eq_false hle]
        exact ⟨hps.1, hps.2.1, ih⟩

/-- The writes of all fields, from those of each. -/
theorem prints_all : (ps : List (Int × Write)) → (gs : Fields) → (x : gs.Rec F) →
    PrintsAll W ps gs x → Prints (fun w => ps.foldlM (fun w (p : Int × Write) => p.2 w) w)
      (gs.text W x)
  | [], .nil, _, _ => fun w => by simp [Fields.text]
  | p :: ps, .cons g u gs, x, h => by
      intro w
      have ih := prints_all ps gs x.2 h.2.2
      have htext : (Fields.cons g u gs).text W x = fieldText W g u x.1 ++ gs.text W x.2 := rfl
      show List.foldlM (fun w (p : Int × Write) => p.2 w) w (p :: ps) = _
      rw [List.foldlM_cons, h.2.1, htext, ← List.append_assoc]
      exact ih ⟨w.out ++ fieldText W g u x.1, w.xml_state_⟩

section Fields

variable (hW : Decimals W)

include hW

/-- The tag, the value and the end of a field that is there. -/
theorem prints_field {f : Field} {t : Ty} (hf : f.Sound W t.type_to_enum)
    (htable : untabled f = false) {m : Write} {v : (written order t).Val F}
    (h : Prints m ((written order t).text W v)) :
    Prints (writeField order f t.type_to_enum m)
      (fieldText W (writtenField order f) (written order t) (some v)) := by
  intro w
  have hid : W.integerToString (BitVec.ofInt 16 f.key).toInt = decimalInt f.key := by
    rw [hf.key]
    exact hW.text _
  show _ = some (TXMLWriter.mk (w.out ++ between f.name (attrText W (written order t).type_to_enum
    (BitVec.ofInt 16 f.key) (order f.annotations)) _) _)
  unfold writeField attrText
  rw [if_neg (by rw [htable]; decide), h, hid, written_enum, ← fieldTypeName_eq]
  simp [writeFieldBegin, writeBegin, writeEnd, between, openTag, closeTag]

/-- The open tags of containers are the same texts. -/
theorem elemsBegin_eq' (name : Bytes) (t : TType) {n : Nat} (hn : n < 2 ^ 32) :
    lit "<" ++ name ++ lit " " ++ formXMLAttr (lit "type") (Py.fieldTypeName t)
      ++ lit " " ++ formXMLAttr (lit "size") (decimal n) ++ lit ">"
      = openTag name (elemsAttrs W t n) := by
  simp only [openTag, elemsAttrs, sizeText_eq hW hn, fieldTypeName_eq, List.append_assoc]

theorem mapBegin_eq' (k v : TType) {n : Nat} (hn : n < 2 ^ 32) :
    lit "<map " ++ formXMLAttr (lit "key") (Py.fieldTypeName k)
      ++ lit " " ++ formXMLAttr (lit "value") (Py.fieldTypeName v)
      ++ lit " " ++ formXMLAttr (lit "size") (decimal n) ++ lit ">"
      = openTag (lit "map") (mapAttrs W k v n) := by
  have hmap : lit "<map " = lit "<" ++ lit "map" ++ lit " " := by decide
  simp only [openTag, mapAttrs, sizeText_eq hW hn, hmap, fieldTypeName_eq, List.append_assoc]

end Fields

/-- The text of a container, by its elements. -/
theorem text_written_list (e : Ty) (o : List (Obj L e)) :
    (written order (.list e)).text W (value A order (.list e) o)
      = between (lit "list") (elemsAttrs W e.type_to_enum o.length)
        (o.flatMap fun v => elementText e.isBaseOrEnum
          ((written order e).text W (value A order e v))) := by
  rw [← written_enum order e, ← written_isBaseOrEnum order e]
  show between _ (elemsAttrs W _ (o.map fun v => value A order e v).length)
    ((o.map fun v => value A order e v).flatMap _) = _
  rw [List.length_map, List.flatMap_map]

theorem text_written_set (e : Ty) (o : List (Obj L e)) :
    (written order (.set e)).text W (value A order (.set e) o)
      = between (lit "set") (elemsAttrs W e.type_to_enum o.length)
        (o.flatMap fun v => elementText e.isBaseOrEnum
          ((written order e).text W (value A order e v))) := by
  rw [← written_enum order e, ← written_isBaseOrEnum order e]
  show between _ (elemsAttrs W _ (o.map fun v => value A order e v).length)
    ((o.map fun v => value A order e v).flatMap _) = _
  rw [List.length_map, List.flatMap_map]

theorem text_written_map (k v : Ty) (o : List (Obj L k × Obj L v)) :
    (written order (.map k v)).text W (value A order (.map k v) o)
      = between (lit "map") (mapAttrs W k.type_to_enum v.type_to_enum o.length)
        (o.flatMap fun e =>
          elementText k.isBaseOrEnum ((written order k).text W (value A order k e.1))
          ++ elementText v.isBaseOrEnum ((written order v).text W (value A order v e.2))) := by
  rw [← written_enum order k, ← written_isBaseOrEnum order k,
    ← written_enum order v, ← written_isBaseOrEnum order v]
  show between _ (mapAttrs W _ _
      (o.map fun e => (value A order k e.1, value A order v e.2)).length)
    ((o.map fun e => (value A order k e.1, value A order v e.2)).flatMap _) = _
  rw [List.length_map, List.flatMap_map]

mutual

/-- Generated Python writes what generated C++ writes for the same value.
The induction is that of the type. -/
theorem write_prints (hW : Decimals W) (hF : F.Texts W) : (t : Ty) → t.Sound W →
    (o : Obj L t) → Fine A t o →
    Prints (write order t o) ((written order t).text W (value A order t o))
  | .base b, _, o, ho => base_prints hW hF b o ho
  | .enum, _, o, _ => by
      intro w
      have htext : (written order .enum).text W (value A order .enum o) = Py.intText 32 o :=
        (intText_eq hW 32 o).symm
      rw [htext]
      rfl
  | .typedef t, ht, o, ho => write_prints hW hF t ht o ho
  | .struct name fs, ht, o, ho => by
      intro w
      have hfields : List.foldlM (fun w (p : Int × Write) => p.2 w) (writeBegin name [] w)
          (sorted (writeFields order fs o)) = some _ :=
        prints_all _ _ _ (fields_print hW hF fs ht.2 o ho) (writeBegin name [] w)
      have htext : (written order (.struct name fs)).text W (value A order (.struct name fs) o)
          = between name [] ((writtenFields order fs).text W (attrsValue A order fs o)) := rfl
      show (List.foldlM (fun w (p : Int × Write) => p.2 w) (writeBegin name [] w)
        (sorted (writeFields order fs o))).map writeEnd = _
      rw [hfields, htext]
      simp [writeBegin, writeEnd, between, openTag, closeTag]
  | .list e, ht, o, ho => by
      have hitems := prints_foldlM (l := o) fun v hv =>
        prints_element (write_prints hW hF e ht v (ho.2.2 v hv)) e.isBaseOrEnum
      rw [text_written_list e o]
      exact prints_between hitems (elemsBegin_eq' hW (lit "list") e.type_to_enum ho.1) (by decide)
  | .set e, ht, o, ho => by
      have hitems := prints_foldlM (l := o) fun v hv =>
        prints_element (write_prints hW hF e ht v (ho.2.2 v hv)) e.isBaseOrEnum
      rw [text_written_set e o]
      exact prints_between hitems (elemsBegin_eq' hW (lit "set") e.type_to_enum ho.1) (by decide)
  | .map k v, ht, o, ho => by
      have hentries := prints_foldlM (l := o) fun e he => prints_entry
        (prints_element (write_prints hW hF k ht.1 e.1 (ho.2.2 e he).1) k.isBaseOrEnum)
        (prints_element (write_prints hW hF v ht.2 e.2 (ho.2.2 e he).2) v.isBaseOrEnum)
      rw [text_written_map k v o]
      exact prints_between hentries (mapBegin_eq' hW k.type_to_enum v.type_to_enum ho.1)
        (by decide)

/-- The same for the attributes of a structure: their writes, sorted by id,
give the fields in that order. -/
theorem fields_print (hW : Decimals W) (hF : F.Texts W) : (fs : Fields) → fs.Sound W →
    (self : Attrs L fs) → FineAttrs A fs self →
    PrintsAll W (sorted (writeFields order fs self)) (writtenFields order fs)
      (attrsValue A order fs self)
  | .nil, _, _, _ => trivial
  | .cons f t fs, hfs, self, h => by
      obtain ⟨v, self⟩ := self
      have hrest := fields_print hW hF fs hfs.2.2.2 self h.2
      cases v with
      | none =>
          exact printsAll_insert (f := writtenField order f) (t := written order t)
            (v := (none : Option _)) (m := some) prints_nothing _ _ _ hrest
      | some v =>
          obtain ⟨htable, hv⟩ := h.1 v rfl
          exact printsAll_insert (f := writtenField order f) (t := written order t)
            (v := (some (value A order t v) : Option _))
            (prints_field hW hfs.1 htable (write_prints hW hF t hfs.2.2.1 v hv)) _ _ _ hrest

end

-- ============================================================ adopting

/-- Whether the required fields are supplied depends on the offer at their
ids only. -/
theorem Fields.supplied_congr {o o' : Offer (Ty.Val F)} : (gs : Fields) →
    (∀ k ∈ gs.keys, ∀ u, o k u = o' k u) → (gs.Supplied o ↔ gs.Supplied o')
  | .nil, _ => Iff.rfl
  | .cons g u gs, h => by
      have hrest := Fields.supplied_congr gs fun k hk => h k (List.mem_cons_of_mem _ hk)
      show ((_ → (o g.key u).isSome = true) ∧ _) ↔ ((_ → (o' g.key u).isSome = true) ∧ _)
      rw [h g.key List.mem_cons_self u, hrest]

/-- What the writer of an object offers for the first field of a class. -/
theorem offer_head {f : Field} {t : Ty} {fs : Fields} (hkey : f.key ∉ fs.keys)
    (self : Attrs L (.cons f t fs)) :
    (writtenFields order (.cons f t fs)).offer less (attrsValue A order (.cons f t fs) self)
        f.key t
      = self.1.map fun v => (written order t).adopt less t (value A order t v) := by
  have hkey' : (writtenField order f).key ∉ (writtenFields order fs).keys :=
    mt (mem_writtenFields fs).mp hkey
  refine (Fields.offer_insert _ _ _ _ hkey' _).trans ?_
  refine (if_pos rfl).trans ((if_pos (written_enum order t)).trans ?_)
  exact Option.map_map _ _ self.1

/-- And for the others. -/
theorem offer_tail {f : Field} {t : Ty} {fs : Fields} (hkey : f.key ∉ fs.keys)
    (self : Attrs L (.cons f t fs)) (k : Int) (hk : k ∈ fs.keys) (u : Ty) :
    (writtenFields order (.cons f t fs)).offer less (attrsValue A order (.cons f t fs) self) k u
      = (writtenFields order fs).offer less (attrsValue A order fs self.2) k u := by
  have hkey' : (writtenField order f).key ∉ (writtenFields order fs).keys :=
    mt (mem_writtenFields fs).mp hkey
  have hne : (writtenField order f).key ≠ k := fun heq => hkey (heq ▸ hk)
  exact (Fields.offer_insert _ _ _ _ hkey' _).trans (if_neg hne)

mutual

/-- What a C++ reader of the same type makes of a written value is the
value, with sets and maps in its order. -/
theorem adopt_value : (t : Ty) → t.Sound W → (o : Obj L t) →
    (written order t).adopt less t (value A order t o) = toCpp A less t o
  | .base b, _, o => dif_pos rfl
  | .enum, _, _ => rfl
  | .typedef t, ht, o => adopt_value t ht o
  | .struct _ fs, ht, o => collect_value fs ht.2 o
  | .list e, ht, o => by
      have helem : ∀ v : Obj L e,
          (written order e).adopt less e (value A order e v) = toCpp A less e v :=
        adopt_value e ht
      exact List.map_map.trans (List.map_congr_left fun v _ => helem v)
  | .set e, ht, o => by
      have hput : ∀ (s : List (e.Val F)) (v : Obj L e),
          Sorted.insert (less e) ((written order e).adopt less e (value A order e v)) s
            = Sorted.insert (less e) (toCpp A less e v) s := by
        intro s v
        rw [adopt_value e ht v]
      exact List.foldl_map.trans (congrArg (fun g => List.foldl g [] o) (funext₂ hput))
  | .map k v, ht, o => by
      have hput : ∀ (m : List (k.Val F × v.Val F)) (e : Obj L k × Obj L v),
          Sorted.assign (less k) ((written order k).adopt less k (value A order k e.1))
              ((written order v).adopt less v (value A order v e.2)) m
            = Sorted.assign (less k) (toCpp A less k e.1) (toCpp A less v e.2) m := by
        intro m e
        rw [adopt_value k ht.1 e.1, adopt_value v ht.2 e.2]
      exact List.foldl_map.trans (congrArg (fun g => List.foldl g [] o) (funext₂ hput))

/-- The same for the attributes. -/
theorem collect_value : (fs : Fields) → fs.Sound W → (self : Attrs L fs) →
    fs.collect ((writtenFields order fs).offer less (attrsValue A order fs self))
      = attrsCpp A less fs self
  | .nil, _, _ => rfl
  | .cons f t fs, hfs, self => by
      have htail : fs.collect ((writtenFields order (.cons f t fs)).offer less
          (attrsValue A order (.cons f t fs) self)) = attrsCpp A less fs self.2 :=
        (fs.collect_congr (offer_tail hfs.2.1 self)).trans (collect_value fs hfs.2.2.2 self.2)
      have hhead : (writtenFields order (.cons f t fs)).offer less
          (attrsValue A order (.cons f t fs) self) f.key t = _ := offer_head hfs.2.1 self
      refine Prod.ext ?_ htail
      obtain ⟨v, self⟩ := self
      cases v with
      | none =>
          show (match Fields.offer less _ _ f.key t with | some v => _ | none => _) = _
          rw [hhead]
          rfl
      | some v =>
          show (match Fields.offer less _ _ f.key t with | some v => _ | none => _) = _
          rw [hhead]
          exact congrArg f.req.put (adopt_value t hfs.2.2.1 v)

end

/-- A value that is fine is one that its C++ read returns from. -/
theorem base_returns (b : Base) (v : BaseObj L b) (hv : BaseFine A b v) :
    b.Returns (baseValue A b v) := by
  cases b with
  | string =>
      show kcXMLTagO ∉ escapeXMLControlChars (v : Bytes)
        ∧ unescapeXMLControlChars (escapeXMLControlChars (v : Bytes)) = v
      rw [escapeXMLControlChars_eq hv.1]
      exact ⟨not_mem_escapeInternal v, (unescape_escapeInternal_eq_iff v).mpr hv.2⟩
  | xml => exact hv
  | ipaddr => exact (congrArg F.address_from_string hv.1).trans hv.2
  | uuid => exact (congrArg F.uuid_from_string hv.1).trans hv.2
  | double => exact hv
  | bool | byte | i16 | i32 | i64 | u16 | u32 | u64 | ipv4 => trivial

/-- Elements that are few enough, and told apart. -/
theorem sized_map {α β : Type} {g : α → β} {l : List α} {u : Bool} (hlen : l.length < 2 ^ 32)
    (hsep : u = false ∨ l.length ≤ 1) :
    (l.map g).length < 2 ^ 32 ∧ (u = false ∨ (l.map g).length ≤ 1) := by
  rw [List.length_map]
  exact ⟨hlen, hsep⟩

mutual

/-- What a writer in Python has is what a reader of its IDL means by it. -/
theorem meant_value : (t : Ty) → t.Sound W → (o : Obj L t) → Fine A t o →
    Distinct A less t o → (written order t).Meant less t (value A order t o)
  | .base b, _, o, ho, _ => ⟨rfl, base_returns b o ho⟩
  | .enum, _, _, _, _ => trivial
  | .typedef t, ht, o, ho, hd => meant_value t ht o ho hd
  | .struct _ fs, ht, o, ho, hd =>
      meant_fields fs ht.2 o ho hd fs (fs.knownIn_self (fs.nodup_keys ht.2))
  | .list e, ht, o, ho, hd => by
      have hsized := sized_map (g := fun v => value A order e v) ho.1 ho.2.1
      rw [← written_undelimited order e] at hsized
      exact ⟨hsized.1, hsized.2, List.forall_mem_map.mpr fun v hv =>
        meant_value e ht v (ho.2.2 v hv) (hd v hv)⟩
  | .set e, ht, o, ho, hd => by
      have hsized := sized_map (g := fun v => value A order e v) ho.1 ho.2.1
      rw [← written_undelimited order e] at hsized
      exact ⟨hsized.1, hsized.2, List.forall_mem_map.mpr fun v hv =>
        meant_value e ht v (ho.2.2 v hv) (hd v hv)⟩
  | .map k v, ht, o, ho, hd => by
      obtain ⟨hlen, hsep, hentries⟩ := ho
      obtain ⟨hdistinct, hapart⟩ := hd
      rw [← written_undelimited order k,
        ← written_undelimited order v] at hsep
      refine ⟨(List.length_map _).trans_lt hlen, hsep.imp_right fun hnil => ?_,
        List.forall_mem_map.mpr fun e he =>
          ⟨meant_value k ht.1 e.1 (hentries e he).1 (hdistinct e he).1,
            meant_value v ht.2 e.2 (hentries e he).2 (hdistinct e he).2⟩,
        List.pairwise_map.mpr ?_⟩
      · exact congrArg (List.map _) hnil
      · refine hapart.imp fun {a b} hab => ?_
        have hkey : ∀ a : Obj L k, (written order k).adopt less k (value A order k a)
            = toCpp A less k a := adopt_value k ht.1
        rw [← hkey, ← hkey] at hab
        exact hab

/-- A structure whose attributes are fine is meant: its fields are known and
each of their values is. -/
theorem meant_fields : (fs : Fields) → fs.Sound W → (self : Attrs L fs) →
    FineAttrs A fs self → DistinctAttrs A less fs self → (us : Fields) → fs.KnownIn us →
    (writtenFields order fs).Meant less us (attrsValue A order fs self)
  | .nil, _, _, _, _, _, _ => trivial
  | .cons f t fs, hfs, self, h, hd, us, hus => by
      have hrest := meant_fields fs hfs.2.2.2 self.2 h.2 hd.2 us hus.2
      have hknown : us.known f.key (written order t).type_to_enum = some t := by
        rw [written_enum]
        exact hus.1
      refine (Fields.meant_insert _ _ _).mpr ⟨fun w hw => ⟨fun hnone => ?_, fun u hu => ?_⟩, hrest⟩
      · cases hnone.symm.trans hknown
      · obtain rfl := Option.some.inj (hknown.symm.trans hu)
        obtain ⟨v, hv, rfl⟩ := Option.map_eq_some_iff.mp hw
        exact meant_value t hfs.2.2.1 v (h.1 v hv).2 (hd.1 v hv)

end

mutual

/-- And it can be taken if the object is complete. -/
theorem adoptable_value : (t : Ty) → t.Sound W → (o : Obj L t) →
    ((written order t).Adoptable less W t (value A order t o) ↔ Complete t o)
  | .base _, _, _ | .enum, _, _ => Iff.rfl
  | .typedef t, ht, o => adoptable_value t ht o
  | .struct _ fs, ht, o =>
      adoptable_fields fs ht.2 o fs (fs.knownIn_self (fs.nodup_keys ht.2))
  | .list e, ht, _ | .set e, ht, _ =>
      List.forall_mem_map.trans (forall₂_congr fun v _ => adoptable_value e ht v)
  | .map k v, ht, _ =>
      List.forall_mem_map.trans (forall₂_congr fun e _ =>
        and_congr (adoptable_value k ht.1 e.1) (adoptable_value v ht.2 e.2))

/-- The reader gets by exactly with the attributes that are complete. -/
theorem adoptable_fields : (fs : Fields) → fs.Sound W → (self : Attrs L fs) → (us : Fields) →
    fs.KnownIn us →
    ((writtenFields order fs).Adoptable less W us (attrsValue A order fs self)
        ∧ fs.Supplied ((writtenFields order fs).offer less (attrsValue A order fs self))
      ↔ CompleteAttrs fs self)
  | .nil, _, _, _, _ => and_self_iff
  | .cons f t fs, hfs, self, us, hus => by
      have hrest := adoptable_fields fs hfs.2.2.2 self.2 us hus.2
      have hknown : us.known f.key (written order t).type_to_enum = some t := by
        rw [written_enum]
        exact hus.1
      have hhead : (∀ w, Option.map (value A order t) self.1 = some w →
          (us.known f.key (written order t).type_to_enum = none → (written order t).Skippable W w)
          ∧ ∀ u, us.known f.key (written order t).type_to_enum = some u →
            (written order t).Adoptable less W u w)
          ↔ ∀ v, self.1 = some v → Complete t v := by
        refine ⟨fun h v hv => ?_, fun h w hw => ⟨fun hnone => ?_, fun u hu => ?_⟩⟩
        · have hv' := (h _ (congrArg (Option.map _) hv)).2 t hknown
          exact (adoptable_value t hfs.2.2.1 v).mp hv'
        · cases hnone.symm.trans hknown
        · obtain rfl := Option.some.inj (hknown.symm.trans hu)
          obtain ⟨v, hv, rfl⟩ := Option.map_eq_some_iff.mp hw
          exact (adoptable_value t hfs.2.2.1 v).mpr (h v hv)
      have htail : fs.Supplied ((writtenFields order (.cons f t fs)).offer less
          (attrsValue A order (.cons f t fs) self)) ↔ _ :=
        Fields.supplied_congr fs (offer_tail hfs.2.1 self)
      have hset : (f.req = .required → ((writtenFields order (.cons f t fs)).offer less
          (attrsValue A order (.cons f t fs) self) f.key t).isSome = true)
          ↔ (f.req = .required → self.1.isSome = true) := by
        rw [offer_head hfs.2.1 self, Option.isSome_map]
      refine (and_congr (Fields.adoptable_insert _ _ _) Iff.rfl).trans ?_
      refine (and_congr (and_congr hhead Iff.rfl) (and_congr hset htail)).trans ?_
      refine and_and_and_comm.trans ?_
      refine (and_congr and_comm hrest).trans ?_
      exact and_assoc

end

-- ============================================================ the reader

/-- An object that is written in Python is read in C++ if it is complete, and
otherwise the reader fails. -/
theorem python_in_cpp (hW : Decimals W) (hF : F.Texts W) (t : Ty) (ht : t.Sound W)
    (hwritten : (written order t).Sound W) (o : Obj L t) (ho : Fine A t o)
    (hd : Distinct A less t o) :
    ∃ w, write order t o .init = some w ∧ ∀ (junk : Bool) {tail : Bytes} {r : LookaheadReader},
      Fresh (w.out ++ kcXMLTagO :: tail) r →
      (Complete t o → ∃ n r', (t.deserialize W Reads.code junk less (t.zero F)).Runs r
        (.ok (n, toCpp A less t o)) r' ∧ Near (kcXMLTagO :: tail) r')
      ∧ (¬ Complete t o → ∃ e r', (t.deserialize W Reads.code junk less (t.zero F)).Runs r
        (.error (.fault e)) r') := by
  refine ⟨_, write_prints hW hF t ht o ho .init, fun junk tail r hr => ?_⟩
  have hread := @read_version W F junk less hW hF (written order t) t hwritten ht _
    (meant_value t ht o ho hd) tail r
  rw [out_eq, adopt_value t ht, adoptable_value t ht] at hread
  exact hread hr

/-- `struct Server { 2: required set<u16> ports; 1: required ipaddr address;
3: optional string note }` -/
def serverTy : Ty := .struct (lit "Server")
  (.cons ⟨lit "ports", 2, .required, []⟩ (.set (.base .u16))
    (.cons ⟨lit "address", 1, .required, []⟩ (.base .ipaddr)
      (.cons ⟨lit "note", 3, .optional, []⟩ (.base .string) .nil)))

/-- Objects that are what `str` makes of them. -/
def Libs.texts : Libs where
  toLibs := Py.Libs.texts
  str := id
  same := (equal : Bytes → Bytes → Bool)

/-- An object is taken for what is printed as it is, if there is such. -/
def Conversion.texts : Conversion Libs.texts .printed where
  address := fun s : Bytes =>
    if h : isQuad s = true ∧ kcXMLTagO ∉ s then ⟨s, h⟩ else Foreign.printed.address
  uuid := fun _ => Foreign.printed.nil_uuid
  double := fun _ => Foreign.printed.zero

/-- The example's type meets what the theorems ask of a type. -/
theorem serverTy_sound : serverTy.Sound quads := by
  refine ⟨by decide, quads_field (by decide) (by decide), by decide, trivial,
    quads_field (by decide) (by decide), by decide, trivial,
    quads_field (by decide) (by decide), by decide, trivial, trivial⟩

theorem written_serverTy_sound : (written id serverTy).Sound quads := by
  refine ⟨by decide, quads_field (by decide) (by decide), by decide, trivial,
    quads_field (by decide) (by decide), by decide, trivial,
    quads_field (by decide) (by decide), by decide, trivial, trivial⟩

/-- An address that the C++ side can read. -/
theorem address_fine : BaseFine Conversion.texts .ipaddr (lit "10.0.0.1") := by
  have hquad : isQuad (lit "10.0.0.1") = true ∧ kcXMLTagO ∉ lit "10.0.0.1" := by decide
  have haddress : Conversion.texts.address (lit "10.0.0.1") = ⟨lit "10.0.0.1", hquad⟩ := rfl
  have hfrom : Foreign.printed.address_from_string (lit "10.0.0.1")
      = some ⟨lit "10.0.0.1", hquad⟩ := rfl
  exact ⟨congrArg Subtype.val haddress, hfrom.trans (congrArg some haddress.symm)⟩

/-- 70000 is not a u16. -/
def server : Obj Libs.texts serverTy :=
  (some ([443, 70000, 80] : List Int), some (lit "10.0.0.1"), some (lit "<up>"), ())

/-- The address is written first, and the ports are put in order. -/
theorem python_in_cpp_server :
    ∃ w, write id serverTy server .init = some w
      ∧ ∃ n r', (serverTy.deserialize quads Reads.code false Ty.operatorLess
        (serverTy.zero .printed)).Runs (.new (w.out ++ [kcXMLTagO]) 0 (0, 0))
        (.ok (n, ([80#16, 443#16, 4464#16], (⟨lit "10.0.0.1", by decide⟩ :
          Foreign.printed.Address), some (lit "<up>"), ()))) r' ∧ Near [kcXMLTagO] r' := by
  have hfine : Fine Conversion.texts serverTy server := by
    refine ⟨fun v hv => ⟨rfl, ?_⟩, fun v hv => ⟨rfl, ?_⟩, fun v hv => ⟨rfl, ?_⟩, trivial⟩
    · obtain rfl := Option.some.inj hv
      exact ⟨by decide, .inl rfl, fun _ _ => trivial⟩
    · obtain rfl := Option.some.inj hv
      exact address_fine
    · obtain rfl := Option.some.inj hv
      exact ⟨by decide, by decide⟩
  have hdistinct : Distinct Conversion.texts Ty.operatorLess serverTy server :=
    ⟨fun _ _ _ _ => trivial, fun _ _ => trivial, fun _ _ => trivial, trivial⟩
  have hcomplete : Complete serverTy server :=
    ⟨fun _ => rfl, fun _ _ _ _ => trivial, fun _ => rfl, fun _ _ => trivial, fun _ => rfl,
      fun _ _ => trivial, trivial⟩
  obtain ⟨w, hw, hread⟩ := python_in_cpp posix_decimals printed_texts serverTy serverTy_sound
    written_serverTy_sound server hfine hdistinct
  exact ⟨w, hw, (hread false (fresh_new _ 0 (0, 0))).1 hcomplete⟩

end Sandesh.PyGen
