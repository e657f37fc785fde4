/-
What is written, read in Python (`heard_in_python`).

The writer is the generated code of C++, and its text that of any version
of the IDL; what Python writes is such a text too. A read is followed by
what it leaves: each puts the reader behind the text of its value, or at
the next tag where the text has no end of its own (`Hears`). In a struct the
object that is read is always what has been given so far (`gather`), since
no id comes twice.
-/
import Sandesh.Py.Proofs.CData
import Sandesh.PyGen.Proofs.Write

namespace Sandesh.PyGen

open Lib Xml Header CppGen
open Header.TXMLWriter (formXMLAttr)
open Lib.Prog (Runs runs_pure)
open Py (Call call Conv TXMLProtocol bind_run runs_call)

variable {F : Foreign} {L : Libs} {B : Parsed F L} {W : World}

-- ============================================================== tags

/-- The read of a value, from its text to the end of it. -/
def Hears {α : Type} (m : Call (Outcome α)) (s rest : Bytes) (v : α) : Prop :=
  ∀ p, ∃ n, m.Runs (TXMLProtocol.at p (s ++ rest)) (.ok (.value n v)) (p.at rest)

/-- Python knows the names of all types that a generator writes. -/
theorem fieldType_eq : (t : Ty) → (p : TXMLProtocol) →
    Py.fieldType (TXMLWriter.fieldTypeName t.type_to_enum) p = .ok (t.type_to_enum, p)
  | .base b, _ => by cases b <;> rfl
  | .typedef t, p => fieldType_eq t p
  | .enum, _ | .struct _ _, _ | .list _, _ | .set _, _ | .map _ _, _ => rfl

/-- The names need no quotes of their own. -/
theorem isName_fieldTypeName : (t : Ty) → IsName (TXMLWriter.fieldTypeName t.type_to_enum)
  | .base b => by cases b <;> decide
  | .typedef t => isName_fieldTypeName t
  | .enum | .struct _ _ | .list _ | .set _ | .map _ _ => by
      unfold Ty.type_to_enum
      decide

/-- A number has digits and a sign, and no other characters. -/
theorem not_in_decimalInt (i : Int) {c : UInt8} (hdigit : isDigit c = false) (hc : c ≠ 45) :
    c ∉ decimalInt i := by
  have hdecimal : ∀ n, c ∉ decimal n := by
    intro n hmem
    rw [isDigit_of_mem_decimal hmem] at hdigit
    cases hdigit
  unfold decimalInt
  split
  · rw [List.mem_cons, not_or]
    exact ⟨hc, hdecimal _⟩
  · exact hdecimal _

/-- A blank is one byte. -/
theorem blank_append (s : Bytes) : lit " " ++ s = 32 :: s := rfl

/-- An attribute is found again by its name. -/
theorem namedAttr_form {name val : Bytes} (hname : 61 ∉ name) (hval : 34 ∉ val) (rest : Bytes) :
    Py.namedAttr name (formXMLAttr name val ++ rest) = some (val, rest.drop 1) :=
  Py.namedAttr_split hname hval rest

section Tags

variable (hW : Decimals W)

include hW

/-- The tag of a field, whatever its annotations. -/
theorem readFieldTag_annotated {f : Field} {t : Ty} (hf : f.Sound W t.type_to_enum)
    (p : TXMLProtocol) (rest : Bytes) :
    ∃ n : Nat, Py.readFieldTag (p.at (openTag f.name
        (attrText W t.type_to_enum (BitVec.ofInt 16 f.key) f.annotations) ++ rest))
      = .ok (⟨n, some f.name, some t.type_to_enum, some f.key⟩, (p.within f.name).at rest) := by
  have hno : kcXMLTagC ∉ f.name ++ attrText W t.type_to_enum (BitVec.ofInt 16 f.key)
      f.annotations := not_mem_tag hW.toDecimal (not_mem_name hf.name) _ _ hf.tag
  have hattrs : f.name ++ attrText W t.type_to_enum (BitVec.ofInt 16 f.key) f.annotations
      = f.name ++ 32 :: (formXMLAttr (lit "type") (TXMLWriter.fieldTypeName t.type_to_enum)
        ++ 32 :: (formXMLAttr (lit "identifier") (decimalInt f.key)
          ++ f.annotations.flatMap fun a => lit " " ++ formXMLAttr a.1 a.2)) := by
    rw [attrText, hf.key, hW.text]
    simp only [List.append_assoc, blank_append, List.cons_append]
  refine ⟨(openTag f.name (attrText W t.type_to_enum (BitVec.ofInt 16 f.key)
    f.annotations)).length, ?_⟩
  rw [Py.readFieldTag, bind_run (Py.readXMLTag_open hno)]
  dsimp only
  rw [hattrs, Py.extractXMLTagName_split (Py.not_mem_of_name hf.name (by decide))]
  dsimp only
  rw [bind_run (a := ()) rfl, namedAttr_form (by decide)
    (Py.not_mem_of_name (isName_fieldTypeName t) (by decide))]
  dsimp only
  rw [bind_run (fieldType_eq t _), List.drop_one, List.tail_cons,
    namedAttr_form (by decide) (not_in_decimalInt f.key (by decide) (by decide))]
  simp only [Option.bind_some, Py.int_decimalInt]
  rfl

/-- A field's tag gives name, type and id, whatever annotations stand in it.
-/
theorem readFieldBegin_annotated {f : Field} {t : Ty} (hf : f.Sound W t.type_to_enum)
    (p : TXMLProtocol) (rest : Bytes) :
    ∃ n : Nat, Py.readFieldBegin (p.at (openTag f.name
        (attrText W t.type_to_enum (BitVec.ofInt 16 f.key) f.annotations) ++ rest))
      = .ok (⟨n, some f.name, some t.type_to_enum, some f.key⟩, (p.within f.name).at rest) := by
  obtain ⟨n, hrun⟩ := readFieldTag_annotated hW hf p rest
  obtain ⟨c, name, hcons⟩ := List.exists_cons_of_ne_nil hf.name.1
  have hc : c ≠ 47 := by
    refine isNameChar_ne (hf.name.2 c ?_) (by decide)
    rw [hcons]
    exact List.mem_cons_self
  have hpeek : ∀ buf, openTag f.name (attrText W t.type_to_enum (BitVec.ofInt 16 f.key)
      f.annotations) ++ rest = buf →
      Py.peekXMLTag 2 (p.at buf) = .ok (some [kcXMLTagO, c], p.at buf) := by
    intro buf hbuf
    rw [text_eq, hcons] at hbuf
    subst hbuf
    simp [Py.peekXMLTag, TXMLProtocol.at, tagOpen]
  have hstop : ([kcXMLTagO, c] : Bytes) ≠ lit "</" := by
    intro h
    injection h with _ h
    injection h with h
    exact hc h
  refine ⟨n, ?_⟩
  rw [Py.readFieldBegin, bind_run (hpeek _ rfl)]
  dsimp only
  rw [if_neg hstop]
  exact hrun

/-- The size in the tag of a container. -/
theorem sizeAttr_eq {n : Nat} (hn : n < 2 ^ 32) :
    (Py.namedAttr (lit "size") (formXMLAttr (lit "size") (sizeText W n))).bind
      (fun t => Py.int t.1) = some (n : Int) := by
  have hform : Py.namedAttr (lit "size") (formXMLAttr (lit "size") (decimalInt n) ++ [])
      = some (decimalInt n, []) :=
    namedAttr_form (by decide) (not_in_decimalInt n (by decide) (by decide)) []
  have hdecimal : decimalInt n = decimal n := by
    rw [decimalInt, if_neg (by omega)]
    rfl
  rw [sizeText_eq hW hn, ← hdecimal, ← List.append_nil (formXMLAttr _ _), hform, Option.bind_some,
    Py.int_decimalInt]

/-- The tag of a list or a set. -/
theorem readContainerBegin_elems {name : Bytes} (hname : IsName name) (t : Ty) {n : Nat}
    (hn : n < 2 ^ 32) (p : TXMLProtocol) (rest : Bytes) :
    ∃ k : Int, Py.readContainerBegin name [lit "type"]
        (p.at (openTag name (elemsAttrs W t.type_to_enum n) ++ rest))
      = .ok ((k, [t.type_to_enum], some (n : Int)), p.at rest) := by
  have hno := not_mem_elems hW hname t.type_to_enum n
  have hattrs : name ++ elemsAttrs W t.type_to_enum n
      = name ++ 32 :: (formXMLAttr (lit "type") (TXMLWriter.fieldTypeName t.type_to_enum)
        ++ 32 :: formXMLAttr (lit "size") (sizeText W n)) := by
    rw [elemsAttrs]
    simp only [List.append_assoc, blank_append, List.cons_append]
  refine ⟨(openTag name (elemsAttrs W t.type_to_enum n)).length, ?_⟩
  rw [Py.readContainerBegin, bind_run (Py.readXMLTag_open hno)]
  dsimp only
  rw [hattrs, Py.extractXMLTagName_split (Py.not_mem_of_name hname (by decide))]
  dsimp only
  rw [if_neg (fun h => h rfl), Py.readContainerBegin.types, namedAttr_form (by decide)
    (Py.not_mem_of_name (isName_fieldTypeName t) (by decide))]
  dsimp only
  rw [bind_run (fieldType_eq t _), List.drop_one, List.tail_cons, Py.readContainerBegin.types,
    sizeAttr_eq hW hn]
  rfl

/-- The tag of a map. -/
theorem readMapBegin_run (k v : Ty) {n : Nat} (hn : n < 2 ^ 32) (p : TXMLProtocol)
    (rest : Bytes) :
    ∃ m : Int, Py.readMapBegin
        (p.at (openTag (lit "map") (mapAttrs W k.type_to_enum v.type_to_enum n) ++ rest))
      = .ok ((m, [k.type_to_enum, v.type_to_enum], some (n : Int)), p.at rest) := by
  have hno := not_mem_map hW k.type_to_enum v.type_to_enum n
  have hattrs : lit "map" ++ mapAttrs W k.type_to_enum v.type_to_enum n
      = lit "map" ++ 32 :: (formXMLAttr (lit "key") (TXMLWriter.fieldTypeName k.type_to_enum)
        ++ 32 :: (formXMLAttr (lit "value") (TXMLWriter.fieldTypeName v.type_to_enum)
          ++ 32 :: formXMLAttr (lit "size") (sizeText W n))) := by
    rw [mapAttrs]
    simp only [List.append_assoc, blank_append, List.cons_append]
  refine ⟨(openTag (lit "map") (mapAttrs W k.type_to_enum v.type_to_enum n)).length, ?_⟩
  rw [Py.readMapBegin, Py.readContainerBegin, bind_run (Py.readXMLTag_open hno)]
  dsimp only
  rw [hattrs, Py.extractXMLTagName_split (by decide)]
  dsimp only
  rw [if_neg (fun h => h rfl), Py.readContainerBegin.types, namedAttr_form (by decide)
    (Py.not_mem_of_name (isName_fieldTypeName k) (by decide))]
  dsimp only
  rw [bind_run (fieldType_eq k _), List.drop_one, List.tail_cons, Py.readContainerBegin.types,
    namedAttr_form (by decide) (Py.not_mem_of_name (isName_fieldTypeName v) (by decide))]
  dsimp only
  rw [bind_run (fieldType_eq v _), List.drop_one, List.tail_cons, Py.readContainerBegin.types,
    sizeAttr_eq hW hn]
  rfl

end Tags

-- ============================================================= values

/-- A CDATA section gives its text. -/
theorem readXML_run {v : Bytes} (hv : ¬ kXMLCDATAC <:+: v) (p : TXMLProtocol) (tail : Bytes) :
    ∃ n : Nat, Py.readXML (p.at (xmlText v ++ kcXMLTagO :: tail))
      = .ok ((n, some v), p.at (kcXMLTagO :: tail)) := by
  have hbuf : (p.at (xmlText v ++ kcXMLTagO :: tail)).read_buf
      = some (kXMLCDATAO ++ v ++ kXMLCDATAC ++ kcXMLTagO :: tail) := rfl
  exact ⟨v.length, bind_run (Py.readXMLCDATA_section hv hbuf)⟩

/-- Each base type reads what C++ has written for a value that can be heard.
-/
theorem readBase_run (hW : Decimals W) (hF : F.Texts W) (b : Base) (v : b.Val F)
    (hv : BaseHeard B b v) (p : TXMLProtocol) (tail : Bytes) :
    ∃ n : Nat, readBase L b (p.at (b.text W v ++ kcXMLTagO :: tail))
      = .ok ((n, some (baseObj B b v)), p.at (kcXMLTagO :: tail)) := by
  have hscalar : ∀ {α : Type} {conv : Bytes → Conv α} {text : Bytes} {a : α},
      kcXMLTagO ∉ text → conv text = .value a → ∃ n : Nat,
        Py.readScalar conv (p.at (text ++ kcXMLTagO :: tail))
          = .ok ((n, some a), p.at (kcXMLTagO :: tail)) := by
    intro α conv text a htag hconv
    refine ⟨text.length, ?_⟩
    rw [Py.readScalar, bind_run (Py.readXMLValue_run htag rfl)]
    dsimp only
    rw [hconv]
    rfl
  have hbool : ∀ (text : Bytes) (v : Bool), kcXMLTagO ∉ text → Py.boolConv text = .value v →
      ∃ n : Nat, Py.readScalar Py.boolConv (p.at (text ++ kcXMLTagO :: tail))
        = .ok ((n, some v), p.at (kcXMLTagO :: tail)) := fun _ _ htag hconv => hscalar htag hconv
  have hnumeric : ∀ i : Int, ∃ n : Nat,
      Py.readScalar Py.intConv (p.at (W.integerToString i ++ kcXMLTagO :: tail))
        = .ok ((n, some i), p.at (kcXMLTagO :: tail)) := by
    intro i
    rw [hW.text]
    refine hscalar (not_in_decimalInt i (by decide) (by decide)) ?_
    rw [Py.intConv, Py.int_decimalInt]
  cases b with
  | bool =>
      cases v
      · exact hbool (lit "false") false (by decide) rfl
      · exact hbool (lit "true") true (by decide) rfl
  | byte => exact hnumeric (BitVec.toInt v)
  | i16 => exact hnumeric (BitVec.toInt v)
  | i32 => exact hnumeric (BitVec.toInt v)
  | i64 => exact hnumeric (BitVec.toInt v)
  | u16 => exact hnumeric (BitVec.toNat v)
  | u32 => exact hnumeric (BitVec.toNat v)
  | u64 => exact hnumeric (BitVec.toNat v)
  | ipv4 => exact hnumeric (BitVec.toNat v)
  | ipaddr => exact hscalar (hF.addressTag v) hv
  | double => exact hscalar (hF.double v) hv
  | uuid =>
      have htext : Base.text W .uuid v = F.uuid_to_string v := escape_plain (hF.uuid v)
      rw [htext]
      exact hscalar (fun hmem => hF.uuid v _ hmem (by decide)) hv
  | string =>
      have hrun := Py.readString_run (s := p.at (escapeXMLControlChars v ++ kcXMLTagO :: tail))
        hv.1 rfl
      rw [hv.2] at hrun
      exact ⟨_, hrun⟩
  | xml => exact readXML_run hv p tail

/-- A value that is no container: the method is all there is. -/
theorem hears_leaf {α : Type} {m : Py.Method (Int × Option α)} {text : Bytes} {v : α}
    {rest : Bytes} (h : ∀ p : TXMLProtocol, ∃ n : Nat, m (p.at (text ++ rest))
      = .ok ((n, some v), p.at rest)) : Hears (readLeaf m) text rest v := by
  intro p
  obtain ⟨n, hrun⟩ := h p
  refine ⟨n, Runs.bind_ok (runs_call hrun) ?_⟩
  have hpos : ¬ ((n : Int) < 0) := by omega
  dsimp only
  rw [if_neg hpos]
  exact runs_pure.mpr ⟨rfl, rfl⟩

/-- The tag around an element. -/
theorem readTag_run {name attrs : Bytes} (h : kcXMLTagC ∉ name ++ attrs) (p : TXMLProtocol)
    (rest : Bytes) : ∃ n : Int, Py.readElement false (p.at (openTag name attrs ++ rest))
      = .ok (n, p.at rest) :=
  ⟨_, bind_run (Py.readXMLTag_open h)⟩

/-- The end of it. -/
theorem readEnd_run {name : Bytes} (h : kcXMLTagC ∉ name) (p : TXMLProtocol) (rest : Bytes) :
    ∃ n : Int, Py.readElement true (p.at (closeTag name ++ rest)) = .ok (n, p.at rest) :=
  ⟨_, bind_run (Py.readXMLTag_close h)⟩

/-- The tags around an element, if there are any, are read with it. -/
theorem hears_element {α : Type} {m : Call (Outcome α)} {s rest : Bytes} {v : α} {t : Ty}
    (h : ∀ rest, (t.trueBaseOrEnum = true → Tagged rest) → Hears m s rest v)
    (hrest : t.undelimited = true → Tagged rest) :
    Hears (readElement t.isBaseOrEnum m) (elementText t.isBaseOrEnum s) rest v := by
  unfold readElement elementText
  by_cases hdecl : t.isBaseOrEnum = true
  · intro p
    have helement : kcXMLTagC ∉ lit "element" ++ [] := by decide
    have hend : kcXMLTagC ∉ lit "element" := by decide
    rw [if_pos hdecl, if_pos hdecl, List.append_assoc, List.append_assoc]
    obtain ⟨n, hopen⟩ := readTag_run helement p (s ++ (closeTag (lit "element") ++ rest))
    obtain ⟨n', hvalue⟩ := h (closeTag (lit "element") ++ rest) (fun _ => tagged_closeTag _ _) p
    obtain ⟨n'', hclose⟩ := readEnd_run hend p rest
    refine ⟨n + n' + n'', Runs.bind_ok (runs_call hopen) (Runs.bind_ok hvalue ?_)⟩
    exact Runs.bind_ok (runs_call hclose) (runs_pure.mpr ⟨rfl, rfl⟩)
  · rw [if_neg hdecl, if_neg hdecl]
    refine h rest fun hbase => hrest ?_
    simp [Ty.undelimited, hbase, hdecl]

section Loops

variable {α β γ : Type}

/-- The items of a container, each of which ends by itself or at a tag. -/
theorem hears_items {item : Call (Outcome α)} {put : β → α → Call β} {g : β → α → β}
    {text : γ → Bytes} {val : γ → α} {bare : Bool} {rest : Bytes} (hrest : Tagged rest) :
    (l : List γ) →
    (∀ x ∈ l, ∀ rest, (bare = true → Tagged rest) → Hears item (text x) rest (val x)) →
    (∀ x ∈ l, ∀ acc, put acc (val x) = pure (g acc (val x))) →
    (bare = true → l.length ≤ 1 ∨ ∀ x, Tagged (text x)) → ∀ acc n p,
    ∃ n', (readItems item put l.length n acc).Runs (TXMLProtocol.at p (l.flatMap text ++ rest))
      (.ok (.value n' (l.foldl (fun acc x => g acc (val x)) acc))) (p.at rest)
  | [], _, _, _, acc, n, p => ⟨n, runs_pure.mpr ⟨rfl, rfl⟩⟩
  | x :: l, h, hput, hsep, acc, n, p => by
      obtain ⟨hx, hl⟩ := List.forall_mem_cons.mp h
      obtain ⟨hputx, hputl⟩ := List.forall_mem_cons.mp hput
      have hnext : bare = true → Tagged (l.flatMap text ++ rest) := by
        intro hbare
        rcases hsep hbare with hlen | htag
        · cases l with
          | nil => exact hrest
          | cons y l => simp at hlen
        · exact tagged_flatMap htag l hrest
      have hsep' : bare = true → l.length ≤ 1 ∨ ∀ x, Tagged (text x) := by
        intro hbare
        refine (hsep hbare).imp_left fun hlen => ?_
        rw [List.length_cons] at hlen
        omega
      rw [List.flatMap_cons, List.append_assoc]
      obtain ⟨n', hitem⟩ := hx _ hnext p
      obtain ⟨n'', hloop⟩ := hears_items hrest l hl hputl hsep' (g acc (val x)) (n + n') p
      refine ⟨n'', Runs.bind_ok hitem ?_⟩
      dsimp only
      rw [hputx acc]
      exact Runs.bind_ok (runs_pure.mpr ⟨rfl, rfl⟩) hloop

/-- A container with such items. -/
theorem hears_container {item : Call (Outcome α)} {put : β → α → Call β} {g : β → α → β}
    {text : γ → Bytes} {val : γ → α} {bare : Bool} {rest : Bytes} {l : List γ}
    {name attrs : Bytes} {readBegin : Py.Method (Int × List TType × Option Int)}
    {types : List TType} (hname : kcXMLTagC ∉ name)
    (hbegin : ∀ p rest, ∃ k : Int, readBegin (TXMLProtocol.at p (openTag name attrs ++ rest))
      = .ok ((k, types, some (l.length : Int)), p.at rest))
    (h : ∀ x ∈ l, ∀ rest, (bare = true → Tagged rest) → Hears item (text x) rest (val x))
    (hput : ∀ x ∈ l, ∀ acc, put acc (val x) = pure (g acc (val x)))
    (hsep : bare = true → l.length ≤ 1 ∨ ∀ x, Tagged (text x)) (empty : β) :
    Hears (readContainer readBegin (Py.readContainerEnd name) item put empty)
      (between name attrs (l.flatMap text)) rest
      (l.foldl (fun acc x => g acc (val x)) empty) := by
  intro p
  rw [between, List.append_assoc, List.append_assoc]
  obtain ⟨k, hopen⟩ := hbegin p (l.flatMap text ++ (closeTag name ++ rest))
  obtain ⟨n, hitems⟩ := hears_items (tagged_closeTag name rest) l h hput hsep empty k p
  have hclose : Py.readContainerEnd name (p.at (closeTag name ++ rest))
      = .ok (((closeTag name).length : Int), p.at rest) := by
    rw [Py.readContainerEnd, bind_run (Py.readXMLTag_close hname)]
    dsimp only
    rw [if_neg fun hne => hne rfl]
    rfl
  refine ⟨n + (closeTag name).length, Runs.bind_ok (runs_call hopen) ?_⟩
  dsimp only
  rw [Int.toNat_natCast]
  refine Runs.bind_ok hitems ?_
  exact Runs.bind_ok (runs_call hclose) (runs_pure.mpr ⟨rfl, rfl⟩)

/-- A key and a value behind it. -/
theorem hears_entry {key : Call (Outcome α)} {val : Call (Outcome β)} {s s' rest : Bytes} {a : α}
    {b : β} (hkey : Hears key s (s' ++ rest) a) (hval : Hears val s' rest b) :
    Hears (readEntry key val) (s ++ s') rest (a, b) := by
  intro p
  rw [List.append_assoc]
  obtain ⟨n, hk⟩ := hkey p
  obtain ⟨n', hv⟩ := hval p
  exact ⟨n + n', Runs.bind_ok hk (Runs.bind_ok hv (runs_pure.mpr ⟨rfl, rfl⟩))⟩

end Loops

-- ============================================================== fields

section Offers

variable {o o' : Offer (Obj L)} {key : Int} {ftype : TType} {v : (u : Ty) → Obj L u}

/-- What is gathered depends on the offer at the ids of the fields only. -/
theorem gather_congr : (gs : Fields) → (∀ k ∈ gs.keys, ∀ u, o k u = o' k u) →
    gather gs o = gather gs o'
  | .nil, _ => rfl
  | .cons g u gs, h => by
      rw [gather, gather, h g.key List.mem_cons_self,
        gather_congr gs fun k hk => h k (List.mem_cons_of_mem _ hk)]

/-- With nothing offered every attribute is as `__init__` leaves it. -/
theorem gather_none (gs : Fields) : gather gs (fun _ _ => none) = init L gs := by
  induction gs using Fields.induct with
  | nil => rfl
  | cons g u gs ih => exact congrArg (Prod.mk none) ih

/-- An offer to the field in front. -/
theorem gather_and_head {g : Field} {u : Ty} {gs : Fields} (h : g.key ∉ gs.keys) :
    gather (.cons g u gs) (o.and g.key u.type_to_enum v) = (some (v u), gather gs o) := by
  have hrest : gather gs (o.and g.key u.type_to_enum v) = gather gs o :=
    gather_congr gs fun k hk u => Offer.and_of_ne (ne_of_mem_of_not_mem hk h) u
  rw [gather, hrest, Offer.and_same]

/-- And to one behind it. -/
theorem gather_and_tail {g : Field} {u : Ty} {gs : Fields} (h : g.key ≠ key) :
    gather (.cons g u gs) (o.and key ftype v) = (o g.key u, gather gs (o.and key ftype v)) := by
  rw [gather, Offer.and_of_ne h]

/-- An offer that nobody knows changes nothing. -/
theorem gather_unknown : (gs : Fields) → gs.keys.Nodup → gs.known key ftype = none →
    gather gs (o.and key ftype v) = gather gs o
  | .nil, _, _ => rfl
  | .cons g u gs, hdistinct, h => by
      obtain ⟨hkey, hdistinct⟩ := List.nodup_cons.mp hdistinct
      rw [Fields.known] at h
      rw [gather, gather]
      split at h
      · rename_i heq
        subst heq
        split at h
        · cases h
        · rename_i htype
          have hrest : gather gs (o.and g.key ftype v) = gather gs o :=
            gather_congr gs fun k hk u => Offer.and_of_ne (ne_of_mem_of_not_mem hk hkey) u
          rw [Offer.and_of_type htype, hrest]
      · rename_i hne
        rw [Offer.and_of_ne (fun heq => hne heq.symm), gather_unknown gs hdistinct h]

/-- Nothing is given under an id that is not written. -/
theorem given_of_not_mem : (fs : Fields) → key ∉ fs.keys → (x : fs.Rec F) → (u : Ty) →
    given B fs x key u = none
  | .nil, _, _, _ => rfl
  | .cons f t fs, h, x, u => by
      rw [given, if_neg (ne_of_mem_of_not_mem List.mem_cons_self h)]
      exact given_of_not_mem fs (fun hmem => h (List.mem_cons_of_mem _ hmem)) x.2 u

/-- A field that is not written adds nothing. -/
theorem or_given_none {f : Field} {t : Ty} {fs : Fields} (x : (Fields.cons f t fs).Rec F)
    (hget : f.req.get x.1 = none) (hkey : f.key ∉ fs.keys) :
    o.or (given B (.cons f t fs) x) = o.or (given B fs x.2) := by
  funext k u
  unfold Offer.or
  rw [given]
  split
  · rename_i heq
    rw [← heq, given_of_not_mem fs hkey, hget]
    split <;> rfl
  · rfl

/-- A field that is written is offered first. -/
theorem or_given_some {f : Field} {t : Ty} {fs : Fields} (x : (Fields.cons f t fs).Rec F)
    {w : t.Val F} (hget : f.req.get x.1 = some w) (hkey : f.key ∉ fs.keys)
    (hnone : ∀ u, o f.key u = none) :
    o.or (given B (.cons f t fs) x)
      = (o.and f.key t.type_to_enum fun u => fromCpp B t u w).or (given B fs x.2) := by
  funext k u
  unfold Offer.or
  rw [given]
  by_cases heq : f.key = k
  · subst heq
    rw [if_pos rfl, given_of_not_mem fs hkey, hnone, hget]
    by_cases htype : t.type_to_enum = u.type_to_enum
    · rw [if_pos htype, Offer.and, if_pos ⟨rfl, htype⟩]
      rfl
    · rw [if_neg htype, Offer.and_of_type htype, hnone]
  · rw [if_neg heq, Offer.and_of_ne fun h => heq h.symm]

end Offers

/-- A field that is not known, and that `skip` has a case for. -/
theorem skip_run (hW : Decimals W) (hF : F.Texts W) : (t : Ty) → (v : t.Val F) → Passed B t v →
    ∀ (p : TXMLProtocol) (tail : Bytes), (call (Py.skip L.toLibs t.type_to_enum)).Runs
      (p.at (t.text W v ++ kcXMLTagO :: tail)) (.ok ()) (p.at (kcXMLTagO :: tail))
  | .base b, v, hv, p, tail => by
      obtain ⟨n, hrun⟩ := readBase_run (B := B) hW hF b v hv.2 p tail
      cases b with
      | u16 | u32 | u64 | ipv4 | ipaddr | uuid => cases hv.1
      | bool | byte | i16 | i32 | i64 | double | string | xml => exact runs_call (bind_run hrun)
  | .enum, v, _, p, tail => by
      obtain ⟨n, hrun⟩ := readBase_run (L := L) (B := B) hW hF .i32 v trivial p tail
      exact runs_call (bind_run hrun)
  | .typedef t, v, hv, p, tail => skip_run hW hF t v hv p tail

/-- A field that is not declared is skipped, and the object stays as it is.
-/
theorem readField_unknown {text tail : Bytes} {p : TXMLProtocol} {key : Int} {ftype : TType}
    (hskip : (call (Py.skip L.toLibs ftype)).Runs (p.at (text ++ kcXMLTagO :: tail)) (.ok ())
      (p.at (kcXMLTagO :: tail))) : (gs : Fields) → (self : Attrs L gs) →
    gs.known key ftype = none →
    (readField L gs (some ftype) (some key) self).Runs (p.at (text ++ kcXMLTagO :: tail))
      (.ok (some 0, self)) (p.at (kcXMLTagO :: tail))
  | .nil, self, _ => Runs.bind_ok hskip (runs_pure.mpr ⟨rfl, rfl⟩)
  | .cons g u gs, self, h => by
      rw [Fields.known] at h
      unfold readField
      by_cases hkey : key = g.key
      · rw [if_pos hkey] at h
        have htype : ftype ≠ u.type_to_enum := by
          intro htype
          rw [if_pos htype] at h
          cases h
        rw [if_pos (congrArg some hkey), if_neg fun heq => htype (Option.some.inj heq)]
        exact Runs.bind_ok hskip (runs_pure.mpr ⟨rfl, rfl⟩)
      · rw [if_neg hkey] at h
        rw [if_neg fun heq => hkey (Option.some.inj heq)]
        have hrest := readField_unknown hskip gs self.2 h
        exact Runs.bind_ok hrest (runs_pure.mpr ⟨rfl, rfl⟩)

/-- A field that is declared with this type gets the value. -/
theorem readField_known {text tail : Bytes} {p : TXMLProtocol} {key : Int} {ftype : TType}
    {u : Ty} {o : Offer (Obj L)} {v : (u : Ty) → Obj L u}
    (hread : Hears (read L u) text (kcXMLTagO :: tail) (v u)) : (gs : Fields) →
    gs.keys.Nodup → gs.known key ftype = some u →
    ∃ n, (readField L gs (some ftype) (some key) (gather gs o)).Runs
      (p.at (text ++ kcXMLTagO :: tail)) (.ok (some n, gather gs (o.and key ftype v)))
      (p.at (kcXMLTagO :: tail))
  | .nil, _, h => by cases h
  | .cons g w gs, hdistinct, h => by
      obtain ⟨hkey, hdistinct⟩ := List.nodup_cons.mp hdistinct
      rw [Fields.known] at h
      unfold readField
      split at h
      · rename_i heq
        subst heq
        split at h
        · rename_i htype
          obtain rfl := Option.some.inj h
          subst htype
          obtain ⟨n, hruns⟩ := hread p
          rw [if_pos rfl, if_pos rfl, gather_and_head hkey]
          exact ⟨n, Runs.bind_ok hruns (runs_pure.mpr ⟨rfl, rfl⟩)⟩
        · cases h
      · rename_i hne
        obtain ⟨n, hruns⟩ := readField_known hread gs hdistinct h
        rw [if_neg fun heq => hne (Option.some.inj heq),
          gather_and_tail fun heq => hne heq.symm]
        exact ⟨n, Runs.bind_ok hruns (runs_pure.mpr ⟨rfl, rfl⟩)⟩

-- ============================================================ a struct

/-- A turn of the loop: its tag, its value, its end tag. -/
theorem readTurn_field {α : Type} (hW : Decimals W) {f : Field} {t : Ty}
    (hf : f.Sound W t.type_to_enum) {field : Option TType → Option Int → α → Call (Option Int × α)}
    {self self' : α} {s rest : Bytes}
    (hfield : ∀ p, ∃ n, (field (some t.type_to_enum) (some f.key) self).Runs
      (TXMLProtocol.at p (s ++ (closeTag f.name ++ rest))) (.ok (some n, self'))
      (p.at (closeTag f.name ++ rest))) (n : Int) (p : TXMLProtocol) :
    ∃ n', (readStruct.readTurn field (n, self)).Runs
      (p.at (between f.name (attrText W t.type_to_enum (BitVec.ofInt 16 f.key) f.annotations) s
        ++ rest)) (.ok (.inl (n', self'))) (p.at rest) := by
  rw [between, List.append_assoc, List.append_assoc]
  obtain ⟨k, hbegin⟩ := readFieldBegin_annotated hW hf p (s ++ (closeTag f.name ++ rest))
  obtain ⟨k', hvalue⟩ := hfield (p.within f.name)
  have hend := Py.readFieldEnd_run (s := p) hf.name rest
  have hpos : ¬ ((k : Int) < 0) := by omega
  have hpos' : ¬ (((closeTag f.name).length : Int) < 0) := by omega
  refine ⟨n + k + k' + (closeTag f.name).length, Runs.bind_ok (runs_call hbegin) ?_⟩
  dsimp only
  rw [if_neg hpos, if_neg fun heq => t.ne_stop (Option.some.inj heq)]
  refine Runs.bind_ok hvalue (Runs.bind_ok (runs_call hend) ?_)
  rw [if_neg hpos']
  exact runs_pure.mpr ⟨rfl, rfl⟩

/-- The closing tag ends the loop. -/
theorem readTurn_stop {α : Type}
    (field : Option TType → Option Int → α → Call (Option Int × α)) (t : Int × α)
    (name rest : Bytes) (p : TXMLProtocol) :
    (readStruct.readTurn field t).Runs (p.at (closeTag name ++ rest))
      (.ok (.inr (some t.1, t.2))) (p.at (closeTag name ++ rest)) := by
  refine Runs.bind_ok (runs_call (Py.readFieldBegin_stop name rest)) ?_
  refine runs_pure.mpr ⟨?_, rfl⟩
  rw [Int.add_zero]

/-- A value of `t` is read as it should be by a reader for `u`. -/
def ReadAs (B : Parsed F L) (W : World) (t u : Ty) (v : t.Val F) : Prop :=
  ∀ rest, (t.trueBaseOrEnum = true → Tagged rest) →
    Hears (read L u) (t.text W v) rest (fromCpp B t u v)

/-- And so are the fields of a struct. -/
def ReadAllAs (B : Parsed F L) (W : World) (fs gs : Fields) (x : fs.Rec F) : Prop :=
  ∀ (o : Offer (Obj L)), (∀ k ∈ fs.keys, ∀ u, o k u = none) → ∀ (name rest : Bytes) (n : Int) p,
    ∃ n', (Prog.loop (readStruct.readTurn (readField L gs)) (n, gather gs o)).Runs
      (TXMLProtocol.at p (fs.text W x ++ (closeTag name ++ rest)))
      (.ok (some n', gather gs (o.or (given B fs x)))) (p.at (closeTag name ++ rest))

/-- Without fields there is nothing to read. -/
theorem readAllAs_nil (gs : Fields) (x : Fields.nil.Rec F) :
    ReadAllAs (L := L) B W .nil gs x := by
  intro o _ name rest n p
  have hor : gather gs (o.or (given B .nil x)) = gather gs o :=
    gather_congr gs fun k _ u => Option.or_none
  refine ⟨n, Runs.leave ?_⟩
  rw [hor]
  exact readTurn_stop (readField L gs) (n, gather gs o) name rest p

/-- One field more: it is read or skipped, and the others follow. -/
theorem readAllAs_cons (hW : Decimals W) (hF : F.Texts W) {f : Field} {t : Ty} {fs gs : Fields}
    (hgs : gs.keys.Nodup) (hf : f.Sound W t.type_to_enum) (hkey : f.key ∉ fs.keys)
    (x : (Fields.cons f t fs).Rec F)
    (hx : HeardFields B (.cons f t fs) gs x)
    (hval : ∀ v, f.req.get x.1 = some v → ∀ u, gs.known f.key t.type_to_enum = some u →
      ReadAs B W t u v)
    (hrest : ReadAllAs (L := L) B W fs gs x.2) :
    ReadAllAs (L := L) B W (.cons f t fs) gs x := by
  intro o hnone name rest n p
  obtain ⟨hhead, htail⟩ := List.forall_mem_cons.mp hnone
  cases hget : f.req.get x.1 with
  | none =>
      have htext : (Fields.cons f t fs).text W x = fs.text W x.2 := by
        rw [Fields.text, hget]
        rfl
      rw [htext, or_given_none x hget hkey]
      exact hrest o htail name rest n p
  | some w =>
      have htext : (Fields.cons f t fs).text W x = between f.name
          (attrText W t.type_to_enum (BitVec.ofInt 16 f.key) f.annotations) (t.text W w)
          ++ fs.text W x.2 := by
        rw [Fields.text, hget]
      have hfield : ∀ p, ∃ n, (readField L gs (some t.type_to_enum) (some f.key)
          (gather gs o)).Runs
          (TXMLProtocol.at p (t.text W w ++ (closeTag f.name ++ (fs.text W x.2
            ++ (closeTag name ++ rest)))))
          (.ok (some n, gather gs (o.and f.key t.type_to_enum fun u => fromCpp B t u w)))
          (p.at (closeTag f.name ++ (fs.text W x.2 ++ (closeTag name ++ rest)))) := by
        intro p
        obtain ⟨tail, htail⟩ := tagged_closeTag f.name (fs.text W x.2 ++ (closeTag name ++ rest))
        obtain ⟨hpassed, -⟩ := hx.1 w hget
        rw [htail]
        cases hknown : gs.known f.key t.type_to_enum with
        | none =>
            rw [gather_unknown gs hgs hknown]
            exact ⟨0, readField_unknown (skip_run hW hF t w (hpassed hknown) p tail) gs _ hknown⟩
        | some u =>
            exact readField_known (hval w hget u hknown _ fun _ => ⟨tail, rfl⟩) gs hgs hknown
      have hnone' : ∀ k ∈ fs.keys, ∀ u,
          o.and f.key t.type_to_enum (fun u => fromCpp B t u w) k u = none := by
        intro k hk u
        rw [Offer.and_of_ne (ne_of_mem_of_not_mem hk hkey)]
        exact htail k hk u
      rw [htext, List.append_assoc, or_given_some x hget hkey hhead]
      obtain ⟨n', hturn⟩ := readTurn_field hW hf hfield n p
      obtain ⟨n'', hloop⟩ := hrest _ hnone' name rest n' p
      exact ⟨n'', Runs.again hturn hloop⟩

/-- A structure, from its fields. -/
theorem readAs_struct {name name' : Bytes} {fs gs : Fields} (hname : IsName name) (x : fs.Rec F)
    (h : ReadAllAs (L := L) B W fs gs x) :
    ReadAs (L := L) B W (.struct name fs) (.struct name' gs) x := by
  intro rest _ p
  have hbegin : Py.readStructBegin (p.at (openTag name [] ++ (fs.text W x
      ++ (closeTag name ++ rest)))) = .ok (some ((openTag name []).length : Int),
        (p.within name).at (fs.text W x ++ (closeTag name ++ rest))) := by
    have hno : kcXMLTagC ∉ name ++ [] := by
      rw [List.append_nil]
      exact not_mem_name hname
    show (Py.readXMLTag false >>= fun _ => _) _ = _
    rw [bind_run (Py.readXMLTag_open hno), List.append_nil]
    rfl
  have hinit : gather gs (fun _ _ => none) = init L gs := gather_none gs
  have hor : Offer.or (fun _ _ => none) (given B fs x) = given B fs x := rfl
  obtain ⟨n, hloop⟩ := h (fun _ _ => none) (fun _ _ _ => rfl) name rest
    ((openTag name []).length : Int) (p.within name)
  have hend := Py.readStructEnd_run (s := p) hname rest
  have htext : (Ty.struct name fs).text W x ++ rest
      = openTag name [] ++ (fs.text W x ++ (closeTag name ++ rest)) := by
    show between name [] (fs.text W x) ++ rest = _
    rw [between, List.append_assoc, List.append_assoc]
  have hpos : ∀ k : Nat, Py.negative (some (k : Int)) = false := by
    intro k
    simp [Py.negative]
  rw [hinit, hor] at hloop
  have hstruct : (readStruct (readField L gs) (init L gs)).Runs
      (p.at (openTag name [] ++ (fs.text W x ++ (closeTag name ++ rest))))
      (.ok (n + (closeTag name).length, gather gs (given B fs x))) (p.at rest) := by
    refine Runs.bind_ok (runs_call hbegin) ?_
    rw [hpos]
    refine Runs.bind_ok hloop (Runs.bind_ok (runs_call hend) ?_)
    rw [hpos]
    exact runs_pure.mpr ⟨rfl, rfl⟩
  rw [htext]
  exact ⟨_, Runs.bind_ok hstruct (runs_pure.mpr ⟨rfl, rfl⟩)⟩

-- ========================================================== every type

theorem heard_isBaseOrEnum {t u : Ty} {v : t.Val F} (h : Heard B t u v) :
    u.isBaseOrEnum = t.isBaseOrEnum := by
  cases t <;> cases u <;> first | rfl | exact absurd h id

/-- An element, by a reader that knows it. -/
theorem ReadAs.element {t u : Ty} {v : t.Val F} (h : ReadAs B W t u v) (hv : Heard B t u v)
    (rest : Bytes) (hrest : t.undelimited = true → Tagged rest) :
    Hears (readElement u.isBaseOrEnum (read L u))
      (elementText t.isBaseOrEnum (t.text W v)) rest (fromCpp B t u v) := by
  rw [heard_isBaseOrEnum hv]
  exact hears_element h hrest

/-- Elements that are not separate are few. -/
theorem few_or_tagged {t : Ty} {vs : List (t.Val F)}
    (hsep : t.undelimited = false ∨ vs.length ≤ 1) :
    t.undelimited = true → vs.length ≤ 1
      ∨ ∀ v : t.Val F, Tagged (elementText t.isBaseOrEnum (t.text W v)) := by
  intro hbare
  refine .inl (hsep.resolve_left fun hfalse => ?_)
  rw [hbare] at hfalse
  cases hfalse

section Containers

variable (hW : Decimals W)

include hW

theorem readAs_list {e e' : Ty} {vs : List (e.Val F)} (h : ∀ v ∈ vs, ReadAs B W e e' v)
    (hvs : Heard B (.list e) (.list e') vs) : ReadAs B W (.list e) (.list e') vs := by
  intro rest _
  obtain ⟨hlen, hsep, hheard⟩ := hvs
  have hlist : Hears (readContainer Py.readListBegin Py.readListEnd
      (readElement e'.isBaseOrEnum (read L e'))
      (fun (ws : List (Obj L e')) w => pure (ws ++ [w])) [])
      (between (lit "list") (elemsAttrs W e.type_to_enum vs.length)
        (vs.flatMap fun v => elementText e.isBaseOrEnum (e.text W v))) rest
      (vs.foldl (fun ws v => ws ++ [fromCpp B e e' v]) ([] : List (Obj L e'))) :=
    hears_container (g := fun (ws : List (Obj L e')) w => ws ++ [w]) (by decide)
      (readContainerBegin_elems hW (by decide) e hlen)
      (fun v hv rest hrest => (h v hv).element (hheard v hv) rest hrest)
      (fun _ _ _ => rfl) (few_or_tagged (W := W) hsep) []
  rw [List.foldl_append_eq_append, List.nil_append, ← List.flatMap_def,
    ← List.map_eq_flatMap] at hlist
  exact hlist

theorem readAs_set {e e' : Ty} {vs : List (e.Val F)} (h : ∀ v ∈ vs, ReadAs B W e e' v)
    (hvs : Heard B (.set e) (.set e') vs) : ReadAs B W (.set e) (.set e') vs := by
  intro rest _
  obtain ⟨hlen, hsep, hhashed, hheard⟩ := hvs
  have hadd : ∀ v ∈ vs, ∀ s, add L e' s (fromCpp B e e' v)
      = pure (added L e' s (fromCpp B e e' v)) := by
    intro v hv s
    have hhash : e'.trueBaseOrEnum = true := hhashed.resolve_right (List.ne_nil_of_mem hv)
    exact if_pos hhash
  have hset : Hears (readContainer Py.readSetBegin Py.readSetEnd
      (readElement e'.isBaseOrEnum (read L e')) (add L e') [])
      (between (lit "set") (elemsAttrs W e.type_to_enum vs.length)
        (vs.flatMap fun v => elementText e.isBaseOrEnum (e.text W v))) rest
      (vs.foldl (fun s v => added L e' s (fromCpp B e e' v)) []) :=
    hears_container (by decide) (readContainerBegin_elems hW (by decide) e hlen)
      (fun v hv rest hrest => (h v hv).element (hheard v hv) rest hrest)
      hadd (few_or_tagged (W := W) hsep) []
  exact hset

theorem readAs_map {k v k' v' : Ty} {es : List (k.Val F × v.Val F)}
    (h : ∀ e ∈ es, ReadAs B W k k' e.1 ∧ ReadAs B W v v' e.2)
    (hes : Heard B (.map k v) (.map k' v') es) : ReadAs B W (.map k v) (.map k' v') es := by
  intro rest _
  obtain ⟨hlen, hsep, hhashed, hheard⟩ := hes
  have hassign : ∀ e ∈ es, ∀ m, assign L k' m (fromCpp B k k' e.1, fromCpp B v v' e.2)
      = pure (assigned L k' m (fromCpp B k k' e.1, fromCpp B v v' e.2)) := by
    intro e he m
    have hhash : k'.trueBaseOrEnum = true := hhashed.resolve_right (List.ne_nil_of_mem he)
    exact if_pos hhash
  have hentry : ∀ e ∈ es, ∀ rest, (v.undelimited = true → Tagged rest) →
      Hears (readEntry (readElement k'.isBaseOrEnum (read L k'))
          (readElement v'.isBaseOrEnum (read L v')))
        (elementText k.isBaseOrEnum (k.text W e.1) ++ elementText v.isBaseOrEnum (v.text W e.2))
        rest (fromCpp B k k' e.1, fromCpp B v v' e.2) := by
    intro e he rest hrest
    have hnil : es ≠ [] := List.ne_nil_of_mem he
    have hkey : k.undelimited = true → Tagged (elementText v.isBaseOrEnum (v.text W e.2)
        ++ rest) := by
      intro hbare
      rcases hsep.resolve_right hnil with hk | hv
      · rw [hk] at hbare
        cases hbare
      · exact (v.tagged_element hv e.2).append _
    exact hears_entry ((h e he).1.element (hheard e he).1 _ hkey)
      ((h e he).2.element (hheard e he).2 rest hrest)
  have hsep' : v.undelimited = true → es.length ≤ 1 ∨ ∀ e : k.Val F × v.Val F,
      Tagged (elementText k.isBaseOrEnum (k.text W e.1)
        ++ elementText v.isBaseOrEnum (v.text W e.2)) := by
    intro hbare
    rcases hsep with (hk | hv) | hnil
    · exact .inr fun e => (k.tagged_element hk e.1).append _
    · rw [hv] at hbare
      cases hbare
    · rw [hnil]
      exact .inl (Nat.zero_le 1)
  have hmap : Hears (readContainer Py.readMapBegin Py.readMapEnd
      (readEntry (readElement k'.isBaseOrEnum (read L k'))
        (readElement v'.isBaseOrEnum (read L v'))) (assign L k') [])
      (between (lit "map") (mapAttrs W k.type_to_enum v.type_to_enum es.length)
        (es.flatMap fun e => elementText k.isBaseOrEnum (k.text W e.1)
          ++ elementText v.isBaseOrEnum (v.text W e.2))) rest
      (es.foldl (fun m e => assigned L k' m (fromCpp B k k' e.1, fromCpp B v v' e.2)) []) :=
    hears_container (by decide) (readMapBegin_run hW k v hlen) hentry hassign hsep' []
  exact hmap

end Containers

theorem readAs_bare {t : Ty} {u : Ty} {v : t.Val F} (ht : t.trueBaseOrEnum = true)
    (h : ∀ tail, Hears (read L u) (t.text W v) (kcXMLTagO :: tail) (fromCpp B t u v)) :
    ReadAs B W t u v := by
  intro rest hrest
  obtain ⟨tail, rfl⟩ := hrest ht
  exact h tail

mutual

theorem readAs (hW : Decimals W) (hF : F.Texts W) : (t u : Ty) → t.Sound W → u.Sound W →
    (v : t.Val F) → Heard B t u v → ReadAs B W t u v
  | .base b, .base b', _, _, v, hv => by
      obtain ⟨rfl, hv⟩ := hv
      have hvalue : fromCpp B (.base b') (.base b') v = baseObj B b' v :=
        congrArg (baseObj B b') (dif_pos rfl)
      refine readAs_bare rfl fun tail => ?_
      rw [hvalue]
      exact hears_leaf fun p => readBase_run hW hF b' v hv p tail
  | .enum, .enum, _, _, v, _ =>
      readAs_bare rfl fun tail => hears_leaf fun p =>
        readBase_run (L := L) (B := B) hW hF .i32 v trivial p tail
  | .typedef t, .typedef u, ht, hu, v, hv => readAs hW hF t u ht hu v hv
  | .struct name fs, .struct name' gs, ht, hu, x, hx =>
      readAs_struct ht.1 x (readAllAs hW hF fs gs ht.2 hu.2 x hx)
  | .list e, .list e', ht, hu, vs, hvs =>
      readAs_list hW (fun v hv => readAs hW hF e e' ht hu v (hvs.2.2 v hv)) hvs
  | .set e, .set e', ht, hu, vs, hvs =>
      readAs_set hW (fun v hv => readAs hW hF e e' ht hu v (hvs.2.2.2 v hv)) hvs
  | .map k v, .map k' v', ht, hu, es, hes =>
      readAs_map hW (fun e he =>
        ⟨readAs hW hF k k' ht.1 hu.1 e.1 (hes.2.2.2 e he).1,
          readAs hW hF v v' ht.2 hu.2 e.2 (hes.2.2.2 e he).2⟩) hes

theorem readAllAs (hW : Decimals W) (hF : F.Texts W) : (fs gs : Fields) → fs.Sound W →
    gs.Sound W → (x : fs.Rec F) → HeardFields B fs gs x → ReadAllAs (L := L) B W fs gs x
  | .nil, gs, _, _, x, _ => readAllAs_nil gs x
  | .cons _ t fs, gs, hfs, hgs, x, hx =>
      readAllAs_cons hW hF (gs.nodup_keys hgs) hfs.1 hfs.2.1 x hx
        (fun v hv u hu => readAs hW hF t u hfs.2.2.1 (gs.sound_of_known hgs hu) v
          ((hx.1 v hv).2 u hu))
        (readAllAs hW hF fs gs hfs.2.2.2 hgs x.2 hx.2)

end

/-- What the generated code of C++ writes is read by the generated code of
Python, for another version of the type as well. -/
theorem heard_in_python (hW : Decimals W) (hF : F.Texts W) (t u : Ty) (ht : t.Sound W)
    (hu : u.Sound W) (v : t.Val F) (hv : Heard B t u v) (p : TXMLProtocol) (tail : Bytes) :
    ∃ n, (read L u).Runs (p.at ((t.serialize W v .init).out ++ kcXMLTagO :: tail))
      (.ok (.value n (fromCpp B t u v))) (p.at (kcXMLTagO :: tail)) := by
  rw [out_eq]
  exact readAs hW hF t u ht hu v hv _ (fun _ => ⟨tail, rfl⟩) p

/-- Objects that are the texts which were printed. -/
def Parsed.texts : Parsed .printed Libs.texts where
  address := Subtype.val
  uuid := Subtype.val
  double := Subtype.val

/-- The retries of a peer are skipped. -/
theorem heard_in_python_node :
    ∃ n, (read Libs.texts nodeTy).Runs
      ((TXMLProtocol.new []).at ((newNodeTy.serialize quads newNodeValue .init).out
        ++ [kcXMLTagO]))
      (.ok (.value n (some (lit "10.0.0.1"),
        some [((some true, ()) : Option Bool × Unit), (some false, ())], ())))
      ((TXMLProtocol.new []).at [kcXMLTagO]) := by
  have hfield : ∀ {name : Bytes} {key : Int} {req : Req} (t : TType), IsName name →
      (BitVec.ofInt 16 key).toInt = key → Field.Sound quads ⟨name, key, req, []⟩ t :=
    fun _ hname hkey => quads_field hname hkey
  have hnew : newNodeTy.Sound quads := by
    refine ⟨by decide, hfield _ (by decide) (by decide), by decide, trivial,
      hfield _ (by decide) (by decide), by decide, ⟨by decide,
        hfield _ (by decide) (by decide), by decide, trivial,
        hfield _ (by decide) (by decide), by decide, trivial, trivial⟩, trivial⟩
  have hlen : [((true, some 3#32, ()) : Bool × Option (BitVec 32) × Unit),
    (false, none, ())].length < 2 ^ 32 := by decide
  have hpeer : ∀ v : newPeerTy.Val .printed, Heard Parsed.texts newPeerTy peerTy v := by
    intro v
    refine ⟨fun b _ => ⟨fun hnone => ?_, fun u hu => ?_⟩,
      fun b _ => ⟨fun _ => ⟨rfl, trivial⟩, fun u hu => ?_⟩, trivial⟩
    · cases hnone
    · obtain rfl := Option.some.inj hu
      exact ⟨rfl, trivial⟩
    · cases hu
  have hheard : Heard Parsed.texts newNodeTy nodeTy newNodeValue := by
    refine ⟨fun a _ => ⟨fun hnone => ?_, fun u hu => ?_⟩,
      fun vs hvs => ⟨fun hnone => ?_, fun u hu => ?_⟩, trivial⟩
    · cases hnone
    · obtain rfl := Option.some.inj hu
      exact ⟨rfl, rfl⟩
    · cases hnone
    · obtain rfl := Option.some.inj hvs
      obtain rfl := Option.some.inj hu
      exact ⟨hlen, .inl rfl, fun v _ => hpeer v⟩
  exact heard_in_python posix_decimals printed_texts newNodeTy nodeTy hnew nodeTy_sound
    newNodeValue hheard (.new []) []

end Sandesh.PyGen
