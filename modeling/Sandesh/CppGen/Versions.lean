/-
A reader and a writer from different versions of an IDL.

The writer writes all the fields it has. Of these the reader takes the ones
it knows by id and type, skips the others, and leaves at their start those
that did not come (`collect`). What is said of a field here is said again
of the structs in it: `t.adopt less u v` is what a reader for `u` makes of
`v`, a value of `t`.

Nothing of this is in the generated code, which only reads a field and
skips a field. It is what these reads and skips are for.
-/
import Sandesh.CppGen.Proofs.SkipExact

namespace Sandesh.CppGen

open Lib Xml

variable {F : Foreign}

/-- Induction over the fields of a struct, whatever their types. -/
@[elab_as_elim]
theorem Fields.induct {P : Fields → Prop} (nil : P .nil)
    (cons : ∀ f t fs, P fs → P (.cons f t fs)) (fs : Fields) : P fs :=
  @Fields.rec (fun _ => True) P (fun _ => trivial) trivial (fun _ _ => trivial)
    (fun _ _ _ => trivial) (fun _ _ => trivial) (fun _ _ => trivial) (fun _ _ _ _ => trivial)
    nil (fun f t fs _ => cons f t fs) fs

-- ============================================================= records

/-- The type of the field with this id, if it is the type in the tag. -/
def Fields.known : Fields → Int → TType → Option Ty
  | nil, _, _ => none
  | cons g u gs, key, ftype =>
      if key = g.key then if ftype = u.type_to_enum then some u else none
      else gs.known key ftype

/-- What there is for a field of this id and type. -/
abbrev Offer (V : Ty → Type) := Int → (u : Ty) → Option (V u)

/-- A struct of what is offered; a field that is not offered is as it is in
a new variable. -/
def Fields.collect : (gs : Fields) → Offer (Ty.Val F) → gs.Rec F
  | .nil, _ => ()
  | .cons g u gs, o => ((match o g.key u with
      | some v => g.req.put v
      | none => g.req.unset (u.zero F)), gs.collect o)

/-- Every required field is offered. -/
def Fields.Supplied : Fields → Offer (Ty.Val F) → Prop
  | .nil, _ => True
  | .cons g u gs, o => (g.req = .required → (o g.key u).isSome = true) ∧ gs.Supplied o

-- ============================================================== values

/-- A base value that comes back: its text ends at the next tag, and is read
as what it was. A double is not read here. -/
def Base.Returns : (b : Base) → b.Val F → Prop
  | string, v => kcXMLTagO ∉ escapeXMLControlChars v
      ∧ unescapeXMLControlChars (escapeXMLControlChars v) = v
  | xml, v => ¬ kXMLCDATAC <:+: v
  | ipaddr, v => F.address_from_string (F.address_to_string v) = some v
  | uuid, v => F.uuid_from_string (F.uuid_to_string v) = some v
  | double, _ => False
  | bool, _ | byte, _ | i16, _ | i32, _ | i64, _ | u16, _ | u32, _ | u64, _ | ipv4, _ => True

section Conditions

variable (less : (t : Ty) → t.Val F → t.Val F → Bool)

mutual

/-- What a reader for the second type makes of a value of the first. -/
def Ty.adopt : (t u : Ty) → t.Val F → u.Val F
  | .base b, .base b', v => if h : b = b' then h ▸ v else b'.zero F
  | .enum, .enum, v => v
  | .typedef t, .typedef u, v => t.adopt u v
  | .struct _ fs, .struct _ gs, x => gs.collect (fs.offer x)
  | .list e, .list e', vs => List.map (e.adopt e') vs
  | .set e, .set e', vs =>
      List.foldl (fun s v => Sorted.insert (less e') (e.adopt e' v) s) [] vs
  | .map k v, .map k' v', es =>
      List.foldl (fun m e => Sorted.assign (less k') (k.adopt k' e.1) (v.adopt v' e.2) m) [] es
  | _, u, _ => u.zero F

/-- The fields of a struct that are written, for a reader. -/
def Fields.offer : (fs : Fields) → fs.Rec F → (key : Int) → (u : Ty) → Option (u.Val F)
  | .nil, _, _, _ => none
  | .cons f t fs, x, key, u =>
      if f.key = key then
        if t.type_to_enum = u.type_to_enum then (f.req.get x.1).map (t.adopt u) else none
      else fs.offer x.2 key u

end

mutual

/-- What a reader for `u` knows of a value of `t` is what it takes it for:
types are the same but for the fields of structs, base values come back,
sizes fit in a `uint32_t`, values are spaced, and no two keys of a map are
the same to the reader. What it does not know is clean. -/
def Ty.Meant : (t u : Ty) → t.Val F → Prop
  | .base b, .base b', v => b' = b ∧ b.Returns v
  | .enum, .enum, _ => True
  | .typedef t, .typedef u, v => t.Meant u v
  | .struct _ fs, .struct _ gs, x => fs.Meant gs x
  | .list e, .list e', vs => List.length vs < 2 ^ 32
      ∧ (e.undelimited = false ∨ List.length vs ≤ 1) ∧ Every (e.Meant e') vs
  | .set e, .set e', vs => List.length vs < 2 ^ 32
      ∧ (e.undelimited = false ∨ List.length vs ≤ 1) ∧ Every (e.Meant e') vs
  | .map k v, .map k' v', es => List.length es < 2 ^ 32
      ∧ ((k.undelimited = false ∨ v.undelimited = false) ∨ es = [])
      ∧ Every (fun e => k.Meant k' e.1 ∧ v.Meant v' e.2) es
      ∧ List.Pairwise (fun a b => Sorted.Apart (less k') (k.adopt less k' a.1)
          (k.adopt less k' b.1)) es
  | _, _, _ => False

/-- Every field that is there, and that the reader knows, is meant. -/
def Fields.Meant : (fs : Fields) → Fields → fs.Rec F → Prop
  | .nil, _, _ => True
  | .cons f t fs, gs, x => (∀ v, f.req.get x.1 = some v →
      (gs.known f.key t.type_to_enum = none → t.Clean v)
      ∧ ∀ u, gs.known f.key t.type_to_enum = some u → t.Meant u v) ∧ fs.Meant gs x.2

end

variable (W : World)

mutual

/-- The fields that the reader does not know are such that they are
skipped, and the ones it requires have come. -/
def Ty.Adoptable : (t u : Ty) → t.Val F → Prop
  | .typedef t, .typedef u, v => t.Adoptable u v
  | .struct _ fs, .struct _ gs, x => fs.Adoptable gs x ∧ gs.Supplied (fs.offer less x)
  | .list e, .list e', vs => Every (e.Adoptable e') vs
  | .set e, .set e', vs => Every (e.Adoptable e') vs
  | .map k v, .map k' v', es => Every (fun e => k.Adoptable k' e.1 ∧ v.Adoptable v' e.2) es
  | _, _, _ => True

/-- Every field that is there can be adopted, or is not known. -/
def Fields.Adoptable : (fs : Fields) → Fields → fs.Rec F → Prop
  | .nil, _, _ => True
  | .cons f t fs, gs, x => (∀ v, f.req.get x.1 = some v →
      (gs.known f.key t.type_to_enum = none → t.Skippable W v)
      ∧ ∀ u, gs.known f.key t.type_to_enum = some u → t.Adoptable u v) ∧ fs.Adoptable gs x.2

end

end Conditions

end Sandesh.CppGen
