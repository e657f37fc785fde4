/-
The two serializers of the C generator agree where their code compiles.

The C compiler refuses the code for a list of anything but a base type, and
the linker that for a field whose structure has capitals in its name
(`Fields.Plain` excludes both). Where it is taken, both write the bytes of
the same tree.
-/
import Sandesh.CGen.Proofs.Buffer

namespace Sandesh.CGen

open Lib Binary Binary.C
open Lib.Prog (Runs)

-- ============================================================ compiling

mutual

/-- Lists are of base types, and structures that are used have names
without capitals. -/
def Ty.Plain : Ty → Prop
  | .base _ | .enum _ => True
  | .struct name fs => name.text = name.name_u ∧ fs.Plain
  | .list (.base _) => True
  | .list _ => False

/-- Every field is of a plain type. -/
def Fields.Plain : Fields → Prop
  | .nil => True
  | .cons _ t fs => t.Plain ∧ fs.Plain

end

/-- The stars of a C type. -/
def CType.depth : CType → Nat
  | base _ | named _ => 0
  | pointer c => c.depth + 1

/-- The stars the generated code counts on. -/
def Ty.depth : Ty → Nat
  | base _ | enum _ => 0
  | struct _ _ => 1
  | list e => e.depth + 1

theorem Ty.depth_of_accepts (t : Ty) (c : CType) (h : t.accepts c = true) :
    c.depth = t.depth := by
  fun_induction Ty.accepts t c with
  | case1 b c | case2 name c | case3 name fs c =>
      rw [decide_eq_true_eq] at h
      subst h
      rfl
  | case4 e c ih => exact congrArg (· + 1) (ih h)
  | case5 e c hne => cases h

theorem Ty.depth_type_name (t : Ty) : t.type_name.depth ≤ t.depth := by
  fun_induction Ty.type_name t with
  | case1 b | case2 name | case3 name fs | case4 b => exact Nat.le_refl _
  | case5 e hne ih => exact Nat.le_succ_of_le ih

/-- Of the lists only those of a base type have the stars they need. -/
theorem list_accepts_iff (e : Ty) :
    (Ty.list e).accepts (Ty.list e).type_name = true ↔ ∃ b, e = .base b := by
  constructor
  · intro h
    cases e with
    | base b => exact ⟨b, rfl⟩
    | enum name => cases h
    | struct name fs =>
        have hd := Ty.depth_of_accepts _ _ h
        cases hd
    | list e =>
        have hd := Ty.depth_of_accepts _ _ h
        have hle := (Ty.list e).depth_type_name
        change (Ty.list e).type_name.depth = (Ty.list e).depth + 1 at hd
        omega
  · rintro ⟨b, rfl⟩
    exact decide_eq_true rfl

theorem list_plain_iff (e : Ty) : (Ty.list e).Plain ↔ ∃ b, e = .base b := by
  cases e with
  | base b => exact ⟨fun _ => ⟨b, rfl⟩, fun _ => trivial⟩
  | _ => exact ⟨fun h => absurd h id, fun ⟨_, h⟩ => nomatch h⟩

mutual

theorem Ty.compiles_iff : (t : Ty) →
    ((t.accepts t.type_name && t.resolves) = true ↔ t.Plain)
  | .base b => by
      refine ⟨fun _ => trivial, fun _ => ?_⟩
      exact Bool.and_eq_true_iff.mpr ⟨decide_eq_true rfl, rfl⟩
  | .enum name => by
      refine ⟨fun _ => trivial, fun _ => ?_⟩
      exact Bool.and_eq_true_iff.mpr ⟨decide_eq_true rfl, rfl⟩
  | .struct name fs => by
      have haccepts : (Ty.struct name fs).accepts (Ty.struct name fs).type_name = true :=
        decide_eq_true rfl
      rw [haccepts, Bool.true_and, Ty.resolves, Bool.and_eq_true, decide_eq_true_eq,
        fs.compiles_iff]
      rfl
  | .list e => by
      rw [Bool.and_eq_true, list_accepts_iff, list_plain_iff]
      refine ⟨fun h => h.1, fun h => ⟨h, ?_⟩⟩
      obtain ⟨b, rfl⟩ := h
      rfl

theorem Fields.compiles_iff : (fs : Fields) → (fs.compiles = true ↔ fs.Plain)
  | .nil => ⟨fun _ => trivial, fun _ => rfl⟩
  | .cons key t fs => by
      rw [Fields.compiles, Bool.and_eq_true, t.compiles_iff, fs.compiles_iff]
      rfl

end

theorem compiles_iff (ds : List Def) :
    Compiles ds ↔ Apart (ds.flatMap Def.defs) ∧ ∀ d ∈ ds, d.fields.Plain := by
  refine and_congr_right fun _ => forall₂_congr fun d _ => ?_
  exact d.fields.compiles_iff

-- ============================================================ agreement

/-- `write_binary_to_buffer` writes the bytes where they fit. -/
def WritesWhereFits (d : Def) (r : d.fields.Rec) (bs : Bytes) : Prop :=
  ∀ (mem : Bytes) (buf buflen : Nat), buflen < 2 ^ 64 → buf + buflen ≤ mem.length →
    if bs.length ≤ buflen then
      (d.write_binary_to_buffer r buf buflen).Runs mem (.ok bs.length)
        (splice mem buf bs)
    else ∃ mem', (d.write_binary_to_buffer r buf buflen).Runs mem (.ok (-1)) mem'

/-- The code compiles, and both serializers fail, or write the same bytes
and return their number. -/
def Agree (d : Def) (r : d.fields.Rec) : Prop :=
  Compiles [d] ∧
    ((∃ bs : Bytes,
        (∀ b : Buffer, bs.length ≤ b.room →
          d.write memoryBuffer r b = ((bs.length : Int), b.append bs)) ∧
        sandesh_get_encoded_length d r = bs.length ∧ WritesWhereFits d r bs) ∨
      ((∃ n, ∀ b : Buffer, n ≤ b.room → (d.write memoryBuffer r b).1 = -1) ∧
        sandesh_get_encoded_length d r = -1 ∧
        ∀ (mem : Bytes) (buf buflen : Nat), buflen < 2 ^ 64 →
          buf + buflen ≤ mem.length →
          ∃ mem', (d.write_binary_to_buffer r buf buflen).Runs mem (.ok (-1)) mem'))

theorem agree_of_compiles {d : Def} {r : d.fields.Rec}
    (hlt : (d.out r).bytes.length < 2 ^ 31) (h : Compiles [d]) : Agree d r := by
  refine ⟨h, ?_⟩
  have hmemory := fun b hroom => d.writes_out (A := memoryAppends) r b hroom hlt
  have hfake := d.writes_out (A := fakeAppends) r () trivial hlt
  have hbuffer := fun mem buf buflen hbuflen hmem =>
    d.fills r mem buf buflen hbuflen hmem hlt
  cases hok : (d.out r).ok with
  | true =>
      simp only [hok, if_true, true_and] at hmemory hfake hbuffer
      refine .inl ⟨(d.out r).bytes, hmemory, ?_, hbuffer⟩
      exact congrArg Prod.fst hfake
  | false =>
      simp only [hok, Bool.false_eq_true, if_false, false_and] at hmemory hfake hbuffer
      exact .inr ⟨⟨_, hmemory⟩, hfake, hbuffer⟩

/-- Both serializers agree on every value of a definition whose code the C
compiler takes. -/
theorem serializers_agree_iff (d : Def) (r : d.fields.Rec)
    (hlt : (d.out r).bytes.length < 2 ^ 31) :
    Agree d r ↔ Apart d.defs ∧ d.fields.Plain := by
  have hcompiles : Compiles [d] ↔ Apart d.defs ∧ d.fields.Plain := by
    rw [compiles_iff, List.flatMap_singleton]
    exact and_congr_right fun _ => List.forall_mem_singleton
  exact ⟨fun h => hcompiles.mp h.1, fun h => agree_of_compiles hlt (hcompiles.mpr h)⟩

/-- `struct inner { 1: i32 a }` -/
def inner : Def where
  sandesh := false
  name := ⟨[105, 110, 110, 101, 114], by decide, by decide⟩
  fields := .cons 1 (.base .i32) .nil
  distinct := ⟨by decide, trivial, trivial⟩

/-- `sandesh abc { 1: inner elem; 2: list<byte> rwinfo }` -/
def abc : Def where
  sandesh := true
  name := ⟨[97, 98, 99], by decide, by decide⟩
  fields := .cons 1 (.struct inner.name inner.fields)
    (.cons 2 (.list (.base .byte)) .nil)
  distinct := ⟨by decide, inner.distinct, by decide, trivial, trivial⟩

theorem abc_apart : Apart abc.defs := by
  intro d hd d' hd' heq
  change d ∈ [abc, inner] at hd
  change d' ∈ [abc, inner] at hd'
  rw [List.mem_pair] at hd hd'
  rcases hd with rfl | rfl <;> rcases hd' with rfl | rfl <;>
    first
      | rfl
      | exact absurd heq (by decide)

/-- A number in the structure, and two bytes in the list. -/
theorem serializers_agree_abc :
    Agree abc ((⟨.i32 7, rfl⟩, ()), [⟨.byte 1, rfl⟩, ⟨.byte 2, rfl⟩], ()) :=
  (serializers_agree_iff _ _ (by decide)).mpr
    ⟨abc_apart, ⟨rfl, trivial, trivial⟩, trivial, trivial⟩

/-- `sandesh abc { 1: list<inner> elems }` -/
def abcList : Def where
  sandesh := true
  name := abc.name
  fields := .cons 1 (.list (.struct inner.name inner.fields)) .nil
  distinct := ⟨by decide, inner.distinct, trivial⟩

/-- `struct Inner { 1: i32 a }` and `sandesh abc { 1: Inner elem }` -/
def abcCaps : Def where
  sandesh := true
  name := abc.name
  fields := .cons 1 (.struct ⟨[73, 110, 110, 101, 114], by decide, by decide⟩
    inner.fields) .nil
  distinct := ⟨by decide, inner.distinct, trivial⟩

/-- The code for a list of structures passes a structure where a pointer is
asked for, and that for `Inner` calls `Inner_write`, which is defined as
`inner_write`. -/
theorem serializers_not_compiled :
    ¬ Agree abcList ([(⟨.i32 7, rfl⟩, ())], ()) ∧
      ¬ Agree abcCaps ((⟨.i32 7, rfl⟩, ()), ()) := by
  constructor
  · rintro ⟨⟨-, hcompiles⟩, -⟩
    exact absurd (hcompiles abcList List.mem_cons_self) (by decide)
  · rintro ⟨⟨-, hcompiles⟩, -⟩
    exact absurd (hcompiles abcCaps List.mem_cons_self) (by decide)

end Sandesh.CGen
