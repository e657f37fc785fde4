/-
What `skip` gets through.

`skip` knows no more of a container than the types of its elements. It does
not know of the tags that the writer puts around elements of a base type,
and where the writer puts none, around those of a typedef, it cannot tell
where one ends.

An element in tags is never skipped. A base value that is read before its
tag leaves the reader where it is. A struct takes the tag for its own, and
gets past the element only if there is nothing in it, so that it is always
too late by one element or more: the end of the container is not reached.
-/
import Sandesh.CppGen.Proofs.SkipBase
import Sandesh.CppGen.Proofs.Structs

namespace Sandesh.CppGen

open Lib Xml Header LookaheadReader TType
open Lib.Prog (Runs runs_pure runs_throw)

variable (W : World) {F : Foreign}

-- =========================================================== the values

/-- The base type of a value without structure. -/
def Ty.leaf : Ty → Option Base
  | base b => some b
  | enum => some .i32
  | typedef t => t.leaf
  | struct _ _ | list _ | set _ | map _ _ => none

/-- No tag is part of the value. -/
def Ty.Loose (t : Ty) : Prop := ∃ b, t.leaf = some b ∧ b ≠ .xml

/-- Values are read one after the other from characters that run up to a
tag, each from what those before it left. -/
def Accept : List Base → Bytes → Prop
  | [], _ => True
  | b :: bs, s => b.Accepts W s ∧ Accept bs (b.left s)

/-- The same `n` times over: nothing is left after the first. -/
def Together (bs : List Base) (n : Nat) (s : Bytes) : Prop :=
  n = 0 ∨ Accept W bs s ∧ (n = 1 ∨ Accept W bs [])

/-- The elements of a list or a set can be told apart, or need not be. -/
def Ty.Apart (e : Ty) (n : Nat) (s : Bytes) : Prop :=
  (e.isBaseOrEnum = true → n = 0)
    ∧ ∀ b, e.leaf = some b → b ≠ .xml → Together W [b] n s

/-- The same for the keys and values of a map. -/
def Ty.EntriesApart (k v : Ty) (n : Nat) (s : Bytes) : Prop :=
  (k.isBaseOrEnum = true ∨ v.isBaseOrEnum = true → n = 0)
    ∧ ∀ a b, k.leaf = some a → v.leaf = some b → a ≠ .xml → b ≠ .xml → Together W [a, b] n s

mutual

/-- There is no double, and no container with elements in tags. Characters
that run together make up an address where one is read. -/
def Ty.Skippable : (t : Ty) → t.Val F → Prop
  | .base b, _ => b ≠ .double
  | .enum, _ => True
  | .typedef t, v => t.Skippable v
  | .struct _ fs, r => fs.Skippable r
  | .list e, vs => Every e.Skippable vs ∧ e.Apart W (List.length vs) (vs.flatMap (e.text W))
  | .set e, vs => Every e.Skippable vs ∧ e.Apart W (List.length vs) (vs.flatMap (e.text W))
  | .map k v, es => Every (fun e => k.Skippable e.1 ∧ v.Skippable e.2) es
      ∧ k.EntriesApart W v (List.length es) (es.flatMap fun e => k.text W e.1 ++ v.text W e.2)

/-- Every field that is there can be skipped. -/
def Fields.Skippable : (fs : Fields) → fs.Rec F → Prop
  | .nil, _ => True
  | .cons f t fs, r => (∀ v, f.req.get r.1 = some v → t.Skippable v) ∧ fs.Skippable r.2

end

mutual

/-- Strings and xml are clean, and sizes fit in a `uint32_t`. -/
def Ty.Clean : (t : Ty) → t.Val F → Prop
  | .base b, v => b.Clean v
  | .enum, _ => True
  | .typedef t, v => t.Clean v
  | .struct _ fs, r => fs.Clean r
  | .list e, vs => List.length vs < 2 ^ 32 ∧ Every e.Clean vs
  | .set e, vs => List.length vs < 2 ^ 32 ∧ Every e.Clean vs
  | .map k v, es => List.length es < 2 ^ 32 ∧ Every (fun e => k.Clean e.1 ∧ v.Clean e.2) es

/-- Every field that is there is clean. -/
def Fields.Clean : (fs : Fields) → fs.Rec F → Prop
  | .nil, _ => True
  | .cons f t fs, r => (∀ v, f.req.get r.1 = some v → t.Clean v) ∧ fs.Clean r.2

end

/-- A value is skipped as a whole, or `skip` fails; behind characters has
to be a tag. -/
def Ty.Skips (t : Ty) (v : t.Val F) : Prop :=
  ∀ ⦃rest⦄, (t.Loose → Tagged rest) → Settles (skip W Reads.code t.type_to_enum) (t.text W v)
    rest (t.Skippable W v) (fun n => n = (t.text W v).length)

-- ========================================================== base values

variable {W}

theorem Ty.enum_leaf {b : Base} : (t : Ty) → t.leaf = some b →
    t.type_to_enum = b.type_to_enum
  | .base _, rfl => rfl
  | .enum, rfl => rfl
  | .typedef t, h => t.enum_leaf h

theorem Ty.exists_leaf : (t : Ty) → t.isBaseOrEnum = true → ∃ b, t.leaf = some b
  | .base b, _ => ⟨b, rfl⟩
  | .enum, _ => ⟨.i32, rfl⟩

theorem Ty.not_leaf : (t : Ty) → t.leaf = none → t.trueBaseOrEnum = false
  | .typedef t, h => t.not_leaf h
  | .struct _ _, _ => rfl
  | .list _, _ => rfl
  | .set _, _ => rfl
  | .map _ _, _ => rfl

/-- A value without structure is one of its base type. -/
theorem Ty.text_leaf {b : Base} : (t : Ty) → t.leaf = some b → (v : t.Val F) →
    ∃ u : b.Val F, t.text W v = b.text W u ∧ (t.Clean v → b.Clean u)
      ∧ (t.Skippable W v ↔ b ≠ .double)
  | .base _, rfl, v => ⟨v, rfl, id, Iff.rfl⟩
  | .enum, rfl, v => ⟨v, rfl, id, iff_of_true trivial nofun⟩
  | .typedef t, h, v => t.text_leaf h v

theorem tagged_xmlText (s : Bytes) : Tagged (xmlText s) :=
  ⟨_, List.append_assoc _ _ _⟩

theorem Ty.tagged_of_not_loose {t : Ty} (ht : ¬ t.Loose) (v : t.Val F) : Tagged (t.text W v) := by
  cases hleaf : t.leaf with
  | none => exact t.tagged_text (t.not_leaf hleaf) v
  | some b =>
      obtain ⟨u, htext, -⟩ := t.text_leaf (W := W) hleaf v
      obtain rfl : b = .xml := by
        by_contra hb
        exact ht ⟨b, hleaf, hb⟩
      rw [htext]
      exact tagged_xmlText u

section Leaves

variable (hW : Decimals W) (hF : F.Texts W)

include hW hF

theorem Ty.skips_leaf {t : Ty} {b : Base} (ht : t.leaf = some b) (v : t.Val F)
    (hv : t.Clean v) : t.Skips W v := by
  intro rest hrest
  obtain ⟨u, htext, hclean, hskip⟩ := t.text_leaf (W := W) ht v
  rw [t.enum_leaf ht, htext]
  by_cases hb : b = .xml
  · subst hb
    refine (Takes.settles ?_ trivial).congr (iff_of_true (hskip.mpr nofun) trivial)
    refine Takes.skip ?_
    exact takes_cdata (hclean hv) rest
  · obtain ⟨tail, rfl⟩ := hrest ⟨b, ht, hb⟩
    have hsettles := Base.settles_all (W := W) tail hb (b.text_ne hW hF hb u (hclean hv))
      fun hnum => b.text_numeric hW hnum u
    exact hsettles.congr (hskip.trans (b.accepts_text hF u).symm)

end Leaves

-- ================================================= characters run together

section Together

variable {elem : Read Int} {bs : List Base} {rest run : Bytes}

/-- Nothing is left for the ones behind. -/
theorem settles_rest (h : Settles elem [] rest (Accept W bs []) (fun n => n = 0)) (n : Nat)
    (acc : Int) : Settles (skipElems elem n acc) [] rest (n = 0 ∨ Accept W bs [])
      (fun k => k = acc) := by
  induction n generalizing acc with
  | zero => exact Takes.settles (takes_pure rfl) (.inl rfl)
  | succ n ih =>
      have hiff : (n + 1 = 0 ∨ Accept W bs [])
          ↔ Accept W bs [] ∧ (n = 0 ∨ Accept W bs []) := by
        have hne : n + 1 ≠ 0 := Nat.succ_ne_zero n
        tauto
      have hboth : Settles (skipElems elem (n + 1) acc) ([] ++ []) rest
          (Accept W bs [] ∧ (n = 0 ∨ Accept W bs [])) (fun k => k = acc) := by
        refine Settles.bind h fun k hk => ?_
        rw [hk, Int.add_zero]
        exact ih acc
      exact hboth.congr hiff

/-- The first one is given all the characters there are. -/
theorem settles_together
    (h : ∀ s, s = run ∨ s = [] → Settles elem s rest (Accept W bs s) (fun n => n = s.length))
    {n : Nat} (hn : n = 0 → run = []) (acc : Int) :
    Settles (skipElems elem n acc) run rest (Together W bs n run)
      (fun k => k = acc + run.length) := by
  cases n with
  | zero =>
      rw [hn rfl]
      exact settles_none (.inl rfl) acc
  | succ n =>
      have hiff : Together W bs (n + 1) run
          ↔ Accept W bs run ∧ (n = 0 ∨ Accept W bs []) := by
        simp [Together]
      have hall : Settles (skipElems elem (n + 1) acc) (run ++ []) rest
          (Accept W bs run ∧ (n = 0 ∨ Accept W bs [])) (fun k => k = acc + run.length) := by
        refine Settles.bind (h run (.inl rfl)) fun k hk => ?_
        rw [hk]
        exact settles_rest (h [] (.inr rfl)) n _
      rw [List.append_nil] at hall
      exact hall.congr hiff

end Together

-- ================================================== lists and sets

/-- Before the end tag of a container. -/
def Closing (s : Bytes) : Prop := ∃ tail, s = kcXMLTagO :: kcXMLSlash :: tail

theorem Closing.tagged {s : Bytes} (h : Closing s) : Tagged s := by
  obtain ⟨tail, rfl⟩ := h
  exact ⟨kcXMLSlash :: tail, rfl⟩

/-- Before a tag of an element. -/
theorem exists_element (s rest : Bytes) :
    ∃ tail, elementText true s ++ rest = kcXMLTagO :: 101 :: tail := by
  refine ⟨lit "lement>" ++ s ++ closeTag (lit "element") ++ rest, ?_⟩
  simp [elementText, openTag, lit]
  decide

section Elements

variable (hW : Decimals W) (hF : F.Texts W)

include hW hF

/-- The characters of many values of a type. -/
theorem Ty.text_run {t : Ty} {b : Base} (ht : t.leaf = some b) (hb : b ≠ .xml) (v : t.Val F)
    (hv : t.Clean v) :
    kcXMLTagO ∉ t.text W v ∧ (b.numeric = true → ∀ c ∈ t.text W v, isXMLNumeric c = true) := by
  obtain ⟨u, htext, hclean, -⟩ := t.text_leaf (W := W) ht v
  rw [htext]
  exact ⟨b.text_ne hW hF hb u (hclean hv), fun hnum => b.text_numeric hW hnum u⟩

omit hW hF in
/-- An element in tags is not got past. -/
theorem Ty.elems_stuck {e : Ty} (hdecl : e.isBaseOrEnum = true) {vs : List (e.Val F)}
    (hne : vs ≠ []) (rest : Bytes) (n : Nat) (acc : Int) :
    Goes (skipElems (skip W Reads.code e.type_to_enum) n acc)
      (vs.flatMap (fun v => elementText e.isBaseOrEnum (e.text W v)) ++ rest) Stuck := by
  obtain ⟨v, vs, rfl⟩ := List.exists_cons_of_ne_nil hne
  obtain ⟨b, hleaf⟩ := e.exists_leaf hdecl
  obtain ⟨tail, htail⟩ := exists_element (e.text W v)
    (vs.flatMap (fun v => elementText true (e.text W v)) ++ rest)
  rw [hdecl, List.flatMap_cons, List.append_assoc, htail, e.enum_leaf hleaf]
  have hturn : ∀ (_ : Nat) (s : Bytes), s = kcXMLTagO :: 101 :: tail →
      Goes (skip W Reads.code b.type_to_enum) s (fun s => s = kcXMLTagO :: 101 :: tail) := by
    intro _ s hs
    rw [hs]
    exact b.stays (by decide) tail
  have hstays := goes_elems (Q := fun _ s => s = kcXMLTagO :: 101 :: tail) hturn n acc _ rfl
  exact hstays.imp fun s hs => ⟨101, tail, by decide, hs⟩

/-- Characters that run together, up to a tag. -/
theorem Ty.elems_together {e : Ty} {b : Base} (hleaf : e.leaf = some b) (hb : b ≠ .xml)
    {vs : List (e.Val F)} (hclean : Every e.Clean vs) (tail : Bytes) (acc : Int) :
    Settles (skipElems (skip W Reads.code e.type_to_enum) vs.length acc)
      (vs.flatMap (e.text W)) (kcXMLTagO :: tail)
      (Together W [b] vs.length (vs.flatMap (e.text W)))
      (fun n => n = acc + (vs.flatMap (e.text W)).length) := by
  have hrun : ∀ v ∈ vs, _ := fun v hv => Ty.text_run hW hF hleaf hb v (hclean v hv)
  have hno : kcXMLTagO ∉ vs.flatMap (e.text W) := by
    simp only [List.mem_flatMap, not_exists, not_and]
    exact fun v hv => (hrun v hv).1
  have hnumeric : b.numeric = true → ∀ c ∈ vs.flatMap (e.text W), isXMLNumeric c = true := by
    intro hnum c hc
    obtain ⟨v, hv, hmem⟩ := List.mem_flatMap.mp hc
    exact (hrun v hv).2 hnum c hmem
  rw [e.enum_leaf hleaf]
  refine settles_together (fun s hs => ?_) (fun hn => ?_) acc
  · refine Settles.congr (Base.settles_all tail hb ?_ ?_) (and_iff_left trivial)
    · rcases hs with rfl | rfl
      · exact hno
      · exact List.not_mem_nil
    · intro hnum
      rcases hs with rfl | rfl
      · exact hnumeric hnum
      · exact nofun
  · rw [List.length_eq_zero_iff.mp hn]
    rfl

/-- The contents of a list or a set. -/
theorem Ty.elems_pass (e : Ty) {vs : List (e.Val F)} (hclean : Every e.Clean vs)
    (hskips : ∀ v ∈ vs, e.Skips W v) {rest : Bytes} (hrest : Closing rest) (acc : Int) :
    Passes (skipElems (skip W Reads.code e.type_to_enum) vs.length acc)
      (vs.flatMap fun v => elementText e.isBaseOrEnum (e.text W v)) rest
      (Every (e.Skippable W) vs ∧ e.Apart W vs.length (vs.flatMap (e.text W)))
      (fun n => n = acc
        + (vs.flatMap fun v => elementText e.isBaseOrEnum (e.text W v)).length) := by
  by_cases hdecl : e.isBaseOrEnum = true
  · by_cases hne : vs = []
    · subst hne
      apply Settles.passes
      exact settles_none ⟨nofun, fun _ => rfl, fun _ _ _ => .inl rfl⟩ acc
    · refine ⟨fun hgood => absurd ?_ hne, fun _ => Ty.elems_stuck hdecl hne rest _ acc⟩
      exact List.length_eq_zero_iff.mp (hgood.2.1 hdecl)
  · have hbare : ∀ v : e.Val F, elementText e.isBaseOrEnum (e.text W v) = e.text W v := by
      intro v
      rw [elementText, if_neg hdecl]
    simp only [hbare]
    apply Settles.passes
    by_cases hloose : e.Loose
    · obtain ⟨b, hleaf, hb⟩ := hloose
      obtain ⟨tail, rfl⟩ := hrest
      refine (Ty.elems_together hW hF hleaf hb hclean _ acc).congr ?_
      refine ⟨fun hgood => hgood.2.2 b hleaf hb, fun h => ⟨?_, ?_, ?_⟩⟩
      · intro v hv
        obtain ⟨-, -, -, hskip⟩ := e.text_leaf (W := W) hleaf v
        rcases h with h | h
        · rw [List.length_eq_zero_iff.mp h] at hv
          cases hv
        · exact hskip.mpr (Base.ne_double h.1.1)
      · exact fun h => absurd h hdecl
      · intro b' hleaf' _
        rw [hleaf] at hleaf'
        exact Option.some.inj hleaf' ▸ h
    · refine (settles_elems (R := fun _ => True) (fun _ _ _ _ => trivial)
        (fun v hv rest _ => hskips v hv fun h => absurd h hloose) trivial acc).congr ?_
      refine and_iff_left ⟨fun h => absurd h hdecl, fun b hleaf hb => ?_⟩
      exact absurd ⟨b, hleaf, hb⟩ hloose

end Elements

end Sandesh.CppGen
