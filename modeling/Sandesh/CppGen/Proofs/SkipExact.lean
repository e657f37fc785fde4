/-
Which values `skip` consumes.

A reader that meets a field it does not know skips it by its type, so that
a peer with more fields than the reader can be decoded. That takes a skip
which ends where the value ends, for a value of any type.
-/
import Sandesh.CppGen.Proofs.SkipEntries
import Sandesh.Lib.Wire

namespace Sandesh.CppGen

open Lib Xml Header LookaheadReader TType
open Lib.Prog (Runs runs_pure)

variable {W : World} {F : Foreign}

-- ============================================================ every type

mutual

/-- A value is skipped as a whole exactly if it is skippable. -/
theorem Ty.skips (hW : Decimals W) (hF : F.Texts W) : (t : Ty) → t.Sound W → (v : t.Val F) →
    t.Clean v → t.Skips W v
  | .base _, _, v, hv => Ty.skips_leaf hW hF rfl v hv
  | .enum, _, v, hv => Ty.skips_leaf hW hF rfl v hv
  | .typedef t, hsound, v, hv => t.skips hW hF hsound v hv
  | .struct _ fs, hsound, r, hr => Ty.skips_struct hsound.1 (fs.skips hW hF hsound.2 r hr)
  | .list e, hsound, vs, hvs => by
      intro rest _
      have hclose : Closing (closeTag (lit "list") ++ rest) := ⟨_, closeTag_eq _ _⟩
      have hpass := e.elems_pass hW hF hvs.2 (fun v hv => e.skips hW hF hsound v (hvs.2 v hv))
        hclose ((openTag (lit "list") (elemsAttrs W e.type_to_enum (List.length vs))).length : Int)
      refine Settles.skip (hpass.settles (by decide) (takes_listBegin hW e.named _) ?_)
      simp only [toNat_size hvs.1]
      rfl
  | .set e, hsound, vs, hvs => by
      intro rest _
      have hclose : Closing (closeTag (lit "set") ++ rest) := ⟨_, closeTag_eq _ _⟩
      have hpass := e.elems_pass hW hF hvs.2 (fun v hv => e.skips hW hF hsound v (hvs.2 v hv))
        hclose ((openTag (lit "set") (elemsAttrs W e.type_to_enum (List.length vs))).length : Int)
      refine Settles.skip (hpass.settles (by decide) (takes_setBegin hW e.named _) ?_)
      simp only [toNat_size hvs.1]
      rfl
  | .map k v, hsound, es, hes => by
      intro rest _
      have hclose : Closing (closeTag (lit "map") ++ rest) := ⟨_, closeTag_eq _ _⟩
      have hpass := Ty.entries_pass hW hF hsound.1 hsound.2 hes.2
        (fun e he => ⟨k.skips hW hF hsound.1 e.1 (hes.2 e he).1,
          v.skips hW hF hsound.2 e.2 (hes.2 e he).2⟩)
        hclose ((openTag (lit "map") (mapAttrs W k.type_to_enum v.type_to_enum
          (List.length es))).length : Int)
      refine Settles.skip (hpass.settles (by decide) (takes_mapBegin hW k.named v.named _) ?_)
      simp only [toNat_size hes.1]
      rfl

theorem Fields.skips (hW : Decimals W) (hF : F.Texts W) : (fs : Fields) → fs.Sound W →
    (x : fs.Rec F) → fs.Clean x → fs.Skips W x
  | .nil, _, x, _ => Fields.skips_nil x
  | .cons _ t fs, hsound, x, hx => Fields.skips_cons hW hsound.1
      (fun v hv => t.skips hW hF hsound.2.2.1 v (hx.1 v hv)) (fs.skips hW hF hsound.2.2.2 x.2 hx.2)

end

-- ============================================================= exactly

/-- `skip` returns the number of bytes of the value, and leaves the reader
at the tag behind it. What it returns is an `int32_t`: a sum that stays
below `2 ^ 31` is what was counted, and no `int32_t` is a length from there
on. -/
def SkipsExactly (W : World) (t : Ty) (v : t.Val F) : Prop :=
  ∀ ⦃tail : Bytes⦄ ⦃r : LookaheadReader⦄,
    Fresh ((t.serialize W v .init).out ++ kcXMLTagO :: tail) r →
    ∃ n r', (skip W Reads.code t.type_to_enum).Runs r (.ok n) r'
      ∧ i32 n = ((t.serialize W v .init).out.length : Int) ∧ Near (kcXMLTagO :: tail) r'

theorem out_eq (t : Ty) (v : t.Val F) : (t.serialize W v .init).out = t.text W v := by
  rw [t.serialize_eq W v]
  rfl

theorem Ty.Skips.exactly {t : Ty} {v : t.Val F} (h : t.Skips W v) (hgood : t.Skippable W v)
    (hsize : (t.text W v).length < 2 ^ 31) : SkipsExactly W t v := by
  intro tail r hr
  rw [out_eq] at hr ⊢
  obtain ⟨n, r', hruns, rfl, hready⟩ := (h fun _ => ⟨tail, rfl⟩).takes hgood r hr.ready
  exact ⟨_, r', hruns, i32_eq (by omega) (by exact_mod_cast hsize), hready.near⟩

theorem SkipsExactly.size {t : Ty} {v : t.Val F} (h : SkipsExactly W t v) :
    (t.text W v).length < 2 ^ 31 := by
  obtain ⟨n, _, _, hn, -⟩ := h (fresh_new ((t.serialize W v .init).out ++ [kcXMLTagO]) 0 (0, 0))
  rw [out_eq] at hn
  have hlt := i32_lt n
  omega

theorem Ty.Skips.not_exactly {t : Ty} {v : t.Val F} (h : t.Skips W v)
    (hbad : ¬ t.Skippable W v) : ¬ SkipsExactly W t v := by
  intro hexact
  have hfresh := fresh_new ((t.serialize W v .init).out ++ [kcXMLTagO]) 0 (0, 0)
  obtain ⟨n, r₁, hruns, -, -⟩ := hexact hfresh
  rw [out_eq] at hfresh
  obtain ⟨e, r₂, hfails⟩ := (h fun _ => ⟨[], rfl⟩).fails hbad _ hfresh.ready
  rw [out_eq] at hruns
  cases (hruns.unique hfails).1

/-- **Which values are skipped.** Those without a double and without
elements in tags, with addresses where characters run together, and whose
text has a length that can be returned. -/
theorem skip_exactly_iff (hW : Decimals W) (hF : F.Texts W) (t : Ty) (ht : t.Sound W)
    (v : t.Val F) (hv : t.Clean v) :
    SkipsExactly W t v ↔ t.Skippable W v ∧ (t.serialize W v .init).out.length < 2 ^ 31 := by
  have hskips := t.skips hW hF ht v hv
  rw [out_eq]
  constructor
  · intro hexact
    refine ⟨?_, hexact.size⟩
    by_contra hbad
    exact hskips.not_exactly hbad hexact
  · rintro ⟨hgood, hsize⟩
    exact hskips.exactly hgood hsize

-- =============================================== an instance of it all

/-- A number below 256. -/
def isOctet (s : Bytes) : Bool := s ≠ [] && s.all isDigit && decide (decVal s < 256)

/-- An address of four of them, with dots. -/
def isQuad (s : Bytes) : Bool :=
  (s.splitOn 46).length == 4 && (s.splitOn 46).all isOctet

/-- The example's world: an address is four numbers with dots. -/
def quads : World := World.posix isQuad ⟨T_STOP, 0, T_STOP, T_STOP, 0⟩

/-- Addresses, uuids and doubles by what is printed for them. -/
def Foreign.printed : Foreign where
  Address := { s : Bytes // isQuad s = true ∧ kcXMLTagO ∉ s }
  Uuid := { s : Bytes // PlainText s }
  Double := { s : Bytes // kcXMLTagO ∉ s }
  address := ⟨lit "0.0.0.0", by decide⟩
  nil_uuid := ⟨lit "00000000-0000-0000-0000-000000000000", by unfold PlainText; decide⟩
  zero := ⟨lit "0", by decide⟩
  address_to_string := Subtype.val
  address_from_string := fun s =>
    if h : isQuad s = true ∧ kcXMLTagO ∉ s then some ⟨s, h⟩ else none
  uuid_to_string := Subtype.val
  uuid_from_string := fun _ => none
  double_to_string := Subtype.val

theorem printed_texts : Foreign.printed.Texts quads where
  address := fun a => a.2.1
  addressTag := fun a => a.2.2
  uuid := fun u => u.2
  double := fun d => d.2

/-- `struct Peer { 1: required bool up }` -/
def peerTy : Ty := .struct (lit "Peer") (.cons ⟨lit "up", 1, .required, []⟩ (.base .bool) .nil)

/-- `struct Node { 1: required ipaddr address; 2: required list<Peer> peers }` -/
def nodeTy : Ty := .struct (lit "Node")
  (.cons ⟨lit "address", 1, .required, []⟩ (.base .ipaddr)
    (.cons ⟨lit "peers", 2, .required, []⟩ (.list peerTy) .nil))

/-- The example's value. -/
def nodeValue : nodeTy.Val .printed :=
  ((⟨lit "10.0.0.1", by decide⟩ : Foreign.printed.Address), [((true, ()) : Bool × Unit),
    (false, ())], ())

theorem nodeTy_sound : nodeTy.Sound quads := by
  have hharmless : ∀ t i, Harmless quads t i (annotationWords []) := fun _ _ =>
    harmless_of_none rfl
  have hfield : ∀ (name : Bytes) (key : Int) (t : TType), IsName name →
      (BitVec.ofInt 16 key).toInt = key → Field.Sound quads ⟨name, key, .required, []⟩ t :=
    fun _ _ _ hname hkey => ⟨hname, hkey, nofun, hharmless _ _⟩
  refine ⟨by decide, hfield _ _ _ (by decide) (by decide), by decide, trivial,
    hfield _ _ _ (by decide) (by decide), by decide, ⟨by decide, ?_⟩, trivial⟩
  exact ⟨hfield _ _ _ (by decide) (by decide), by decide, trivial, trivial⟩

/-- A struct with an address and a list of structs. -/
theorem skip_exactly_node : Decimals quads ∧ Foreign.printed.Texts quads
    ∧ SkipsExactly quads nodeTy nodeValue := by
  have hlen : [((true, ()) : Bool × Unit), (false, ())].length < 2 ^ 32 := by decide
  have hclean : nodeTy.Clean nodeValue := by
    refine ⟨fun _ _ => trivial, fun v hv => ?_, trivial⟩
    obtain rfl := Option.some.inj hv
    exact ⟨hlen, fun _ _ => ⟨fun _ _ => trivial, trivial⟩⟩
  have hskippable : nodeTy.Skippable quads nodeValue := by
    refine ⟨fun _ _ => nofun, fun v hv => ?_, trivial⟩
    obtain rfl := Option.some.inj hv
    exact ⟨fun _ _ => ⟨fun _ _ => nofun, trivial⟩, nofun, nofun⟩
  refine ⟨posix_decimals, printed_texts, (skip_exactly_iff posix_decimals printed_texts nodeTy
    nodeTy_sound nodeValue hclean).mpr ⟨hskippable, ?_⟩⟩
  rw [out_eq]
  decide +kernel

/-- A list with one number in it. -/
theorem skip_exactly_fails :
    ¬ SkipsExactly (F := .printed) quads (.list (.base .i32)) [1#32] := by
  have hlen : [1#32].length < 2 ^ 32 := by decide
  have hskips := (Ty.list (.base .i32)).skips posix_decimals printed_texts trivial [1#32]
    ⟨hlen, fun _ _ => trivial⟩
  refine hskips.not_exactly fun hgood => ?_
  exact absurd (hgood.2.1 rfl) (Nat.succ_ne_zero 0)

end Sandesh.CppGen
