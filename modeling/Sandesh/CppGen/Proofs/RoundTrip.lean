/-
Which types come back from XML.

Every value of a type comes back if the type is separable, and if it is not
there is one that does not: somewhere in the type is a container that runs
values together, and around it the value is filled up with what variables
start with.
-/
import Sandesh.CppGen.Proofs.Misread

namespace Sandesh.CppGen

open Lib Xml Header TXMLWriter

variable {W : World} {F : Foreign} {junk : Bool}
  {less : (t : Ty) → t.Val F → t.Val F → Bool}

/-- Reading into a new variable what was written, with a tag behind it,
gives the value and stops at the tag. -/
def RoundTrip (W : World) (junk : Bool) (less : (t : Ty) → t.Val F → t.Val F → Bool) (t : Ty)
    (v : t.Val F) : Prop :=
  ∀ tail r, Fresh ((t.serialize W v .init).out ++ kcXMLTagO :: tail) r →
    ∃ n r', (t.deserialize W Reads.code junk less (t.zero F)).Runs r (.ok (n, v)) r'
      ∧ Near (kcXMLTagO :: tail) r'

theorem serialize_out (t : Ty) (v : t.Val F) : (t.serialize W v .init).out = t.text W v := by
  rw [t.serialize_eq W v]
  rfl

/-- What the text of a value is read as, at a tag. -/
theorem Ty.ReadsAs.runs {t : Ty} {v v' : t.Val F} (h : t.ReadsAs W junk less v v') {tail : Bytes}
    {r : LookaheadReader} (hr : Fresh ((t.serialize W v .init).out ++ kcXMLTagO :: tail) r) :
    ∃ n r', (t.deserialize W Reads.code junk less (t.zero F)).Runs r (.ok (n, v')) r'
      ∧ Near (kcXMLTagO :: tail) r' := by
  rw [serialize_out] at hr
  obtain ⟨⟨n, w⟩, r', hruns, rfl, hready⟩ := h _ (.inl rfl) _ (fun _ => ⟨tail, rfl⟩) r hr.ready
  exact ⟨n, r', hruns, hready.near⟩

/-- A value that is read as another does not come back. -/
theorem Ty.ReadsAs.not_roundTrip {t : Ty} {v v' : t.Val F} (h : t.ReadsAs W junk less v v')
    (hne : v' ≠ v) : ¬ RoundTrip W junk less t v := by
  intro htrip
  have hfresh := fresh_new ((t.serialize W v .init).out ++ kcXMLTagO :: []) 0 (0, 0)
  obtain ⟨n, r₁, hruns, -⟩ := htrip [] _ hfresh
  obtain ⟨n', r₂, hruns', -⟩ := h.runs hfresh
  have heq := Except.ok.inj (hruns'.unique hruns).1
  exact hne (Prod.mk.inj heq).2

-- ====================================================== not separable

theorem Req.put_inj {α : Type} {req : Req} {v v' : α} (h : req.put v' = req.put v) : v' = v := by
  have hget := congrArg req.get h
  rw [Req.get_put, Req.get_put] at hget
  exact Option.some.inj hget

section Misread

variable (hW : Decimals W) {f : Field} {t : Ty} {fs : Fields}

/-- A field that is read as another, and the others as they start. -/
theorem readsAs_field {v v' : t.Val F} (h : t.ReadsAs W junk less v v') :
    f.ReadsAs W junk less t (f.req.put v) (f.req.put v') := by
  unfold Field.ReadsAs
  rw [Req.get_put]
  exact ⟨v', rfl, h⟩

include hW in
theorem readsAs_zero (hplain : fs.Plain) (hsound : fs.Sound W) :
    fs.ReadsAs W junk less (fs.zero F) (fs.zero F) :=
  fs.reads_back hW hplain hsound _ fs.zero_legal fs.zero_spaced

/-- The container around it does not help. -/
theorem Misread.list {e : Ty} (hW : Decimals W) (he : e.undelimited = false)
    (h : Misread W junk less e) : Misread W junk less (.list e) := by
  obtain ⟨v, v', hlegal, hne, hreads⟩ := h
  have hlen : [v].length < 2 ^ 32 := by
    show 1 < 2 ^ 32
    decide
  refine ⟨[v], [v'], ⟨hlen, ?_⟩, ?_, readsAs_list hW (.cons hreads .nil) (.inl he) hlen⟩
  · intro w hw
    rw [List.mem_singleton.mp hw]
    exact hlegal
  · intro heq
    exact hne (List.cons.inj heq).1

theorem Misread.set {e : Ty} (hW : Decimals W) (he : e.undelimited = false)
    (h : Misread W junk less e) : Misread W junk less (.set e) := by
  obtain ⟨v, v', hlegal, hne, hreads⟩ := h
  have hlen : [v].length < 2 ^ 32 := by
    show 1 < 2 ^ 32
    decide
  refine ⟨[v], [v'], ⟨hlen, List.pairwise_singleton _ v, ?_⟩, ?_,
    readsAs_set hW (.cons hreads .nil) (.inl he) hlen (List.pairwise_singleton _ v')⟩
  · intro w hw
    rw [List.mem_singleton.mp hw]
    exact hlegal
  · intro heq
    exact hne (List.cons.inj heq).1

/-- An entry that is read as another. -/
theorem misread_entry {k v : Ty} (hW : Decimals W)
    (hsep : k.undelimited = false ∨ v.undelimited = false) {a a' : k.Val F} {b b' : v.Val F}
    (ha : k.Legal less a) (hb : v.Legal less b) (hne : (a', b') ≠ (a, b))
    (hk : k.ReadsAs W junk less a a') (hv : v.ReadsAs W junk less b b') :
    Misread W junk less (.map k v) := by
  have hlen : [(a, b)].length < 2 ^ 32 := by
    show 1 < 2 ^ 32
    decide
  refine ⟨[(a, b)], [(a', b')], ⟨hlen, List.pairwise_singleton _ _, ?_⟩, ?_,
    readsAs_map hW (.cons ⟨hk, hv⟩ .nil) (.inl hsep) hlen (List.pairwise_singleton _ _)⟩
  · intro e he
    rw [List.mem_singleton.mp he]
    exact ⟨ha, hb⟩
  · intro heq
    exact hne (List.cons.inj heq).1

end Misread

mutual

/-- A type that is not separable has a value that does not come back. -/
theorem Ty.misread (hW : Decimals W) (hless : StdLess less) : (t : Ty) → t.Plain → t.Sound W →
    ¬ t.Separable → Misread W junk less t
  | .base _, _, _, hsep => absurd trivial hsep
  | .enum, _, _, hsep => absurd trivial hsep
  | .typedef t, hplain, hsound, hsep => t.misread hW hless hplain hsound hsep
  | .struct name fs, hplain, hsound, hsep => by
      obtain ⟨x, x', hlegal, hne, hreads⟩ := fs.misread hW hless hplain hsound.2 hsep
      exact ⟨x, x', hlegal, hne, readsAs_struct hW hsound hreads⟩
  | .list e, hplain, hsound, hsep => by
      cases he : e.undelimited with
      | true => exact misread_list hW he hplain
      | false =>
          have hsep' : ¬ e.Separable := fun h => hsep ⟨he, h⟩
          exact (e.misread hW hless hplain hsound hsep').list hW he
  | .set e, hplain, hsound, hsep => by
      cases he : e.undelimited with
      | true => exact misread_set hW he hplain hless
      | false =>
          have hsep' : ¬ e.Separable := fun h => hsep ⟨he, h⟩
          exact (e.misread hW hless hplain hsound hsep').set hW he
  | .map k v, hplain, hsound, hsep => by
      by_cases hboth : k.undelimited = false ∨ v.undelimited = false
      · by_cases hk : k.Separable
        · have hv : ¬ v.Separable := fun h => hsep ⟨hboth, hk, h⟩
          obtain ⟨b, b', hb, hne, hreads⟩ := v.misread hW hless hplain.2 hsound.2 hv
          refine misread_entry hW hboth k.zero_legal hb ?_ (k.reads_back hW hplain.1 hsound.1 _
            k.zero_legal k.zero_spaced) hreads
          intro heq
          exact hne (Prod.mk.inj heq).2
        · obtain ⟨a, a', ha, hne, hreads⟩ := k.misread hW hless hplain.1 hsound.1 hk
          refine misread_entry hW hboth ha v.zero_legal ?_ hreads (v.reads_back hW hplain.2
            hsound.2 _ v.zero_legal v.zero_spaced)
          intro heq
          exact hne (Prod.mk.inj heq).1
      · simp only [not_or, Bool.not_eq_false] at hboth
        obtain ⟨hk, hv⟩ := hboth
        by_cases hswallowed : k.numeric = false ∨ v.isBool = false
        · exact misread_map_of_swallowed hW hk hv hplain.1 hplain.2 hswallowed
        · simp only [not_or, Bool.not_eq_false] at hswallowed
          exact misread_map_of_bools hW hk hv hplain.1 hplain.2 hless hswallowed.1 hswallowed.2

theorem Fields.misread (hW : Decimals W) (hless : StdLess less) : (fs : Fields) → fs.Plain →
    fs.Sound W → ¬ fs.Separable →
    ∃ x x' : fs.Rec F, fs.Legal less x ∧ x' ≠ x ∧ fs.ReadsAs W junk less x x'
  | .nil, _, _, hsep => absurd trivial hsep
  | .cons f t fs, hplain, hsound, hsep => by
      obtain ⟨-, -, ht, hfs⟩ := id hsound
      by_cases hsep' : t.Separable
      · have hrest : ¬ fs.Separable := fun h => hsep ⟨hsep', h⟩
        obtain ⟨x, x', hlegal, hne, hreads⟩ := fs.misread hW hless hplain.2 hfs hrest
        have hzero : (Fields.cons f t fs).Legal less ((Fields.cons f t fs).zero F) :=
          Fields.zero_legal _
        refine ⟨(f.req.unset (t.zero F), x), (f.req.unset (t.zero F), x'), ⟨hzero.1, hlegal⟩,
          ?_, ⟨(readsAs_zero hW hplain hsound).1, hreads⟩⟩
        intro heq
        exact hne (Prod.mk.inj heq).2
      · obtain ⟨v, v', hlegal, hne, hreads⟩ := t.misread hW hless hplain.1 ht hsep'
        refine ⟨(f.req.put v, fs.zero F), (f.req.put v', fs.zero F), ⟨?_, fs.zero_legal⟩, ?_,
          ⟨readsAs_field hreads, readsAs_zero hW hplain.2 hfs⟩⟩
        · intro w hw
          rw [Req.get_put] at hw
          exact Option.some.inj hw ▸ hlegal
        · intro heq
          exact hne (Req.put_inj (Prod.mk.inj heq).1)

end

-- =============================================== an instance of it all

/-- Texts for addresses, uuids and doubles. -/
def Foreign.texts : Foreign where
  Address := Bytes
  Uuid := Bytes
  Double := Bytes
  address := lit "0.0.0.0"
  nil_uuid := lit "00000000-0000-0000-0000-000000000000"
  zero := lit "0"
  address_to_string := id
  address_from_string := some
  uuid_to_string := id
  uuid_from_string := some
  double_to_string := id

/-- The orders of the base types in C++. -/
def boolLess (a b : Bool) : Bool := !a && b

def stringLess (a b : Bytes) : Bool := decide (a < b)

/-- `operator<` of a base type. -/
def Base.operatorLess : (b : Base) → b.Val F → b.Val F → Bool
  | bool, x, y => boolLess x y
  | byte, x, y | i16, x, y | i32, x, y | i64, x, y => BitVec.slt x y
  | u16, x, y | u32, x, y | u64, x, y | ipv4, x, y => BitVec.ult x y
  | string, x, y => stringLess x y
  | ipaddr, _, _ | double, _, _ | xml, _, _ | uuid, _, _ => false

/-- `operator <` of base types and enums. -/
def Ty.operatorLess : (t : Ty) → t.Val F → t.Val F → Bool
  | base b, x, y => b.operatorLess x y
  | enum, x, y => BitVec.slt x y
  | typedef t, x, y => t.operatorLess x y
  | struct _ _, _, _ | list _, _, _ | set _, _, _ | map _ _, _, _ => false

theorem stdLess : StdLess (F := F) Ty.operatorLess where
  typedef := fun _ _ _ => rfl
  bool := fun _ _ => rfl
  enum := fun _ _ => rfl
  byte := fun _ _ => rfl
  i16 := fun _ _ => rfl
  i32 := fun _ _ => rfl
  i64 := fun _ _ => rfl
  u16 := fun _ _ => rfl
  u32 := fun _ _ => rfl
  u64 := fun _ _ => rfl
  ipv4 := fun _ _ => rfl
  string := fun _ _ => rfl

-- ===================================================== the round trip

/-- **Which types come back.** Every value does, exactly if no container of
the type runs its values together. -/
theorem container_round_trip_iff (hW : Decimals W) (hless : StdLess less) (t : Ty)
    (hplain : t.Plain) (hsound : t.Sound W) :
    (∀ v, t.Legal less v → RoundTrip W junk less t v) ↔ t.Separable := by
  constructor
  · intro h
    by_contra hsep
    obtain ⟨v, v', hlegal, hne, hreads⟩ : Misread W junk less t :=
      t.misread hW hless hplain hsound hsep
    exact hreads.not_roundTrip hne (h v hlegal)
  · intro hsep v hlegal tail r hr
    exact (t.reads_back hW hplain hsound v hlegal (t.spaced hsep v)).runs hr

/-- `struct Peer { 1: optional list<string> routes; 2: required bool up }` -/
def peerFields : Fields :=
  .cons ⟨lit "routes", 1, .optional, []⟩ (.list (.base .string))
    (.cons ⟨lit "up", 2, .required, []⟩ (.base .bool) .nil)

theorem peerFields_sound : peerFields.Sound .plain := by
  have hharmless : ∀ t i, Harmless .plain t i (annotationWords []) := fun _ _ =>
    harmless_of_none rfl
  refine ⟨⟨by decide, by decide, nofun, hharmless _ _⟩, by decide, trivial, ?_⟩
  exact ⟨⟨by decide, by decide, nofun, hharmless _ _⟩, by decide, trivial, trivial⟩

/-- A map from numbers to structs comes back. -/
theorem round_trip_peers : Decimals .plain ∧ ∀ v,
    (Ty.map (.base .i32) (.struct (lit "Peer") peerFields)).Legal Ty.operatorLess v →
    RoundTrip (F := .texts) .plain false Ty.operatorLess
      (.map (.base .i32) (.struct (lit "Peer") peerFields)) v := by
  have hname : IsName (lit "Peer") := by decide
  refine ⟨posix_decimals, (container_round_trip_iff posix_decimals stdLess _ ?_ ?_).mpr ?_⟩
  · exact ⟨rfl, rfl, rfl, trivial⟩
  · exact ⟨trivial, hname, peerFields_sound⟩
  · exact ⟨.inl rfl, trivial, ⟨rfl, trivial⟩, trivial, trivial⟩

/-- A list of a typedef of i32: one and two are read as twelve and nothing. -/
theorem round_trip_fails : ¬ RoundTrip (F := .texts) .plain false Ty.operatorLess
    (.list (.typedef (.base .i32))) [1#32, 2#32] := by
  have hlen : [1#32, 2#32].length < 2 ^ 32 := by decide
  have htwelve : World.plain.stringToInteger 32 (World.plain.integerToString 1
      ++ World.plain.integerToString 2) = 12#32 := twelve posix_decimals (by decide) rfl
  have hundelimited : (Ty.typedef (.base .i32)).undelimited = true := rfl
  have hplain : (Ty.typedef (.base .i32)).Plain := rfl
  have hreads : (Ty.list (.typedef (.base .i32))).ReadsAs (F := .texts) .plain false
      Ty.operatorLess [1#32, 2#32] [_, _] :=
    readsAs_of_elems posix_decimals hlen fun rest hrest =>
      takes_pair posix_decimals hundelimited hplain trivial trivial 0#32 hrest
  refine hreads.not_roundTrip ?_
  intro heq
  exact (twelve_ne rfl).1 (htwelve.symm.trans (List.cons.inj heq).1)

end Sandesh.CppGen
