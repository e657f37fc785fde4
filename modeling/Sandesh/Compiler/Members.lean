/-
What the compiler makes of the fields of a struct or of a sandesh: their ids
(compiler/sandeshy.yy, compiler/parse/t_struct.h, t_sandesh.h, t_field.h),
and the material of a fingerprint (t_type.h, t_base_type.h, t_enum.h,
t_list.h, t_set.h, t_map.h, t_typedef.h).

An id is the number before the colon. A field that has none, or one that is
not positive, is numbered from -1 down along its field list. `append` turns
a member away whose id is there, and keeps the others in the order of their
ids, which is the order the fingerprint takes them in.

The count is the one variable `y_field_val`. A field list inside a field, that
of its `xsd_attrs`, starts it again at -1, and the fields behind go on from
where it then is: they can be given numbers that fields in front already have.

# What a fingerprint tells

The version signature in the header of a message is the start of a hash of
the material, and `t_type` promises that this text "uniquely identifies this
type". It does, up to what it leaves out: a `Shape` is what there is to a
type without the names of its structs and fields, typedefs, annotations, the
order in which the fields were written, and whether a field that is not
optional is required.

There are no lengths in the material. What tells it apart is punctuation: a
type starts with a word, and a word ends where one of `<>{},;:` stands
(`split_unique`). The induction is over two shapes at once, each with any
text behind it that starts as the text behind a type does.
-/
import Sandesh.CppGen.Idl
import Sandesh.Lib.Wire

namespace Sandesh.Compiler

open Lib
open CppGen (Base Ty Fields)

-- ============================================================ field ids

/-- What the compiler is told: `-allow-neg-keys`, and how strict to be. -/
structure Options where
  allow_neg_field_keys : Bool
  strict : Int

/-- `t_field_id`. -/
structure FieldId where
  value : Int
  auto_assigned : Bool

/-- A `FieldIdentifier`, which is the number before the colon or nothing;
and `y_field_val` after it. -/
def FieldIdentifier (o : Options) (y_field_val : Int) : Option Int → FieldId × Int
  | some iconst =>
      if iconst ≤ 0 then
        if o.allow_neg_field_keys then (⟨iconst, false⟩, i32 (iconst - 1))
        else (⟨y_field_val, true⟩, i32 (y_field_val - 1))
      else (⟨iconst, false⟩, y_field_val)
  | none => (⟨y_field_val, true⟩, i32 (y_field_val - 1))

-- ========================================================== the members

variable {α : Type}

/-- What `append` does to `members_in_id_order_`: what is before, what
`equal_range` finds, and what is behind. A member whose id is there is
turned away. -/
def insertInIdOrder (ms : List (Int × α)) (elem : Int × α) : List (Int × α) × Bool :=
  let before := ms.takeWhile fun m => decide (m.1 < elem.1)
  let behind := ms.dropWhile fun m => decide (m.1 < elem.1)
  if (behind.takeWhile fun m => !decide (elem.1 < m.1)).isEmpty then
    (before ++ elem :: behind, true)
  else (ms, false)

/-- The members of a `t_struct` or of a `t_sandesh`, each with its id. -/
structure Members (α : Type) where
  members_ : List (Int × α)
  members_in_id_order_ : List (Int × α)

/-- `t_struct::append`: the one list as written, the other by id. The flag
is that of the second. -/
def Members.append (ms : Members α) (elem : Int × α) : Members α × Bool :=
  let (order, appended) := insertInIdOrder ms.members_in_id_order_ elem
  (⟨ms.members_ ++ [elem], order⟩, appended)

/-- `members_in_id_order_`, of the members as they were appended. -/
def inIdOrder (ms : List (Int × α)) : List (Int × α) :=
  ms.foldl (fun order m => (insertInIdOrder order m).1) []

/-- Why a field list is refused. -/
inductive Refusal
  | implicit
  | used (key : Int)

/-- A field list as it is written, from the first field on: the number before
its colon, if there is one; what else there is of it; and the field list of its
`xsd_attrs`, if it has them. -/
inductive Written (α : Type)
  | nil
  | field (iconst : Option Int) (rest : α) (more : Written α)
  | xsd_attrs (iconst : Option Int) (rest : α) (attrs more : Written α)

/-- What is done with a `Field` that has been read, and `FieldList: FieldList
Field` after it. -/
def Field (o : Options) (id : FieldId) (rest : α) (ms : Members α) :
    Except Refusal (Members α) :=
  if id.auto_assigned && decide (192 ≤ o.strict) then .error .implicit
  else
    let (ms, appended) := ms.append (i32 id.value, rest)
    if appended then .ok ms else .error (.used (i32 id.value))

/-- The fields of a list that are still to come, with `y_field_val` and the
members so far. The `FieldIdentifier` of a field is evaluated before its
`xsd_attrs` are read, the rest of it behind them. -/
def FieldListFrom (o : Options) : Int → Members α → Written α → Except Refusal (Int × Members α)
  | y_field_val, ms, .nil => .ok (y_field_val, ms)
  | y_field_val, ms, .field iconst rest more => do
      let (id, y_field_val) := FieldIdentifier o y_field_val iconst
      let ms ← Field o id rest ms
      FieldListFrom o y_field_val ms more
  | y_field_val, ms, .xsd_attrs iconst rest attrs more => do
      let (id, _) := FieldIdentifier o y_field_val iconst
      let (y_field_val, _) ← FieldListFrom o (-1) ⟨[], []⟩ attrs
      let ms ← Field o id rest ms
      FieldListFrom o y_field_val ms more

/-- A `FieldList`. -/
def FieldList (o : Options) (ws : Written α) : Except Refusal (Members α) :=
  (FieldListFrom o (-1) ⟨[], []⟩ ws).map (·.2)

-- ============================================================ one member

/-- One step of the search for the place. -/
theorem insertInIdOrder_cons (m : Int × α) (ms : List (Int × α)) (elem : Int × α) :
    insertInIdOrder (m :: ms) elem
      = if m.1 < elem.1 then
          (m :: (insertInIdOrder ms elem).1, (insertInIdOrder ms elem).2)
        else if elem.1 < m.1 then (elem :: m :: ms, true)
        else (m :: ms, false) := by
  unfold insertInIdOrder
  by_cases hlt : m.1 < elem.1
  · simp only [List.takeWhile_cons, List.dropWhile_cons, hlt, decide_true, if_true]
    split <;> rfl
  · by_cases hgt : elem.1 < m.1
    · simp [hlt, hgt]
    · simp [hlt, hgt]

/-- The members are in the order of their ids, and no two have the same. -/
structure Members.Kept (ms : Members α) : Prop where
  sorted : ms.members_in_id_order_.Pairwise fun m m' => m.1 < m'.1
  same : ms.members_in_id_order_.Perm ms.members_
  folded : ms.members_in_id_order_ = inIdOrder ms.members_

/-- An id that is there is refused, and the list stays; any other goes to
its place. -/
theorem insert_spec (elem : Int × α) {ms : List (Int × α)}
    (h : ms.Pairwise fun m m' => m.1 < m'.1) :
    (elem.1 ∈ ms.map (·.1) ∧ insertInIdOrder ms elem = (ms, false))
    ∨ elem.1 ∉ ms.map (·.1) ∧ ∃ ms', insertInIdOrder ms elem = (ms', true)
      ∧ (ms'.Pairwise fun m m' => m.1 < m'.1) ∧ ms'.Perm (elem :: ms) := by
  induction ms with
  | nil => exact .inr ⟨List.not_mem_nil, [elem], rfl, List.pairwise_singleton _ _, .refl _⟩
  | cons m ms ih =>
      obtain ⟨hm, hms⟩ := List.pairwise_cons.mp h
      rw [insertInIdOrder_cons]
      by_cases hlt : m.1 < elem.1
      · rw [if_pos hlt, List.map_cons, List.mem_cons]
        rcases ih hms with ⟨hmem, heq⟩ | ⟨hnot, ms', heq, hsorted, hperm⟩
        · refine .inl ⟨.inr hmem, ?_⟩
          rw [heq]
        · refine .inr ⟨fun hmem => ?_, m :: ms', ?_, ?_, ?_⟩
          · rcases hmem with hid | hmem
            · exact absurd hlt (by rw [hid]; exact Int.lt_irrefl m.1)
            · exact hnot hmem
          · rw [heq]
          · refine List.pairwise_cons.mpr ⟨fun m' hm' => ?_, hsorted⟩
            rcases List.mem_cons.mp (hperm.mem_iff.mp hm') with rfl | hm'
            · exact hlt
            · exact hm m' hm'
          · exact (hperm.cons m).trans (List.Perm.swap elem m ms)
      · rw [if_neg hlt]
        by_cases hgt : elem.1 < m.1
        · have hall : ∀ m' ∈ m :: ms, elem.1 < m'.1 := by
            intro m' hm'
            rcases List.mem_cons.mp hm' with rfl | hm'
            · exact hgt
            · exact Int.lt_trans hgt (hm m' hm')
          rw [if_pos hgt]
          refine .inr ⟨fun hmem => ?_, _, rfl, List.pairwise_cons.mpr ⟨hall, h⟩, .refl _⟩
          obtain ⟨m', hm', hid⟩ := List.mem_map.mp hmem
          exact Int.lt_irrefl elem.1 (hid ▸ hall m' hm')
        · rw [if_neg hgt]
          have hid : elem.1 = m.1 := Int.le_antisymm (Int.not_lt.mp hlt) (Int.not_lt.mp hgt)
          exact .inl ⟨hid ▸ List.mem_cons_self, rfl⟩

/-- A member is taken if its id is new, and then all is kept. -/
theorem append_spec {ms : Members α} (h : ms.Kept) (elem : Int × α) :
    (elem.1 ∈ ms.members_.map (·.1) ∧ (ms.append elem).2 = false)
    ∨ elem.1 ∉ ms.members_.map (·.1) ∧ (ms.append elem).2 = true
      ∧ (ms.append elem).1.members_ = ms.members_ ++ [elem] ∧ (ms.append elem).1.Kept := by
  have hkeys : ∀ key, key ∈ ms.members_in_id_order_.map (·.1) ↔ key ∈ ms.members_.map (·.1) :=
    fun key => (h.same.map (·.1)).mem_iff
  unfold Members.append
  rcases insert_spec elem h.sorted with ⟨hmem, heq⟩ | ⟨hnot, order, heq, hsorted, hperm⟩
  · rw [heq]
    exact .inl ⟨(hkeys elem.1).mp hmem, rfl⟩
  · rw [heq]
    have hfolded : order = inIdOrder (ms.members_ ++ [elem]) := by
      rw [inIdOrder, List.foldl_concat, ← inIdOrder, ← h.folded, heq]
    refine .inr ⟨fun hmem => hnot ((hkeys elem.1).mpr hmem), rfl, rfl, hsorted, ?_, hfolded⟩
    exact (hperm.trans (h.same.cons elem)).trans (List.perm_append_singleton elem _).symm

-- ======================================================== a field list

/-- No id is there twice. -/
theorem Members.Kept.nodup {ms : Members α} (h : ms.Kept) : (ms.members_.map (·.1)).Nodup := by
  refine ((h.same.map (·.1)).nodup_iff).mp ?_
  rw [List.Nodup, List.pairwise_map]
  exact h.sorted.imp fun hlt => Int.ne_of_lt hlt

/-- The empty structure. -/
theorem kept_nil : Members.Kept (⟨[], []⟩ : Members α) :=
  ⟨List.Pairwise.nil, List.Perm.refl _, rfl⟩

/-- `int32_t key_` -/
def FieldId.key (id : FieldId) : Int := i32 id.value

variable {o : Options}

/-- One field: refused because its id is there, or taken. -/
theorem field_cases (hstrict : o.strict < 192) {ms : Members α} (h : ms.Kept) (id : FieldId)
    (rest : α) :
    (id.key ∈ ms.members_.map (·.1) ∧ Field o id rest ms = .error (.used id.key))
    ∨ id.key ∉ ms.members_.map (·.1) ∧ ∃ ms', Field o id rest ms = .ok ms'
      ∧ ms'.members_ = ms.members_ ++ [(id.key, rest)] ∧ ms'.Kept := by
  have heq : Field o id rest ms = if (ms.append (id.key, rest)).2 = true then
      .ok (ms.append (id.key, rest)).1 else .error (.used id.key) := by
    unfold Field
    rw [decide_eq_false (Int.not_le.mpr hstrict), Bool.and_false, if_neg Bool.false_ne_true]
    rfl
  rw [heq]
  rcases append_spec h (id.key, rest) with ⟨hmem, hfalse⟩ | ⟨hnot, htrue, hmembers, hkept⟩
  · refine .inl ⟨hmem, ?_⟩
    rw [hfalse, if_neg Bool.false_ne_true]
  · refine .inr ⟨hnot, _, ?_, hmembers, hkept⟩
    rw [htrue, if_pos rfl]

-- ========================================= without `-allow-neg-keys`

/-- A number of the field's own: the one before its colon, if it is positive. -/
def explicitId (w : Option Int) : Option Int := w.filter fun iconst => decide (0 < iconst)

/-- The id of a field, with `n` numbers given out from -1 down. -/
def givenId (n : Nat) (w : Option Int) : Int := (explicitId w).getD (-(n + 1 : Int))

/-- How many are given out behind it. -/
def given (n : Nat) (w : Option Int) : Nat := if (explicitId w).isSome then n else n + 1

namespace Written

/-- How many fields there are, those inside attributes included. -/
def size : Written α → Nat
  | nil => 0
  | field _ _ more => more.size + 1
  | xsd_attrs _ _ attrs more => attrs.size + more.size + 1

/-- The numbers before the colons of its fields, those of `xsd_attrs` left out. -/
def written : Written α → List (Option Int)
  | nil => []
  | field w _ more => w :: more.written
  | xsd_attrs w _ _ more => w :: more.written

/-- What else stands at the fields. -/
def rests : Written α → List α
  | nil => []
  | field _ rest more => rest :: more.rests
  | xsd_attrs _ rest _ more => rest :: more.rests

/-- No number is too large for an `int32_t`. -/
def Fits : Written α → Prop
  | nil => True
  | field w _ more => (∀ iconst ∈ w, iconst < 2 ^ 31) ∧ more.Fits
  | xsd_attrs w _ attrs more => (∀ iconst ∈ w, iconst < 2 ^ 31) ∧ attrs.Fits ∧ more.Fits

/-- No field has `xsd_attrs`. -/
def Plain : Written α → Prop
  | nil => True
  | field _ _ more => more.Plain
  | xsd_attrs _ _ _ _ => False

/-- How many numbers are given out from -1 down at the end of a list, since
that was last begun. -/
def counted : Nat → Written α → Nat
  | n, nil => n
  | n, field w _ more => more.counted (given n w)
  | _, xsd_attrs _ _ attrs more => more.counted (attrs.counted 0)

/-- The ids of its fields. -/
def numbered : Nat → Written α → List Int
  | _, nil => []
  | n, field w _ more => givenId n w :: more.numbered (given n w)
  | n, xsd_attrs w _ attrs more => givenId n w :: more.numbered (attrs.counted 0)

/-- No list inside a field gives an id twice. -/
def AttrsApart : Written α → Prop
  | nil => True
  | field _ _ more => more.AttrsApart
  | xsd_attrs _ _ attrs more => (attrs.AttrsApart ∧ (attrs.numbered 0).Nodup) ∧ more.AttrsApart

end Written

/-- The counter goes on by one at most. -/
theorem given_le (n : Nat) (w : Option Int) : given n w ≤ n + 1 := by
  unfold given
  split <;> omega

/-- So it is no further than there are fields. -/
theorem counted_le (ws : Written α) (n : Nat) : ws.counted n ≤ n + ws.size := by
  induction ws generalizing n with
  | nil => exact Nat.le_refl n
  | field w rest more ih =>
      have hmore := ih (given n w)
      have hgiven := given_le n w
      rw [Written.counted, Written.size]
      omega
  | xsd_attrs w rest attrs more ihattrs ih =>
      have hmore := ih (attrs.counted 0)
      have hattrs := ihattrs 0
      rw [Written.counted, Written.size]
      omega

/-- The id and the count behind it, as long as the count is an `int32_t`. -/
theorem fieldIdentifier_given (hneg : o.allow_neg_field_keys = false) {n : Nat}
    (hn : n + 1 < 2 ^ 31) {w : Option Int} (hw : ∀ iconst ∈ w, iconst < 2 ^ 31) :
    ∃ id, FieldIdentifier o (-(n + 1 : Int)) w = (id, -(given n w + 1 : Int))
      ∧ id.key = givenId n w := by
  have hkey : i32 (-(n + 1 : Int)) = -(n + 1 : Int) := i32_eq (by omega) (by omega)
  have hnext : i32 (-(n + 1 : Int) - 1) = -((n + 1 : Nat) + 1 : Int) := by
    rw [i32_eq (by omega) (by omega)]
    omega
  cases w with
  | none => exact ⟨⟨-(n + 1 : Int), true⟩, by rw [FieldIdentifier, hnext]; rfl, hkey⟩
  | some iconst =>
      by_cases hpos : 0 < iconst
      · have hid : explicitId (some iconst) = some iconst := by simp [explicitId, hpos]
        refine ⟨⟨iconst, false⟩, ?_, ?_⟩
        · rw [FieldIdentifier, if_neg (Int.not_le.mpr hpos), given, hid]
          rfl
        · rw [givenId, hid]
          show i32 iconst = iconst
          exact i32_eq (by omega) (hw iconst rfl)
      · have hid : explicitId (some iconst) = none := by
          simpa [explicitId] using Int.not_lt.mp hpos
        refine ⟨⟨-(n + 1 : Int), true⟩, ?_, ?_⟩
        · rw [FieldIdentifier, if_pos (Int.not_lt.mp hpos), hneg, if_neg Bool.false_ne_true,
            hnext, given, hid]
          rfl
        · rw [givenId, hid]
          exact hkey

/-- What is to be shown of the fields to come: when they are all taken, and
what there is then. -/
structure Listed (o : Options) (n : Nat) (ms : Members α) (ws : Written α) : Prop where
  accepted : (∃ r, FieldListFrom o (-(n + 1 : Int)) ms ws = .ok r)
    ↔ ws.AttrsApart ∧ (ms.members_.map (·.1) ++ ws.numbered n).Nodup
  result : ∀ r, FieldListFrom o (-(n + 1 : Int)) ms ws = .ok r →
    r.1 = -(ws.counted n + 1 : Int)
    ∧ r.2.members_ = ms.members_ ++ (ws.numbered n).zip ws.rests ∧ r.2.Kept

/-- One field and those behind it, whichever way the count goes on. -/
theorem listed_cons (hstrict : o.strict < 192) {k : Nat} (id : FieldId) (rest : α)
    {ms : Members α} {more : Written α} (h : ms.Kept)
    (ih : ∀ ms' : Members α, ms'.Kept → Listed o k ms' more) :
    ((∃ r, (Field o id rest ms >>= fun ms => FieldListFrom o (-(k + 1 : Int)) ms more) = .ok r)
      ↔ more.AttrsApart ∧ (ms.members_.map (·.1) ++ id.key :: more.numbered k).Nodup)
    ∧ ∀ r, (Field o id rest ms >>= fun ms => FieldListFrom o (-(k + 1 : Int)) ms more) = .ok r →
      r.1 = -(more.counted k + 1 : Int)
      ∧ r.2.members_ = ms.members_ ++ (id.key, rest) :: (more.numbered k).zip more.rests
      ∧ r.2.Kept := by
  rcases field_cases hstrict h id rest with ⟨hmem, heq⟩ | ⟨hnot, ms', heq, hmembers, hkept⟩
  · rw [heq]
    refine ⟨⟨fun hok => ?_, fun hgood => ?_⟩, fun r hr => ?_⟩
    · obtain ⟨r, hr⟩ := hok
      cases hr
    · have hapart := (List.nodup_append.mp hgood.2).2.2
      exact absurd rfl (hapart _ hmem _ List.mem_cons_self)
    · cases hr
  · obtain ⟨hiff, hresult⟩ := ih ms' hkept
    rw [heq]
    refine ⟨?_, fun r hr => ?_⟩
    · show (∃ r, FieldListFrom o (-(k + 1 : Int)) ms' more = .ok r) ↔ _
      rw [hiff, hmembers, List.map_append, List.append_assoc]
      rfl
    · obtain ⟨hcount, hlist, hkept'⟩ := hresult r hr
      refine ⟨hcount, ?_, hkept'⟩
      rw [hlist, hmembers, List.append_assoc]
      rfl

/-- The fields that follow, by induction on them. -/
theorem fields_listed (hneg : o.allow_neg_field_keys = false) (hstrict : o.strict < 192)
    (ws : Written α) {n : Nat} (hsize : n + ws.size < 2 ^ 31) (hfits : ws.Fits) {ms : Members α}
    (h : ms.Kept) : Listed o n ms ws := by
  induction ws generalizing n ms with
  | nil =>
      refine ⟨⟨fun _ => ⟨trivial, ?_⟩, fun _ => ⟨_, rfl⟩⟩, ?_⟩
      · simpa [Written.numbered] using h.nodup
      · intro r hr
        obtain rfl : (-(n + 1 : Int), ms) = r := Except.ok.inj hr
        exact ⟨rfl, (List.append_nil _).symm, h⟩
  | field w rest more ih =>
      rw [Written.size] at hsize
      have hgiven := given_le n w
      obtain ⟨id, hid, hkey⟩ := fieldIdentifier_given hneg (n := n) (by omega) hfits.1
      obtain ⟨hiff, hresult⟩ := listed_cons hstrict id rest h
        fun ms' h' => ih (n := given n w) (by omega) hfits.2 h'
      rw [hkey] at hiff hresult
      constructor
      · rw [FieldListFrom, hid]
        exact hiff
      · rw [FieldListFrom, hid]
        exact hresult
  | xsd_attrs w rest attrs more ihattrs ih =>
      rw [Written.size] at hsize
      have hcounted := counted_le attrs 0
      obtain ⟨id, hid, hkey⟩ := fieldIdentifier_given hneg (n := n) (by omega) hfits.1
      obtain ⟨hinner, hend⟩ := ihattrs (n := 0) (by omega) hfits.2.1 kept_nil
      obtain ⟨hiff, hresult⟩ := listed_cons hstrict id rest h
        fun ms' h' => ih (n := attrs.counted 0) (by omega) hfits.2.2 h'
      rw [hkey] at hiff hresult
      cases hattrs : FieldListFrom o (-1) (⟨[], []⟩ : Members α) attrs with
      | error e =>
          have hrun : FieldListFrom o (-(n + 1 : Int)) ms (.xsd_attrs w rest attrs more)
              = .error e := by
            rw [FieldListFrom, hid, hattrs]
            rfl
          have hbad : ¬ (attrs.AttrsApart ∧ (attrs.numbered 0).Nodup) := by
            intro hgood
            obtain ⟨r, hr⟩ := hinner.mpr hgood
            cases hattrs.symm.trans hr
          refine ⟨⟨fun hok => ?_, fun hgood => absurd hgood.1.1 hbad⟩, fun r hr => ?_⟩
          · obtain ⟨r, hr⟩ := hok
            cases hrun.symm.trans hr
          · cases hrun.symm.trans hr
      | ok r₁ =>
          have hgood := hinner.mp ⟨r₁, hattrs⟩
          obtain ⟨hcount, -, -⟩ := hend r₁ hattrs
          have hrun : FieldListFrom o (-(n + 1 : Int)) ms (.xsd_attrs w rest attrs more)
              = (Field o id rest ms >>= fun ms =>
                  FieldListFrom o (-(attrs.counted 0 + 1 : Int)) ms more) := by
            rw [FieldListFrom, hid, hattrs, ← hcount]
            rfl
          constructor
          · rw [hrun]
            exact hiff.trans (and_congr_left fun _ => (and_iff_right hgood).symm)
          · rw [hrun]
            exact hresult

-- ================================================== without `xsd_attrs`

/-- A positive number is the id, and the counter stays. -/
theorem givenId_some {n : Nat} {w : Option Int} {id : Int} (h : explicitId w = some id) :
    givenId n w = id ∧ given n w = n ∧ 0 < id := by
  refine ⟨by rw [givenId, h]; rfl, by rw [given, h]; rfl, ?_⟩
  exact of_decide_eq_true (Option.filter_eq_some_iff.mp h).2

/-- Without one the id is the counter's. -/
theorem givenId_none {n : Nat} {w : Option Int} (h : explicitId w = none) :
    givenId n w = -(n + 1 : Int) ∧ given n w = n + 1 :=
  ⟨by rw [givenId, h]; rfl, by rw [given, h]; rfl⟩

/-- An id is one counted down to, or a number of a field's own. -/
theorem mem_numbered {id : Int} {ws : Written α} (hws : ws.Plain) {n : Nat}
    (h : id ∈ ws.numbered n) : id < -(n : Int) ∨ id ∈ ws.written.filterMap explicitId := by
  induction ws generalizing n with
  | nil => exact absurd h List.not_mem_nil
  | field w rest more ih =>
      rw [Written.numbered] at h
      rw [Written.written, List.filterMap_cons]
      cases hid : explicitId w with
      | some id' =>
          obtain ⟨hgiven, hcount, -⟩ := givenId_some (n := n) hid
          rw [hgiven, hcount] at h
          rcases List.mem_cons.mp h with rfl | h
          · exact .inr List.mem_cons_self
          · exact (ih hws h).imp_right (List.mem_cons_of_mem id')
      | none =>
          obtain ⟨hgiven, hcount⟩ := givenId_none (n := n) hid
          rw [hgiven, hcount] at h
          rcases List.mem_cons.mp h with rfl | h
          · exact .inl (by omega)
          · exact (ih hws h).imp_left fun hlt => by omega
  | xsd_attrs w rest attrs more => exact False.elim hws

/-- The numbers that count as given are positive. -/
theorem mem_explicit {id : Int} {ws : List (Option Int)} (h : id ∈ ws.filterMap explicitId) :
    0 < id := by
  obtain ⟨w, -, hid⟩ := List.mem_filterMap.mp h
  exact of_decide_eq_true (Option.filter_eq_some_iff.mp hid).2

/-- Every number that is given is the id of a field. -/
theorem explicit_subset_numbered {id : Int} {ws : Written α} (hws : ws.Plain) (n : Nat)
    (h : id ∈ ws.written.filterMap explicitId) : id ∈ ws.numbered n := by
  induction ws generalizing n with
  | nil => exact h
  | field w rest more ih =>
      rw [Written.numbered]
      rw [Written.written, List.filterMap_cons] at h
      cases hid : explicitId w with
      | some id' =>
          rw [hid] at h
          rw [(givenId_some hid).1]
          rcases List.mem_cons.mp h with rfl | h
          · exact List.mem_cons_self
          · exact List.mem_cons_of_mem id' (ih hws _ h)
      | none =>
          rw [hid] at h
          exact List.mem_cons_of_mem _ (ih hws _ h)
  | xsd_attrs w rest attrs more => exact False.elim hws

/-- What is counted down from -1 is in nobody's way. -/
theorem nodup_numbered {ws : Written α} (hws : ws.Plain) (n : Nat) :
    (ws.numbered n).Nodup ↔ (ws.written.filterMap explicitId).Nodup := by
  induction ws generalizing n with
  | nil => exact Iff.rfl
  | field w rest more ih =>
      have hmore : more.Plain := hws
      rw [Written.numbered, Written.written, List.filterMap_cons]
      cases hid : explicitId w with
      | some id =>
          obtain ⟨hgiven, hcount, hpos⟩ := givenId_some (n := n) hid
          have hmem : id ∈ more.numbered n ↔ id ∈ more.written.filterMap explicitId :=
            ⟨fun h => (mem_numbered hmore h).resolve_left (by omega),
              explicit_subset_numbered hmore n⟩
          rw [hgiven, hcount]
          show (id :: more.numbered n).Nodup ↔ (id :: more.written.filterMap explicitId).Nodup
          rw [List.nodup_cons, List.nodup_cons, hmem, ih hmore n]
      | none =>
          obtain ⟨hgiven, hcount⟩ := givenId_none (n := n) hid
          have hnew : -(n + 1 : Int) ∉ more.numbered (n + 1) := by
            intro h
            rcases mem_numbered hmore h with hlt | hexplicit
            · omega
            · have := mem_explicit hexplicit
              omega
          rw [hgiven, hcount]
          show (-(n + 1 : Int) :: more.numbered (n + 1)).Nodup
            ↔ (more.written.filterMap explicitId).Nodup
          rw [List.nodup_cons, ih hmore (n + 1)]
          exact and_iff_right hnew
  | xsd_attrs w rest attrs more => exact False.elim hws

/-- Without attributes nothing sets the counter back. -/
theorem attrsApart_plain {ws : Written α} (hws : ws.Plain) : ws.AttrsApart := by
  induction ws with
  | nil => trivial
  | field w rest more ih => exact ih hws
  | xsd_attrs w rest attrs more => exact False.elim hws

/-- **Which field lists are accepted.** Those in which no two fields get the same id, and
neither do two of a list in one of the fields. Without `xsd_attrs` only a field that takes the
number of another is refused: fields without a number of their own are never in the way. What
comes out is the fields as they were written, with their ids, and the same in the order of
their ids. -/
theorem field_list_accepted_iff (hneg : o.allow_neg_field_keys = false) (hstrict : o.strict < 192)
    (ws : Written α) (hsize : ws.size < 2 ^ 31) (hfits : ws.Fits) :
    ((∃ ms, FieldList o ws = .ok ms) ↔ ws.AttrsApart ∧ (ws.numbered 0).Nodup)
    ∧ (ws.Plain →
        ((∃ ms, FieldList o ws = .ok ms) ↔ (ws.written.filterMap explicitId).Nodup))
    ∧ ∀ ms, FieldList o ws = .ok ms →
        ms.members_ = (ws.numbered 0).zip ws.rests
        ∧ (ms.members_in_id_order_.Pairwise fun m m' => m.1 < m'.1)
        ∧ ms.members_in_id_order_.Perm ms.members_
        ∧ ms.members_in_id_order_ = inIdOrder ms.members_ := by
  obtain ⟨hiff, hresult⟩ := fields_listed (n := 0) hneg hstrict ws (by omega) hfits kept_nil
  have hok : ∀ ms, FieldList o ws = .ok ms →
      ∃ y, FieldListFrom o (-1) ⟨[], []⟩ ws = .ok (y, ms) := by
    intro ms hms
    unfold FieldList at hms
    cases hrun : FieldListFrom o (-1) (⟨[], []⟩ : Members α) ws with
    | error e =>
        rw [hrun] at hms
        cases hms
    | ok r =>
        rw [hrun] at hms
        obtain rfl : r.2 = ms := Except.ok.inj hms
        exact ⟨r.1, rfl⟩
  have haccepted : (∃ ms, FieldList o ws = .ok ms) ↔ ws.AttrsApart ∧ (ws.numbered 0).Nodup := by
    refine Iff.trans ⟨fun hex => ?_, fun hex => ?_⟩ hiff
    · obtain ⟨ms, hms⟩ := hex
      obtain ⟨y, hrun⟩ := hok ms hms
      exact ⟨_, hrun⟩
    · obtain ⟨r, hr⟩ := hex
      have hr : FieldListFrom o (-1) (⟨[], []⟩ : Members α) ws = .ok r := hr
      refine ⟨r.2, ?_⟩
      rw [FieldList, hr]
      rfl
  refine ⟨haccepted, fun hplain => ?_, fun ms hms => ?_⟩
  · rw [haccepted, nodup_numbered hplain 0]
    exact and_iff_right (attrsApart_plain hplain)
  · obtain ⟨y, hrun⟩ := hok ms hms
    obtain ⟨-, hmembers, hkept⟩ := hresult _ hrun
    exact ⟨hmembers, hkept.sorted, hkept.same, hkept.folded⟩

/-- `{ 7: a; b; 3: c; d }` -/
def fourFields : Written Nat :=
  .field (some 7) 0 (.field none 1 (.field (some 3) 2 (.field none 3 .nil)))

/-- Four fields, two of them without a number. -/
theorem field_list_accepted_four :
    (∃ ms, FieldList ⟨false, 127⟩ fourFields = .ok ms)
    ∧ ∀ ms, FieldList ⟨false, 127⟩ fourFields = .ok ms →
        ms.members_ = [(7, 0), (-1, 1), (3, 2), (-2, 3)] := by
  have hfits : fourFields.Fits := by simp [fourFields, Written.Fits]
  obtain ⟨-, hiff, hlist⟩ := field_list_accepted_iff (o := ⟨false, 127⟩) rfl (by decide)
    fourFields (by decide) hfits
  refine ⟨(hiff ?_).mpr (by decide), fun ms hms => (hlist ms hms).1⟩
  simp [fourFields, Written.Plain]

/-- `{ a xsd_attrs { 1: x } b }`: both fields are to have the id -1. -/
example : FieldList ⟨false, 127⟩ (.xsd_attrs none 0 (.field (some 1) 1 .nil) (.field none 2 .nil))
    = .error (.used (-1)) := rfl

-- ========================================================= the material

/-- The names of the base types, as the compiler has them. -/
def t_base_name : Base → Bytes
  | .bool => lit "bool"
  | .byte => lit "byte"
  | .i16 => lit "i16"
  | .i32 => lit "i32"
  | .i64 => lit "i64"
  | .u16 => lit "u16"
  | .u32 => lit "u32"
  | .u64 => lit "u64"
  | .ipv4 => lit "ipv4"
  | .ipaddr => lit "ipaddr"
  | .double => lit "double"
  | .string => lit "string"
  | .xml => lit "xml"
  | .uuid => lit "uuid_t"

/-- Of a field, with the material of its type. -/
def fieldMaterial (key : Int) (optional : Bool) (type : Bytes) : Bytes :=
  decimalInt key ++ lit ":" ++ (if optional then lit "opt-" else []) ++ type

/-- The members, each with a `;` behind it. -/
def membersMaterial (ms : List (Int × Bytes)) : Bytes := ms.flatMap fun m => m.2 ++ lit ";"

mutual

/-- `get_fingerprint_material` of each kind of type; a typedef has that of
its type. -/
def get_fingerprint_material : Ty → Bytes
  | .base b => t_base_name b
  | .enum => lit "enum"
  | .typedef t => get_fingerprint_material t
  | .struct _ fs => lit "\x7b" ++ membersMaterial (inIdOrder (fieldMaterials fs)) ++ lit "\x7d"
  | .list e => lit "list<" ++ get_fingerprint_material e ++ lit ">"
  | .set e => lit "set<" ++ get_fingerprint_material e ++ lit ">"
  | .map k v => lit "map<" ++ get_fingerprint_material k ++ lit ","
      ++ get_fingerprint_material v ++ lit ">"

/-- The material of the fields, with their ids. -/
def fieldMaterials : Fields → List (Int × Bytes)
  | .nil => []
  | .cons f t fs => (f.key, fieldMaterial f.key (decide (f.req = .optional))
      (get_fingerprint_material t)) :: fieldMaterials fs

end

-- ============================================================ the shape

mutual

/-- What a fingerprint says of a type. -/
inductive Shape
  | base (b : Base)
  | enum
  | struct (ms : Shapes)
  | list (elem : Shape)
  | set (elem : Shape)
  | map (key val : Shape)

/-- The members, in the order of their ids. -/
inductive Shapes
  | nil
  | cons (key : Int) (optional : Bool) (s : Shape) (rest : Shapes)

end

/-- The members, from a list. -/
def Shapes.ofList : List (Int × Bool × Shape) → Shapes
  | [] => nil
  | (key, optional, s) :: ms => cons key optional s (ofList ms)

mutual

/-- What is left of a type in its material. -/
def shape : Ty → Shape
  | .base b => .base b
  | .enum => .enum
  | .typedef t => shape t
  | .struct _ fs => .struct (Shapes.ofList (inIdOrder (shapes fs)))
  | .list e => .list (shape e)
  | .set e => .set (shape e)
  | .map k v => .map (shape k) (shape v)

/-- The same for the fields. -/
def shapes : Fields → List (Int × Bool × Shape)
  | .nil => []
  | .cons f t fs => (f.key, decide (f.req = .optional), shape t) :: shapes fs

end

mutual

/-- The material of a shape. -/
def Shape.text : Shape → Bytes
  | .base b => t_base_name b
  | .enum => lit "enum"
  | .struct ms => lit "\x7b" ++ ms.text ++ lit "\x7d"
  | .list e => lit "list<" ++ e.text ++ lit ">"
  | .set e => lit "set<" ++ e.text ++ lit ">"
  | .map k v => lit "map<" ++ k.text ++ lit "," ++ v.text ++ lit ">"

/-- The material of its members, each with a semicolon behind it. -/
def Shapes.text : Shapes → Bytes
  | .nil => []
  | .cons key optional s ms => fieldMaterial key optional s.text ++ lit ";" ++ ms.text

end

-- ============================================== the material is its text

section Map

variable {β : Type} {g : Int × α → Int × β} (hg : ∀ m, (g m).1 = m.1)

include hg

/-- What keeps the ids may come before or after. -/
theorem insertInIdOrder_map (ms : List (Int × α)) (elem : Int × α) :
    insertInIdOrder (ms.map g) (g elem)
      = ((insertInIdOrder ms elem).1.map g, (insertInIdOrder ms elem).2) := by
  have htake : ∀ (p : Int → Bool) (l : List (Int × α)),
      (l.map g).takeWhile (fun m => p m.1) = (l.takeWhile fun m => p m.1).map g := by
    intro p l
    rw [List.takeWhile_map]
    simp only [Function.comp_def, hg]
  have hdrop : ∀ (p : Int → Bool) (l : List (Int × α)),
      (l.map g).dropWhile (fun m => p m.1) = (l.dropWhile fun m => p m.1).map g := by
    intro p l
    rw [List.dropWhile_map]
    simp only [Function.comp_def, hg]
  unfold insertInIdOrder
  simp only [hg, htake (fun key => decide (key < elem.1)),
    hdrop (fun key => decide (key < elem.1)), htake (fun key => !decide (elem.1 < key)),
    List.isEmpty_map]
  split
  · rw [List.map_append, List.map_cons]
  · rfl

/-- Sorting looks at the ids only. -/
theorem inIdOrder_map (ms : List (Int × α)) :
    inIdOrder (ms.map g) = (inIdOrder ms).map g := by
  have hrun : ∀ l order : List (Int × α),
      (l.map g).foldl (fun order m => (insertInIdOrder order m).1) (order.map g)
        = (l.foldl (fun order m => (insertInIdOrder order m).1) order).map g := by
    intro l
    induction l with
    | nil =>
        intro order
        rfl
    | cons m l ih =>
        intro order
        rw [List.map_cons, List.foldl_cons, List.foldl_cons, insertInIdOrder_map hg]
        exact ih (insertInIdOrder order m).1
  exact hrun ms []

end Map

/-- A member with its id, and its material. -/
def memberText (m : Int × Bool × Shape) : Int × Bytes :=
  (m.1, fieldMaterial m.1 m.2.1 m.2.2.text)

/-- The text of a list of members. -/
theorem text_ofList (ms : List (Int × Bool × Shape)) :
    (Shapes.ofList ms).text = membersMaterial (ms.map memberText) := by
  induction ms with
  | nil => rfl
  | cons m ms ih =>
      unfold membersMaterial at ih ⊢
      rw [Shapes.ofList, Shapes.text, ih, List.map_cons, List.flatMap_cons]
      rfl

mutual

/-- The material of a type is the text of its shape. -/
theorem material_eq : (t : Ty) → get_fingerprint_material t = (shape t).text
  | .base _ => rfl
  | .enum => rfl
  | .typedef t => material_eq t
  | .struct _ fs => by
      rw [get_fingerprint_material, shape, Shape.text, text_ofList, fieldMaterials_eq fs,
        inIdOrder_map (g := memberText) fun _ => rfl]
  | .list e => by
      rw [get_fingerprint_material, shape, Shape.text, material_eq e]
  | .set e => by
      rw [get_fingerprint_material, shape, Shape.text, material_eq e]
  | .map k v => by
      rw [get_fingerprint_material, shape, Shape.text, material_eq k, material_eq v]

/-- The same for the fields. -/
theorem fieldMaterials_eq : (fs : Fields) → fieldMaterials fs = (shapes fs).map memberText
  | .nil => rfl
  | .cons f t fs => by
      rw [fieldMaterials, shapes, List.map_cons, material_eq t, fieldMaterials_eq fs]
      rfl

end

-- =================================================== where a word ends

/-- What ends a word. -/
def isPunct (c : UInt8) : Bool := (lit "<>\x7b\x7d,;:").contains c

/-- A text that starts where a word ends. -/
def Cut (r : Bytes) : Prop := ∀ c ∈ r.head?, isPunct c = true

/-- Two words with anything behind them that cuts them off. -/
theorem split_unique {w w' r r' : Bytes} (hw : ∀ c ∈ w, isPunct c = false)
    (hw' : ∀ c ∈ w', isPunct c = false) (hr : Cut r) (hr' : Cut r') (h : w ++ r = w' ++ r') :
    w = w' ∧ r = r' := by
  induction w generalizing w' with
  | nil =>
      cases w' with
      | nil => exact ⟨rfl, h⟩
      | cons c w' =>
          have hcut : isPunct c = true := hr c (by rw [show r = c :: (w' ++ r') from h]; rfl)
          rw [hw' c List.mem_cons_self] at hcut
          cases hcut
  | cons c w ih =>
      cases w' with
      | nil =>
          have hcut : isPunct c = true := hr' c (by rw [show r' = c :: (w ++ r) from h.symm]; rfl)
          rw [hw c List.mem_cons_self] at hcut
          cases hcut
      | cons c' w' =>
          obtain ⟨rfl, hrest⟩ := List.cons.inj h
          obtain ⟨rfl, hr⟩ := ih (fun d hd => hw d (List.mem_cons_of_mem c hd))
            (fun d hd => hw' d (List.mem_cons_of_mem c hd)) hrest
          exact ⟨rfl, hr⟩

-- ============================================================= the words

/-- What the first word of a type says. -/
inductive Kind
  | base (b : Base)
  | enum
  | struct
  | list
  | set
  | map
  deriving DecidableEq

/-- The shape without what is in it. -/
def Shape.kind : Shape → Kind
  | .base b => .base b
  | .enum => .enum
  | .struct _ => .struct
  | .list _ => .list
  | .set _ => .set
  | .map _ _ => .map

/-- The word that the text begins with. -/
def Kind.word : Kind → Bytes
  | .base b => t_base_name b
  | .enum => lit "enum"
  | .struct => []
  | .list => lit "list"
  | .set => lit "set"
  | .map => lit "map"

/-- What comes behind the first word. -/
def Shape.tail : Shape → Bytes
  | .base _ | .enum => []
  | .struct ms => lit "\x7b" ++ ms.text ++ lit "\x7d"
  | .list e => lit "<" ++ e.text ++ lit ">"
  | .set e => lit "<" ++ e.text ++ lit ">"
  | .map k v => lit "<" ++ k.text ++ lit "," ++ v.text ++ lit ">"

/-- The text of a shape is a word and what follows it. -/
theorem text_split (s : Shape) : s.text = s.kind.word ++ s.tail := by
  cases s with
  | base b => exact (List.append_nil (t_base_name b)).symm
  | enum => exact (List.append_nil (lit "enum")).symm
  | struct ms => rfl
  | list e => rfl
  | set e => rfl
  | map k v => rfl

/-- Which types there are, by their words. -/
def kinds : List Kind :=
  [.base .bool, .base .byte, .base .i16, .base .i32, .base .i64, .base .u16, .base .u32,
    .base .u64, .base .ipv4, .base .ipaddr, .base .double, .base .string, .base .xml,
    .base .uuid, .enum, .struct, .list, .set, .map]

/-- The list is complete. -/
theorem mem_kinds (k : Kind) : k ∈ kinds := by
  rcases k with b | _
  · cases b <;> decide
  all_goals decide

/-- The words tell the kinds apart, by running through all pairs. -/
theorem word_inj {k k' : Kind} (h : k.word = k'.word) : k = k' := by
  have hnodup : (kinds.map Kind.word).Nodup := by decide
  exact List.inj_on_of_nodup_map hnodup (mem_kinds k) (mem_kinds k') h

/-- A word has no punctuation in it, so it ends where the punctuation
begins. -/
theorem isPunct_word (k : Kind) : ∀ c ∈ k.word, isPunct c = false := by
  have hall : ∀ k ∈ kinds, ∀ c ∈ k.word, isPunct c = false := by decide
  exact hall k (mem_kinds k)

-- =============================================================== the ids

/-- Numbers are told apart by their texts. -/
theorem decimalInt_inj {i j : Int} (h : decimalInt i = decimalInt j) : i = j := by
  have hsign := congrArg takeSign h
  rw [takeSign_decimalInt, takeSign_decimalInt] at hsign
  obtain ⟨hneg, htext⟩ := Prod.mk.inj hsign
  have habs : i.natAbs = j.natAbs := by
    rw [← decVal_decimal i.natAbs, htext, decVal_decimal]
  rw [decide_eq_decide] at hneg
  omega

/-- A number has no punctuation in it either. -/
theorem isPunct_decimalInt (i : Int) : ∀ c ∈ decimalInt i, isPunct c = false := by
  have hpunct : ∀ c ∈ lit "<>\x7b\x7d,;:", isDigit c = false := by decide
  have hdigit : ∀ c, isDigit c = true → isPunct c = false := by
    intro c hc
    by_contra hne
    have hmem : c ∈ lit "<>\x7b\x7d,;:" :=
      List.contains_iff_mem.mp (Bool.eq_true_of_not_eq_false hne)
    rw [hpunct c hmem] at hc
    cases hc
  have hdecimal : ∀ n, ∀ c ∈ decimal n, isPunct c = false := fun n c hc =>
    hdigit c (isDigit_of_mem_decimal hc)
  unfold decimalInt
  split
  · intro c hc
    rcases List.mem_cons.mp hc with rfl | hc
    · decide
    · exact hdecimal _ c hc
  · exact hdecimal _

/-- A number has at least one digit. -/
theorem decimalInt_cons (i : Int) : ∃ c l, decimalInt i = c :: l := by
  unfold decimalInt
  split
  · exact ⟨_, _, rfl⟩
  · exact List.exists_cons_of_ne_nil (decimal_ne_nil _)

/-- No type starts as `opt-` does. -/
theorem text_ne_opt (s : Shape) (r r' : Bytes) : s.text ++ r ≠ lit "opt-" ++ r' := by
  intro h
  have hwords : ∀ k ∈ kinds, k.word.head? ≠ some 111 := by decide
  rw [text_split, List.append_assoc] at h
  cases hword : s.kind.word with
  | nil =>
      -- only a struct starts without a word
      have hkind : s.kind = .struct := word_inj hword
      cases s <;> cases hkind
      rw [hword] at h
      exact absurd (List.cons.inj h).1 (by decide)
  | cons c w =>
      rw [hword] at h
      have hc : c = 111 := (List.cons.inj h).1
      refine hwords s.kind (mem_kinds s.kind) ?_
      rw [hword, hc]
      rfl

-- ============================================================ uniqueness

/-- What begins with punctuation cuts a word off. -/
theorem cut_cons {c : UInt8} (hc : isPunct c = true) (r : Bytes) : Cut (c :: r) := by
  intro d hd
  obtain rfl : c = d := Option.some.inj hd
  exact hc

/-- What follows the word of a shape does. -/
theorem cut_tail (s : Shape) {r : Bytes} (hr : Cut r) : Cut (s.tail ++ r) := by
  cases s with
  | base b => exact hr
  | enum => exact hr
  | struct ms => exact cut_cons (by decide) _
  | list e => exact cut_cons (by decide) _
  | set e => exact cut_cons (by decide) _
  | map k v => exact cut_cons (by decide) _

/-- The tails, with their punctuation as bytes. -/
theorem tail_struct (ms : Shapes) (r : Bytes) :
    (Shape.struct ms).tail ++ r = 123 :: (ms.text ++ 125 :: r) := by
  rw [Shape.tail, List.append_assoc, List.append_assoc]
  rfl

theorem tail_list (e : Shape) (r : Bytes) :
    (Shape.list e).tail ++ r = 60 :: (e.text ++ 62 :: r) := by
  rw [Shape.tail, List.append_assoc, List.append_assoc]
  rfl

theorem tail_set (e : Shape) (r : Bytes) :
    (Shape.set e).tail ++ r = 60 :: (e.text ++ 62 :: r) := tail_list e r

theorem tail_map (k v : Shape) (r : Bytes) :
    (Shape.map k v).tail ++ r = 60 :: (k.text ++ 44 :: (v.text ++ 62 :: r)) := by
  simp only [Shape.tail, List.append_assoc]
  rfl

/-- The first member and its punctuation. -/
theorem members_cons (key : Int) (optional : Bool) (s : Shape) (ms : Shapes) (r : Bytes) :
    (Shapes.cons key optional s ms).text ++ r = decimalInt key
      ++ 58 :: ((if optional then lit "opt-" else []) ++ (s.text ++ 59 :: (ms.text ++ r))) := by
  simp only [Shapes.text, fieldMaterial, List.append_assoc]
  rfl

/-- The members do not end where one starts. -/
theorem brace_ne_key {key : Int} {r : Bytes} (l : Bytes) : 125 :: r ≠ decimalInt key ++ l := by
  intro h
  obtain ⟨c, w, hkey⟩ := decimalInt_cons key
  have hc : isPunct c = false := isPunct_decimalInt key c (by rw [hkey]; exact List.mem_cons_self)
  rw [hkey] at h
  rw [← (List.cons.inj h).1] at hc
  revert hc
  decide

/-- Whether a member is optional shows, whatever its type. -/
theorem optional_unique {optional optional' : Bool} {s s' : Shape} {r r' : Bytes}
    (h : (if optional then lit "opt-" else []) ++ (s.text ++ r)
      = (if optional' then lit "opt-" else []) ++ (s'.text ++ r')) :
    optional = optional' ∧ s.text ++ r = s'.text ++ r' := by
  cases optional with
  | false =>
      cases optional' with
      | false => exact ⟨rfl, h⟩
      | true => exact absurd h (text_ne_opt s r _)
  | true =>
      cases optional' with
      | false => exact absurd h.symm (text_ne_opt s' r' _)
      | true => exact ⟨rfl, List.append_cancel_left h⟩

/-- Two types that are followed by anything are of one kind, and what is
behind their words is the same. -/
theorem kind_unique {s s' : Shape} {r r' : Bytes} (hr : Cut r) (hr' : Cut r')
    (h : s.text ++ r = s'.text ++ r') : s.kind = s'.kind ∧ s.tail ++ r = s'.tail ++ r' := by
  rw [text_split, text_split, List.append_assoc, List.append_assoc] at h
  obtain ⟨hword, htail⟩ := split_unique (isPunct_word _) (isPunct_word _) (cut_tail s hr)
    (cut_tail s' hr') h
  exact ⟨word_inj hword, htail⟩

mutual

/-- A text begins with at most one shape. The induction is on both shapes at
once. -/
theorem text_unique : (s s' : Shape) → {r r' : Bytes} → Cut r → Cut r' →
    s.text ++ r = s'.text ++ r' → s = s' ∧ r = r'
  | .base b, s', r, r', hr, hr', h => by
      obtain ⟨hkind, htail⟩ := kind_unique hr hr' h
      cases s' <;> cases hkind
      exact ⟨rfl, htail⟩
  | .enum, s', r, r', hr, hr', h => by
      obtain ⟨hkind, htail⟩ := kind_unique hr hr' h
      cases s' <;> cases hkind
      exact ⟨rfl, htail⟩
  | .struct ms, s', r, r', hr, hr', h => by
      obtain ⟨hkind, htail⟩ := kind_unique hr hr' h
      cases s' <;> cases hkind
      rename_i ms'
      rw [tail_struct, tail_struct] at htail
      obtain ⟨rfl, hrest⟩ := members_unique ms ms' (List.cons.inj htail).2
      exact ⟨rfl, hrest⟩
  | .list e, s', r, r', hr, hr', h => by
      obtain ⟨hkind, htail⟩ := kind_unique hr hr' h
      cases s' <;> cases hkind
      rename_i e'
      rw [tail_list, tail_list] at htail
      obtain ⟨rfl, hrest⟩ := text_unique e e' (cut_cons (by decide) r) (cut_cons (by decide) r')
        (List.cons.inj htail).2
      exact ⟨rfl, (List.cons.inj hrest).2⟩
  | .set e, s', r, r', hr, hr', h => by
      obtain ⟨hkind, htail⟩ := kind_unique hr hr' h
      cases s' <;> cases hkind
      rename_i e'
      rw [tail_set, tail_set] at htail
      obtain ⟨rfl, hrest⟩ := text_unique e e' (cut_cons (by decide) r) (cut_cons (by decide) r')
        (List.cons.inj htail).2
      exact ⟨rfl, (List.cons.inj hrest).2⟩
  | .map k v, s', r, r', hr, hr', h => by
      obtain ⟨hkind, htail⟩ := kind_unique hr hr' h
      cases s' <;> cases hkind
      rename_i k' v'
      rw [tail_map, tail_map] at htail
      obtain ⟨rfl, hval⟩ := text_unique k k' (cut_cons (by decide) _) (cut_cons (by decide) _)
        (List.cons.inj htail).2
      obtain ⟨rfl, hrest⟩ := text_unique v v' (cut_cons (by decide) r) (cut_cons (by decide) r')
        (List.cons.inj hval).2
      exact ⟨rfl, (List.cons.inj hrest).2⟩

/-- The same for members up to the closing brace. -/
theorem members_unique : (ms ms' : Shapes) → {r r' : Bytes} →
    ms.text ++ 125 :: r = ms'.text ++ 125 :: r' → ms = ms' ∧ r = r'
  | .nil, .nil, r, r', h => ⟨rfl, (List.cons.inj h).2⟩
  | .nil, .cons key optional s ms', r, r', h => by
      rw [members_cons] at h
      exact absurd h (brace_ne_key _)
  | .cons key optional s ms, .nil, r, r', h => by
      rw [members_cons] at h
      exact absurd h.symm (brace_ne_key _)
  | .cons key optional s ms, .cons key' optional' s' ms', r, r', h => by
      rw [members_cons, members_cons] at h
      obtain ⟨hkey, hmember⟩ := split_unique (isPunct_decimalInt key) (isPunct_decimalInt key')
        (cut_cons (by decide) _) (cut_cons (by decide) _) h
      obtain ⟨rfl, htype⟩ := optional_unique (List.cons.inj hmember).2
      obtain ⟨rfl, hmore⟩ := text_unique s s' (cut_cons (by decide) _) (cut_cons (by decide) _)
        htype
      obtain ⟨rfl, hrest⟩ := members_unique ms ms' (List.cons.inj hmore).2
      rw [decimalInt_inj hkey]
      exact ⟨rfl, hrest⟩

end

-- ================================================= what is left out

/-- Members that all have ids of their own are put in order, and none is lost. -/
theorem inIdOrder_same {ms : List (Int × α)} (hids : (ms.map (·.1)).Nodup) :
    ((inIdOrder ms).Pairwise fun m m' => m.1 < m'.1) ∧ (inIdOrder ms).Perm ms := by
  -- what is folded over is kept in order and complete
  have hrun : ∀ l order : List (Int × α), (order.Pairwise fun m m' => m.1 < m'.1) →
      ((order ++ l).map (·.1)).Nodup →
      ((l.foldl (fun order m => (insertInIdOrder order m).1) order).Pairwise
          fun m m' => m.1 < m'.1)
        ∧ (l.foldl (fun order m => (insertInIdOrder order m).1) order).Perm (order ++ l) := by
    intro l
    induction l with
    | nil =>
        intro order hsorted _
        exact ⟨hsorted, List.Perm.of_eq (List.append_nil order).symm⟩
    | cons m l ih =>
        intro order hsorted hnodup
        have hmiddle : (order ++ m :: l).Perm (m :: order ++ l) := List.perm_middle
        have hnodup' := ((hmiddle.map (·.1)).nodup_iff).mp hnodup
        rcases insert_spec m hsorted with ⟨hmem, -⟩ | ⟨-, order', heq, hsorted', hperm'⟩
        · have hmem' : m.1 ∈ (order ++ l).map (·.1) := by
            rw [List.map_append]
            exact List.mem_append_left _ hmem
          exact absurd hmem' (List.nodup_cons.mp hnodup').1
        · have happend : (order' ++ l).Perm (m :: order ++ l) := hperm'.append_right l
          rw [List.foldl_cons, heq]
          obtain ⟨hfold, hsame⟩ := ih order' hsorted'
            (((happend.map (·.1)).nodup_iff).mpr hnodup')
          exact ⟨hfold, hsame.trans (happend.trans hmiddle.symm)⟩
  exact hrun ms [] List.Pairwise.nil hids

/-- They come out in one order, however they are written. -/
theorem inIdOrder_perm {ms ms' : List (Int × α)} (hids : (ms.map (·.1)).Nodup)
    (hperm : ms.Perm ms') : inIdOrder ms = inIdOrder ms' := by
  have hids' : (ms'.map (·.1)).Nodup := ((hperm.map (·.1)).nodup_iff).mp hids
  obtain ⟨hsorted, hsame⟩ := inIdOrder_same hids
  obtain ⟨hsorted', hsame'⟩ := inIdOrder_same hids'
  refine (hsame.trans (hperm.trans hsame'.symm)).eq_of_pairwise ?_ hsorted hsorted'
  intro m m' _ _ hlt hgt
  exact absurd (Int.lt_trans hlt hgt) (Int.lt_irrefl m.1)

/-- The order of the fields in the text of a struct does not show, and neither
does its name. -/
theorem shape_struct_perm {fs gs : Fields} (name name' : Bytes)
    (hids : ((shapes fs).map (·.1)).Nodup) (hperm : (shapes fs).Perm (shapes gs)) :
    shape (.struct name fs) = shape (.struct name' gs) := by
  rw [shape, shape, inIdOrder_perm hids hperm]

/-- Types of the same material have the same shape. -/
theorem shape_unique {t u : Ty} (h : get_fingerprint_material t = get_fingerprint_material u) :
    shape t = shape u := by
  rw [material_eq, material_eq] at h
  have hnil : Cut [] := fun c hc => absurd hc (Option.not_mem_none c)
  have htext : (shape t).text ++ [] = (shape u).text ++ [] := by rw [h]
  exact (text_unique (shape t) (shape u) hnil hnil htext).1

/-- **What a fingerprint is taken of.** It is the same for two types exactly if they have
the same shape. -/
theorem fingerprint_material_eq_iff (t u : Ty) :
    get_fingerprint_material t = get_fingerprint_material u ↔ shape t = shape u := by
  refine ⟨shape_unique, fun h => ?_⟩
  rw [material_eq, material_eq, h]

end Sandesh.Compiler
