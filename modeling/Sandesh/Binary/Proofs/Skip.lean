/-
What `thrift_binary_protocol_skip_from_buffer` does with bytes that reach
none of its slips.

`Whole` and `Cut` describe the bytes: a value that is there as a whole, and
a buffer that ends, or has a negative size, in the value itself and not in
one inside it. A list with elements comes with zeros in the part of
`elem_type` that is not set, and addresses, which the function does not
know, are in neither. On these the function returns the length of the
value, or -1, and reads nothing outside the buffer.
-/
import Sandesh.Binary.Skip
import Sandesh.Binary.C

namespace Sandesh.Binary

open Lib C
open Lib.Prog (Runs runs_act runs_pure runs_fix)

-- ================================================================ bytes

/-- A number of four bytes, as `ntohl` and a signed variable have it. -/
def lengthAt (bs : Bytes) : Int := (BitVec.ofNat 32 (ofBe (bs.take 4))).toInt

/-- A value at the start of the bytes, its length, and the stale bytes
before and after. -/
inductive Whole : Kind → Bytes → Bytes → Nat → Bytes → Prop
  | fixed {type n : Nat} {bs st : Bytes} (h : shape type = .fixed n)
      (hle : n ≤ bs.length) : Whole (.value type) bs st n st
  | empty {type : Nat} {bs st : Bytes} (h : shape type = .string)
      (hle : 4 ≤ bs.length) (hsize : lengthAt bs ≤ 0) :
      Whole (.value type) bs st 4 st
  | string {type n : Nat} {bs st : Bytes} (h : shape type = .string)
      (hpos : 0 < n) (hsize : lengthAt bs = n) (hle : 4 + n ≤ bs.length) :
      Whole (.value type) bs st (4 + n) st
  | default {type : Nat} {bs st : Bytes} (h : shape type = .default)
      (hne : type ≠ TType.T_IPADDR.code) : Whole (.value type) bs st 0 st
  | struct {type n : Nat} {bs st st' : Bytes} (h : shape type = .struct)
      (fs : Whole .fields bs st n st') : Whole (.value type) bs st n st'
  | list {type k n : Nat} {e : UInt8} {bs st st' : Bytes}
      (h : shape type = .list) (hle : 4 ≤ bs.length) (hsize : lengthAt bs = k)
      (hzero : k ≠ 0 → (draw 3 st).1 = [0, 0, 0])
      (es : Whole (.elems e.toNat k) (bs.drop 4) (draw 3 st).2 n st') :
      Whole (.value type) (e :: bs) st (5 + n) st'
  | stop {bs st : Bytes} : Whole .fields (0 :: bs) st 1 st
  | field {t i j : UInt8} {n m : Nat} {bs st st₁ st' : Bytes} (ht : t ≠ 0)
      (v : Whole (.value (thriftType (BitVec.ofNat 8 t.toNat))) bs st n st₁)
      (fs : Whole .fields (bs.drop n) st₁ m st') :
      Whole .fields (t :: i :: j :: bs) st (3 + n + m) st'
  | nil {type : Nat} {bs st : Bytes} : Whole (.elems type 0) bs st 0 st
  | cons {type k n m : Nat} {bs st st₁ st' : Bytes}
      (v : Whole (.value type) bs st n st₁)
      (es : Whole (.elems type k) (bs.drop n) st₁ m st') :
      Whole (.elems type (k + 1)) bs st (n + m) st'

/-- A value that is not there as a whole, but everything inside it is. -/
inductive Cut : Kind → Bytes → Bytes → Prop
  | fixed {type n : Nat} {bs st : Bytes} (h : shape type = .fixed n)
      (hlt : bs.length < n) : Cut (.value type) bs st
  | length {type : Nat} {bs st : Bytes} (h : shape type = .string)
      (hlt : bs.length < 4) : Cut (.value type) bs st
  | string {type n : Nat} {bs st : Bytes} (h : shape type = .string)
      (hle : 4 ≤ bs.length) (hpos : 0 < n) (hsize : lengthAt bs = n)
      (hlt : bs.length < 4 + n) : Cut (.value type) bs st
  | struct {type : Nat} {bs st : Bytes} (h : shape type = .struct)
      (fs : Cut .fields bs st) : Cut (.value type) bs st
  | header {type : Nat} {bs st : Bytes} (h : shape type = .list)
      (hlt : bs.length < 5) : Cut (.value type) bs st
  | size {type : Nat} {e : UInt8} {bs st : Bytes} (h : shape type = .list)
      (hle : 4 ≤ bs.length) (hneg : lengthAt bs < 0) :
      Cut (.value type) (e :: bs) st
  | none {st : Bytes} : Cut .fields [] st
  | id {t : UInt8} {bs st : Bytes} (ht : t ≠ 0) (hlt : bs.length < 2) :
      Cut .fields (t :: bs) st
  | field {t i j : UInt8} {n : Nat} {bs st st₁ : Bytes} (ht : t ≠ 0)
      (v : Whole (.value (thriftType (BitVec.ofNat 8 t.toNat))) bs st n st₁)
      (fs : Cut .fields (bs.drop n) st₁) :
      Cut .fields (t :: i :: j :: bs) st

theorem Whole.le_length {k : Kind} {bs st st' : Bytes} {n : Nat}
    (h : Whole k bs st n st') : n ≤ bs.length := by
  induction h with
  | fixed _ hle | empty _ hle | string _ _ _ hle => exact hle
  | default | nil => exact Nat.zero_le _
  | struct _ _ ih => exact ih
  | list _ hle _ _ _ ih =>
      rw [List.length_drop] at ih
      rw [List.length_cons]
      omega
  | stop =>
      rw [List.length_cons]
      omega
  | field _ _ _ ihv ihfs =>
      rw [List.length_drop] at ihfs
      simp only [List.length_cons]
      omega
  | cons _ _ ihv ihes =>
      rw [List.length_drop] at ihes
      omega

-- ============================================================= one call

section Run

variable {mem : Bytes}

/-- What a call does with a value, and the loops with what is left to do. -/
def Skipped (mem : Bytes) : Kind → Bytes → Bytes → Nat → Bytes → Prop
  | .value type, bs, st, n, st' =>
      ∀ buf, buf ≤ mem.length → mem.drop buf = bs →
        (thrift_binary_protocol_skip_from_buffer mem
          ⟨buf, mem.length - buf, type⟩).Runs st (.ok (i32 n)) st'
  | .fields, bs, st, n, st' =>
      ∀ buf result, buf + result ≤ mem.length → mem.drop (buf + result) = bs →
        (Prog.loop (skipField mem (thrift_binary_protocol_skip_from_buffer mem)
          buf (mem.length - buf)) result).Runs st (.ok (i32 (result + n))) st'
  | .elems type k, bs, st, n, st' =>
      ∀ buf result i, buf + result ≤ mem.length → mem.drop (buf + result) = bs →
        (Prog.loop (skipElement (thrift_binary_protocol_skip_from_buffer mem)
          buf (mem.length - buf) type (i + k : Nat)) (i, result)).Runs st
            (.ok (i32 (result + n))) st'

theorem runs_fetch (mem : Bytes) (pos n : Nat) (st : Bytes)
    (h : n ≤ (mem.drop pos).length) (hpos : pos ≤ mem.length) :
    (fetch mem pos n).Runs st (.ok ((mem.drop pos).take n)) st := by
  unfold fetch
  rw [List.length_drop] at h
  rw [if_pos (by omega)]
  exact runs_pure.mpr ⟨rfl, rfl⟩

theorem runs_drawStale (n : Nat) (st : Bytes) :
    (drawStale n).Runs st (.ok (draw n st).1) (draw n st).2 :=
  runs_act.mpr rfl

theorem lengthAt_eq {bs : Bytes} (h : 4 ≤ bs.length) :
    (BitVec.ofNat 32 (swap 4 (ofImage (bs.take 4)))).toInt = lengthAt bs := by
  have hswap := swap_ofImage (bs.take 4)
  rw [List.length_take_of_le h] at hswap
  rw [hswap]
  rfl

theorem ofImage_singleton (t : UInt8) : ofImage [t] = t.toNat := by
  show t.toNat * 256 ^ 0 + 0 = t.toNat
  omega

theorem thriftType_eq_zero {t : UInt8} :
    thriftType (BitVec.ofNat 8 t.toNat) = TType.T_STOP.code ↔ t = 0 := by
  have hall : ∀ v : BitVec 8, thriftType v = TType.T_STOP.code ↔ v = 0 := by
    decide +kernel
  rw [hall]
  constructor
  · intro h
    have hnat := congrArg BitVec.toNat h
    rw [BitVec.toNat_ofNat, Nat.mod_eq_of_lt t.toNat_lt] at hnat
    exact UInt8.toNat_inj.mp hnat
  · rintro rfl
    rfl

variable {skip : SkipArgs → Prog Bytes Fault Int} {buf result : Nat}
  {st st₁ : Bytes}

/-- What is left of the buffer. -/
theorem left_eq (buf result : Nat) (hmem : mem.length < 2 ^ 32)
    (hle : buf + result ≤ mem.length) :
    u32 (((mem.length - buf : Nat) : Int) - result) = mem.length - (buf + result) := by
  have heq : ((mem.length - buf : Nat) : Int) - result
      = (mem.length - (buf + result) : Nat) := by
    omega
  rw [heq, u32_nat (by omega)]

theorem length_drop_eq {bs : Bytes} {pos : Nat} (h : mem.drop pos = bs) :
    bs.length = mem.length - pos := by
  rw [← h, List.length_drop]

theorem skipField_stop (hmem : mem.length < 2 ^ 32) {bs : Bytes}
    (hle : buf + result ≤ mem.length) (hbs : mem.drop (buf + result) = 0 :: bs) :
    (skipField mem skip buf (mem.length - buf) result).Runs st
      (.ok (.inr (i32 (result + 1 : Nat)))) st := by
  have hlen := length_drop_eq hbs
  rw [List.length_cons] at hlen
  unfold skipField
  rw [left_eq _ _ hmem hle, if_neg (by omega)]
  have hfetch := runs_fetch mem (buf + result) 1 st
    (by rw [hbs, List.length_cons]; omega) hle
  rw [hbs, List.take_succ_cons, List.take_zero] at hfetch
  refine hfetch.bind_ok ?_
  rw [ofImage_singleton, if_pos (thriftType_eq_zero.mpr rfl)]
  refine runs_pure.mpr ⟨?_, rfl⟩
  have hsum : u32 ((result : Int) + 1) = result + 1 :=
    u32_nat (n := result + 1) (by omega)
  rw [hsum]

/-- A type that is not `T_STOP` has been read. -/
theorem skipField_typed (hmem : mem.length < 2 ^ 32) {t : UInt8} {bs : Bytes}
    (ht : t ≠ 0) (hle : buf + result ≤ mem.length)
    (hbs : mem.drop (buf + result) = t :: bs) {res : Except Fault (Nat ⊕ Int)}
    (hrest : (if 2 > bs.length then pure (.inr (-1)) else do
        let ret ← skip ⟨buf + (result + 3), mem.length - (buf + (result + 3)),
          thriftType (BitVec.ofNat 8 t.toNat)⟩
        pure (.inl (u32 ((result + 3 : Nat) + ret))) :
        Prog Bytes Fault (Nat ⊕ Int)).Runs st res st₁) :
    (skipField mem skip buf (mem.length - buf) result).Runs st res st₁ := by
  have hlen := length_drop_eq hbs
  rw [List.length_cons] at hlen
  unfold skipField
  rw [left_eq _ _ hmem hle, if_neg (by omega)]
  have hfetch := runs_fetch mem (buf + result) 1 st
    (by rw [hbs, List.length_cons]; omega) hle
  rw [hbs, List.take_succ_cons, List.take_zero] at hfetch
  refine hfetch.bind_ok ?_
  have hone : u32 ((result : Int) + 1) = result + 1 :=
    u32_nat (n := result + 1) (by omega)
  rw [ofImage_singleton, if_neg (mt thriftType_eq_zero.mp ht), hone,
    left_eq _ (result + 1) hmem (by omega)]
  have hbound : mem.length - (buf + (result + 1)) = bs.length := by omega
  rw [hbound]
  by_cases hshort : 2 > bs.length
  · rw [if_pos hshort] at hrest ⊢
    exact hrest
  · rw [if_neg hshort] at hrest ⊢
    have hthree : u32 (((result + 1 : Nat) : Int) + 2) = result + 3 :=
      u32_nat (n := result + 3) (by omega)
    simp only [hthree]
    rw [left_eq _ (result + 3) hmem (by omega)]
    exact hrest

/-- A field whose value is skipped. -/
theorem skipField_goes (hmem : mem.length < 2 ^ 32) {t i j : UInt8} {bs : Bytes}
    {n : Nat} (ht : t ≠ 0) (hle : buf + result ≤ mem.length)
    (hbs : mem.drop (buf + result) = t :: i :: j :: bs) (hn : n ≤ bs.length)
    (hcall : (skip ⟨buf + (result + 3), mem.length - (buf + (result + 3)),
      thriftType (BitVec.ofNat 8 t.toNat)⟩).Runs st (.ok (i32 n)) st₁) :
    (skipField mem skip buf (mem.length - buf) result).Runs st
      (.ok (.inl (result + 3 + n))) st₁ := by
  have hlen := length_drop_eq hbs
  simp only [List.length_cons] at hlen
  refine skipField_typed hmem ht hle hbs ?_
  rw [if_neg (by simp only [List.length_cons]; omega)]
  refine hcall.bind_ok (runs_pure.mpr ⟨?_, rfl⟩)
  rw [u32_add_i32, ← Int.natCast_add, u32_nat (by omega)]

theorem skipElement_goes (hmem : mem.length < 2 ^ 32) {type i k n : Nat}
    (hle : buf + result + n ≤ mem.length)
    (hcall : (skip ⟨buf + result, mem.length - (buf + result), type⟩).Runs st
      (.ok (i32 n)) st₁) :
    (skipElement skip buf (mem.length - buf) type (i + (k + 1) : Nat) (i, result)).Runs
      st (.ok (.inl (i + 1, result + n))) st₁ := by
  unfold skipElement
  rw [if_pos (by show (i : Int) < _; omega)]
  rw [← left_eq buf result hmem (by omega)] at hcall
  refine hcall.bind_ok (runs_pure.mpr ⟨?_, rfl⟩)
  rw [u32_add_i32, ← Int.natCast_add, u32_nat (by omega)]

theorem skipElement_leaves {type i : Nat} :
    (skipElement skip buf (mem.length - buf) type (i : Nat) (i, result)).Runs
      st (.ok (.inr (i32 result))) st := by
  unfold skipElement
  rw [if_neg (Int.lt_irrefl _)]
  exact runs_pure.mpr ⟨rfl, rfl⟩

theorem skip_runs {a : SkipArgs} {res : Except Fault Int}
    (h : (skipFromBufferBody mem (thrift_binary_protocol_skip_from_buffer mem) a).Runs
      st res st₁) :
    (thrift_binary_protocol_skip_from_buffer mem a).Runs st res st₁ :=
  runs_fix.mpr h

theorem shape_fixed_le {type n : Nat} (h : shape type = .fixed n) : n ≤ 16 := by
  unfold shape at h
  split at h
  · rename_i t _
    cases t <;> simp only [TType.shape, Shape.fixed.injEq, reduceCtorEq] at h <;>
      omega
  · cases h

/-- The header of a list whose size is not negative. -/
theorem skipList_goes {e : UInt8} {bs : Bytes} {k : Nat}
    (hbuf : buf ≤ mem.length) (hbs : mem.drop buf = e :: bs)
    (hle : 4 ≤ bs.length) (hsize : lengthAt bs = k) {res : Except Fault Int}
    (hloop : (Prog.loop (skipElement skip buf (mem.length - buf)
      (ofImage (e :: (draw 3 st).1)) k) (0, 5)).Runs (draw 3 st).2 res st₁) :
    (skipList mem skip buf (mem.length - buf)).Runs st res st₁ := by
  have hlen := length_drop_eq hbs
  rw [List.length_cons] at hlen
  have hnext : mem.drop (buf + 1) = bs := by
    rw [← List.drop_drop, hbs, List.drop_one, List.tail_cons]
  unfold skipList
  rw [if_neg (by omega)]
  have hfetch := runs_fetch mem buf 1 st
    (by rw [hbs, List.length_cons]; omega) hbuf
  rw [hbs, List.take_succ_cons, List.take_zero] at hfetch
  refine hfetch.bind_ok ((runs_drawStale 3 st).bind_ok ?_)
  rw [if_neg (by omega)]
  have hfetch := runs_fetch mem (buf + 1) 4 (draw 3 st).2
    (by rw [hnext]; exact hle) (by omega)
  refine hfetch.bind_ok ?_
  rw [hnext, lengthAt_eq hle, hsize, if_neg (by omega)]
  exact hloop

-- ========================================================= whole values

theorem Whole.skipped (hmem : mem.length < 2 ^ 32) {k : Kind} {bs st st' : Bytes}
    {n : Nat} (h : Whole k bs st n st') : Skipped mem k bs st n st' := by
  induction h with
  | @fixed type n bs st h hle =>
      intro buf hbuf hbs
      have hlen := length_drop_eq hbs
      have h16 := shape_fixed_le h
      refine skip_runs ?_
      simp only [skipFromBufferBody, h, skipFixed]
      rw [if_neg (by omega), i32_eq (by omega) (by omega)]
      exact runs_pure.mpr ⟨rfl, rfl⟩
  | @empty type bs st h hle hsize =>
      intro buf hbuf hbs
      have hlen := length_drop_eq hbs
      refine skip_runs ?_
      simp only [skipFromBufferBody, h, skipString]
      rw [if_neg (by omega)]
      refine (runs_fetch mem buf 4 st (by rw [hbs]; exact hle) hbuf).bind_ok ?_
      rw [hbs, lengthAt_eq hle, if_neg (by omega)]
      exact runs_pure.mpr ⟨rfl, rfl⟩
  | @string type n bs st h hpos hsize hle =>
      intro buf hbuf hbs
      have hlen := length_drop_eq hbs
      refine skip_runs ?_
      simp only [skipFromBufferBody, h, skipString]
      rw [if_neg (by omega)]
      refine (runs_fetch mem buf 4 st (by rw [hbs]; omega) hbuf).bind_ok ?_
      have hsum : u32 (4 + (n : Int)) = 4 + n := u32_nat (n := 4 + n) (by omega)
      rw [hbs, lengthAt_eq (by omega), hsize, if_pos (by omega), hsum,
        if_neg (by omega)]
      exact runs_pure.mpr ⟨rfl, rfl⟩
  | default h hne =>
      intro buf hbuf hbs
      refine skip_runs ?_
      simp only [skipFromBufferBody, h]
      exact runs_pure.mpr ⟨rfl, rfl⟩
  | struct h fs ih =>
      intro buf hbuf hbs
      refine skip_runs ?_
      simp only [skipFromBufferBody, h]
      have hrun := ih buf 0 hbuf hbs
      rwa [Int.natCast_zero, Int.zero_add] at hrun
  | @list type k n e bs st st' h hle hsize hzero es ih =>
      intro buf hbuf hbs
      have hlen := length_drop_eq hbs
      rw [List.length_cons] at hlen
      refine skip_runs ?_
      simp only [skipFromBufferBody, h]
      refine skipList_goes hbuf hbs hle hsize ?_
      have hdrop : mem.drop (buf + 5) = bs.drop 4 := by
        rw [← List.drop_drop, hbs, List.drop_succ_cons]
      by_cases hk : k = 0
      · -- no element, and the type does not matter
        subst hk
        cases es
        exact Runs.leave skipElement_leaves
      · have htype : ofImage (e :: (draw 3 st).1) = e.toNat := by
          rw [hzero hk]
          simp [ofImage, ofBe]
        rw [htype]
        have hrun := ih buf 5 0 (by omega) hdrop
        rw [Nat.zero_add] at hrun
        exact hrun
  | @stop bs st =>
      intro buf result hle hbs
      exact Runs.leave (skipField_stop hmem hle hbs)
  | @field t i j n m bs st st₁ st' ht v fs ihv ihfs =>
      intro buf result hle hbs
      have hlen := length_drop_eq hbs
      simp only [List.length_cons] at hlen
      have hn := v.le_length
      have hdrop : mem.drop (buf + (result + 3)) = bs := by
        rw [← Nat.add_assoc, ← List.drop_drop, hbs]
        rfl
      have hturn := skipField_goes hmem ht hle hbs hn
        (ihv (buf + (result + 3)) (by omega) hdrop)
      have hloop := ihfs buf (result + 3 + n) (by omega)
        (by rw [← Nat.add_assoc, ← List.drop_drop, hdrop])
      have hsum : ((result + 3 + n : Nat) : Int) + m = result + (3 + n + m : Nat) := by
        omega
      rw [hsum] at hloop
      exact hturn.again hloop
  | @nil type bs st =>
      intro buf result i hle hbs
      rw [Int.natCast_zero, Int.add_zero]
      exact Runs.leave skipElement_leaves
  | @cons type k n m bs st st₁ st' v es ihv ihes =>
      intro buf result i hle hbs
      have hlen := length_drop_eq hbs
      have hn := v.le_length
      have hturn := skipElement_goes (i := i) (k := k) hmem (by omega)
        (ihv (buf + result) hle hbs)
      have hloop := ihes buf (result + n) (i + 1) (by omega)
        (by rw [← Nat.add_assoc, ← List.drop_drop, hbs])
      have hsum : ((result + n : Nat) : Int) + m = result + (n + m : Nat) := by
        omega
      rw [hsum, show i + 1 + k = i + (k + 1) by omega] at hloop
      exact hturn.again hloop

-- =========================================================== cut values

/-- A call that returns -1, and the loop of a structure that does. -/
def Fails (mem : Bytes) : Kind → Bytes → Bytes → Prop
  | .value type, bs, st =>
      ∀ buf, buf ≤ mem.length → mem.drop buf = bs →
        ∃ st', (thrift_binary_protocol_skip_from_buffer mem
          ⟨buf, mem.length - buf, type⟩).Runs st (.ok (-1)) st'
  | .fields, bs, st =>
      ∀ buf result, buf + result ≤ mem.length → mem.drop (buf + result) = bs →
        ∃ st', (Prog.loop (skipField mem
          (thrift_binary_protocol_skip_from_buffer mem) buf (mem.length - buf))
          result).Runs st (.ok (-1)) st'
  | .elems _ _, _, _ => True

/-- The header of a list that is cut, or whose size is negative. -/
theorem skipList_fails {bs : Bytes} (hbuf : buf ≤ mem.length)
    (hbs : mem.drop buf = bs)
    (hbad : bs.length < 5 ∨ (5 ≤ bs.length ∧ lengthAt (bs.drop 1) < 0)) :
    ∃ st', (skipList mem skip buf (mem.length - buf)).Runs st (.ok (-1)) st' := by
  have hlen := length_drop_eq hbs
  unfold skipList
  by_cases hempty : 1 > mem.length - buf
  · rw [if_pos hempty]
    exact ⟨st, runs_pure.mpr ⟨rfl, rfl⟩⟩
  · rw [if_neg hempty]
    have hfetch := runs_fetch mem buf 1 st (by rw [hbs]; omega) hbuf
    rcases hbad with hshort | ⟨hle, hneg⟩
    · refine ⟨(draw 3 st).2,
        hfetch.bind_ok ((runs_drawStale 3 st).bind_ok ?_)⟩
      rw [if_pos (by omega)]
      exact runs_pure.mpr ⟨rfl, rfl⟩
    · refine ⟨(draw 3 st).2,
        hfetch.bind_ok ((runs_drawStale 3 st).bind_ok ?_)⟩
      have hnext : mem.drop (buf + 1) = bs.drop 1 := by
        rw [← List.drop_drop, hbs]
      have hfour : 4 ≤ (bs.drop 1).length := by
        rw [List.length_drop]
        omega
      rw [if_neg (by omega)]
      have hfetch := runs_fetch mem (buf + 1) 4 (draw 3 st).2
        (by rw [hnext]; exact hfour) (by omega)
      refine hfetch.bind_ok ?_
      rw [hnext, lengthAt_eq hfour, if_pos hneg]
      exact runs_pure.mpr ⟨rfl, rfl⟩

theorem Cut.fails (hmem : mem.length < 2 ^ 32) {k : Kind} {bs st : Bytes}
    (h : Cut k bs st) : Fails mem k bs st := by
  induction h with
  | @fixed type n bs st h hlt =>
      intro buf hbuf hbs
      have hlen := length_drop_eq hbs
      refine ⟨st, skip_runs ?_⟩
      simp only [skipFromBufferBody, h, skipFixed]
      rw [if_pos (by omega)]
      exact runs_pure.mpr ⟨rfl, rfl⟩
  | @length type bs st h hlt =>
      intro buf hbuf hbs
      have hlen := length_drop_eq hbs
      refine ⟨st, skip_runs ?_⟩
      simp only [skipFromBufferBody, h, skipString]
      rw [if_pos (by omega)]
      exact runs_pure.mpr ⟨rfl, rfl⟩
  | @string type n bs st h hle hpos hsize hlt =>
      intro buf hbuf hbs
      have hlen := length_drop_eq hbs
      have hn : (n : Int) < 2 ^ 31 := by
        rw [← hsize]
        exact BitVec.toInt_lt
      refine ⟨st, skip_runs ?_⟩
      simp only [skipFromBufferBody, h, skipString]
      rw [if_neg (by omega)]
      refine (runs_fetch mem buf 4 st (by rw [hbs]; exact hle) hbuf).bind_ok ?_
      have hsum : u32 (4 + (n : Int)) = 4 + n := u32_nat (n := 4 + n) (by omega)
      rw [hbs, lengthAt_eq hle, hsize, if_pos (by omega), hsum, if_pos (by omega)]
      exact runs_pure.mpr ⟨rfl, rfl⟩
  | struct h fs ih =>
      intro buf hbuf hbs
      obtain ⟨st', hrun⟩ := ih buf 0 hbuf hbs
      refine ⟨st', skip_runs ?_⟩
      simp only [skipFromBufferBody, h]
      exact hrun
  | header h hlt =>
      intro buf hbuf hbs
      obtain ⟨st', hrun⟩ := skipList_fails hbuf hbs (.inl hlt)
      refine ⟨st', skip_runs ?_⟩
      simp only [skipFromBufferBody, h]
      exact hrun
  | size h hle hneg =>
      intro buf hbuf hbs
      obtain ⟨st', hrun⟩ := skipList_fails hbuf hbs
        (.inr ⟨by rw [List.length_cons]; omega, hneg⟩)
      refine ⟨st', skip_runs ?_⟩
      simp only [skipFromBufferBody, h]
      exact hrun
  | @none st =>
      intro buf result hle hbs
      have hlen := length_drop_eq hbs
      rw [List.length_nil] at hlen
      refine ⟨st, Runs.leave ?_⟩
      unfold skipField
      rw [left_eq _ _ hmem hle, if_pos (by omega)]
      exact runs_pure.mpr ⟨rfl, rfl⟩
  | @id t bs st ht hlt =>
      intro buf result hle hbs
      refine ⟨st, Runs.leave (skipField_typed hmem ht hle hbs ?_)⟩
      rw [if_pos hlt]
      exact runs_pure.mpr ⟨rfl, rfl⟩
  | @field t i j n bs st st₁ ht v fs ih =>
      intro buf result hle hbs
      have hlen := length_drop_eq hbs
      simp only [List.length_cons] at hlen
      have hn := v.le_length
      have hdrop : mem.drop (buf + (result + 3)) = bs := by
        rw [← Nat.add_assoc, ← List.drop_drop, hbs]
        rfl
      have hturn := skipField_goes hmem ht hle hbs hn
        (v.skipped hmem (buf + (result + 3)) (by omega) hdrop)
      obtain ⟨st', hloop⟩ := ih buf (result + 3 + n) (by omega)
        (by rw [← Nat.add_assoc, ← List.drop_drop, hdrop])
      exact ⟨st', hturn.again hloop⟩

end Run

end Sandesh.Binary
