/-
The bytes of a tree (`Tree.out`), and that the C write functions write them.
-/
import Sandesh.Binary.Proofs.Skip
import Sandesh.Binary.Proofs.Wire
import Sandesh.Binary.C

namespace Sandesh.Binary

open Lib C

/-- The bytes of a scalar. An address of neither family is not written. -/
def Scalar.out : Scalar → Out
  | bool v => .good [if v ≠ 0 then 1 else 0]
  | byte v => .good (be 1 v.toNat)
  | i16 v | u16 v => .good (be 2 v.toNat)
  | i32 v | u32 v | ipv4 v => .good (be 4 v.toNat)
  | i64 v | u64 v => .good (be 8 v.toNat)
  | ipaddr (.ipv4 bytes _) => .good (be 1 AF_INET ++ bytes)
  | ipaddr (.ipv6 bytes _) => .good (be 1 AF_INET6 ++ bytes)
  | ipaddr (.other _) => ⟨[], false⟩
  | double v => .good (image 8 v.toNat)
  | string none | xml none => .good (be 4 0)
  | string (some s) | xml (some s) =>
      .good (be 4 (cstr s).length ++ cstr s)
  | uuid u _ => .good u

/-- What is written for a tree. -/
def Tree.out {k : Kind} : Tree k → Out
  | .leaf v => v.out
  | .struct fs => fs.out
  | .list (n := n) t es =>
      (Out.good (be 1 t.code ++ be 4 (BitVec.ofNat 32 n).toNat)).seq es.out
  | .stop => .good [0]
  | .field t id _ v fs =>
      (Out.good (be 1 t.code ++ be 2 id.toNat)).seq (v.out.seq fs.out)
  | .nil => .good []
  | .cons v es => v.out.seq es.out

section

variable {σ : Type} {T : Transport σ} {A : Appends T}

/-- A scalar is written as its bytes. -/
theorem Scalar.writes_out (v : Scalar) : Writes A (v.write T) v.out := by
  cases v with
  | bool v => exact writes_bool v
  | byte v => exact writes_byte v
  | i16 v | u16 v => exact writes_i16 v
  | i32 v | u32 v | ipv4 v => exact writes_i32 v
  | i64 v | u64 v => exact writes_i64 v
  | ipaddr a =>
      cases a with
      | ipv4 bytes hlen => exact writes_ipv4 hlen
      | ipv6 bytes hlen => exact writes_ipv6 hlen
      | other iptype => exact writes_ipaddr_other iptype
  | double v => exact writes_put _
  | string s | xml s =>
      cases s with
      | none => exact writes_null
      | some s => exact writes_string s
  | uuid u hlen => exact writes_put u

/-- One writer after the other. -/
theorem writesFrom_chain {f g : Int → σ → Int × σ} {a b : Out}
    (hf : WritesFrom A f a) (hg : WritesFrom A g b) :
    WritesFrom A (chain f g) (a.seq b) := by
  intro xfer s hx hlt hroom
  have hle := Out.length_le_seq a b
  have hfs := hf xfer s hx (by omega) (A.less hroom hle)
  obtain ⟨x, okx⟩ := a
  cases okx with
  | false =>
      change (f xfer s).1 = -1 at hfs
      show (chain f g xfer s).1 = -1
      unfold chain
      simp only [hfs, if_pos (show (-1 : Int) < 0 by decide)]
  | true =>
      obtain ⟨y, oky⟩ := b
      change f xfer s = (xfer + x.length, A.app s x) at hfs
      change xfer + (x ++ y).length < 2 ^ 31 at hlt
      change A.room s (x ++ y).length at hroom
      rw [List.length_append] at hlt hroom
      push_cast at hlt
      have hgs := hg (xfer + x.length) (A.app s x) (by omega)
        (by show xfer + x.length + y.length < 2 ^ 31; omega) (A.after hroom)
      have hrun : chain f g xfer s = g (xfer + x.length) (A.app s x) := by
        unfold chain
        rw [hfs]
        exact if_neg (by omega)
      cases oky with
      | false =>
          show (chain f g xfer s).1 = -1
          rw [hrun]
          exact hgs
      | true =>
          show chain f g xfer s = (xfer + ((x ++ y).length : Nat), A.app s (x ++ y))
          rw [hrun, ← A.app_app, List.length_append, Int.natCast_add,
            ← Int.add_assoc]
          exact hgs

/-- A writer that counts. -/
theorem writesFrom_single {f : σ → Int × σ} {o : Out} (hf : Writes A f o) :
    WritesFrom A (fun xfer => seq xfer f Prod.mk) o := by
  have h := writesFrom_seq hf (writesFrom_done (A := A))
  have hout : o.seq (.good []) = o := by
    obtain ⟨bs, ok⟩ := o
    cases ok with
    | false => rfl
    | true => simp [Out.seq, Out.good]
  rwa [hout] at h

/-- A tree is written as its bytes, by induction. -/
theorem Tree.writes_out {k : Kind} (v : Tree k) :
    WritesFrom A (v.write T) v.out := by
  induction v with
  | leaf v => exact writesFrom_single v.writes_out
  | struct fs ih => exact ih
  | list t es ih => exact writesFrom_seq (writes_list_begin t _) ih
  | stop => exact writesFrom_single writes_field_stop
  | field t id h v fs ihv ihfs =>
      exact writesFrom_seq (writes_field_begin t id) (writesFrom_chain ihv ihfs)
  | nil => exact writesFrom_done
  | cons v es ihv ihes => exact writesFrom_chain ihv ihes

end

end Sandesh.Binary

/-
Skipping and value trees.

A tree without addresses is a `Whole` value, of its own length
(`Tree.whole`), and nothing that starts like a tree is a whole value of
another length (`Tree.whole_length`). So a buffer that ends inside a value
is refused wherever the slips of the function are not reached.
-/

namespace Sandesh.Binary

open Lib C
open Lib.Prog (Runs runs_act runs_pure)

-- ================================================================ bytes

/-- Two pieces are good exactly if both are, and their bytes follow each
other. -/
theorem Out.seq_ok {a b : Out} (h : (a.seq b).ok = true) :
    a.ok = true ∧ b.ok = true ∧ (a.seq b).bytes = a.bytes ++ b.bytes := by
  unfold Out.seq at h ⊢
  split at h
  · rename_i ha
    rw [if_pos ha]
    exact ⟨ha, h, rfl⟩
  · rename_i ha
    exact absurd h ha

/-- The bytes of a list. -/
theorem Tree.list_out {t : TType} {n : Nat} {es : Tree (.elems t.code n)}
    (h : (Tree.list t es).out.ok = true) :
    es.out.ok = true ∧ (Tree.list t es).out.bytes
      = be 1 t.code ++ be 4 (BitVec.ofNat 32 n).toNat ++ es.out.bytes :=
  (Out.seq_ok h).2

/-- The bytes of a field and the fields behind it. -/
theorem Tree.field_out {t : TType} {id : BitVec 16} {hne : t ≠ .T_STOP}
    {v : Tree (.value t.code)} {fs : Tree .fields}
    (h : (Tree.field t id hne v fs).out.ok = true) :
    v.out.ok = true ∧ fs.out.ok = true ∧ (Tree.field t id hne v fs).out.bytes
      = be 1 t.code ++ be 2 id.toNat ++ (v.out.bytes ++ fs.out.bytes) := by
  obtain ⟨-, hsub, hbytes⟩ := Out.seq_ok h
  obtain ⟨hv, hfs, hbytes'⟩ := Out.seq_ok hsub
  rw [hbytes'] at hbytes
  exact ⟨hv, hfs, hbytes⟩

/-- The bytes of the elements. -/
theorem Tree.cons_out {type n : Nat} {v : Tree (.value type)}
    {es : Tree (.elems type n)} (h : (Tree.cons v es).out.ok = true) :
    v.out.ok = true ∧ es.out.ok = true ∧
      (Tree.cons v es).out.bytes = v.out.bytes ++ es.out.bytes :=
  Out.seq_ok h

/-- A number of one byte. -/
theorem be_one (n : Nat) : be 1 n = [UInt8.ofNat n] := by
  show [UInt8.ofNat (n / 1)] = _
  rw [Nat.div_one]

/-- A type fits in a byte. -/
theorem toNat_code (t : TType) : (UInt8.ofNat t.code).toNat = t.code := by
  rw [UInt8.toNat_ofNat']
  have hlt := t.code_lt
  omega

/-- Only the stop byte is zero. -/
theorem ofNat_code_ne {t : TType} (h : t ≠ .T_STOP) : UInt8.ofNat t.code ≠ 0 := by
  intro heq
  have hcode : t.code = TType.T_STOP.code := by
    rw [← toNat_code t, heq]
    rfl
  exact h (TType.code_inj hcode)

/-- The type is read back from its byte. -/
theorem thriftType_toNat_code (t : TType) :
    thriftType (BitVec.ofNat 8 (UInt8.ofNat t.code).toNat) = t.code := by
  rw [toNat_code, ← code_toNat t, BitVec.ofNat_toNat, BitVec.setWidth_eq]
  cases t <;> decide

/-- A length of four bytes, where it is there. -/
theorem lengthAt_of_front {n : Nat} {bs rest : Bytes} (hn : n < 2 ^ 31)
    (hbs : bs <+: be 4 n ++ rest) (hle : 4 ≤ bs.length) : lengthAt bs = n := by
  obtain ⟨more, heq⟩ := hbs
  have htake : bs.take 4 = be 4 n := by
    have h := congrArg (List.take 4) heq
    rw [List.take_append_of_le_length hle] at h
    rw [h, List.take_append_of_le_length (by rw [length_be]), List.take_of_length_le]
    rw [length_be]
  have hmod : n % 256 ^ 4 = n := Nat.mod_eq_of_lt (by omega)
  unfold lengthAt
  rw [htake, ofBe_be, hmod, BitVec.toInt_eq_toNat_cond, BitVec.toNat_ofNat,
    Nat.mod_eq_of_lt (by omega), if_pos (by omega)]

/-- How many bytes a scalar has, and how that is found. -/
theorem Scalar.shape_out (v : Scalar) :
    (∃ a, v = .ipaddr a) ∨ shape v.type.code = .fixed v.out.bytes.length ∨
      (shape v.type.code = .string ∧ ∃ s, v.out = .good (be 4 s.length ++ s)) := by
  have hstring : ∀ s : Option Bytes, ∃ s', (Scalar.string s).out
      = .good (be 4 s'.length ++ s') := by
    intro s
    cases s with
    | none => exact ⟨[], rfl⟩
    | some s => exact ⟨cstr s, rfl⟩
  cases v with
  | ipaddr a => exact .inl ⟨a, rfl⟩
  | string s => exact .inr (.inr ⟨rfl, hstring s⟩)
  | xml s =>
      have hxml : (Scalar.xml s).out = (Scalar.string s).out := by cases s <;> rfl
      exact .inr (.inr ⟨rfl, hxml ▸ hstring s⟩)
  | uuid u h =>
      refine .inr (.inl ?_)
      show _ = Shape.fixed u.length
      rw [h]
      rfl
  | double v =>
      refine .inr (.inl ?_)
      show _ = Shape.fixed (image 8 v.toNat).length
      rw [length_image]
      rfl
  | _ => exact .inr (.inl rfl)

/-- The least number of bytes. -/
def Kind.least : Kind → Nat
  | .value _ => 1
  | .fields => 1
  | .elems _ n => n

/-- A tree has at least so many bytes. -/
theorem Tree.least_le {k : Kind} (v : Tree k) (hok : v.out.ok = true) :
    k.least ≤ v.out.bytes.length := by
  induction v with
  | leaf v =>
      show 1 ≤ v.out.bytes.length
      cases v with
      | ipaddr a =>
          cases a with
          | ipv4 | ipv6 => simp [Scalar.out]
          | other => cases hok
      | string s | xml s =>
          cases s with
          | none => simp [Scalar.out]
          | some s =>
              simp only [Scalar.out, Out.good_bytes, List.length_append, length_be]
              omega
      | uuid u h => simp [Scalar.out, h]
      | _ => simp [Scalar.out]
  | struct fs ih => exact ih hok
  | list t es ih =>
      obtain ⟨-, hbytes⟩ := Tree.list_out hok
      show 1 ≤ _
      rw [hbytes]
      simp only [List.length_append, length_be]
      omega
  | stop => exact Nat.le_refl 1
  | field t id h v fs ihv ihfs =>
      obtain ⟨-, -, hbytes⟩ := Tree.field_out hok
      show 1 ≤ _
      rw [hbytes]
      simp only [List.length_append, length_be]
      omega
  | nil => exact Nat.zero_le _
  | cons v es ihv ihes =>
      obtain ⟨hv, hes, hbytes⟩ := Tree.cons_out hok
      have h1 : 1 ≤ v.out.bytes.length := ihv hv
      have hn := ihes hes
      show _ + 1 ≤ _
      rw [hbytes, List.length_append]
      exact Nat.add_comm _ 1 ▸ Nat.add_le_add h1 hn

/-- Nothing that starts like a tree is a whole value of another length. -/
theorem Tree.whole_length {k : Kind} (v : Tree k) (hok : v.out.ok = true)
    (hlt : v.out.bytes.length < 2 ^ 31) {bs rest st st' : Bytes} {n : Nat}
    (hbs : bs <+: v.out.bytes ++ rest) (h : Whole k bs st n st') :
    n = v.out.bytes.length := by
  induction v generalizing bs rest st st' n with
  | leaf v =>
      rcases v.shape_out with ⟨a, rfl⟩ | hshape | ⟨hshape, s, hs⟩
      · cases h with
        | fixed h | empty h | string h | struct h | list h => cases h
        | default h hne => exact absurd rfl hne
      · cases h with
        | fixed h => exact Shape.fixed.inj (h.symm.trans hshape)
        | empty h | string h | struct h | list h | default h =>
            cases h.symm.trans hshape
      · change v.out.bytes.length < 2 ^ 31 at hlt
        change bs <+: v.out.bytes ++ rest at hbs
        rw [hs, Out.good_bytes, List.length_append, length_be] at hlt
        rw [hs, Out.good_bytes, List.append_assoc] at hbs
        show n = v.out.bytes.length
        rw [hs, Out.good_bytes, List.length_append, length_be]
        cases h with
        | fixed h | struct h | list h | default h => cases h.symm.trans hshape
        | empty h hle hsize =>
            rw [lengthAt_of_front (by omega) hbs hle] at hsize
            omega
        | string h hpos hsize hle =>
            rw [lengthAt_of_front (by omega) hbs (by omega)] at hsize
            omega
  | struct fs ih =>
      cases h with
      | fixed h | empty h | string h | list h | default h => cases h
      | struct h fs' => exact ih hok hlt hbs fs'
  | @list t cnt es ih =>
      obtain ⟨hes, hbytes⟩ := Tree.list_out hok
      rw [hbytes] at hlt hbs ⊢
      simp only [List.length_append, length_be] at hlt ⊢
      cases h with
      | fixed h | empty h | string h | struct h | default h => cases h
      | @list _ size m e bs' _ _ h hle hsize hzero es' =>
          have hcnt := es.least_le hes
          change cnt ≤ _ at hcnt
          rw [be_one, toNat_ofNat_of_lt (by omega), List.cons_append,
            List.nil_append, List.append_assoc, List.cons_append,
            List.cons_prefix_cons] at hbs
          obtain ⟨rfl, hbs⟩ := hbs
          have hsize' := lengthAt_of_front (by omega) hbs hle
          obtain rfl : size = cnt := by omega
          rw [toNat_code] at es'
          have hdrop : bs'.drop 4 <+: es.out.bytes ++ rest := by
            obtain ⟨more, heq⟩ := hbs
            refine ⟨more, ?_⟩
            rw [← List.drop_append_of_le_length hle, heq]
            exact List.drop_left' (length_be _ _)
          have hm := ih hes (by omega) hdrop es'
          omega
  | stop =>
      cases h with
      | stop => rfl
      | field ht =>
          change _ <+: 0 :: rest at hbs
          rw [List.cons_prefix_cons] at hbs
          exact absurd hbs.1 ht
  | field t id hne v fs ihv ihfs =>
      obtain ⟨hv, hfs, hbytes⟩ := Tree.field_out hok
      rw [hbytes] at hlt hbs ⊢
      simp only [List.length_append, length_be] at hlt ⊢
      rw [be_one] at hbs
      change bs <+: UInt8.ofNat t.code :: _ :: _ ::
        (v.out.bytes ++ fs.out.bytes ++ rest) at hbs
      cases h with
      | stop =>
          rw [List.cons_prefix_cons] at hbs
          exact absurd hbs.1.symm (ofNat_code_ne hne)
      | @field t' i j m m' bs' _ _ _ ht v' fs' =>
          rw [List.cons_prefix_cons, List.cons_prefix_cons,
            List.cons_prefix_cons, List.append_assoc] at hbs
          obtain ⟨rfl, -, -, hbs⟩ := hbs
          rw [thriftType_toNat_code] at v'
          have hm := ihv hv (by omega) hbs v'
          subst hm
          have hle := v'.le_length
          have hdrop : bs'.drop v.out.bytes.length <+: fs.out.bytes ++ rest := by
            obtain ⟨more, heq⟩ := hbs
            refine ⟨more, ?_⟩
            rw [← List.drop_append_of_le_length hle, heq, List.drop_left]
          have hm' := ihfs hfs (by omega) hdrop fs'
          omega
  | nil =>
      cases h
      rfl
  | cons v es ihv ihes =>
      obtain ⟨hv, hes, hbytes⟩ := Tree.cons_out hok
      rw [hbytes] at hlt hbs ⊢
      rw [List.length_append] at hlt ⊢
      rw [List.append_assoc] at hbs
      cases h with
      | cons v' es' =>
          have hm := ihv hv (by omega) hbs v'
          subst hm
          have hle := v'.le_length
          have hdrop : bs.drop v.out.bytes.length <+: es.out.bytes ++ rest := by
            obtain ⟨more, heq⟩ := hbs
            refine ⟨more, ?_⟩
            rw [← List.drop_append_of_le_length hle, heq, List.drop_left]
          rw [ihes hes (by omega) hdrop es']

-- ========================================================== whole trees

/-- No address in the tree. -/
def Tree.NoAddress {k : Kind} : Tree k → Prop
  | .leaf v => ∀ a, v ≠ .ipaddr a
  | .struct fs => fs.NoAddress
  | .list _ es => es.NoAddress
  | .stop => True
  | .field _ _ _ v fs => v.NoAddress ∧ fs.NoAddress
  | .nil => True
  | .cons v es => v.NoAddress ∧ es.NoAddress

/-- The lists in the tree, in the order they are skipped in, and whether
they have elements. -/
def Tree.lists {k : Kind} : Tree k → List Bool
  | .leaf _ => []
  | .struct fs => fs.lists
  | .list (n := n) _ es => decide (n ≠ 0) :: es.lists
  | .stop => []
  | .field _ _ _ v fs => v.lists ++ fs.lists
  | .nil => []
  | .cons v es => v.lists ++ es.lists

/-- The stale bytes are zero where a list has elements. -/
def Zeroed : List Bool → Bytes → Prop
  | [], _ => True
  | b :: ls, st => (b = true → (draw 3 st).1 = [0, 0, 0]) ∧ Zeroed ls (draw 3 st).2

/-- A value behind the header of its field. -/
theorem Whole.header {t : TType} {bs st st₁ st' : Bytes} {n m : Nat}
    (v : Whole (.value t.code) bs st n st₁) (id : BitVec 16) (hne : t ≠ .T_STOP)
    (fs : Whole .fields (bs.drop n) st₁ m st') :
    Whole .fields (be 1 t.code ++ be 2 id.toNat ++ bs) st (3 + n + m) st' := by
  rw [← thriftType_toNat_code t] at v
  rw [be_one]
  exact .field (ofNat_code_ne hne) v fs

/-- The bytes of a tree are skipped whole. -/
theorem Tree.whole {k : Kind} (v : Tree k) (hok : v.out.ok = true)
    (hlt : v.out.bytes.length < 2 ^ 31) (hknown : v.NoAddress) (rest : Bytes)
    {st : Bytes} {more : List Bool} (hzero : Zeroed (v.lists ++ more) st) :
    ∃ st', Whole k (v.out.bytes ++ rest) st v.out.bytes.length st' ∧
      Zeroed more st' := by
  induction v generalizing rest st more with
  | leaf v =>
      refine ⟨st, ?_, hzero⟩
      show Whole _ (v.out.bytes ++ rest) st v.out.bytes.length st
      rcases v.shape_out with ⟨a, rfl⟩ | hshape | ⟨hshape, s, hs⟩
      · exact absurd rfl (hknown a)
      · refine .fixed hshape ?_
        rw [List.length_append]
        exact Nat.le_add_right _ _
      · change v.out.bytes.length < 2 ^ 31 at hlt
        rw [hs, Out.good_bytes, List.length_append, length_be] at hlt ⊢
        have hpre : be 4 s.length ++ s ++ rest <+: be 4 s.length ++ (s ++ rest) := by
          rw [List.append_assoc]
        have hsize := lengthAt_of_front (by omega) hpre (by
          simp only [List.length_append, length_be]
          omega)
        by_cases hempty : s.length = 0
        · rw [hempty] at hsize ⊢
          refine .empty hshape ?_ (by omega)
          simp only [List.length_append, length_be]
          omega
        · refine .string hshape (Nat.pos_of_ne_zero hempty) hsize ?_
          simp only [List.length_append, length_be]
          omega
  | struct fs ih =>
      obtain ⟨st', hfs, hmore⟩ := ih hok hlt hknown rest hzero
      exact ⟨st', .struct rfl hfs, hmore⟩
  | @list t cnt es ih =>
      obtain ⟨hes, hbytes⟩ := Tree.list_out hok
      obtain ⟨hzero, hmore⟩ := hzero
      rw [hbytes] at hlt ⊢
      simp only [List.length_append, length_be] at hlt ⊢
      have hcnt := es.least_le hes
      change cnt ≤ _ at hcnt
      obtain ⟨st', hwhole, hmore⟩ := ih hes (by omega) hknown rest hmore
      refine ⟨st', ?_, hmore⟩
      rw [be_one, toNat_ofNat_of_lt (by omega), List.append_assoc,
        List.append_assoc, List.cons_append, List.nil_append]
      refine .list (k := cnt) rfl ?_ (lengthAt_of_front (by omega) (List.prefix_refl _) ?_)
        (fun hne => hzero (decide_eq_true hne)) ?_
      · simp only [List.length_append, length_be]
        omega
      · simp only [List.length_append, length_be]
        omega
      · rw [toNat_code, List.drop_left' (length_be _ _)]
        exact hwhole
  | stop => exact ⟨st, .stop, hzero⟩
  | field t id hne v fs ihv ihfs =>
      obtain ⟨hv, hfs, hbytes⟩ := Tree.field_out hok
      obtain ⟨hkv, hkfs⟩ := hknown
      rw [hbytes] at hlt ⊢
      simp only [List.length_append, length_be] at hlt ⊢
      change Zeroed (v.lists ++ fs.lists ++ more) st at hzero
      rw [List.append_assoc] at hzero
      obtain ⟨st₁, hv', hzero⟩ := ihv hv (by omega) hkv (fs.out.bytes ++ rest) hzero
      obtain ⟨st', hfs', hmore⟩ := ihfs hfs (by omega) hkfs rest hzero
      refine ⟨st', ?_, hmore⟩
      have hdrop : (v.out.bytes ++ (fs.out.bytes ++ rest)).drop v.out.bytes.length
          = fs.out.bytes ++ rest := List.drop_left
      rw [← hdrop] at hfs'
      have hfield := hv'.header id hne hfs'
      rw [List.append_assoc, List.append_assoc (v.out.bytes), ← Nat.add_assoc]
      exact hfield
  | nil => exact ⟨st, .nil, hzero⟩
  | cons v es ihv ihes =>
      obtain ⟨hv, hes, hbytes⟩ := Tree.cons_out hok
      obtain ⟨hkv, hkes⟩ := hknown
      rw [hbytes] at hlt ⊢
      rw [List.length_append] at hlt ⊢
      change Zeroed (v.lists ++ es.lists ++ more) st at hzero
      rw [List.append_assoc] at hzero
      obtain ⟨st₁, hv', hzero⟩ := ihv hv (by omega) hkv (es.out.bytes ++ rest) hzero
      obtain ⟨st', hes', hmore⟩ := ihes hes (by omega) hkes rest hzero
      refine ⟨st', ?_, hmore⟩
      have hdrop : (v.out.bytes ++ (es.out.bytes ++ rest)).drop v.out.bytes.length
          = es.out.bytes ++ rest := List.drop_left
      rw [← hdrop] at hes'
      rw [List.append_assoc]
      exact .cons hv' hes'

end Sandesh.Binary
