/-
Both skip functions on a value that is all there, with any bytes behind it.

They return its length if it has no addresses and no stale bytes get into
the element type of a list with elements. A structure can come out right by
chance; an address, or a list with elements, does not.
-/
import Sandesh.Binary.Proofs.SkipProtocol
import Sandesh.Binary.Proofs.SkipTree

namespace Sandesh.Binary

open Lib C
open Lib.Prog (Runs runs_pure)

/-- The functions return the length of the value, and the one that reads
from a transport leaves what is behind it. `st` are the bytes of variables
that are not set. -/
def SkipsExactly {type : Nat} (v : Tree (.value type)) (st : Bytes) : Prop :=
  ∀ rest : Bytes, (v.out.bytes ++ rest).length < 2 ^ 32 →
    (∃ st', (thrift_binary_protocol_skip_from_buffer (v.out.bytes ++ rest)
        ⟨0, (v.out.bytes ++ rest).length, type⟩).Runs st
        (.ok v.out.bytes.length) st') ∧
      ∀ b : Buffer, b.unread = v.out.bytes ++ rest →
        ∃ s', (thrift_protocol_skip type).Runs ⟨b, st⟩ (.ok v.out.bytes.length) s' ∧
          s'.buffer.unread = rest

variable {type : Nat} {v : Tree (.value type)} {st : Bytes}

theorem skipsExactly_of_zeroed (hok : v.out.ok = true)
    (hlt : v.out.bytes.length < 2 ^ 31) (hknown : v.NoAddress)
    (hzero : Zeroed v.lists st) : SkipsExactly v st := by
  intro rest hlen
  rw [← List.append_nil v.lists] at hzero
  obtain ⟨st', hwhole, -⟩ := v.whole hok hlt hknown rest hzero
  have hrun := hwhole.skipped hlen 0 (Nat.zero_le _) List.drop_zero
  rw [i32_nat hlt] at hrun
  exact ⟨⟨st', hrun⟩, fun b hb => v.skips hok hlt hknown (s := ⟨b, st⟩) hb⟩

-- ============================================================ the slips

theorem shape_large {type : Nat} (h : 128 ≤ type) : shape type = .default := by
  unfold shape
  cases hcode : TType.ofCode type with
  | none => rfl
  | some t =>
      have heq := TType.code_of_ofCode hcode
      have hlt := t.code_lt
      omega

/-- Elements of a type that is not known add nothing. -/
theorem unknown_elements {mem : Bytes} (hmem : mem.length < 2 ^ 32) {type : Nat}
    (hshape : shape type = .default) {buf result : Nat} (hle : buf + result ≤ mem.length)
    (k i : Nat) (st : Bytes) :
    (Prog.loop (skipElement (thrift_binary_protocol_skip_from_buffer mem) buf
      (mem.length - buf) type (i + k : Nat)) (i, result)).Runs st (.ok (i32 result)) st := by
  induction k generalizing i with
  | zero => exact Runs.leave skipElement_leaves
  | succ k ih =>
      have hcall : (thrift_binary_protocol_skip_from_buffer mem
          ⟨buf + result, mem.length - (buf + result), type⟩).Runs st (.ok (i32 0)) st := by
        refine skip_runs ?_
        unfold skipFromBufferBody
        rw [hshape]
        exact runs_pure.mpr ⟨rfl, rfl⟩
      have hgoes := skipElement_goes hmem (i := i) (k := k) (n := 0) (by omega) hcall
      have hrest := ih (i + 1)
      rw [show i + 1 + k = i + (k + 1) by omega] at hrest
      exact hgoes.again hrest

/-- The list is skipped as if it ended with its header. -/
theorem list_not_exact {t : TType} {n : Nat} {es : Tree (.elems t.code n)}
    (hok : (Tree.list t es).out.ok = true)
    (hlt : (Tree.list t es).out.bytes.length < 2 ^ 31) (hn : n ≠ 0) :
    ¬ SkipsExactly (.list t es) [1] := by
  intro h
  obtain ⟨⟨st', hrun⟩, -⟩ := h [] (by rw [List.append_nil]; omega)
  rw [List.append_nil] at hrun
  obtain ⟨hes, hbytes⟩ := Tree.list_out hok
  have hle : n ≤ es.out.bytes.length := es.least_le hes
  generalize hmem : (Tree.list t es).out.bytes = mem at hrun hlt hbytes
  have hlen : mem.length = 5 + es.out.bytes.length := by
    rw [hbytes]
    simp only [List.length_append, length_be]
  rw [be_one, toNat_ofNat_of_lt (by omega), List.append_assoc, List.cons_append,
    List.nil_append] at hbytes
  have hfour : 4 ≤ (be 4 n ++ es.out.bytes).length := by
    rw [List.length_append, length_be]
    omega
  have hsize : lengthAt (be 4 n ++ es.out.bytes) = n :=
    lengthAt_of_front (by omega) (List.prefix_refl _) hfour
  have hstale : 128 ≤ ofImage (UInt8.ofNat t.code :: [1, 0, 0]) := by
    show 128 ≤ 0 * 256 ^ 3 + (0 * 256 ^ 2 + (1 * 256 ^ 1 + (_ * 256 ^ 0 + 0)))
    omega
  have hloop := unknown_elements (by omega) (shape_large hstale)
    (show 0 + 5 ≤ mem.length by omega) n 0 []
  rw [Nat.zero_add] at hloop
  have hlist : (thrift_binary_protocol_skip_from_buffer mem
      ⟨0, mem.length, TType.T_LIST.code⟩).Runs [1] (.ok (i32 (5 : Nat))) [] :=
    skip_runs (skipList_goes (Nat.zero_le _) (List.drop_zero.trans hbytes) hfour hsize
      hloop)
  have heq := (hrun.unique hlist).1
  injection heq with heq
  rw [i32_nat (n := 5) (by decide)] at heq
  omega

theorem address_not_exact (a : IpAddr) (hok : (Scalar.ipaddr a).out.ok = true)
    (st : Bytes) : ¬ SkipsExactly (.leaf (.ipaddr a)) st := by
  intro h
  have hle : 1 ≤ (Tree.leaf (.ipaddr a)).out.bytes.length :=
    (Tree.leaf (.ipaddr a)).least_le hok
  have hlt : (Scalar.ipaddr a).out.bytes.length < 2 ^ 32 := by
    cases a with
    | ipv4 bytes hlen | ipv6 bytes hlen =>
        simp only [Scalar.out, Out.good_bytes, List.length_append, length_be, hlen]
        decide
    | other iptype => cases hok
  obtain ⟨⟨st', hrun⟩, -⟩ := h [] (by rw [List.append_nil]; exact hlt)
  have hzero : ∀ buflen, (thrift_binary_protocol_skip_from_buffer
      ((Tree.leaf (.ipaddr a)).out.bytes ++ []) ⟨0, buflen, TType.T_IPADDR.code⟩).Runs st
      (.ok 0) st := fun buflen => skip_runs (runs_pure.mpr ⟨rfl, rfl⟩)
  have heq := (hrun.unique (hzero _)).1
  injection heq with heq
  omega

/-- Not a structure. -/
def Tree.NotStruct : {k : Kind} → Tree k → Prop
  | _, .struct _ => False
  | _, _ => True

/-- No list with elements anywhere. -/
def Tree.NoElements {k : Kind} (v : Tree k) : Prop := ∀ b ∈ v.lists, b = false

theorem zeroed_of_all_empty {ls : List Bool} (h : ∀ b ∈ ls, b = false) (st : Bytes) :
    Zeroed ls st := by
  induction ls generalizing st with
  | nil => trivial
  | cons b ls ih =>
      have hb := h b List.mem_cons_self
      refine ⟨fun htrue => ?_, ih (fun b hb => h b (List.mem_cons_of_mem _ hb)) _⟩
      rw [hb] at htrue
      cases htrue

/-- Whatever the variables hold: exact where there is no address and no
list with elements, and nowhere else if the value is not a structure. -/
theorem skipsExactly_iff (hok : v.out.ok = true) (hlt : v.out.bytes.length < 2 ^ 31)
    (hstruct : v.NotStruct) :
    (∀ st, SkipsExactly v st) ↔ v.NoAddress ∧ v.NoElements := by
  constructor
  · intro h
    cases v with
    | leaf v =>
        refine ⟨fun a ha => ?_, fun b hb => nomatch hb⟩
        subst ha
        exact address_not_exact a hok [] (h [])
    | struct fs => exact absurd hstruct id
    | @list t n es =>
        cases es with
        | nil => exact ⟨trivial, fun b hb => List.mem_singleton.mp hb⟩
        | cons v es => exact absurd (h [1]) (list_not_exact hok hlt (Nat.succ_ne_zero _))
  · rintro ⟨hknown, hempty⟩ st
    exact skipsExactly_of_zeroed hok hlt hknown (zeroed_of_all_empty hempty st)

end Sandesh.Binary

/-
`thrift_binary_protocol_skip_from_buffer` on any bytes.

The function is safe where none of its slips is reached (`Clean`): a nested
call that fails, whose -1 is added to the position; an address; and a list
with elements whose type has stale bytes in it. Where there is nothing
nested the condition is exact.
-/

namespace Sandesh.Binary

open Lib C
open Lib.Prog (Runs runs_act runs_pure)

/-- The buffer ends before a value of this type does. -/
def EndsEarly (type : Nat) (bs : Bytes) : Prop :=
  ∃ v : Tree (.value type), v.out.ok = true ∧ v.out.bytes.length < 2 ^ 31 ∧
    bs <+: v.out.bytes ∧ bs.length < v.out.bytes.length

/-- The call returns -1, or a position in the buffer if that does not end
too early, and reads inside the buffer only. -/
def Safe (type : Nat) (bs st : Bytes) : Prop :=
  ∃ ret st', (thrift_binary_protocol_skip_from_buffer bs
      ⟨0, bs.length, type⟩).Runs st (.ok ret) st' ∧
    (ret = -1 ∨ (0 ≤ ret ∧ ret ≤ bs.length)) ∧ (EndsEarly type bs → ret = -1)

/-- No slip is reached. -/
def Clean (type : Nat) (bs st : Bytes) : Prop :=
  (∃ n st', Whole (.value type) bs st n st' ∧ n < 2 ^ 31) ∨
    Cut (.value type) bs st ∨
    (type = TType.T_IPADDR.code ∧ ¬ EndsEarly type bs)

variable {type : Nat} {bs st : Bytes}

theorem whole_runs (hlen : bs.length < 2 ^ 32) {n : Nat} {st' : Bytes}
    (h : Whole (.value type) bs st n st') :
    (thrift_binary_protocol_skip_from_buffer bs ⟨0, bs.length, type⟩).Runs st
      (.ok (i32 n)) st' :=
  h.skipped hlen 0 (Nat.zero_le _) List.drop_zero

/-- A whole value does not end early. -/
theorem not_endsEarly {n : Nat} {st' : Bytes} (h : Whole (.value type) bs st n st') :
    ¬ EndsEarly type bs := by
  rintro ⟨v, hok, hlt, hpre, hshort⟩
  have hn := v.whole_length hok hlt (hpre.trans (List.prefix_append _ [])) h
  have hle := h.le_length
  omega

theorem address_runs : (thrift_binary_protocol_skip_from_buffer bs
    ⟨0, bs.length, TType.T_IPADDR.code⟩).Runs st (.ok 0) st :=
  skip_runs (runs_pure.mpr ⟨rfl, rfl⟩)

theorem safe_of_clean (hlen : bs.length < 2 ^ 32) (h : Clean type bs st) :
    Safe type bs st := by
  rcases h with ⟨n, st', hwhole, hn⟩ | hcut | ⟨rfl, hends⟩
  · have hle := hwhole.le_length
    have hrun := whole_runs hlen hwhole
    rw [i32_eq (by omega) (by omega)] at hrun
    exact ⟨n, st', hrun, .inr ⟨by omega, by omega⟩,
      fun hends => absurd hends (not_endsEarly hwhole)⟩
  · obtain ⟨st', hrun⟩ := hcut.fails hlen 0 (Nat.zero_le _) List.drop_zero
    exact ⟨-1, st', hrun, .inl rfl, fun _ => rfl⟩
  · exact ⟨0, st, address_runs, .inr ⟨Int.le_refl 0, Int.natCast_nonneg _⟩,
      fun h => absurd h hends⟩

/-- A type whose values have no values inside. -/
def Flat (type : Nat) : Prop := shape type ≠ .struct ∧ shape type ≠ .list

/-- Bytes of a flat type are whole or cut, addresses apart. -/
theorem whole_or_cut (bs st : Bytes) (hflat : Flat type) (hne : type ≠ TType.T_IPADDR.code) :
    (∃ n, Whole (.value type) bs st n st ∧ n < 2 ^ 31 + 4) ∨
      Cut (.value type) bs st := by
  cases hshape : shape type with
  | fixed n =>
      have h16 := shape_fixed_le hshape
      by_cases hle : n ≤ bs.length
      · exact .inl ⟨n, .fixed hshape hle, by omega⟩
      · exact .inr (.fixed hshape (by omega))
  | string =>
      by_cases hle : 4 ≤ bs.length
      · by_cases hsize : lengthAt bs ≤ 0
        · exact .inl ⟨4, .empty hshape hle hsize, by omega⟩
        · obtain ⟨n, hn⟩ := Int.eq_ofNat_of_zero_le (Int.le_of_lt (Int.not_le.mp hsize))
          have hbound : (n : Int) < 2 ^ 31 := by
            rw [← hn]
            exact BitVec.toInt_lt
          by_cases hfits : 4 + n ≤ bs.length
          · exact .inl ⟨4 + n, .string hshape (by omega) hn hfits, by omega⟩
          · exact .inr (.string hshape hle (by omega) hn (by omega))
      · exact .inr (.length hshape (by omega))
  | struct => exact absurd hshape hflat.1
  | list => exact absurd hshape hflat.2
  | default => exact .inl ⟨0, .default hshape hne, by omega⟩

theorem clean_of_safe (hlen : bs.length < 2 ^ 32) (hflat : Flat type)
    (h : Safe type bs st) : Clean type bs st := by
  obtain ⟨ret, st', hrun, hret, hends⟩ := h
  by_cases hne : type = TType.T_IPADDR.code
  · subst hne
    refine .inr (.inr ⟨rfl, fun hearly => ?_⟩)
    have heq := (hrun.unique address_runs).1
    injection heq with heq
    have hminus := hends hearly
    omega
  · rcases whole_or_cut bs st hflat hne with ⟨n, hwhole, hn⟩ | hcut
    · refine .inl ⟨n, st, hwhole, ?_⟩
      by_contra hbig
      have heq := (hrun.unique (whole_runs hlen hwhole)).1
      injection heq with heq
      rw [i32_high (by omega) (by omega)] at heq
      omega
    · exact .inr (.inl hcut)

/-- The function is safe where no slip is reached, and for flat types
nowhere else. -/
theorem skip_safe_iff (type : Nat) (bs st : Bytes) (hlen : bs.length < 2 ^ 32) :
    (Clean type bs st → Safe type bs st) ∧
      (Flat type → (Safe type bs st ↔ Clean type bs st)) :=
  ⟨fun h => safe_of_clean hlen h,
    fun hflat => ⟨clean_of_safe hlen hflat, safe_of_clean hlen⟩⟩

/-- A structure with the number 7 in its first field. -/
theorem skip_safe_struct :
    Safe TType.T_STRUCT.code [8, 0, 1, 0, 0, 0, 7, 0] [] := by
  have hvalue : Whole (.value TType.T_I32.code) [0, 0, 0, 7, 0] [] 4 [] :=
    .fixed rfl (by decide)
  have hfields : Whole .fields [8, 0, 1, 0, 0, 0, 7, 0] [] (3 + 4 + 1) [] :=
    .field (by decide) hvalue .stop
  exact (skip_safe_iff _ _ _ (by decide)).1
    (.inl ⟨8, [], .struct rfl hfields, by decide⟩)

/-- A structure with a number in field 256, cut after two of its bytes, is
skipped as if it ended in the field's id; and a list of strings that are
too long makes it read outside the buffer. -/
theorem skip_hostile :
    ¬ Safe TType.T_STRUCT.code [8, 1, 0, 0, 0] [] ∧
      ¬ Safe TType.T_LIST.code [11, 0, 0, 0, 9, 11] [] := by
  have hstruct : (thrift_binary_protocol_skip_from_buffer [8, 1, 0, 0, 0]
      ⟨0, 5, TType.T_STRUCT.code⟩).Runs [] (.ok 3) [] := ⟨5, rfl⟩
  have hlist : (thrift_binary_protocol_skip_from_buffer [11, 0, 0, 0, 9, 11]
      ⟨0, 6, TType.T_LIST.code⟩).Runs [] (.error .access) [] := ⟨12, rfl⟩
  constructor
  · rintro ⟨ret, st', hrun, -, hends⟩
    have hret : ret = -1 := hends
      ⟨.struct (.field .T_I32 256 (by decide) (.leaf (.i32 0)) .stop), rfl, by decide,
        ⟨[0, 0, 0], rfl⟩, by decide⟩
    have heq := (hrun.unique hstruct).1
    injection heq with heq
    omega
  · rintro ⟨ret, st', hrun, -, -⟩
    have heq := (hrun.unique hlist).1
    cases heq

end Sandesh.Binary
