/-
The connection indices are handed out smallest first.

`Agrees` ties the bitmap to the indices that are live: a bit is reset
exactly for a live index, no index is live twice, and the last bit of the
bitmap belongs to a live one. The first bit that is set is then the
smallest index that is not live, an index that is given back has its bit,
and the size is one more than the largest live index.

# Indices are ints

A bit has a position of type `size_t`, but an index is returned as an
`int`. The smallest index that is not live is at most the number of live
ones, so as long as at most 2^31 are live at any time each of them fits.
The index handed out beyond that is -2^31 (`alloc_index_wraps`).
-/
import Mathlib.Data.List.Nodup
import Mathlib.Data.List.Perm.Subperm
import Mathlib.Order.Bounds.Basic
import Sandesh.Server.Basic
import Sandesh.Server.Proofs.Index

namespace Sandesh.Server.Bitmap

open Lib

variable {bmap : List Bool} {live : List Int} {n i : Nat}

-- ============================================== the functions of `Basic`

/-- `AllocConnectionIndex` stays within the bitmap. -/
theorem alloc_eq (bmap : List Bool) :
    AllocConnectionIndex bmap
      = some (i32 (Server.AllocConnectionIndex bmap).1,
          (Server.AllocConnectionIndex bmap).2) := by
  unfold AllocConnectionIndex Server.AllocConnectionIndex find_first
  cases hfind : bmap.findIdx? id with
  | some bit =>
      obtain ⟨hlt, -, -⟩ := List.findIdx?_eq_some_iff_getElem.mp hfind
      simp only [reset, if_pos hlt, Option.map_some]
  | none =>
      have hresize : resize bmap (bmap.length + 1) true = bmap ++ [true] := by
        unfold resize
        rw [List.take_of_length_le (by omega), Nat.add_sub_cancel_left,
          List.replicate_one]
      have hlt : bmap.length < (bmap ++ [true]).length := by
        rw [List.length_append, List.length_singleton]
        omega
      simp only [hresize, reset, if_pos hlt, Option.map_some]

/-- The loop stays within the bitmap. -/
theorem trim_eq : ∀ {n : Nat}, n ≤ bmap.length → trim bmap n = some (shrink bmap n)
  | 0, _ => rfl
  | n + 1, hn => by
      rw [trim, shrink, List.getElem?_eq_getElem (by omega), Option.bind_some]
      cases hbit : bmap[n] with
      | true =>
          rw [if_neg (not_not.mpr rfl), if_pos rfl]
          exact trim_eq (by omega)
      | false =>
          rw [if_pos Bool.false_ne_true,
            if_neg fun h => Bool.false_ne_true (Option.some.inj h)]
          unfold resize
          rw [Nat.sub_eq_zero_of_le hn, List.replicate_zero, List.append_nil]
          split
          · rfl
          · rfl

/-- `FreeConnectionIndex` of an index in use. -/
theorem free_eq (hi : InUse bmap i) (hlt : i < 2 ^ 31) :
    FreeConnectionIndex bmap i = some (Server.FreeConnectionIndex bmap i) := by
  have hbit : i < bmap.length := (List.getElem?_eq_some_iff.mp hi).1
  unfold FreeConnectionIndex Server.FreeConnectionIndex set
  rw [u64_nat (by omega), if_pos hbit, Option.bind_some]
  exact trim_eq (Nat.le_refl _)

-- ============================================================ the bitmap

/-- Every index below the one that is handed out is in use. -/
theorem inUse_below (bmap : List Bool) :
    ∀ j < (Server.AllocConnectionIndex bmap).1, InUse bmap j := by
  unfold Server.AllocConnectionIndex InUse
  cases hfind : bmap.findIdx? id with
  | some bit =>
      intro j hj
      obtain ⟨hlt, -, hbelow⟩ := List.findIdx?_eq_some_iff_getElem.mp hfind
      have hjlt : j < bit := hj
      rw [List.getElem?_eq_getElem (by omega)]
      have hfalse := hbelow j hjlt
      simp only [id_eq, Bool.not_eq_true] at hfalse
      rw [hfalse]
  | none =>
      intro j hj
      have hjlt : j < bmap.length := hj
      rw [List.getElem?_eq_getElem hjlt]
      have hall := List.findIdx?_eq_none_iff.mp hfind bmap[j] (List.getElem_mem _)
      rw [show bmap[j] = false from hall]

/-- The last bit, if there is one, belongs to an index in use. -/
def Ends (bmap : List Bool) : Prop :=
  ∀ n, bmap.length = n + 1 → InUse bmap n

theorem ends_alloc (h : Ends bmap) : Ends (Server.AllocConnectionIndex bmap).2 := by
  intro n hn
  rw [(inUse_alloc bmap).2]
  unfold Server.AllocConnectionIndex at hn ⊢
  cases hfind : bmap.findIdx? id with
  | some bit =>
      rw [hfind] at hn
      simp only [List.length_set] at hn
      exact .inr (h n hn)
  | none =>
      rw [hfind] at hn
      simp only [List.length_set, List.length_append, List.length_singleton] at hn
      refine .inl ?_
      show n = bmap.length
      omega

theorem ends_shrink : ∀ {n : Nat}, n ≤ bmap.length → Ends (shrink bmap n)
  | 0, _ => fun m hm => absurd hm (by simp [shrink])
  | n + 1, hn => by
      rw [shrink]
      split
      case isTrue => exact ends_shrink (by omega)
      case isFalse hbit =>
        have huse : InUse bmap n := by
          unfold InUse
          rw [List.getElem?_eq_getElem (by omega)] at hbit ⊢
          cases hval : bmap[n] with
          | true => exact absurd (congrArg some hval) hbit
          | false => rfl
        split
        case isTrue =>
          intro m hm
          rw [List.length_take, Nat.min_eq_left hn] at hm
          obtain rfl : n = m := by omega
          unfold InUse
          rw [List.getElem?_take, if_pos (Nat.lt_succ_self _)]
          exact huse
        case isFalse hlen =>
          intro m hm
          obtain rfl : n = m := by omega
          exact huse

-- ======================================================= the live indices

/-- The bitmap and the live indices. -/
structure Agrees (s : Indices) : Prop where
  live : ∀ i : Nat, InUse s.conn_bmap_ i ↔ (i : Int) ∈ s.live
  ints : ∀ x ∈ s.live, ∃ i : Nat, x = i ∧ i < 2 ^ 31
  nodup : s.live.Nodup
  ends : Ends s.conn_bmap_

theorem agrees_new : Agrees .new :=
  ⟨fun _ => ⟨nofun, nofun⟩, nofun, .nil, nofun⟩

/-- If all indices below `n` are live, at least `n` are. -/
theorem le_length_of_below (h : ∀ j < n, (j : Int) ∈ live) : n ≤ live.length := by
  have hsub : (List.range n).map Int.ofNat ⊆ live := by
    intro x hx
    obtain ⟨j, hj, rfl⟩ := List.mem_map.mp hx
    exact h j (List.mem_range.mp hj)
  have hnodup : ((List.range n).map Int.ofNat).Nodup :=
    List.nodup_range.map fun _ _ => Int.ofNat.inj
  have hle := (hnodup.subperm hsub).length_le
  rwa [List.length_map, List.length_range] at hle

/-- The size is one more than the largest live index, 0 when none is
live. -/
def SizeLaw (s : Indices) : Prop :=
  (s.live = [] ∧ s.conn_bmap_.length = 0)
  ∨ ∃ m, IsGreatest {i | i ∈ s.live} m ∧ (s.conn_bmap_.length : Int) = m + 1

theorem Agrees.lt_length {s : Indices} (h : Agrees s) {x : Int} (hx : x ∈ s.live) :
    x < s.conn_bmap_.length := by
  obtain ⟨i, rfl, -⟩ := h.ints x hx
  have hlt := (List.getElem?_eq_some_iff.mp ((h.live i).mpr hx)).1
  omega

theorem Agrees.size {s : Indices} (h : Agrees s) : SizeLaw s := by
  cases hlen : s.conn_bmap_.length with
  | zero =>
      refine .inl ⟨?_, hlen⟩
      apply List.eq_nil_iff_forall_not_mem.mpr
      intro x hx
      have hlt := h.lt_length hx
      obtain ⟨i, rfl, -⟩ := h.ints x hx
      omega
  | succ n =>
      refine .inr ⟨n, ⟨(h.live n).mp (h.ends n hlen), ?_⟩, by omega⟩
      intro x hx
      have hlt := h.lt_length hx
      omega

/-- The index that is handed out is the smallest that is not live. -/
theorem Agrees.alloc {s : Indices} (h : Agrees s) (hfew : s.live.length < 2 ^ 31) :
    let bit := (Server.AllocConnectionIndex s.conn_bmap_).1
    i32 bit = bit
    ∧ IsLeast {i : Int | 0 ≤ i ∧ i ∉ s.live} bit
    ∧ Agrees ⟨(Server.AllocConnectionIndex s.conn_bmap_).2, bit :: s.live⟩ := by
  intro bit
  have hbelow : ∀ j < bit, (j : Int) ∈ s.live :=
    fun j hj => (h.live j).mp (inUse_below _ j hj)
  have hlt : bit < 2 ^ 31 := Nat.lt_of_le_of_lt (le_length_of_below hbelow) hfew
  obtain ⟨hfree, huse⟩ := inUse_alloc s.conn_bmap_
  have hnot : (bit : Int) ∉ s.live := fun hmem => hfree ((h.live bit).mpr hmem)
  refine ⟨i32_eq (by omega) (by omega), ⟨⟨by omega, hnot⟩, ?_⟩, ?_⟩
  · intro x hx
    obtain ⟨hpos, hx⟩ := hx
    apply Int.not_lt.mp
    intro hxlt
    apply hx
    have hmem := hbelow x.toNat (by omega)
    rwa [Int.toNat_of_nonneg hpos] at hmem
  · refine ⟨?_, ?_, List.nodup_cons.mpr ⟨hnot, h.nodup⟩, ends_alloc h.ends⟩
    · intro i
      rw [huse i, h.live i, List.mem_cons, Int.ofNat_inj]
    · intro x hx
      rcases List.mem_cons.mp hx with rfl | hx
      · exact ⟨bit, rfl, hlt⟩
      · exact h.ints x hx

/-- An index that is given back. -/
theorem Agrees.free {s : Indices} (h : Agrees s) {i : Nat}
    (hi : (i : Int) ∈ s.live) :
    Agrees ⟨Server.FreeConnectionIndex s.conn_bmap_ i, s.live.erase i⟩ := by
  have huse : InUse s.conn_bmap_ i := (h.live i).mpr hi
  refine ⟨?_, ?_, h.nodup.erase _, ?_⟩
  · intro j
    rw [inUse_free huse, h.live j, h.nodup.mem_erase_iff, ne_eq, ne_eq, Int.ofNat_inj]
  · intro x hx
    exact h.ints x (List.mem_of_mem_erase hx)
  · unfold Server.FreeConnectionIndex
    exact ends_shrink (Nat.le_refl _)

-- ============================================================== the runs

/-- Only live indices are freed. -/
def OnlyLive (s : Indices) : Call → Prop
  | .alloc => True
  | .free id => id ∈ s.live

/-- Not more than 2^31 indices become live. -/
def Fits (s : Indices) : Call → Prop
  | .alloc => s.live.length < 2 ^ 31
  | .free _ => True

/-- What a call returns, and what it leaves behind. -/
def Lawful (s : Indices) (c : Call) (s' : Indices) : Prop :=
  (c = .alloc → ∃ id, IsLeast {i : Int | 0 ≤ i ∧ i ∉ s.live} id
    ∧ AllocConnectionIndex s.conn_bmap_ = some (id, s'.conn_bmap_)
    ∧ s'.live = id :: s.live)
  ∧ s'.live.Nodup ∧ SizeLaw s'

/-- One call. -/
theorem call_lawful {s : Indices} {c : Call} (h : Agrees s)
    (hc : OnlyLive s c ∧ Fits s c) :
    ∃ s', calls.step s c = some s' ∧ Agrees s' ∧ Lawful s c s' := by
  cases c with
  | alloc =>
      obtain ⟨hint, hleast, hagrees⟩ := h.alloc hc.2
      have halloc := alloc_eq s.conn_bmap_
      rw [hint] at halloc
      refine ⟨_, congrArg (Option.map _) halloc, hagrees, ?_, hagrees.nodup, hagrees.size⟩
      intro _
      exact ⟨_, hleast, halloc, rfl⟩
  | free id =>
      obtain ⟨i, rfl, hlt⟩ := h.ints id hc.1
      have hagrees := h.free hc.1
      have hfree := free_eq ((h.live i).mpr hc.1) hlt
      refine ⟨_, congrArg (Option.map _) hfree, hagrees, ?_, hagrees.nodup, hagrees.size⟩
      intro heq
      cases heq

/-- In every run on a fresh server that frees live indices only and has at
most 2^31 of them live at a time, every call stays within the bitmap and
is lawful. -/
theorem indices_smallest_first (cs : List Call)
    (h : calls.Meets (fun s c => OnlyLive s c ∧ Fits s c) .new cs) :
    (∃ s, calls.run .new cs = some s) ∧ calls.Each Lawful .new cs := by
  obtain ⟨⟨s, hrun, -⟩, heach⟩ := Machine.run_of_meets call_lawful cs agrees_new h
  exact ⟨⟨s, hrun⟩, heach⟩

/-- Three indices, the one in the middle given back and handed out
again. -/
theorem middle_index_reused :
    (∃ s, calls.run .new [.alloc, .alloc, .alloc, .free 1, .alloc, .free 2] = some s)
    ∧ calls.Each Lawful .new [.alloc, .alloc, .alloc, .free 1, .alloc, .free 2] := by
  apply indices_smallest_first
  have hfits : ∀ n : Nat, n ≤ 4 → n < 2 ^ 31 := by
    intro n hn
    omega
  refine ⟨⟨trivial, hfits 0 (by omega)⟩, fun s hs => ?_⟩
  cases hs
  refine ⟨⟨trivial, hfits 1 (by omega)⟩, fun s hs => ?_⟩
  cases hs
  refine ⟨⟨trivial, hfits 2 (by omega)⟩, fun s hs => ?_⟩
  cases hs
  refine ⟨⟨?_, trivial⟩, fun s hs => ?_⟩
  · change (1 : Int) ∈ Indices.live _
    decide +kernel
  cases hs
  refine ⟨⟨trivial, hfits 2 (by omega)⟩, fun s hs => ?_⟩
  cases hs
  refine ⟨⟨?_, trivial⟩, fun s hs => trivial⟩
  change (2 : Int) ∈ Indices.live _
  decide +kernel

-- ==================================================== more than 2^31 live

theorem alloc_replicate (n : Nat) :
    Server.AllocConnectionIndex (List.replicate n false)
      = (n, List.replicate (n + 1) false) := by
  have hnone : (List.replicate n false).findIdx? id = none :=
    List.findIdx?_eq_none_iff.mpr fun x hx => List.eq_of_mem_replicate hx
  unfold Server.AllocConnectionIndex
  rw [hnone]
  simp only [List.length_replicate]
  rw [List.set_append_right _ _ (by rw [List.length_replicate]),
    List.length_replicate, Nat.sub_self, List.set_cons_zero,
    ← List.replicate_succ']

/-- Nothing but allocations. -/
theorem run_allocs (n : Nat) :
    ∃ live, calls.run .new (List.replicate n .alloc)
      = some ⟨List.replicate n false, live⟩ := by
  induction n with
  | zero => exact ⟨[], rfl⟩
  | succ n ih =>
      obtain ⟨live, hrun⟩ := ih
      refine ⟨i32 n :: live, ?_⟩
      rw [List.replicate_succ', Machine.run_concat]
      refine ⟨_, hrun, ?_⟩
      show (AllocConnectionIndex (List.replicate n false)).map _ = _
      rw [alloc_eq, alloc_replicate, Option.map_some]

theorem meets_allocs : ∀ (n : Nat) (s : Indices),
    calls.Meets OnlyLive s (List.replicate n .alloc)
  | 0, _ => trivial
  | n + 1, _ => ⟨trivial, fun s' _ => meets_allocs n s'⟩

/-- An index that does not fit an `int` breaks the law. -/
theorem allocs_not_lawful (hneg : i32 n < 0) :
    ¬ calls.Each Lawful .new (List.replicate (n + 1) .alloc) := by
  intro heach
  obtain ⟨live, hrun⟩ := run_allocs n
  obtain ⟨live', hrun'⟩ := run_allocs (n + 1)
  rw [List.replicate_succ'] at heach hrun'
  obtain ⟨s₁, hrun₁, hstep⟩ := (Machine.run_concat _ _).mp hrun'
  have hlawful := Machine.each_last _ heach hrun₁ hstep
  obtain ⟨id, hleast, halloc, -⟩ := hlawful.1 rfl
  rw [hrun] at hrun₁
  injection hrun₁ with hs₁
  rw [← hs₁, alloc_eq, alloc_replicate] at halloc
  have hid : i32 n = id := (Prod.mk.inj (Option.some.inj halloc)).1
  have hpos : 0 ≤ id := hleast.1.1
  omega

/-- 2^31 + 1 allocations in a row: the last one returns -2^31. -/
theorem alloc_index_wraps :
    ¬ ∀ cs, calls.Meets OnlyLive .new cs →
      (∃ s, calls.run .new cs = some s) ∧ calls.Each Lawful .new cs := by
  intro h
  obtain ⟨n, hn⟩ : ∃ n : Nat, n = 2 ^ 31 := ⟨_, rfl⟩
  have hneg : i32 n < 0 := by
    rw [hn]
    decide +kernel
  exact allocs_not_lawful hneg (h _ (meets_allocs (n + 1) .new)).2

end Sandesh.Server.Bitmap
