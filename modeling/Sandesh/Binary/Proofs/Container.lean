/-
Which container headers are accepted.

A list or a map is accepted exactly if its size is not negative and within
the limit (`Valid`). A set is accepted so, too, if its size is not
negative; a negative size is accepted whatever the limit, as a size from
2^31 on.

Without a limit these are the functions of `Cpp` (`readListBegin_zero` and
so on).
-/
import Sandesh.Binary.Cpp
import Sandesh.Binary.Proofs.Reads

namespace Sandesh.Binary.Container

open Lib C Cpp

-- ============================================================== no limit

theorem readListBegin_zero : readListBegin 0 = Cpp.readListBegin := by
  unfold readListBegin Cpp.readListBegin fail
  simp only [ne_eq, not_true_eq_false, false_and, if_false]

theorem readSetBegin_zero : readSetBegin 0 = Cpp.readSetBegin := by
  unfold readSetBegin Cpp.readSetBegin
  simp only [ne_eq, not_true_eq_false, false_and, if_false, ite_self]

theorem readMapBegin_zero : readMapBegin 0 = Cpp.readMapBegin := by
  unfold readMapBegin Cpp.readMapBegin fail
  simp only [ne_eq, not_true_eq_false, false_and, if_false]

-- ============================================================ the header

variable {limit word : BitVec 32} {e k v : BitVec 8} {s m : Input}

/-- The bytes to come start with the type of the elements and the size. -/
def StartsElems (e : BitVec 8) (word : BitVec 32) (s : Input) : Prop :=
  ∃ rest, s.buffer.unread ++ s.stale = be 1 e.toNat ++ (be 4 word.toNat ++ rest)

/-- The same with the types of the keys and the values. -/
def StartsMap (k v : BitVec 8) (word : BitVec 32) (s : Input) : Prop :=
  ∃ rest, s.buffer.unread ++ s.stale
    = be 1 k.toNat ++ (be 1 v.toNat ++ (be 4 word.toNat ++ rest))

/-- A byte, and what is left. -/
theorem readByte_step {rest : Bytes}
    (h : s.buffer.unread ++ s.stale = be 1 v.toNat ++ rest) :
    ∃ s', readByte s = (some (v, 1), s') ∧ s'.buffer.unread ++ s'.stale = rest := by
  obtain ⟨s', hread, htaken⟩ := reads_byte v s rest h (by rw [length_be]; decide)
  rw [length_be] at hread
  refine ⟨s', hread, ?_⟩
  have hstream := inputSource.stream_taken htaken
  exact (List.append_cancel_left (h.symm.trans hstream)).symm

theorem readI32_step {rest : Bytes}
    (h : s.buffer.unread ++ s.stale = be 4 word.toNat ++ rest) :
    ∃ s', readI32 s = (some (word, 4), s') := by
  obtain ⟨s', hread, -⟩ := reads_i32 word s rest h (by rw [length_be]; decide)
  rw [length_be] at hread
  exact ⟨s', hread⟩

/-- What is done with the header of a list or a set. -/
theorem elems_header {α : Type} (h : StartsElems e word s) :
    ∃ s', ∀ k : BitVec 8 → BitVec 32 → Int → Reader Input α,
      andThen 0 readByte (fun e result => andThen result readI32 (k e)) s
        = k e word 5 s' := by
  obtain ⟨rest, hs⟩ := h
  obtain ⟨s₁, hbyte, hrest⟩ := readByte_step hs
  obtain ⟨s₂, hword⟩ := readI32_step hrest
  refine ⟨s₂, fun k => ?_⟩
  have hone : i32 (0 + 1) = 1 := by decide
  have hfive : i32 (1 + 4) = 5 := by decide
  unfold andThen
  rw [hbyte]
  simp only [hone]
  rw [hword]
  simp only [hfive]

/-- What is done with the header of a map. -/
theorem map_header {α : Type} (h : StartsMap k v word m) :
    ∃ m', ∀ f : BitVec 8 → BitVec 8 → BitVec 32 → Int → Reader Input α,
      andThen 0 readByte (fun k result => andThen result readByte fun v result =>
        andThen result readI32 (f k v)) m
        = f k v word 6 m' := by
  obtain ⟨rest, hs⟩ := h
  obtain ⟨m₁, hkey, hrest₁⟩ := readByte_step hs
  obtain ⟨m₂, hval, hrest₂⟩ := readByte_step hrest₁
  obtain ⟨m₃, hword⟩ := readI32_step hrest₂
  refine ⟨m₃, fun f => ?_⟩
  have hone : i32 (0 + 1) = 1 := by decide
  have htwo : i32 (1 + 1) = 2 := by decide
  have hsix : i32 (2 + 4) = 6 := by decide
  unfold andThen
  rw [hkey]
  simp only [hone]
  rw [hval]
  simp only [htwo]
  rw [hword]
  simp only [hsix]

-- ============================================================= acceptance

/-- Not negative, and within the limit if there is one. -/
def Valid (limit word : BitVec 32) : Prop :=
  0 ≤ word.toInt ∧ (limit = 0 ∨ word.toInt ≤ limit.toInt)

instance (limit word : BitVec 32) : Decidable (Valid limit word) :=
  inferInstanceAs (Decidable (_ ∧ _))

/-- The two tests of a list and a map. -/
theorem tests_eq {α : Type} (limit word : BitVec 32) (x y : α) :
    (if word.toInt < 0 then x
      else if limit ≠ 0 ∧ word.toInt > limit.toInt then x else y)
      = if Valid limit word then y else x := by
  by_cases hneg : word.toInt < 0
  · rw [if_pos hneg, if_neg fun h => by
      have := h.1
      omega]
  · rw [if_neg hneg]
    by_cases hlimit : limit ≠ 0 ∧ word.toInt > limit.toInt
    · rw [if_pos hlimit, if_neg]
      intro h
      rcases h.2 with hzero | hle
      · exact hlimit.1 hzero
      · have hgt := hlimit.2
        omega
    · rw [if_neg hlimit, if_pos]
      refine ⟨by omega, ?_⟩
      by_cases hzero : limit = 0
      · exact .inl hzero
      · refine .inr ?_
        have hle : ¬ word.toInt > limit.toInt := fun h => hlimit ⟨hzero, h⟩
        omega

theorem list_result (limit : BitVec 32) (h : StartsElems e word s) :
    (readListBegin limit s).1
      = if Valid limit word then some ((thriftType e, word.toNat), 5) else none := by
  obtain ⟨s', hk⟩ := elems_header (α := Nat × Nat) h
  unfold readListBegin
  rw [hk, tests_eq]
  split
  · rfl
  · rfl

theorem map_result (limit : BitVec 32) (h : StartsMap k v word m) :
    (readMapBegin limit m).1
      = if Valid limit word then some ((thriftType k, thriftType v, word.toNat), 6)
        else none := by
  obtain ⟨m', hf⟩ := map_header (α := Nat × Nat × Nat) h
  unfold readMapBegin
  rw [hf, tests_eq]
  split
  · rfl
  · rfl

theorem set_result (limit : BitVec 32) (h : StartsElems e word s)
    (hpos : 0 ≤ word.toInt) :
    (readSetBegin limit s).1
      = if Valid limit word then some ((thriftType e, word.toNat), 5) else none := by
  obtain ⟨s', hk⟩ := elems_header (α := Nat × Nat) h
  have htests := tests_eq limit word (fail : Reader Input (Nat × Nat))
    (done (thriftType e, word.toNat) 5)
  have hneg : ¬ word.toInt < 0 := by omega
  rw [if_neg hneg] at htests
  unfold readSetBegin
  rw [hk, if_neg hneg, htests]
  split
  · rfl
  · rfl

/-- A negative size is accepted, as a large one. -/
theorem set_negative (limit : BitVec 32) (h : StartsElems e word s)
    (hneg : word.toInt < 0) :
    (readSetBegin limit s).1 = some ((thriftType e, word.toNat), 5) := by
  obtain ⟨s', hk⟩ := elems_header (α := Nat × Nat) h
  unfold readSetBegin
  rw [hk, if_pos hneg]
  rfl

-- ============================================================== all three

/-- The three functions on headers with the same size. -/
structure Alike (limit word : BitVec 32) (s m : Input) : Prop where
  same : (readSetBegin limit s).1 = (readListBegin limit s).1
  decision : (readMapBegin limit m).1.isSome = (readListBegin limit s).1.isSome
  list : (readListBegin limit s).1.isSome = true ↔ Valid limit word
  set : (readSetBegin limit s).1.isSome = true ↔ Valid limit word
  map : (readMapBegin limit m).1.isSome = true ↔ Valid limit word
  /-- how often the loop of a caller turns -/
  turns : ∀ size, (∃ e ret, (readSetBegin limit s).1 = some ((e, size), ret)
      ∨ (readListBegin limit s).1 = some ((e, size), ret)
      ∨ ∃ k, (readMapBegin limit m).1 = some ((k, e, size), ret)) →
    size < 2 ^ 31

theorem toNat_lt_of_toInt (h : 0 ≤ word.toInt) : word.toNat < 2 ^ 31 := by
  have hlt := word.isLt
  rw [BitVec.toInt_eq_toNat_cond] at h
  split at h
  · omega
  · omega

/-- An accepted header and its size. -/
theorem size_of_result {α : Type} {p : Prop} [Decidable p] {x y : α} {n n' : Int}
    (h : (if p then some (x, n) else none) = some (y, n')) : x = y := by
  split at h
  · exact (Prod.mk.inj (Option.some.inj h)).1
  · cases h

theorem isSome_ite {α : Type} {p : Prop} [Decidable p] {x : α} :
    (if p then some x else none).isSome = true ↔ p := by
  split
  · next h => exact iff_of_true rfl h
  · next h => exact iff_of_false Bool.false_ne_true h

/-- The headers of a set, a list and a map are treated alike if and only if
the size is not negative. -/
theorem container_headers_alike_iff (limit word : BitVec 32) (e k v : BitVec 8)
    (s m : Input) (hs : StartsElems e word s) (hm : StartsMap k v word m) :
    Alike limit word s m ↔ 0 ≤ word.toInt := by
  constructor
  · intro h
    by_contra hneg
    have hset := set_negative limit hs (by omega)
    have hvalid := h.set.mp (by rw [hset]; rfl)
    exact hneg hvalid.1
  · intro hpos
    have hsize := toNat_lt_of_toInt hpos
    have hset := set_result limit hs hpos
    have hlist := list_result limit hs
    have hmap := map_result limit hm
    refine ⟨hset.trans hlist.symm, ?_, ?_, ?_, ?_, ?_⟩
    · rw [hmap, hlist]
      split
      · rfl
      · rfl
    · rw [hlist, isSome_ite]
    · rw [hset, isSome_ite]
    · rw [hmap, isSome_ite]
    · intro size hex
      obtain ⟨e', ret, hres⟩ := hex
      rw [hset, hlist, hmap] at hres
      rcases hres with hres | hres | ⟨k', hres⟩
      · obtain ⟨-, hsz⟩ := Prod.mk.inj (size_of_result hres)
        omega
      · obtain ⟨-, hsz⟩ := Prod.mk.inj (size_of_result hres)
        omega
      · obtain ⟨-, hsz⟩ := Prod.mk.inj (Prod.mk.inj (size_of_result hres)).2
        omega

/-- Three elements of type `T_BOOL`, under a limit of three. -/
theorem three_elements_alike :
    Alike 3 3 ⟨.ofBytes [2, 0, 0, 0, 3], []⟩ ⟨.ofBytes [2, 2, 0, 0, 0, 3], []⟩ :=
  (container_headers_alike_iff 3 3 2 2 2 _ _ ⟨[], by decide⟩ ⟨[], by decide⟩).mpr
    (by decide)

/-- A size of -1, under a limit of three: the set is accepted. -/
theorem negative_set_accepted :
    ¬ Alike 3 (-1) ⟨.ofBytes [2, 255, 255, 255, 255], []⟩
      ⟨.ofBytes [2, 2, 255, 255, 255, 255], []⟩ := by
  intro h
  have hs : StartsElems 2 (-1) ⟨.ofBytes [2, 255, 255, 255, 255], []⟩ :=
    ⟨[], by decide⟩
  have hset := set_negative 3 hs (by decide)
  have hvalid := h.set.mp (by rw [hset]; rfl)
  exact absurd hvalid (by decide)

end Sandesh.Binary.Container
