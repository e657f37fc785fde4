/-
Sets and maps that are kept in the order of a comparison, as the lists one
meets when going through them.

Two elements are the same if neither comes before the other. Nothing is
asked of the comparison here: what is put in behind everything else goes
to the end, and that is how a set that has been gone through in its order
is built up again (`foldl_insert`).
-/
import Mathlib.Data.List.Basic

namespace Sandesh.Lib.Sorted

variable {α β : Type} (less : α → α → Bool)

/-- Put in unless it is there. -/
def insert (a : α) : List α → List α
  | [] => [a]
  | b :: l =>
      if less b a then b :: insert a l
      else if less a b then a :: b :: l
      else b :: l

/-- The value of a key. -/
def find (a : α) : List (α × β) → Option β
  | [] => none
  | (b, w) :: l =>
      if less b a then find a l
      else if less a b then none
      else some w

/-- Give a key a value; the key stays the one that is there. -/
def assign (a : α) (v : β) : List (α × β) → List (α × β)
  | [] => [(a, v)]
  | (b, w) :: l =>
      if less b a then (b, w) :: assign a v l
      else if less a b then (a, v) :: (b, w) :: l
      else (b, v) :: l

variable {less}

theorem insert_last {a : α} {l : List α} (h : ∀ b ∈ l, less b a = true) :
    insert less a l = l ++ [a] := by
  induction l with
  | nil => rfl
  | cons b l ih =>
      rw [insert, if_pos (h b List.mem_cons_self),
        ih fun c hc => h c (List.mem_cons_of_mem b hc), List.cons_append]

theorem insert_same {a : α} (h : less a a = false) : insert less a [a] = [a] := by
  simp [insert, h]

theorem foldl_insert {l : List α} : ∀ {s : List α},
    (s ++ l).Pairwise (fun a b => less a b = true) →
      l.foldl (fun s a => insert less a s) s = s ++ l := by
  induction l with
  | nil =>
      intro s _
      simp
  | cons a l ih =>
      intro s h
      have hlast : ∀ b ∈ s, less b a = true := fun b hb =>
        (List.pairwise_append.mp h).2.2 b hb a List.mem_cons_self
      rw [List.foldl_cons, insert_last hlast, ih, List.append_assoc]
      · rfl
      · rwa [List.append_assoc]

theorem find_last {a : α} {l : List (α × β)} (h : ∀ b ∈ l, less b.1 a = true) :
    find less a l = none := by
  induction l with
  | nil => rfl
  | cons b l ih =>
      obtain ⟨b, w⟩ := b
      rw [find, if_pos (h (b, w) List.mem_cons_self)]
      exact ih fun c hc => h c (List.mem_cons_of_mem _ hc)

theorem assign_last {a : α} {l : List (α × β)} (h : ∀ b ∈ l, less b.1 a = true) (v : β) :
    assign less a v l = l ++ [(a, v)] := by
  induction l with
  | nil => rfl
  | cons b l ih =>
      obtain ⟨b, w⟩ := b
      rw [assign, if_pos (h (b, w) List.mem_cons_self),
        ih fun c hc => h c (List.mem_cons_of_mem _ hc), List.cons_append]

/-- One comes before the other. -/
def Apart (less : α → α → Bool) (a b : α) : Prop := less a b = true ∨ less b a = true

/-- A key is not found among others. -/
theorem find_apart {a : α} {l : List (α × β)} (h : ∀ b ∈ l, Apart less b.1 a) :
    find less a l = none := by
  induction l with
  | nil => rfl
  | cons b l ih =>
      obtain ⟨b, w⟩ := b
      rw [find]
      split
      · exact ih fun c hc => h c (List.mem_cons_of_mem _ hc)
      · rename_i hno
        rw [if_pos ((h (b, w) List.mem_cons_self).resolve_left hno)]

/-- A key in a map was there, or is the one that has just been given. -/
theorem key_assign {a : α} {v : β} {l : List (α × β)} {P : α → Prop} (ha : P a)
    (hl : ∀ e ∈ l, P e.1) : ∀ e ∈ assign less a v l, P e.1 := by
  induction l with
  | nil =>
      intro e he
      rw [List.mem_singleton.mp he]
      exact ha
  | cons b l ih =>
      obtain ⟨b, w⟩ := b
      obtain ⟨hb, hl⟩ := List.forall_mem_cons.mp hl
      rw [assign]
      split
      · exact List.forall_mem_cons.mpr ⟨hb, ih hl⟩
      · split
        · exact List.forall_mem_cons.mpr ⟨ha, List.forall_mem_cons.mpr ⟨hb, hl⟩⟩
        · exact List.forall_mem_cons.mpr ⟨hb, hl⟩

theorem foldl_assign {l : List (α × β)} : ∀ {m : List (α × β)},
    (m ++ l).Pairwise (fun a b => less a.1 b.1 = true) →
      l.foldl (fun m e => assign less e.1 e.2 m) m = m ++ l := by
  induction l with
  | nil =>
      intro m _
      simp
  | cons e l ih =>
      intro m h
      have hlast : ∀ b ∈ m, less b.1 e.1 = true := fun b hb =>
        (List.pairwise_append.mp h).2.2 b hb e List.mem_cons_self
      rw [List.foldl_cons, assign_last hlast, ih, List.append_assoc]
      · rfl
      · rwa [List.append_assoc]

/-- A set is built up again from what is made of its elements, if that is
the elements. -/
theorem foldl_insert_self {f : α → α} {l : List α} (hf : ∀ a ∈ l, f a = a)
    (h : l.Pairwise fun a b => less a b = true) :
    l.foldl (fun s a => insert less (f a) s) [] = l := by
  have hmap : l.map f = l := (List.map_congr_left hf).trans (List.map_id' l)
  have hfold : (l.map f).foldl (fun s a => insert less a s) [] = l := by
    rw [hmap]
    exact foldl_insert (s := []) h
  rwa [List.foldl_map] at hfold

/-- And a map from its entries. -/
theorem foldl_assign_self {f : α → α} {g : β → β} {l : List (α × β)}
    (hf : ∀ e ∈ l, f e.1 = e.1 ∧ g e.2 = e.2)
    (h : l.Pairwise fun a b => less a.1 b.1 = true) :
    l.foldl (fun m e => assign less (f e.1) (g e.2) m) [] = l := by
  have hmap : l.map (fun e => (f e.1, g e.2)) = l := by
    refine (List.map_congr_left fun e he => ?_).trans (List.map_id' l)
    rw [(hf e he).1, (hf e he).2]
  have hfold : (l.map fun e => (f e.1, g e.2)).foldl (fun m e => assign less e.1 e.2 m) []
      = l := by
    rw [hmap]
    exact foldl_assign (m := []) h
  rwa [List.foldl_map] at hfold

/-- There is nothing but the default to be found. -/
theorem getD_find_singleton (a b : α) (v : β) : (find less a [(b, v)]).getD v = v := by
  simp only [find]
  split
  · rfl
  · split <;> rfl

/-- Nothing is taken out. -/
theorem mem_insert {a b : α} {l : List α} (h : b ∈ l) : b ∈ insert less a l := by
  induction l with
  | nil => cases h
  | cons c l ih =>
      rw [insert]
      split
      · rcases List.mem_cons.mp h with rfl | h
        · exact List.mem_cons_self
        · exact List.mem_cons_of_mem c (ih h)
      · split
        · exact List.mem_cons_of_mem a h
        · exact h

/-- A value in a map was there, or has just been given. -/
theorem mem_assign {a : α} {v : β} {l : List (α × β)} {e : α × β}
    (h : e ∈ assign less a v l) : e.2 = v ∨ e ∈ l := by
  induction l with
  | nil =>
      rw [List.mem_singleton.mp h]
      exact .inl rfl
  | cons c l ih =>
      obtain ⟨c, w⟩ := c
      rw [assign] at h
      split at h
      · rcases List.mem_cons.mp h with rfl | h
        · exact .inr List.mem_cons_self
        · exact (ih h).imp_right (List.mem_cons_of_mem _)
      · split at h
        · rcases List.mem_cons.mp h with rfl | h
          · exact .inl rfl
          · exact .inr h
        · rcases List.mem_cons.mp h with rfl | h
          · exact .inl rfl
          · exact .inr (List.mem_cons_of_mem _ h)

end Sandesh.Lib.Sorted
