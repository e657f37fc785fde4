/-
Replacing every occurrence of a pattern, as `boost::replace_all` and
Python's `str.replace` do: from the left, occurrences do not overlap, and
what was put in is not looked at again.

The recursion is structural, with a count of elements still to be
skipped, so that concrete replacements evaluate; `replaceAll_front`
and `replaceAll_cons` are the two equations proofs use. Replacements by
something shorter, one after the other, test for their patterns
(`replaceEach_eq_self_iff`, `length_replaceEach_eq_iff`), and
`replaceAll_flatMap` carries a replacement through an element-by-element
encoding that spells one element as the pattern.
-/
import Mathlib.Data.List.Basic
import Mathlib.Data.List.Infix

namespace Sandesh.Lib

variable {α : Type} [DecidableEq α]

/-- The elements from here on, `k` of which belong to the occurrence just
replaced. -/
def replaceFrom (pat rep : List α) : Nat → List α → List α
  | _, [] => []
  | k + 1, _ :: s => replaceFrom pat rep k s
  | 0, c :: s =>
      if pat <+: c :: s then rep ++ replaceFrom pat rep (pat.length - 1) s
      else c :: replaceFrom pat rep 0 s

/-- Replace every occurrence of `pat` by `rep`. -/
def replaceAll (pat rep s : List α) : List α := replaceFrom pat rep 0 s

variable {pat rep s : List α}

-- =========================================================== equations

theorem replaceFrom_eq_drop (k : Nat) (s : List α) :
    replaceFrom pat rep k s = replaceAll pat rep (s.drop k) := by
  induction s generalizing k with
  | nil =>
      rw [List.drop_nil]
      cases k with
      | zero => rfl
      | succ k => rfl
  | cons c s ih =>
      cases k with
      | zero => rfl
      | succ k => exact ih k

/-- At an occurrence. -/
theorem replaceAll_front (hpat : pat ≠ []) (h : pat <+: s) :
    replaceAll pat rep s = rep ++ replaceAll pat rep (s.drop pat.length) := by
  cases s with
  | nil => exact absurd (List.prefix_nil.mp h) hpat
  | cons c s =>
      obtain ⟨n, hn⟩ : ∃ n, pat.length = n + 1 :=
        Nat.exists_eq_succ_of_ne_zero (by simpa using hpat)
      have hstep : replaceAll pat rep (c :: s)
          = rep ++ replaceFrom pat rep (pat.length - 1) s := if_pos h
      rw [hstep, replaceFrom_eq_drop, hn, List.drop_succ_cons,
        Nat.add_sub_cancel]

/-- Elsewhere. -/
theorem replaceAll_cons {c : α} (h : ¬ pat <+: c :: s) :
    replaceAll pat rep (c :: s) = c :: replaceAll pat rep s :=
  if_neg h

/-- Elements that are not the pattern's first are copied. -/
theorem replaceAll_append {m : α} {q : List α} (h : m ∉ q) (s : List α) :
    replaceAll (m :: pat) rep (q ++ s) = q ++ replaceAll (m :: pat) rep s := by
  induction q with
  | nil => rfl
  | cons c q ih =>
      rw [List.mem_cons, not_or] at h
      have hno : ¬ m :: pat <+: c :: (q ++ s) := by
        rw [List.cons_prefix_cons]
        intro hc
        exact h.1 hc.1
      rw [List.cons_append, replaceAll_cons hno, ih h.2]
      rfl

-- ============================================ a test for the pattern

theorem replaceAll_absent (h : ¬ pat <:+: s) :
    replaceAll pat rep s = s := by
  induction s with
  | nil => rfl
  | cons c s ih =>
      rw [List.infix_cons_iff, not_or] at h
      rw [replaceAll_cons h.1, ih h.2]

/-- A replacement by something shorter does not lengthen. -/
theorem length_replaceAll_le (hrep : rep.length < pat.length) (s : List α) :
    (replaceAll pat rep s).length ≤ s.length := by
  have hpat : pat ≠ [] := List.ne_nil_of_length_pos (by omega)
  induction hn : s.length using Nat.strongRecOn generalizing s with
  | ind n ih =>
      subst hn
      by_cases h : pat <+: s
      · have hle := h.length_le
        have hdrop : (s.drop pat.length).length = s.length - pat.length :=
          List.length_drop
        have hrest := ih _ (by omega) (s.drop pat.length) rfl
        rw [replaceAll_front hpat h, List.length_append]
        omega
      · cases s with
        | nil => exact Nat.le_refl _
        | cons c s =>
            rw [replaceAll_cons h, List.length_cons, List.length_cons]
            exact Nat.succ_le_succ (ih _ (Nat.lt_succ_self _) s rfl)

/-- It does shorten where there is an occurrence. -/
theorem length_replaceAll_lt (hrep : rep.length < pat.length)
    (h : pat <:+: s) : (replaceAll pat rep s).length < s.length := by
  have hpat : pat ≠ [] := List.ne_nil_of_length_pos (by omega)
  induction s with
  | nil => exact absurd (List.infix_nil.mp h) hpat
  | cons c s ih =>
      by_cases hpre : pat <+: c :: s
      · have hle := hpre.length_le
        have hdrop : ((c :: s).drop pat.length).length
            = (c :: s).length - pat.length := List.length_drop
        have hrest := length_replaceAll_le hrep ((c :: s).drop pat.length)
        rw [replaceAll_front hpat hpre, List.length_append]
        omega
      · rcases List.infix_cons_iff.mp h with h | h
        · exact absurd h hpre
        · rw [replaceAll_cons hpre, List.length_cons, List.length_cons]
          exact Nat.succ_lt_succ (ih h)

/-- An element that is not in the pattern stays. -/
theorem mem_replaceAll {c : α} (hpat : pat ≠ []) (hc : c ∉ pat) (h : c ∈ s) :
    c ∈ replaceAll pat rep s := by
  induction hn : s.length using Nat.strongRecOn generalizing s with
  | ind n ih =>
      subst hn
      by_cases hpre : pat <+: s
      · obtain ⟨t, rfl⟩ := hpre
        have hpos := List.length_pos_of_ne_nil hpat
        have ht : c ∈ t := (List.mem_append.mp h).resolve_left hc
        have hlen : (pat ++ t).length = pat.length + t.length :=
          List.length_append
        rw [replaceAll_front hpat ⟨t, rfl⟩, List.drop_left]
        exact List.mem_append_right _ (ih _ (by omega) ht rfl)
      · cases s with
        | nil => exact absurd h List.not_mem_nil
        | cons d s =>
            rw [replaceAll_cons hpre]
            rcases List.mem_cons.mp h with rfl | h
            · exact List.mem_cons_self
            · exact List.mem_cons_of_mem _ (ih _ (Nat.lt_succ_self _) h rfl)

-- ================================================ several in a row

/-- Replacements one after the other, each on the result of the last. -/
def replaceEach (rs : List (List α × List α)) (s : List α) : List α :=
  rs.foldl (fun s r => replaceAll r.1 r.2 s) s

theorem length_replaceEach_le (rs : List (List α × List α))
    (hrs : ∀ r ∈ rs, r.2.length < r.1.length) (s : List α) :
    (replaceEach rs s).length ≤ s.length := by
  induction rs generalizing s with
  | nil => exact Nat.le_refl _
  | cons r rs ih =>
      have hrest := ih (fun r' hr' => hrs r' (List.mem_cons_of_mem _ hr'))
        (replaceAll r.1 r.2 s)
      exact hrest.trans (length_replaceAll_le (hrs r List.mem_cons_self) s)

/-- If no pattern occurs nothing happens. -/
theorem replaceEach_absent {rs : List (List α × List α)}
    (h : ∀ r ∈ rs, ¬ r.1 <:+: s) : replaceEach rs s = s := by
  induction rs with
  | nil => rfl
  | cons r rs ih =>
      show replaceEach rs (replaceAll r.1 r.2 s) = s
      rw [replaceAll_absent (h r List.mem_cons_self)]
      exact ih fun r' hr' => h r' (List.mem_cons_of_mem _ hr')

/-- Shortening replacements keep the length only if none of the patterns
occurs: the first one that does loses an element for good. -/
theorem length_replaceEach_eq_iff (rs : List (List α × List α))
    (hrs : ∀ r ∈ rs, r.2.length < r.1.length) (s : List α) :
    (replaceEach rs s).length = s.length ↔ ∀ r ∈ rs, ¬ r.1 <:+: s := by
  constructor
  · induction rs with
    | nil =>
        intro _ r hr
        exact absurd hr List.not_mem_nil
    | cons r rs ih =>
        intro hlen
        have hr := hrs r List.mem_cons_self
        have hrs' : ∀ r' ∈ rs, r'.2.length < r'.1.length :=
          fun r' hr' => hrs r' (List.mem_cons_of_mem _ hr')
        have hrest := length_replaceEach_le rs hrs' (replaceAll r.1 r.2 s)
        change (replaceEach rs (replaceAll r.1 r.2 s)).length = s.length
          at hlen
        have hno : ¬ r.1 <:+: s := by
          intro hocc
          have := length_replaceAll_lt hr hocc
          omega
        rw [replaceAll_absent hno] at hlen
        intro r' hr'
        rcases List.mem_cons.mp hr' with rfl | hr'
        · exact hno
        · exact ih hrs' hlen r' hr'
  · intro h
    rw [replaceEach_absent h]

/-- The same for the list itself. -/
theorem replaceEach_eq_self_iff (rs : List (List α × List α))
    (hrs : ∀ r ∈ rs, r.2.length < r.1.length) (s : List α) :
    replaceEach rs s = s ↔ ∀ r ∈ rs, ¬ r.1 <:+: s := by
  constructor
  · intro heq
    rw [← length_replaceEach_eq_iff rs hrs, heq]
  · exact replaceEach_absent

-- ============================================= through an encoding

/-- Replacing a single element is an encoding. -/
theorem replaceAll_singleton (c : α) (rep s : List α) :
    replaceAll [c] rep s = s.flatMap fun d => if d = c then rep else [d] := by
  induction s with
  | nil => rfl
  | cons d s ih =>
      by_cases h : d = c
      · subst h
        have hpre : [d] <+: d :: s := by simp
        rw [replaceAll_front (List.cons_ne_nil _ _) hpre,
          List.flatMap_cons, if_pos rfl, ← ih]
        rfl
      · have hno : ¬ [c] <+: d :: s := by
          rw [List.cons_prefix_cons]
          intro hc
          exact h hc.1.symm
        rw [replaceAll_cons hno, List.flatMap_cons, if_neg h, ← ih]
        rfl

theorem replaceAll_singleton_append (c : α) (rep s t : List α) :
    replaceAll [c] rep (s ++ t)
      = replaceAll [c] rep s ++ replaceAll [c] rep t := by
  simp only [replaceAll_singleton, List.flatMap_append]

/-- How an encoding `e` treats the elements of a pattern `m :: p` and the
element `c` it is the spelling of. Every other element is kept, or has a
spelling that starts like the pattern and is not it. -/
structure Spells (e : α → List α) (m : α) (p : List α) (c : α) : Prop where
  /-- `c` is spelled as the pattern -/
  spelled : e c = m :: p
  /-- the pattern's own elements stand for themselves -/
  first : e m = [m]
  others : ∀ d ∈ p, e d = [d]
  fresh : m ∉ p
  /-- every other element is kept or cannot be taken for the pattern -/
  rest : ∀ d, d ≠ m → d ≠ c → e d = [d]
    ∨ ∃ q, e d = m :: q ∧ m ∉ q ∧ ∀ t, ¬ p <+: q ++ t

namespace Spells

variable {e : α → List α} {m c : α} {p : List α}

omit [DecidableEq α] in
theorem ne_first (h : Spells e m p c) (hp : p ≠ []) : c ≠ m := by
  intro heq
  obtain rfl := heq
  have := h.spelled.symm.trans h.first
  injection this with _ hnil
  exact hp hnil

/-- An element outside the pattern is encoded to something that starts
outside the pattern's tail. -/
theorem head_not_mem (h : Spells e m p c) {d : α} (hd : d ∉ p) :
    ∃ x xs, e d = x :: xs ∧ x ∉ p := by
  by_cases hm : d = m
  · exact ⟨m, [], hm ▸ h.first, h.fresh⟩
  · by_cases hc : d = c
    · exact ⟨m, p, hc ▸ h.spelled, h.fresh⟩
    · rcases h.rest d hm hc with hk | ⟨q, hq, -, -⟩
      · exact ⟨d, [], hk, hd⟩
      · exact ⟨m, q, hq, h.fresh⟩

/-- Within the pattern's elements the encoding can be read off, so the
tail of the pattern starts the encoding iff it starts the source. -/
theorem prefix_flatMap_iff (h : Spells e m p c) (t : List α)
    (ht : ∀ d ∈ t, d ∈ p) (s : List α) :
    (t <+: s.flatMap e ↔ t <+: s)
      ∧ (t <+: s → (s.flatMap e).drop t.length
          = (s.drop t.length).flatMap e) := by
  induction t generalizing s with
  | nil => simp
  | cons x t ih =>
      cases s with
      | nil => simp
      | cons d s =>
          have hx := ht x List.mem_cons_self
          have htail := ih (fun y hy => ht y (List.mem_cons_of_mem _ hy)) s
          by_cases hd : d ∈ p
          · rw [List.flatMap_cons, h.others d hd, List.singleton_append,
              List.cons_prefix_cons, List.cons_prefix_cons, htail.1]
            exact ⟨Iff.rfl, fun hpre => htail.2 hpre.2⟩
          · obtain ⟨y, ys, hy, hyp⟩ := h.head_not_mem hd
            have hxd : x ≠ d := fun heq => hd (heq ▸ hx)
            have hxy : x ≠ y := fun heq => hyp (heq ▸ hx)
            rw [List.flatMap_cons, hy, List.cons_append,
              List.cons_prefix_cons, List.cons_prefix_cons]
            refine ⟨iff_of_false (fun h => hxy h.1) (fun h => hxd h.1), ?_⟩
            intro hpre
            exact absurd hpre.1 hxd

end Spells

/-- Replacing the spelling of `c` in an encoded list gives the encoding,
now with `c` kept, of what the same replacement makes of the source. -/
theorem replaceAll_flatMap {e : α → List α} {m c : α} {p : List α}
    (h : Spells e m p c) (hp : p ≠ []) (s : List α) :
    replaceAll (m :: p) [c] (s.flatMap e)
      = (replaceAll (m :: p) [c] s).flatMap
          (fun d => if d = c then [c] else e d) := by
  have hcm := h.ne_first hp
  have hcons : m :: p ≠ [] := List.cons_ne_nil _ _
  induction hn : s.length using Nat.strongRecOn generalizing s with
  | ind n ih =>
      subst hn
      cases s with
      | nil => rfl
      | cons d s =>
          have ih' := ih s.length (Nat.lt_succ_self _) s rfl
          by_cases hdm : d = m
          · -- the pattern's first element: both sides match or neither does
            subst hdm
            obtain ⟨hiff, hdrop⟩ := h.prefix_flatMap_iff p (fun _ hd => hd) s
            have hencoded : (d :: s).flatMap e = d :: s.flatMap e := by
              rw [List.flatMap_cons, h.first, List.singleton_append]
            by_cases hpre : p <+: s
            · have hs : d :: p <+: d :: s :=
                List.cons_prefix_cons.mpr ⟨rfl, hpre⟩
              have he : d :: p <+: d :: s.flatMap e :=
                List.cons_prefix_cons.mpr ⟨rfl, hiff.mpr hpre⟩
              rw [hencoded, replaceAll_front hcons he,
                replaceAll_front hcons hs, List.flatMap_append,
                List.length_cons, List.drop_succ_cons, List.drop_succ_cons,
                hdrop hpre]
              rw [ih _ _ (s.drop p.length) rfl]
              · simp
              · rw [List.length_drop, List.length_cons]
                omega
            · have hs : ¬ d :: p <+: d :: s := by
                rw [List.cons_prefix_cons]
                exact fun h => hpre h.2
              have he : ¬ d :: p <+: d :: s.flatMap e := by
                rw [List.cons_prefix_cons]
                exact fun h => hpre (hiff.mp h.2)
              rw [hencoded, replaceAll_cons he, replaceAll_cons hs,
                List.flatMap_cons, if_neg hcm.symm, h.first, ih',
                List.singleton_append]
          · have hs : ¬ m :: p <+: d :: s := by
              rw [List.cons_prefix_cons]
              exact fun h => hdm h.1.symm
            rw [replaceAll_cons hs, List.flatMap_cons, List.flatMap_cons]
            by_cases hdc : d = c
            · -- the spelling itself
              subst hdc
              have he : m :: p <+: (m :: p) ++ s.flatMap e :=
                List.prefix_append _ _
              rw [h.spelled, replaceAll_front hcons he, List.drop_left,
                if_pos rfl, ih']
            · rw [if_neg hdc]
              rcases h.rest d hdm hdc with hk | ⟨q, hq, hmq, hno⟩
              · have hm : m ∉ [d] := by
                  rw [List.mem_singleton]
                  exact fun h => hdm h.symm
                rw [hk, replaceAll_append hm, ih']
              · have he : ¬ m :: p <+: m :: (q ++ s.flatMap e) := by
                  rw [List.cons_prefix_cons]
                  exact fun h => hno _ h.2
                rw [hq, List.cons_append, replaceAll_cons he,
                  replaceAll_append hmq, ih']
                rfl

/-- The same for the pattern's first element as the one it spells: then
no element is encoded as a bare `m`. -/
theorem replaceAll_flatMap_first {e : α → List α} {m : α} {p : List α}
    (hm : e m = m :: p) (hrest : ∀ d, d ≠ m → e d = [d]
      ∨ ∃ q, e d = m :: q ∧ m ∉ q ∧ ∀ t, ¬ p <+: q ++ t) (s : List α) :
    replaceAll (m :: p) [m] (s.flatMap e)
      = s.flatMap (fun d => if d = m then [m] else e d) := by
  induction s with
  | nil => rfl
  | cons d s ih =>
      rw [List.flatMap_cons, List.flatMap_cons]
      by_cases hdm : d = m
      · subst hdm
        have he : d :: p <+: (d :: p) ++ s.flatMap e := List.prefix_append _ _
        rw [hm, replaceAll_front (List.cons_ne_nil _ _) he,
          List.drop_left, if_pos rfl, ih]
      · rw [if_neg hdm]
        rcases hrest d hdm with hk | ⟨q, hq, hmq, hno⟩
        · have hmd : m ∉ [d] := by
            rw [List.mem_singleton]
            exact fun h => hdm h.symm
          rw [hk, replaceAll_append hmd, ih]
        · have he : ¬ m :: p <+: m :: (q ++ s.flatMap e) := by
            rw [List.cons_prefix_cons]
            exact fun h => hno _ h.2
          rw [hq, List.cons_append, replaceAll_cons he,
            replaceAll_append hmq, ih]
          rfl

end Sandesh.Lib
