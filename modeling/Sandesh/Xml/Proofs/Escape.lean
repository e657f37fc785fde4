/-
What unescaping makes of an escaped string.

The first replacement undoes the spelling of `&` and with it uncovers
entity text the string had of its own; the other three then take that
text for their own work. So the round trip is three replacements on the
original string (`unescape_escapeInternal`), and it is the identity
exactly for strings none of the three patterns occurs in. The same count
of characters decides when unescaping changes a text at all
(`length_unescape_eq_iff`).
-/
import Sandesh.Header.Basic
import Sandesh.Xml.Reader

namespace Sandesh.Xml

open Lib

-- ==================================================== the four stages

/-- The spelling once `&` stands for itself again. -/
def keepAmp (d : UInt8) : Bytes :=
  if d = chAmp then [chAmp] else escapeChar d

/-- And once `'` does. -/
def keepApos (d : UInt8) : Bytes :=
  if d = chApos then [chApos] else keepAmp d

/-- And `<`. -/
def keepLt (d : UInt8) : Bytes := if d = chLt then [chLt] else keepApos d

/-- And `>`. -/
def keepGt (d : UInt8) : Bytes := if d = chGt then [chGt] else keepLt d

theorem keepGt_eq (d : UInt8) : keepGt d = [d] := by
  unfold keepGt keepLt keepApos keepAmp escapeChar
  by_cases hgt : d = chGt
  · rw [if_pos hgt, hgt]
  · by_cases hlt : d = chLt
    · rw [if_neg hgt, if_pos hlt, hlt]
    · by_cases hapos : d = chApos
      · rw [if_neg hgt, if_neg hlt, if_pos hapos, hapos]
      · by_cases hamp : d = chAmp
        · rw [if_neg hgt, if_neg hlt, if_neg hapos, if_pos hamp, hamp]
        · simp [hgt, hlt, hapos, hamp]

/-- What is not spelled out is kept. -/
theorem escapeChar_plain {d : UInt8} (hamp : d ≠ chAmp) (hapos : d ≠ chApos)
    (hlt : d ≠ chLt) (hgt : d ≠ chGt) : escapeChar d = [d] := by
  simp [escapeChar, hamp, hapos, hlt, hgt]

/-- Texts that differ at their first character do not start each other. -/
theorem not_prefix_of_head {x y : UInt8} (h : x ≠ y) (p q : Bytes) :
    ∀ t, ¬ x :: p <+: y :: q ++ t := by
  intro t hpre
  rw [List.cons_append, List.cons_prefix_cons] at hpre
  exact h hpre.1

theorem spells_apos : Spells keepAmp chAmp (lit "apos;") chApos where
  spelled := rfl
  first := rfl
  others := by decide
  fresh := by decide
  rest := by
    intro d hm hc
    by_cases hlt : d = chLt
    · subst hlt
      exact .inr ⟨lit "lt;", rfl, by decide,
        not_prefix_of_head (by decide) _ _⟩
    · by_cases hgt : d = chGt
      · subst hgt
        exact .inr ⟨lit "gt;", rfl, by decide,
          not_prefix_of_head (by decide) _ _⟩
      · refine .inl ?_
        rw [keepAmp, if_neg hm, escapeChar_plain hm hc hlt hgt]

theorem spells_lt : Spells keepApos chAmp (lit "lt;") chLt where
  spelled := rfl
  first := rfl
  others := by decide
  fresh := by decide
  rest := by
    intro d hm hc
    by_cases hapos : d = chApos
    · exact .inl (hapos ▸ rfl)
    · by_cases hgt : d = chGt
      · subst hgt
        exact .inr ⟨lit "gt;", rfl, by decide,
          not_prefix_of_head (by decide) _ _⟩
      · refine .inl ?_
        rw [keepApos, if_neg hapos, keepAmp, if_neg hm,
          escapeChar_plain hm hapos hc hgt]

theorem spells_gt : Spells keepLt chAmp (lit "gt;") chGt where
  spelled := rfl
  first := rfl
  others := by decide
  fresh := by decide
  rest := by
    intro d hm hc
    by_cases hlt : d = chLt
    · exact .inl (hlt ▸ rfl)
    · by_cases hapos : d = chApos
      · exact .inl (hapos ▸ rfl)
      · refine .inl ?_
        rw [keepLt, if_neg hlt, keepApos, if_neg hapos, keepAmp, if_neg hm,
          escapeChar_plain hm hapos hlt hc]

/-- `&amp;` is undone without touching the other three spellings. -/
theorem replaceAll_amp (s : Bytes) :
    replaceAll (lit "&amp;") (lit "&") (escapeXMLControlCharsInternal s)
      = s.flatMap keepAmp := by
  refine replaceAll_flatMap_first (m := chAmp) (p := lit "amp;") rfl ?_ s
  intro d hm
  by_cases hapos : d = chApos
  · subst hapos
    refine .inr ⟨lit "apos;", rfl, by decide, ?_⟩
    intro t hpre
    exact absurd (List.cons_prefix_cons.mp (List.cons_prefix_cons.mp hpre).2).1
      (by decide)
  · by_cases hlt : d = chLt
    · subst hlt
      exact .inr ⟨lit "lt;", rfl, by decide,
        not_prefix_of_head (by decide) _ _⟩
    · by_cases hgt : d = chGt
      · subst hgt
        exact .inr ⟨lit "gt;", rfl, by decide,
          not_prefix_of_head (by decide) _ _⟩
      · exact .inl (escapeChar_plain hm hapos hlt hgt)

/-- The round trip is the last three replacements, on the string itself. -/
theorem unescape_escapeInternal (s : Bytes) :
    unescapeXMLControlChars (escapeXMLControlCharsInternal s)
      = replaceAll (lit "&gt;") (lit ">")
          (replaceAll (lit "&lt;") (lit "<")
            (replaceAll (lit "&apos;") (lit "'") s)) := by
  have hapos : ∀ s, replaceAll (lit "&apos;") (lit "'") (s.flatMap keepAmp)
      = (replaceAll (lit "&apos;") (lit "'") s).flatMap keepApos :=
    replaceAll_flatMap spells_apos (by decide)
  have hlt : ∀ s, replaceAll (lit "&lt;") (lit "<") (s.flatMap keepApos)
      = (replaceAll (lit "&lt;") (lit "<") s).flatMap keepLt :=
    replaceAll_flatMap spells_lt (by decide)
  have hgt : ∀ s, replaceAll (lit "&gt;") (lit ">") (s.flatMap keepLt)
      = (replaceAll (lit "&gt;") (lit ">") s).flatMap keepGt :=
    replaceAll_flatMap spells_gt (by decide)
  have hid : ∀ s : Bytes, s.flatMap keepGt = s := by
    intro s
    rw [show keepGt = fun d => [d] from funext keepGt_eq]
    exact List.flatMap_singleton' s
  unfold unescapeXMLControlChars
  dsimp only
  rw [replaceAll_amp, hapos, hlt, hgt, hid]

-- =================================================== when it is undone

/-- The replacements of `unescapeXMLControlChars` after the first. -/
def lastThree : List (Bytes × Bytes) :=
  [(lit "&apos;", lit "'"), (lit "&lt;", lit "<"), (lit "&gt;", lit ">")]

/-- Text that unescaping takes for the spelling of `'`, `<` or `>`. -/
def HasEntity (s : Bytes) : Prop :=
  lit "&apos;" <:+: s ∨ lit "&lt;" <:+: s ∨ lit "&gt;" <:+: s

instance (s : Bytes) : Decidable (HasEntity s) :=
  inferInstanceAs (Decidable (_ ∨ _ ∨ _))

theorem not_hasEntity_iff (s : Bytes) :
    ¬ HasEntity s ↔ ∀ r ∈ lastThree, ¬ r.1 <:+: s := by
  simp [HasEntity, lastThree]

/-- Escaping in full is undone exactly for strings without entity text. -/
theorem unescape_escapeInternal_eq_iff (s : Bytes) :
    unescapeXMLControlChars (escapeXMLControlCharsInternal s) = s
      ↔ ¬ HasEntity s := by
  rw [unescape_escapeInternal, not_hasEntity_iff]
  exact replaceEach_eq_self_iff lastThree (by decide) s

/-- Unescaping keeps the length of a text exactly when it has none of the
four spellings. -/
theorem length_unescape_eq_iff (s : Bytes) :
    (unescapeXMLControlChars s).length = s.length
      ↔ ¬ lit "&amp;" <:+: s ∧ ¬ HasEntity s := by
  rw [not_hasEntity_iff]
  have h := length_replaceEach_eq_iff
    ((lit "&amp;", lit "&") :: lastThree) (by decide) s
  rw [List.forall_mem_cons] at h
  exact h

theorem length_unescape_le (s : Bytes) :
    (unescapeXMLControlChars s).length ≤ s.length :=
  length_replaceEach_le ((lit "&amp;", lit "&") :: lastThree) (by decide) s

/-- Unescaping keeps what is not a part of a spelling. -/
theorem mem_unescape {c : UInt8} {s : Bytes} (hc : c ∉ lit "&amp;'poslgt<>")
    (h : c ∈ s) : c ∈ unescapeXMLControlChars s := by
  have hkeep : ∀ pat rep : Bytes, pat ≠ [] → pat ⊆ lit "&amp;'poslgt<>" →
      ∀ {t : Bytes}, c ∈ t → c ∈ replaceAll pat rep t := by
    intro pat rep hpat hsub t ht
    exact mem_replaceAll hpat (fun hmem => hc (hsub hmem)) ht
  unfold unescapeXMLControlChars
  apply hkeep _ _ (by decide) (by decide)
  apply hkeep _ _ (by decide) (by decide)
  apply hkeep _ _ (by decide) (by decide)
  exact hkeep _ _ (by decide) (by decide) h

-- =========================================== the test of the C string

/-- Without a nul, `strpbrk` looks at the whole string. -/
theorem strpbrk_iff {s accept : Bytes} (hnul : nul ∉ s) :
    strpbrk s accept = true ↔ ∃ c ∈ s, c ∈ accept := by
  have htake : s.takeWhile (· != nul) = s := by
    rw [List.takeWhile_eq_self_iff]
    intro c hc
    simp only [bne_iff_ne, ne_eq]
    intro heq
    obtain rfl := heq
    exact hnul hc
  simp [strpbrk, htake]

/-- A string without `&` has no entity text. -/
theorem not_hasEntity_of_amp {s : Bytes} (h : chAmp ∉ s) :
    ¬ HasEntity s := by
  intro hex
  rcases hex with hocc | hocc | hocc
  · exact h (hocc.subset (by decide))
  · exact h (hocc.subset (by decide))
  · exact h (hocc.subset (by decide))

/-- Characters outside the four are kept by escaping in full. -/
theorem escapeInternal_plain {s : Bytes}
    (h : ∀ c ∈ s, c ∉ lit "&'<>") : escapeXMLControlCharsInternal s = s := by
  induction s with
  | nil => rfl
  | cons c s ih =>
      have hc := h c List.mem_cons_self
      have hplain : escapeChar c = [c] := by
        apply escapeChar_plain
        · exact fun heq => hc (heq ▸ by decide)
        · exact fun heq => hc (heq ▸ by decide)
        · exact fun heq => hc (heq ▸ by decide)
        · exact fun heq => hc (heq ▸ by decide)
      rw [escapeXMLControlCharsInternal, List.flatMap_cons, hplain]
      have hs := ih fun d hd => h d (List.mem_cons_of_mem _ hd)
      rw [escapeXMLControlCharsInternal] at hs
      rw [hs]
      rfl

/-- An escaped string is as long as unescaping makes it only if there was
nothing to escape. -/
theorem escapeInternal_spells_iff (s : Bytes) :
    (¬ lit "&amp;" <:+: escapeXMLControlCharsInternal s
        ∧ ¬ HasEntity (escapeXMLControlCharsInternal s))
      ↔ ∀ c ∈ s, c ∉ lit "&'<>" := by
  constructor
  · intro hex c hc hmem
    obtain ⟨hamp, hent⟩ := hex
    have hocc : escapeChar c <:+: escapeXMLControlCharsInternal s := by
      obtain ⟨s₁, s₂, rfl⟩ := List.append_of_mem hc
      refine ⟨s₁.flatMap escapeChar, s₂.flatMap escapeChar, ?_⟩
      simp [escapeXMLControlCharsInternal]
    simp only [lit, String.reduceToList, List.map_cons, List.map_nil,
      List.mem_cons, List.not_mem_nil, or_false] at hmem
    rcases hmem with rfl | rfl | rfl | rfl
    · exact hamp hocc
    · exact hent (.inl hocc)
    · exact hent (.inr (.inl hocc))
    · exact hent (.inr (.inr hocc))
  · intro h
    rw [escapeInternal_plain h]
    have hamp : chAmp ∉ s := fun hmem => h _ hmem (by decide)
    refine ⟨fun hocc => ?_, not_hasEntity_of_amp hamp⟩
    exact hamp (hocc.subset (by decide))

/-- What the spelling of a character is made of. -/
theorem mem_escapeChar {c d : UInt8} (h : c ∈ escapeChar d) :
    c ∈ lit "&amposlgt;" ∨ c = d ∧ d ∉ lit "&'<>" := by
  by_cases hd : d ∈ lit "&'<>"
  · left
    simp only [lit, String.reduceToList, List.map_cons, List.map_nil,
      List.mem_cons, List.not_mem_nil, or_false] at hd
    have hsub : escapeChar d ⊆ lit "&amposlgt;" := by
      rcases hd with rfl | rfl | rfl | rfl
      all_goals decide
    exact hsub h
  · right
    have hplain : escapeXMLControlCharsInternal [d] = [d] :=
      escapeInternal_plain (by simpa using hd)
    rw [escapeXMLControlCharsInternal, List.flatMap_singleton] at hplain
    rw [hplain, List.mem_singleton] at h
    exact ⟨h, hd⟩

/-- No `<` is left in an escaped string. -/
theorem not_mem_escapeInternal (s : Bytes) :
    chLt ∉ escapeXMLControlCharsInternal s := by
  intro hmem
  obtain ⟨d, -, hd⟩ := List.mem_flatMap.mp hmem
  rcases mem_escapeChar hd with h | ⟨rfl, h⟩
  · exact absurd h (by decide)
  · exact h (by decide)

/-- A character outside the spellings was there before. -/
theorem mem_of_mem_escapeInternal {c : UInt8} {s : Bytes}
    (hc : c ∉ lit "&amposlgt;") (h : c ∈ escapeXMLControlCharsInternal s) :
    c ∈ s := by
  obtain ⟨d, hd, hmem⟩ := List.mem_flatMap.mp h
  rcases mem_escapeChar hmem with hmem | ⟨rfl, -⟩
  · exact absurd hmem hc
  · exact hd

/-- Without a nul the fast path of `escapeXMLControlChars` changes
nothing. -/
theorem escapeXMLControlChars_eq {s : Bytes} (hnul : nul ∉ s) :
    escapeXMLControlChars s = escapeXMLControlCharsInternal s := by
  unfold escapeXMLControlChars
  by_cases h : strpbrk s (lit "&'<>") = true
  · rw [if_pos h]
  · rw [if_neg h]
    refine (escapeInternal_plain ?_).symm
    intro c hc hmem
    exact h ((strpbrk_iff hnul).mpr ⟨c, hc, hmem⟩)

end Sandesh.Xml

/-
The fast path of escaping.

`escapeXMLControlChars` escapes nothing if `strpbrk` finds none of the four
characters, and `strpbrk` stops at the first nul. So the fast path is
taken wrongly for the strings that have one of the four, but none before
the first nul; what is then written by `writeString` may hold a `<` or a
`>` of the value, and `readXMLString` ends the value at the first `<` it
meets.
-/

namespace Sandesh.Xml

open Lib Header

variable {s : Bytes} {c : UInt8}

/-- `TXMLProtocol::writeString`. -/
def writeString (str : Bytes) : TXMLWriter → TXMLWriter :=
  TXMLWriter.writePlain (escapeXMLControlChars str)

-- ============================================================ what is new

theorem one_le_length_escapeChar (c : UInt8) : 1 ≤ (escapeChar c).length := by
  unfold escapeChar
  split
  · decide
  split
  · decide
  split
  · decide
  split
  · decide
  · exact Nat.le_refl 1

/-- The spelling of one of the four is longer than the character. -/
theorem two_le_length_escapeChar (h : c ∈ lit "&'<>") : 2 ≤ (escapeChar c).length := by
  simp only [lit, String.reduceToList, List.map_cons, List.map_nil,
    List.mem_cons, List.not_mem_nil, or_false] at h
  rcases h with rfl | rfl | rfl | rfl
  all_goals decide

theorem length_le_escapeInternal (s : Bytes) :
    s.length ≤ (escapeXMLControlCharsInternal s).length := by
  unfold escapeXMLControlCharsInternal
  induction s with
  | nil => exact Nat.le_refl 0
  | cons c s ih =>
      have hc := one_le_length_escapeChar c
      rw [List.flatMap_cons, List.length_append, List.length_cons]
      omega

/-- If there is something to escape, the slow path changes the string. -/
theorem escapeInternal_ne (hc : c ∈ s) (hspecial : c ∈ lit "&'<>") :
    escapeXMLControlCharsInternal s ≠ s := by
  intro heq
  obtain ⟨s₁, s₂, rfl⟩ := List.append_of_mem hc
  have hlen := congrArg List.length heq
  have h₁ := length_le_escapeInternal s₁
  have h₂ := length_le_escapeInternal s₂
  have hc₂ := two_le_length_escapeChar hspecial
  unfold escapeXMLControlCharsInternal at hlen h₁ h₂
  rw [List.flatMap_append, List.flatMap_cons] at hlen
  simp only [List.length_append, List.length_cons] at hlen
  omega

/-- No `>` is left in an escaped string. -/
theorem not_mem_gt_escapeInternal (s : Bytes) :
    chGt ∉ escapeXMLControlCharsInternal s := by
  intro hmem
  obtain ⟨d, -, hd⟩ := List.mem_flatMap.mp hmem
  rcases mem_escapeChar hd with h | ⟨rfl, h⟩
  · exact absurd h (by decide)
  · exact h (by decide)

-- ========================================================== the two paths

/-- If one of the four characters occurs, one occurs before the first
nul. -/
def SeenByC (s : Bytes) : Prop :=
  (∃ c ∈ s, c ∈ lit "&'<>") → ∃ c ∈ s.takeWhile (· != nul), c ∈ lit "&'<>"

theorem strpbrk_iff_takeWhile (s accept : Bytes) :
    strpbrk s accept = true ↔ ∃ c ∈ s.takeWhile (· != nul), c ∈ accept := by
  unfold strpbrk
  simp only [List.any_eq_true, List.contains_iff_mem]

theorem escape_eq_internal_iff (s : Bytes) :
    escapeXMLControlChars s = escapeXMLControlCharsInternal s ↔ SeenByC s := by
  unfold escapeXMLControlChars SeenByC
  rw [← strpbrk_iff_takeWhile]
  by_cases hfast : strpbrk s (lit "&'<>") = true
  · rw [if_pos hfast]
    exact iff_of_true rfl fun _ => hfast
  · rw [if_neg hfast]
    constructor
    · intro heq hex
      obtain ⟨c, hc, hspecial⟩ := hex
      exact absurd heq.symm (escapeInternal_ne hc hspecial)
    · intro hseen
      refine (escapeInternal_plain ?_).symm
      intro c hc hspecial
      exact hfast (hseen ⟨c, hc, hspecial⟩)

/-- What `writeString` adds to the transport has no `<` and no `>`. -/
def WritesNoTag (s : Bytes) : Prop :=
  ∀ w, ∃ bytes, (writeString s w).out = w.out ++ bytes ∧ chLt ∉ bytes ∧ chGt ∉ bytes

/-- The paths agree, and what is written holds no tag character, exactly
for the strings whose control characters the C string shows. -/
theorem fast_path_agrees_iff (s : Bytes) :
    escapeXMLControlChars s = escapeXMLControlCharsInternal s ∧ WritesNoTag s
      ↔ SeenByC s := by
  rw [← escape_eq_internal_iff]
  constructor
  · intro h
    exact h.1
  · intro heq
    refine ⟨heq, fun w => ⟨_, rfl, ?_⟩⟩
    rw [heq]
    exact ⟨not_mem_escapeInternal s, not_mem_gt_escapeInternal s⟩

/-- A nul and a `<`: nothing is escaped, and the `<` is written. -/
theorem tag_behind_nul :
    ¬ (escapeXMLControlChars [nul, chLt] = escapeXMLControlCharsInternal [nul, chLt])
    ∧ ¬ WritesNoTag [nul, chLt] := by
  refine ⟨by decide, ?_⟩
  intro h
  obtain ⟨bytes, hout, hlt, -⟩ := h TXMLWriter.init
  have hbytes : [nul, chLt] = bytes := hout
  rw [← hbytes] at hlt
  exact hlt (by decide)

end Sandesh.Xml
