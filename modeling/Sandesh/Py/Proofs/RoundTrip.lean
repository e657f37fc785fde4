/-
Strings through the Python protocol and back.

`writeString` replaces the four characters one after the other, `&` first,
so no replacement meets what an earlier one wrote and the result is that
of the one pass in C++ (`escape_eq`). `readString` undoes it in the same
order, which is the wrong one: after `&amp;` has become `&`, what follows
may look like another spelling. Both sides lose the same strings.
-/
import Sandesh.Py.Header
import Sandesh.Py.Proofs.Counts
import Sandesh.Xml.Proofs.Escape

namespace Sandesh.Py

open Lib
open Xml (HasEntity chAmp chApos chLt chGt escapeChar
  escapeXMLControlChars escapeXMLControlCharsInternal escapeInternal_plain
  escapeXMLControlChars_eq unescapeXMLControlChars
  unescape_escapeInternal_eq_iff)

-- ============================================================== writing

/-- The replacements of `writeString`, at one character. -/
theorem replaceAll_char (c : UInt8) :
    replaceAll (lit ">") (lit "&gt;") (replaceAll (lit "<") (lit "&lt;")
      (replaceAll (lit "'") (lit "&apos;")
        (replaceAll (lit "&") (lit "&amp;") [c]))) = escapeChar c := by
  by_cases hamp : c = chAmp
  · subst hamp
    rfl
  by_cases hapos : c = chApos
  · subst hapos
    rfl
  by_cases hlt : c = chLt
  · subst hlt
    rfl
  by_cases hgt : c = chGt
  · subst hgt
    rfl
  have hkeep : ∀ d rep, c ≠ d → replaceAll [d] rep [c] = [c] := by
    intro d rep hne
    rw [replaceAll_singleton]
    simp [hne]
  rw [Xml.escapeChar_plain hamp hapos hlt hgt, show lit "&" = [chAmp] from rfl,
    show lit "'" = [chApos] from rfl, show lit "<" = [chLt] from rfl,
    show lit ">" = [chGt] from rfl, hkeep _ _ hamp, hkeep _ _ hapos,
    hkeep _ _ hlt, hkeep _ _ hgt]

theorem escape_eq (s : Bytes) : escape s = escapeXMLControlCharsInternal s := by
  unfold escape
  by_cases hfound : searchEscapes s = true
  · rw [if_pos hfound]
    dsimp only
    clear hfound
    induction s with
    | nil => rfl
    | cons c s ih =>
        rw [show c :: s = [c] ++ s from rfl]
        rw [escapeXMLControlCharsInternal, List.flatMap_append,
          List.flatMap_singleton, ← replaceAll_char c]
        rw [escapeXMLControlCharsInternal] at ih
        rw [← ih]
        simp only [show lit "&" = [chAmp] from rfl,
          show lit "'" = [chApos] from rfl, show lit "<" = [chLt] from rfl,
          show lit ">" = [chGt] from rfl, replaceAll_singleton_append]
  · rw [if_neg hfound, escapeInternal_plain]
    intro c hc hmem
    refine hfound (List.any_eq_true.mpr ⟨c, hc, ?_⟩)
    rw [List.contains_iff_mem]
    revert hmem
    simp only [lit, String.reduceToList, List.map_cons, List.map_nil,
      List.mem_cons, List.not_mem_nil, or_false]
    tauto

-- ============================================================== reading

/-- The first occurrence of a character. -/
theorem find_split {c : UInt8} {text : Bytes} (h : c ∉ text) (rest : Bytes) :
    find [c] (text ++ c :: rest) = some text.length := by
  induction text with
  | nil =>
      rw [List.nil_append, find, if_pos (by simp)]
      rfl
  | cons d text ih =>
      rw [List.mem_cons, not_or] at h
      rw [List.cons_append, find, if_neg (by simp [h.1]), ih h.2]
      rfl

theorem valueText_split {text : Bytes} (h : chLt ∉ text) (rest : Bytes) :
    valueText (text ++ chLt :: rest) = some (text, text.length) := by
  rw [valueText, show lit "<" = [chLt] from rfl, find_split h]
  simp

theorem bind_run {α β : Type} {m : Method α} {f : α → Method β} {a : α}
    {s s₁ : TXMLProtocol} (h : m s = .ok (a, s₁)) :
    (m >>= f) s = f a s₁ := by
  simp only [bind]
  rw [h]

theorem reading_run {f : Bytes → Option (Bytes × Nat)} {s : TXMLProtocol}
    {buf v : Bytes} {k : Nat} (hbuf : s.read_buf = some buf)
    (h : f buf = some (v, k)) :
    reading f s
      = .ok (some (v, k), { s with read_buf := some (buf.drop k) }) := by
  simp only [reading, hbuf, h]

theorem readXMLValue_run {s : TXMLProtocol} {text rest : Bytes}
    (h : chLt ∉ text) (hbuf : s.read_buf = some (text ++ chLt :: rest)) :
    readXMLValue s = .ok (some (text, text.length),
      { s with read_buf := some (chLt :: rest) }) := by
  have hrun := reading_run hbuf (valueText_split h rest)
  rw [List.drop_left] at hrun
  exact hrun

theorem readString_run {s : TXMLProtocol} {text rest : Bytes}
    (h : chLt ∉ text) (hbuf : s.read_buf = some (text ++ chLt :: rest)) :
    readString s = .ok (((unescape text).length, some (unescape text)),
      { s with read_buf := some (chLt :: rest) }) :=
  bind_run (readXMLValue_run h hbuf)

theorem not_mem_escape (s : Bytes) : chLt ∉ escape s := by
  rw [escape_eq]
  exact Xml.not_mem_escapeInternal s

-- =========================================================== round trip

/-- `readString` returns what `writeString` was given; behind the string
there is the next tag. -/
def ReadsBack (s : Bytes) : Prop :=
  ∀ (p : TXMLProtocol) (rest : Bytes),
    p.read_buf = some ((writeString s .init).out ++ lit "<" ++ rest) →
      ∃ length p', readString p = .ok ((length, some s), p')

theorem readsBack_iff (s : Bytes) : ReadsBack s ↔ ¬ HasEntity s := by
  have hrun : ∀ (p : TXMLProtocol) (rest : Bytes),
      p.read_buf = some ((writeString s .init).out ++ lit "<" ++ rest) →
      readString p = .ok (((unescape (escape s)).length,
        some (unescape (escape s))),
        { p with read_buf := some (chLt :: rest) }) := by
    intro p rest hbuf
    refine readString_run (not_mem_escape s) ?_
    rw [hbuf, List.append_assoc]
    rfl
  have hback : unescape (escape s) = s ↔ ¬ HasEntity s := by
    rw [escape_eq]
    exact unescape_escapeInternal_eq_iff s
  rw [← hback]
  constructor
  · intro h
    obtain ⟨length, p', hok⟩ := h
      ⟨[], some ((writeString s .init).out ++ lit "<" ++ []), []⟩ [] rfl
    rw [hrun _ _ rfl] at hok
    injection hok with hok
    injection hok with hok
    injection hok with _ hok
    injection hok
  · intro h p rest hbuf
    have hok := hrun p rest hbuf
    rw [h] at hok
    exact ⟨_, _, hok⟩

/-- On either side a string survives exactly if it does not itself hold the
spelling of `'`, `<` or `>`. -/
theorem text_round_trip_iff {s : Bytes} (hnul : nul ∉ s) :
    (unescapeXMLControlChars (escapeXMLControlChars s) = s ↔ ¬ HasEntity s)
      ∧ (ReadsBack s ↔ ¬ HasEntity s) := by
  refine ⟨?_, readsBack_iff s⟩
  rw [escapeXMLControlChars_eq hnul]
  exact unescape_escapeInternal_eq_iff s

theorem text_round_trip_amp :
    unescapeXMLControlChars (escapeXMLControlChars (lit "a&amp;<'b"))
        = lit "a&amp;<'b" ∧ ReadsBack (lit "a&amp;<'b") := by
  have h := text_round_trip_iff (s := lit "a&amp;<'b") (by decide)
  exact ⟨h.1.mpr (by decide), h.2.mpr (by decide)⟩

/-- `&lt;` comes back as `<`. -/
theorem text_round_trip_spelling :
    nul ∉ lit "&lt;"
      ∧ unescapeXMLControlChars (escapeXMLControlChars (lit "&lt;"))
        ≠ lit "&lt;"
      ∧ ¬ ReadsBack (lit "&lt;") := by
  refine ⟨by decide, by decide, ?_⟩
  rw [readsBack_iff]
  decide

end Sandesh.Py
