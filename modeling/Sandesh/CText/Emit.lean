/-
How the IDL compiler puts text together (compiler/generate/t_generator.h,
t_oop_generator.h): an output stream, the level of indentation, and a
counter for names of temporaries.

# Words

Names, numbers and most literals have no braces in them. A `Word` is such
a text, so that what is opened and closed in a line is seen from the line
itself: a literal of the source that has a brace in it is written here as
the words around it and the brace (`Tok`).

A throw ends the compilation, so nothing is said of what was written
before it.
-/
import Sandesh.CGen.Idl
import Sandesh.Lib.Nesting

namespace Sandesh.CText

open Lib

-- =============================================================== words

/-- `{` opens and `}` closes. -/
def side (c : UInt8) : Option Bool :=
  if c = 123 then some true else if c = 125 then some false else none

/-- A text without braces. -/
structure Word where
  text : Bytes
  plain : ∀ c ∈ text, side c = none

/-- No brace among the characters of a literal. -/
def noBrace : List Char → Bool
  | [] => true
  | c :: l => !(Nat.beq (c.toNat % 256) 123) && !(Nat.beq (c.toNat % 256) 125) && noBrace l

theorem side_of_ne {c : UInt8} (ho : c.toNat ≠ 123) (hc : c.toNat ≠ 125) : side c = none := by
  unfold side
  rw [if_neg, if_neg]
  · intro heq
    rw [heq] at hc
    exact hc rfl
  · intro heq
    rw [heq] at ho
    exact ho rfl

theorem plain_ofList (l : List Char) (h : noBrace l = true) :
    ∀ c ∈ lit (String.ofList l), side c = none := by
  rw [lit, String.toList_ofList]
  induction l with
  | nil => exact fun c hc => absurd hc List.not_mem_nil
  | cons d l ih =>
      simp only [noBrace, Bool.and_eq_true, Bool.not_eq_true'] at h
      intro c hc
      rcases List.mem_cons.mp hc with rfl | hmem
      · have hnat : d.toUInt8.toNat = d.toNat % 256 := UInt32.toNat_toUInt8 d.val
        exact side_of_ne (hnat ▸ Nat.ne_of_beq_eq_false h.1.1)
          (hnat ▸ Nat.ne_of_beq_eq_false h.1.2)
      · exact ih h.2 c hmem

/-- The characters of a literal that has no brace. -/
structure Spelled (s : String) where
  chars : List Char
  spells : s = String.ofList chars
  plain : noBrace chars = true

theorem Spelled.plain_lit {s : String} (h : Spelled s) : ∀ c ∈ lit s, side c = none := by
  have hchars := plain_ofList h.chars h.plain
  rw [← h.spells] at hchars
  exact hchars

/-- A literal. -/
def w (s : String) (h : Spelled s := by exact ⟨_, Eq.refl _, Eq.refl true⟩) : Word where
  text := lit s
  plain := h.plain_lit

/-- One word behind another. -/
def Word.append (v u : Word) : Word where
  text := v.text ++ u.text
  plain := by
    intro c hc
    rcases List.mem_append.mp hc with hv | hu
    · exact v.plain c hv
    · exact u.plain c hu

instance : Append Word := ⟨Word.append⟩

theorem plain_decimal (n : Nat) : ∀ c ∈ decimal n, side c = none := by
  intro c hc
  have hdigit := isDigit_of_mem_decimal hc
  simp only [isDigit, decide_eq_true_eq] at hdigit
  exact side_of_ne (by omega) (by omega)

theorem plain_decimalInt (i : Int) : ∀ c ∈ decimalInt i, side c = none := by
  intro c hc
  unfold decimalInt at hc
  split at hc
  · rcases List.mem_cons.mp hc with rfl | hmem
    · rfl
    · exact plain_decimal _ c hmem
  · exact plain_decimal _ c hc

/-- A number, as a stream prints it. -/
def num (i : Int) : Word where
  text := decimalInt i
  plain := plain_decimalInt i

theorem side_tolower {c : UInt8} (h : side c = none) : side (CGen.tolower c) = none := by
  unfold CGen.tolower
  split
  case isTrue hrange =>
    have hle : c.toNat ≤ 90 := hrange.2
    have hnat : (c + 32).toNat = (c.toNat + 32) % 256 := UInt8.toNat_add c 32
    exact side_of_ne (by omega) (by omega)
  case isFalse => exact h

/-- `initial_caps_to_underscores`. -/
def initial_caps_to_underscores (name : Word) : Word where
  text := CGen.initial_caps_to_underscores name.text
  plain := by
    obtain ⟨text, plain⟩ := name
    intro c hc
    cases text with
    | nil =>
        rw [List.mem_singleton.mp hc]
        rfl
    | cons d text =>
        rcases List.mem_cons.mp hc with rfl | hmem
        · exact side_tolower (plain d List.mem_cons_self)
        · obtain ⟨b, hb, hc'⟩ := List.mem_flatMap.mp hmem
          have hplain := plain b (List.mem_cons_of_mem d hb)
          split at hc'
          · rcases List.mem_cons.mp hc' with rfl | hlow
            · rfl
            · rw [List.mem_singleton.mp hlow]
              exact side_tolower hplain
          · rw [List.mem_singleton.mp hc']
            exact hplain

-- ============================================================== tokens

/-- A piece of a line. -/
inductive Tok
  | word (v : Word)
  | opening
  | closing

instance : Coe Word Tok := ⟨Tok.word⟩

/-- The text of a token. -/
def Tok.text : Tok → Bytes
  | word v => v.text
  | opening => [123]
  | closing => [125]

-- ============================================================= emitting

/-- The stream, and the members of the generator that change. -/
structure State where
  out : Bytes
  indent_ : Int
  tmp_ : Int
deriving DecidableEq

/-- Code that writes to the stream, or throws a string. -/
abbrev Gen (α : Type) : Type := StateT State (Except Bytes) α

/-- `out << ts`. -/
def out (ts : List Tok) : Gen Unit :=
  modify fun s => { s with out := s.out ++ ts.flatMap Tok.text }

/-- The end of a line. -/
def endl : Gen Unit := out [w "\n"]

/-- `out << indent()`. -/
def indent : Gen Unit :=
  modify fun s => { s with out := s.out ++ (List.replicate s.indent_.toNat (lit "  ")).flatten }

/-- `out << indent() << ts << endl`. -/
def line (ts : List Tok) : Gen Unit := do
  indent
  out ts
  endl

/-- `out << ts << endl`, at the start of a line. -/
def outLine (ts : List Tok) : Gen Unit := do
  out ts
  endl

/-- One level more. -/
def indent_up : Gen Unit := modify fun s => { s with indent_ := s.indent_ + 1 }

/-- One level less. -/
def indent_down : Gen Unit := modify fun s => { s with indent_ := s.indent_ - 1 }

/-- An opening brace on a line of its own. -/
def scope_up : Gen Unit := do
  line [.opening]
  indent_up

/-- A closing brace on a line of its own. -/
def scope_down : Gen Unit := do
  indent_down
  line [.closing]

/-- A name that is not used yet. -/
def tmp (name : Word) : Gen Word := do
  let s ← get
  set { s with tmp_ := s.tmp_ + 1 }
  pure (name ++ num s.tmp_)

end Sandesh.CText
