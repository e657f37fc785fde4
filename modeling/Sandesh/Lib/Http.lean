/-
Reading HTTP responses off a connection.

A response is a head of lines, ended by an empty line, and a body whose
extent the head tells: a `Content-Length` in decimal, or the chunked
transfer coding, where each chunk is led by its size in hexadecimal and a
chunk of size zero is the last. `readResponses` reads a whole connection;
the rules say what it makes of responses that are laid out as they should
be, whatever follows them.
-/
import Mathlib.Data.List.Forall2
import Sandesh.Lib.Text

namespace Sandesh.Lib.Http

/-- The end of a line. -/
def crlf : Bytes := [13, 10]

-- ============================================================== numbers

/-- The byte of a digit below sixteen, in lower case. -/
def hexDigit (d : Nat) : UInt8 := UInt8.ofNat (if d < 10 then 48 + d else 87 + d)

/-- The value of a digit. -/
def hexDigitVal (b : UInt8) : Nat :=
  if b.toNat < 58 then b.toNat - 48 else b.toNat - 87

/-- `%x`. -/
def hex (n : Nat) : Bytes :=
  if n = 0 then [hexDigit 0] else ((Nat.digits 16 n).map hexDigit).reverse

/-- The number of a text in hexadecimal. -/
def hexVal (s : Bytes) : Nat := Nat.ofDigits 16 (s.reverse.map hexDigitVal)

theorem hexDigit_toNat {d : Nat} (hd : d < 16) :
    (hexDigit d).toNat = if d < 10 then 48 + d else 87 + d := by
  simp only [hexDigit, UInt8.toNat_ofNat']
  split <;> omega

theorem hexDigitVal_hexDigit {d : Nat} (hd : d < 16) :
    hexDigitVal (hexDigit d) = d := by
  rw [hexDigitVal, hexDigit_toNat hd]
  split <;> split <;> omega

theorem hexDigit_ne_cr {d : Nat} (hd : d < 16) : hexDigit d ≠ 13 := by
  intro h
  have htoNat := hexDigit_toNat hd
  rw [h] at htoNat
  have hcr : (13 : UInt8).toNat = 13 := by decide
  rw [hcr] at htoNat
  split at htoNat <;> omega

theorem mem_hex {n : Nat} {b : UInt8} (h : b ∈ hex n) : ∃ d, d < 16 ∧ b = hexDigit d := by
  unfold hex at h
  split at h
  · exact ⟨0, by omega, List.mem_singleton.mp h⟩
  · rw [List.mem_reverse] at h
    obtain ⟨d, hd, rfl⟩ := List.mem_map.mp h
    exact ⟨d, Nat.digits_lt_base (by omega) hd, rfl⟩

theorem cr_notMem_hex (n : Nat) : 13 ∉ hex n := by
  intro h
  obtain ⟨d, hd, heq⟩ := mem_hex h
  exact hexDigit_ne_cr hd heq.symm

theorem hexVal_hex (n : Nat) : hexVal (hex n) = n := by
  unfold hex
  split
  next h =>
    subst h
    decide
  · have hmap : ((Nat.digits 16 n).map hexDigit).map hexDigitVal = Nat.digits 16 n := by
      rw [List.map_map]
      refine (List.map_congr_left fun d hd => ?_).trans (List.map_id _)
      exact hexDigitVal_hexDigit (Nat.digits_lt_base (by omega) hd)
    rw [hexVal, List.reverse_reverse, hmap, Nat.ofDigits_digits]

-- ================================================================ lines

/-- The first line, without its end, and what follows. -/
def takeLine : Bytes → Option (Bytes × Bytes)
  | [] => none
  | [_] => none
  | a :: b :: rest =>
      if a = 13 ∧ b = 10 then some ([], rest)
      else (takeLine (b :: rest)).map fun x => (a :: x.1, x.2)

theorem takeLine_append {line : Bytes} (h : 13 ∉ line) (rest : Bytes) :
    takeLine (line ++ (crlf ++ rest)) = some (line, rest) := by
  induction line with
  | nil => rfl
  | cons a line ih =>
      have hline : 13 ∉ line := fun hmem => h (List.mem_cons_of_mem a hmem)
      have ha : a ≠ 13 := fun heq => h (heq ▸ List.mem_cons_self)
      specialize ih hline
      cases hl : line ++ (crlf ++ rest) with
      | nil =>
          rw [hl] at ih
          cases ih
      | cons b t =>
          rw [hl] at ih
          rw [List.cons_append, hl, takeLine, if_neg fun hab => ha hab.1, ih]
          rfl

/-- The lines up to the first empty one. -/
def takeHead : Nat → Bytes → Option (List Bytes × Bytes)
  | 0, _ => none
  | fuel + 1, s =>
      match takeLine s with
      | none => none
      | some (line, rest) =>
          if line = [] then some ([], rest)
          else (takeHead fuel rest).map fun x => (line :: x.1, x.2)

/-- A head, on the wire. -/
def head (lines : List Bytes) : Bytes := lines.flatMap (· ++ crlf) ++ crlf

/-- A line of a head. -/
def IsLine (line : Bytes) : Prop := line ≠ [] ∧ 13 ∉ line

instance (line : Bytes) : Decidable (IsLine line) := inferInstanceAs (Decidable (_ ∧ _))

theorem takeHead_head {lines : List Bytes} (h : ∀ line ∈ lines, IsLine line)
    (rest : Bytes) :
    ∀ {fuel : Nat}, lines.length < fuel →
      takeHead fuel (head lines ++ rest) = some (lines, rest) := by
  induction lines with
  | nil =>
      intro fuel hfuel
      obtain ⟨fuel, rfl⟩ := Nat.exists_eq_succ_of_ne_zero (Nat.ne_of_gt hfuel)
      rfl
  | cons line lines ih =>
      intro fuel hfuel
      obtain ⟨fuel, rfl⟩ := Nat.exists_eq_succ_of_ne_zero (Nat.ne_zero_of_lt hfuel)
      obtain ⟨hne, hcr⟩ := h line List.mem_cons_self
      have hwire : head (line :: lines) ++ rest
          = line ++ (crlf ++ (head lines ++ rest)) := by
        simp [head]
      rw [hwire, takeHead, takeLine_append hcr]
      dsimp only
      rw [if_neg hne, ih (fun l hl => h l (List.mem_cons_of_mem line hl))
        (Nat.lt_of_succ_lt_succ hfuel)]
      rfl

-- =============================================================== chunks

/-- A chunk, on the wire. -/
def chunk (data : Bytes) : Bytes := hex data.length ++ (crlf ++ (data ++ crlf))

/-- The last chunk, without trailers. -/
def lastChunk : Bytes := [48, 13, 10, 13, 10]

/-- The rest after an end of line. -/
def dropCrlf : Bytes → Option Bytes
  | 13 :: 10 :: rest => some rest
  | _ => none

/-- Chunks off the front of a text, up to the empty one. -/
def takeChunks : Nat → Bytes → Option (Bytes × Bytes)
  | 0, _ => none
  | fuel + 1, s =>
      match takeLine s with
      | none => none
      | some (size, rest) =>
          let n := hexVal size
          if n = 0 then (dropCrlf rest).map fun rest => ([], rest)
          else if rest.length < n then none
          else
            match dropCrlf (rest.drop n) with
            | none => none
            | some rest' =>
                (takeChunks fuel rest').map fun x => (rest.take n ++ x.1, x.2)

theorem takeChunks_last (fuel : Nat) (rest : Bytes) :
    takeChunks (fuel + 1) (lastChunk ++ rest) = some ([], rest) := by
  have hwire : lastChunk ++ rest = [48] ++ (crlf ++ (13 :: 10 :: rest)) := rfl
  rw [hwire, takeChunks, takeLine_append (by decide)]
  rfl

theorem takeChunks_chunk {data : Bytes} (h : data ≠ []) (fuel : Nat) (rest : Bytes) :
    takeChunks (fuel + 1) (chunk data ++ rest)
      = (takeChunks fuel rest).map fun x => (data ++ x.1, x.2) := by
  have hwire : chunk data ++ rest
      = hex data.length ++ (crlf ++ (data ++ (crlf ++ rest))) := by
    simp [chunk]
  have hlen : ¬ data.length = 0 := by simpa using h
  have hlong : ¬ (data ++ (crlf ++ rest)).length < data.length := by
    rw [List.length_append]
    omega
  have hcrlf : dropCrlf (crlf ++ rest) = some rest := rfl
  rw [hwire, takeChunks, takeLine_append (cr_notMem_hex _)]
  dsimp only
  rw [hexVal_hex, if_neg hlen, if_neg hlong, List.drop_left, hcrlf, List.take_left]

/-- Chunks that are not empty, closed by the last one. -/
theorem takeChunks_chunks {ds : List Bytes} (h : ∀ d ∈ ds, d ≠ []) (rest : Bytes) :
    ∀ {fuel : Nat}, ds.length < fuel →
      takeChunks fuel (ds.flatMap chunk ++ (lastChunk ++ rest))
        = some (ds.flatten, rest) := by
  induction ds with
  | nil =>
      intro fuel hfuel
      obtain ⟨fuel, rfl⟩ := Nat.exists_eq_succ_of_ne_zero (Nat.ne_of_gt hfuel)
      exact takeChunks_last fuel rest
  | cons d ds ih =>
      intro fuel hfuel
      obtain ⟨fuel, rfl⟩ := Nat.exists_eq_succ_of_ne_zero (Nat.ne_zero_of_lt hfuel)
      rw [List.flatMap_cons, List.append_assoc,
        takeChunks_chunk (h d List.mem_cons_self),
        ih (fun e he => h e (List.mem_cons_of_mem d he)) (Nat.lt_of_succ_lt_succ hfuel)]
      rfl

-- ============================================================ responses

/-- The line of a head that says that chunks follow. -/
def transferChunked : Bytes := lit "Transfer-Encoding: chunked"

/-- What the line with the length begins with. -/
def contentLength : Bytes := lit "Content-Length: "

/-- The length a head gives, if one of its lines does. -/
def lengthOf (lines : List Bytes) : Option Nat :=
  (lines.find? fun line => contentLength.isPrefixOf line).map fun line =>
    decVal (line.drop contentLength.length)

/-- A response as a client has it. -/
structure Response where
  lines : List Bytes
  body : Bytes
deriving DecidableEq

/-- One response off the front of a text. -/
def readResponse (s : Bytes) : Option (Response × Bytes) :=
  match takeHead (s.length + 1) s with
  | none => none
  | some (lines, rest) =>
      if transferChunked ∈ lines then
        (takeChunks (rest.length + 1) rest).map fun x => (⟨lines, x.1⟩, x.2)
      else
        match lengthOf lines with
        | none => none
        | some n =>
            if rest.length < n then none else some (⟨lines, rest.take n⟩, rest.drop n)

/-- A connection that is made of whole responses. -/
def readResponses : Nat → Bytes → Option (List Response)
  | _, [] => some []
  | 0, _ => none
  | fuel + 1, s =>
      match readResponse s with
      | none => none
      | some (r, rest) => (readResponses fuel rest).map fun rs => r :: rs

theorem head_length (lines : List Bytes) : lines.length < (head lines).length := by
  induction lines with
  | nil => decide
  | cons line lines ih =>
      have hwire : head (line :: lines) = line ++ (crlf ++ head lines) := by
        simp [head]
      rw [hwire, List.length_append, List.length_append, List.length_cons]
      have hcrlf : crlf.length = 2 := rfl
      omega

theorem takeHead_all {lines : List Bytes} (h : ∀ line ∈ lines, IsLine line)
    (rest : Bytes) :
    takeHead ((head lines ++ rest).length + 1) (head lines ++ rest)
      = some (lines, rest) := by
  refine takeHead_head h rest ?_
  have hlen := head_length lines
  rw [List.length_append]
  omega

/-- A response with a length. -/
theorem readResponse_sized {lines : List Bytes} {body : Bytes}
    (h : ∀ line ∈ lines, IsLine line) (hplain : transferChunked ∉ lines)
    (hsize : lengthOf lines = some body.length) (rest : Bytes) :
    readResponse (head lines ++ (body ++ rest)) = some (⟨lines, body⟩, rest) := by
  have hlong : ¬ (body ++ rest).length < body.length := by
    rw [List.length_append]
    omega
  rw [readResponse, takeHead_all h]
  dsimp only
  rw [if_neg hplain, hsize]
  dsimp only
  rw [if_neg hlong, List.take_left, List.drop_left]

theorem chunks_length (ds : List Bytes) : ds.length ≤ (ds.flatMap chunk).length := by
  induction ds with
  | nil => exact Nat.le_refl 0
  | cons d ds ih =>
      have hcrlf : crlf.length = 2 := rfl
      rw [List.flatMap_cons, List.length_append, List.length_cons, chunk,
        List.length_append, List.length_append]
      omega

/-- A response in chunks. -/
theorem readResponse_chunked {lines ds : List Bytes}
    (h : ∀ line ∈ lines, IsLine line) (hchunked : transferChunked ∈ lines)
    (hds : ∀ d ∈ ds, d ≠ []) (rest : Bytes) :
    readResponse (head lines ++ (ds.flatMap chunk ++ (lastChunk ++ rest)))
      = some (⟨lines, ds.flatten⟩, rest) := by
  have hfuel : ds.length < (ds.flatMap chunk ++ (lastChunk ++ rest)).length + 1 := by
    have hle := chunks_length ds
    rw [List.length_append]
    omega
  rw [readResponse, takeHead_all h]
  dsimp only
  rw [if_pos hchunked, takeChunks_chunks hds rest hfuel]
  rfl

/-- What is laid out as a response reads as one, whatever follows. -/
def Reads (wire : Bytes) (r : Response) : Prop :=
  wire ≠ [] ∧ ∀ rest, readResponse (wire ++ rest) = some (r, rest)

/-- Responses one after another. -/
theorem readResponses_flatten {wires : List Bytes} {rs : List Response}
    (h : List.Forall₂ Reads wires rs) :
    ∀ {fuel : Nat}, wires.length ≤ fuel →
      readResponses fuel wires.flatten = some rs := by
  induction h with
  | nil =>
      intro fuel _
      cases fuel <;> rfl
  | @cons wire r wires rs hread _ ih =>
      intro fuel hfuel
      obtain ⟨fuel, rfl⟩ := Nat.exists_eq_succ_of_ne_zero (Nat.ne_zero_of_lt hfuel)
      have hread' := hread.2 wires.flatten
      rw [List.flatten_cons]
      cases hw : wire ++ wires.flatten with
      | nil => exact absurd (List.append_eq_nil_iff.mp hw).1 hread.1
      | cons b t =>
          rw [← hw, readResponses, hread']
          · dsimp only
            rw [ih (Nat.le_of_succ_le_succ hfuel)]
            rfl
          · rw [hw]
            exact List.cons_ne_nil b t

end Sandesh.Lib.Http
