/-
Where the emitted reader leaves `Xoffset`.

`Xoffset` is an `int32_t`, so a value of 2^31 bytes or more takes it below
zero. The code then goes on before the buffer, and the next read is out of
bounds one way or the other: it fails its check, or it is an access outside
the memory. So a structure that is read ends with its stop byte inside the
buffer, and `sandesh_decode_one` consumes at least that.

`Moves P m Q`: from an offset with `P`, code that reads on leaves one with
`Q`.
-/
import Sandesh.Binary.Proofs.Skip
import Sandesh.CGen.Read

namespace Sandesh.CGen

open Lib Binary Binary.C
open Lib.Prog (Runs runs_pure runs_throw runs_bind runs_fix runs_act loop_rec)

-- ================================================================ rules

/-- From an offset of the one kind the statement gets to an offset of the
other, if it returns. -/
def Moves {α : Type} (P : Int → Prop) (m : Scan α) (Q : α → Int → Prop) : Prop :=
  ∀ off st a off' st', P off → (m off).Runs st (.ok (some (a, off'))) st' → Q a off'

section Rules

variable {α β γ : Type} {P P' : Int → Prop}

/-- Less is asked in front, or more is granted behind. -/
theorem Moves.mono {m : Scan α} {Q Q' : α → Int → Prop} (h : Moves P' m Q)
    (hP : ∀ off, P off → P' off) (hQ : ∀ a off, Q a off → Q' a off) :
    Moves P m Q' :=
  fun off _ _ _ _ hoff hrun => hQ _ _ (h _ _ _ _ _ (hP off hoff) hrun)

/-- The rules for statements in a row. -/
theorem moves_pure {a : α} {Q : α → Int → Prop} (h : ∀ off, P off → Q a off) :
    Moves P (pure a : Scan α) Q := by
  intro off st a' off' st' hoff hrun
  obtain ⟨hres, -⟩ := runs_pure.mp hrun
  obtain ⟨rfl, rfl⟩ := Prod.mk.inj (Option.some.inj (Except.ok.inj hres))
  exact h _ hoff

/-- A statement that fails gets nowhere. -/
theorem moves_fail {Q : α → Int → Prop} : Moves P (Scan.fail : Scan α) Q := by
  intro off st a off' st' _ hrun
  obtain ⟨hres, -⟩ := runs_pure.mp hrun
  exact nomatch hres

/-- One statement after the other. -/
theorem Moves.bind {m : Scan α} {f : α → Scan β} {Q : α → Int → Prop}
    {R : β → Int → Prop} (hm : Moves P m Q) (hf : ∀ a, Moves (Q a) (f a) R) :
    Moves P (m >>= f) R := by
  intro off st b off' st' hoff hrun
  rcases runs_bind.mp hrun with ⟨o, st₁, h₁, h₂⟩ | ⟨e, -, he⟩
  · match o with
    | none => exact nomatch (runs_pure.mp h₂).1
    | some (a, off₁) => exact hf a _ _ _ _ _ (hm _ _ _ _ _ hoff h₁) h₂
  · exact nomatch he

/-- A branch. -/
theorem moves_ite {c : Prop} [Decidable c] {m₁ m₂ : Scan α} {Q : α → Int → Prop}
    (h₁ : c → Moves P m₁ Q) (h₂ : ¬ c → Moves P m₂ Q) :
    Moves P (if c then m₁ else m₂) Q := by
  by_cases h : c
  · rw [if_pos h]
    exact h₁ h
  · rw [if_neg h]
    exact h₂ h

/-- A loop: the turns keep `P`, the last one leaves `Q`. -/
theorem Moves.loop {body : γ → Scan (γ ⊕ γ)} {Q : γ → Int → Prop}
    (h : ∀ g, Moves P (body g) (fun o off => Sum.elim (fun _ => P off) (Q · off) o))
    (g : γ) : Moves P (Scan.loop body g) Q := by
  intro off st g' off' st' hoff hrun
  refine loop_rec (P := fun (t : γ × Int) _ res _ => P t.2 →
    ∀ g' off', res = .ok (some (g', off')) → Q g' off') ?_ ?_ ?_ hrun hoff g' off' rfl
  · intro t st o st' hturn hP g' off' hres
    rcases runs_bind.mp hturn with ⟨o, st₁, h₁, h₂⟩ | ⟨e, -, he⟩
    · match o with
      | none =>
          obtain ⟨heq, -⟩ := runs_pure.mp h₂
          cases heq
          cases hres
      | some (.inl g₁, off₁) => exact nomatch (runs_pure.mp h₂).1
      | some (.inr g₁, off₁) =>
          obtain ⟨heq, -⟩ := runs_pure.mp h₂
          cases heq
          cases hres
          exact h t.1 _ _ _ _ _ hP h₁
    · exact nomatch he
  · intro t st e st' _ _ g' off' hres
    exact nomatch hres
  · intro t st t₁ st₁ res st' hturn ih hP g' off' hres
    rcases runs_bind.mp hturn with ⟨o, st₂, h₁, h₂⟩ | ⟨e, -, he⟩
    · match o with
      | none => exact nomatch (runs_pure.mp h₂).1
      | some (.inl g₁, off₁) =>
          obtain ⟨heq, -⟩ := runs_pure.mp h₂
          cases heq
          exact ih (h t.1 _ _ _ _ _ hP h₁) g' off' hres
      | some (.inr g₁, off₁) => exact nomatch (runs_pure.mp h₂).1
    · exact nomatch he

/-- A statement a number of times. -/
theorem Moves.times {m : Scan α} (h : Moves P m (fun _ => P)) (n : Nat) :
    Moves P (Scan.times m n) (fun _ => P) := by
  induction n with
  | zero => exact moves_pure fun _ => id
  | succ n ih => exact h.bind fun v => ih.bind fun vs => moves_pure fun _ => id

end Rules

-- ============================================================== offsets

section Offsets

variable (Xbuf : Int) (Xbuflen : Nat)

/-- Behind bytes that were read. -/
def Inside (off : Int) : Prop :=
  0 ≤ Xbuf ∧ 0 ≤ off ∧ off ≤ Xbuflen ∧ off < 2 ^ 31

/-- Behind a value: if the offset has wrapped, it is before the memory. -/
def Behind (off : Int) : Prop :=
  Inside Xbuf Xbuflen off ∨ 0 ≤ Xbuf ∧ -2 ^ 31 ≤ off ∧ off ≤ -2 ∧ Xbuf + off < 0

/-- Before the type of a field; only the first may be before the memory. -/
def Between (off : Int) : Prop :=
  (off = 0 ∨ 0 ≤ Xbuf) ∧ (0 ≤ off ∧ off < 2 ^ 31 ∨ -2 ^ 31 ≤ off ∧ off ≤ -2)

variable {Xbuf Xbuflen}

/-- An offset that has not wrapped. -/
theorem Inside.behind {off : Int} (h : Inside Xbuf Xbuflen off) :
    Behind Xbuf Xbuflen off := .inl h

/-- Behind a value is before the next field. -/
theorem Behind.between {off : Int} (h : Behind Xbuf Xbuflen off) : Between Xbuf off := by
  rcases h with ⟨hbuf, hlo, -, hhi⟩ | ⟨hbuf, hlo, hhi, -⟩
  · exact ⟨.inr hbuf, .inl ⟨hlo, hhi⟩⟩
  · exact ⟨.inr hbuf, .inr ⟨hlo, hhi⟩⟩

/-- The range of `int32_t`. -/
theorem i32_bounds (x : Int) : -2 ^ 31 ≤ i32 x ∧ i32 x < 2 ^ 31 := by
  have hlo := Int.le_bmod (x := x) (m := 2 ^ 32) (by decide)
  have hhi := Int.bmod_lt (x := x) (m := 2 ^ 32) (by decide)
  unfold i32
  omega

/-- The bounds check. -/
theorem i32_of_chk {x : Int} (hlen : Xbuflen < 2 ^ 32) (h : ¬ Xbuflen < u64 (i32 x)) :
    0 ≤ i32 x ∧ i32 x ≤ Xbuflen := by
  obtain ⟨hlo, hhi⟩ := i32_bounds x
  unfold u64 at h
  omega

/-- A sum that is too large goes below zero. -/
theorem i32_sum {x y : Int} (hx : 0 ≤ x) (hx' : x < 2 ^ 31) (hy : 0 ≤ y)
    (hy' : y < 2 ^ 31) :
    x + y < 2 ^ 31 ∧ i32 (x + y) = x + y ∨
      2 ^ 31 ≤ x + y ∧ i32 (x + y) = x + y - 2 ^ 32 := by
  by_cases h : x + y < 2 ^ 31
  · exact .inl ⟨h, i32_eq (by omega) h⟩
  · exact .inr ⟨by omega, i32_high (by omega) (by omega)⟩

end Offsets

-- =========================================================== statements

section Statements

variable {mem : Bytes} {Xbuf : Int} {Xbuflen : Nat}

/-- A copy that passed its test: where it stood and where it stands. -/
theorem chk_runs {len : Nat} {off off' : Int} {st st' : Bytes}
    {bs : { bs : Bytes // bs.length = len }}
    (h : (read_buffer_chk_memcpy_incr_offset mem Xbuf Xbuflen len off).Runs st
      (.ok (some (bs, off'))) st') :
    ¬ Xbuflen < u64 (i32 (off + len)) ∧ 0 ≤ Xbuf + off ∧ off' = i32 (off + len) := by
  unfold read_buffer_chk_memcpy_incr_offset at h
  by_cases hchk : Xbuflen < u64 (i32 (off + len))
  · rw [if_pos hchk] at h
    exact nomatch (runs_pure.mp h).1
  · rw [if_neg hchk] at h
    rcases runs_bind.mp h with ⟨bs', st₁, hcopy, hres⟩ | ⟨e, -, he⟩
    · obtain ⟨heq, -⟩ := runs_pure.mp hres
      obtain ⟨-, rfl⟩ := Prod.mk.inj (Option.some.inj (Except.ok.inj heq))
      refine ⟨hchk, ?_, rfl⟩
      unfold memcpyFrom at hcopy
      by_cases hin : 0 ≤ Xbuf + off ∧ (Xbuf + off).toNat + len ≤ mem.length
      · exact hin.1
      · rw [dif_neg hin] at hcopy
        exact nomatch (runs_throw.mp hcopy).1
    · exact nomatch he

variable (hlen : 0 ≤ Xbuf → Xbuf + Xbuflen < 2 ^ 32)

include hlen

/-- Bytes are only read inside the buffer. -/
theorem moves_chk (len : Nat) :
    Moves (Behind Xbuf Xbuflen)
      (read_buffer_chk_memcpy_incr_offset mem Xbuf Xbuflen len)
      (fun _ => Inside Xbuf Xbuflen) := by
  intro off st bs off' st' hoff hrun
  obtain ⟨hchk, hpos, rfl⟩ := chk_runs hrun
  rcases hoff with ⟨hbuf, hlo, hle, hhi⟩ | ⟨-, -, -, hneg⟩
  · have hbound := hlen hbuf
    obtain ⟨hlo', hle'⟩ := i32_of_chk (by omega) hchk
    exact ⟨hbuf, hlo', hle', (i32_bounds _).2⟩
  · omega

/-- The type of a field, or the stop byte. -/
theorem moves_byte :
    Moves (Between Xbuf) (deserialize_byte_from_buffer mem Xbuf Xbuflen)
      (fun _ off => Inside Xbuf Xbuflen off ∧ 1 ≤ off) := by
  refine Moves.bind (Q := fun _ off => Inside Xbuf Xbuflen off ∧ 1 ≤ off) ?_
    fun b => moves_pure fun _ => id
  intro off st bs off' st' hoff hrun
  obtain ⟨hchk, hpos, rfl⟩ := chk_runs hrun
  have hbuf : 0 ≤ Xbuf := by
    rcases hoff.1 with h | h
    · omega
    · exact h
  have hbound := hlen hbuf
  obtain ⟨hlo', hle'⟩ := i32_of_chk (by omega) hchk
  refine ⟨⟨hbuf, hlo', hle', (i32_bounds _).2⟩, ?_⟩
  rcases hoff.2 with ⟨hlo, hhi⟩ | ⟨hlo, hhi⟩
  · rcases i32_sum hlo hhi (y := (1 : Nat)) (by decide) (by decide) with ⟨-, h⟩ | ⟨-, h⟩
    · omega
    · omega
  · rw [i32_eq (by omega) (by omega)] at hlo'
    omega

/-- A read whose bytes are then turned into a value. -/
theorem moves_image {α : Type} (len : Nat)
    (f : { bs : Bytes // bs.length = len } → α) :
    Moves (Behind Xbuf Xbuflen)
      (do pure (f (← read_buffer_chk_memcpy_incr_offset mem Xbuf Xbuflen len)))
      (fun _ => Inside Xbuf Xbuflen) :=
  (moves_chk hlen len).bind fun _ => moves_pure fun _ => id

/-- A string leaves the offset in the buffer. -/
theorem moves_string :
    Moves (Behind Xbuf Xbuflen) (deserialize_string_from_buffer mem Xbuf Xbuflen)
      (fun _ => Inside Xbuf Xbuflen) := by
  refine (moves_image hlen 4 _).bind fun Xread_len => moves_ite (fun _ => ?_) fun _ => ?_
  · exact (moves_image hlen _ fun bs => some bs.1).mono (fun _ => .inl) fun _ _ => id
  · exact moves_pure fun _ => id

/-- So does an address. -/
theorem moves_ipaddr :
    Moves (Behind Xbuf Xbuflen) (deserialize_ipaddr_from_buffer mem Xbuf Xbuflen)
      (fun _ => Inside Xbuf Xbuflen) := by
  refine (moves_image hlen 1 _).bind fun iptype => moves_ite (fun _ => ?_) fun _ =>
    moves_ite (fun _ => ?_) fun _ => moves_fail
  · exact (moves_image hlen 4 _).mono (fun _ => .inl) fun _ _ => id
  · exact (moves_image hlen 16 _).mono (fun _ => .inl) fun _ _ => id

/-- And every base type. -/
theorem Base.moves (b : Base) :
    Moves (Behind Xbuf Xbuflen) (b.deserialize_from_buffer mem Xbuf Xbuflen)
      (fun _ => Inside Xbuf Xbuflen) := by
  have hmap : ∀ {α β : Type} {m : Scan α} {f : α → β},
      Moves (Behind Xbuf Xbuflen) m (fun _ => Inside Xbuf Xbuflen) →
      Moves (Behind Xbuf Xbuflen) (do pure (f (← m))) (fun _ => Inside Xbuf Xbuflen) :=
    fun h => h.bind fun _ => moves_pure fun _ => id
  cases b with
  | bool => exact moves_image hlen 1 _
  | byte => exact hmap (moves_image hlen 1 _)
  | i16 | u16 => exact hmap (moves_image hlen 2 _)
  | i32 | u32 | ipv4 => exact hmap (moves_image hlen 4 _)
  | i64 | u64 => exact hmap (moves_image hlen 8 _)
  | string | xml => exact hmap (moves_string hlen)
  | ipaddr => exact hmap (moves_ipaddr hlen)
  | uuid => exact moves_image hlen 16 _

end Statements

-- ======================================================= skipping a value

/-- What a program returns, if it does. -/
def Gives {α : Type} (m : Prog Bytes Fault α) (Q : α → Prop) : Prop :=
  ∀ st a st', m.Runs st (.ok a) st' → Q a

section Skip

variable {α β τ : Type}

/-- The same for what a computation returns, without an offset. -/
theorem gives_pure {a : α} {Q : α → Prop} (h : Q a) :
    Gives (pure a : Prog Bytes Fault α) Q := by
  intro st a' st' hrun
  obtain ⟨heq, -⟩ := runs_pure.mp hrun
  cases heq
  exact h

/-- One computation after the other: the second one's result. -/
theorem gives_bind {m : Prog Bytes Fault α} {f : α → Prog Bytes Fault β} {Q : β → Prop}
    (h : ∀ a, Gives (f a) Q) : Gives (m >>= f) Q := by
  intro st b st' hrun
  rcases runs_bind.mp hrun with ⟨a, st₁, -, hf⟩ | ⟨e, -, he⟩
  · exact h a st₁ b st' hf
  · exact nomatch he

/-- A branch. -/
theorem gives_ite {c : Prop} [Decidable c] {m₁ m₂ : Prog Bytes Fault α} {Q : α → Prop}
    (h₁ : Gives m₁ Q) (h₂ : Gives m₂ Q) : Gives (if c then m₁ else m₂) Q := by
  by_cases h : c
  · rw [if_pos h]
    exact h₁
  · rw [if_neg h]
    exact h₂

/-- A loop, by its last turn. -/
theorem gives_loop {body : τ → Prog Bytes Fault (τ ⊕ α)} {Q : α → Prop}
    (h : ∀ t, Gives (body t) (Sum.elim (fun _ => True) Q)) (t : τ) :
    Gives (Prog.loop body t) Q := by
  intro st a st' hrun
  refine loop_rec (P := fun _ _ res _ => ∀ a, res = .ok a → Q a) ?_ ?_ ?_ hrun a rfl
  · intro t st a st' hturn a' heq
    cases heq
    exact h t st _ st' hturn
  · intro t st e st' _ a' heq
    exact nomatch heq
  · intro t st t₁ st₁ res st' _ ih
    exact ih

/-- The result is an `int32_t`. -/
theorem gives_skip (mem : Bytes) (a : SkipArgs) :
    Gives (thrift_binary_protocol_skip_from_buffer mem a) (· < 2 ^ 31) := by
  -- one call: the results of those inside it only go into a sum
  suffices hbody : Gives (skipFromBufferBody mem
      (thrift_binary_protocol_skip_from_buffer mem) a) (· < 2 ^ 31) from
    fun st r st' hrun => hbody st r st' (runs_fix.mp hrun)
  have hi32 : ∀ x : Int, i32 x < 2 ^ 31 := fun x => (i32_bounds x).2
  have hneg : (-1 : Int) < 2 ^ 31 := by decide
  unfold skipFromBufferBody
  cases hshape : shape a.type with
  | fixed n =>
      refine gives_pure ?_
      have hn := shape_fixed_le hshape
      by_cases hgt : n > a.buflen
      · rw [if_pos hgt]
        exact hneg
      · rw [if_neg hgt]
        omega
  | string =>
      refine gives_ite (gives_pure hneg) (gives_bind fun bytes => ?_)
      exact gives_ite (gives_ite (gives_pure hneg) (gives_pure (hi32 _)))
        (gives_pure (by decide))
  | struct =>
      refine gives_loop (fun t => ?_) _
      refine gives_ite (gives_pure hneg) (gives_bind fun b => ?_)
      refine gives_ite (gives_pure (hi32 _)) (gives_ite (gives_pure hneg) ?_)
      exact gives_bind fun _ => gives_pure trivial
  | list =>
      refine gives_ite (gives_pure hneg) (gives_bind fun b => gives_bind fun rest =>
        gives_ite (gives_pure hneg) (gives_bind fun bytes =>
        gives_ite (gives_pure hneg) (gives_loop (fun t => ?_) _)))
      exact gives_ite (gives_bind fun _ => gives_pure trivial) (gives_pure (hi32 _))
  | default => exact gives_pure (by decide)

end Skip

-- =============================================================== fields

section Fields

variable {mem : Bytes} {Xbuf : Int} {Xbuflen : Nat}

/-- Behind what was skipped the offset may lie beyond the buffer. -/
theorem moves_skipUnknown (Xftype : Nat) :
    Moves (Inside Xbuf Xbuflen) (skipUnknown mem Xbuf Xbuflen Xftype)
      (fun _ => Between Xbuf) := by
  intro off st u off' st' hoff hrun
  obtain ⟨hbuf, hlo, -, hhi⟩ := hoff
  unfold skipUnknown at hrun
  rw [if_neg (by omega)] at hrun
  rcases runs_bind.mp hrun with ⟨Xret, st₁, hskip, hres⟩ | ⟨e, -, he⟩
  · have hlt := gives_skip mem _ _ _ _ hskip
    by_cases hneg : Xret < 0
    · rw [if_pos hneg] at hres
      exact nomatch (runs_pure.mp hres).1
    · rw [if_neg hneg] at hres
      obtain ⟨heq, -⟩ := runs_pure.mp hres
      cases heq
      refine ⟨.inr hbuf, ?_⟩
      rcases i32_sum hlo hhi (Int.not_lt.mp hneg) hlt with ⟨h, heq⟩ | ⟨h, heq⟩
      · rw [heq]
        exact .inl ⟨by omega, h⟩
      · rw [heq]
        exact .inr ⟨by omega, by omega⟩
  · exact nomatch he

/-- The fields of a structure end with a stop byte inside the buffer. -/
theorem moves_fields (hlen : 0 ≤ Xbuf → Xbuf + Xbuflen < 2 ^ 32) {γ : Type}
    {fields : Int → Nat → γ → Scan γ}
    (hfields : ∀ Xfid Xftype g, Moves (Inside Xbuf Xbuflen) (fields Xfid Xftype g)
      (fun _ => Between Xbuf)) (g : γ) :
    Moves (Between Xbuf) (Scan.loop (readField mem Xbuf Xbuflen fields) g)
      (fun _ off => Inside Xbuf Xbuflen off ∧ 1 ≤ off) := by
  refine Moves.loop (fun g => (moves_byte hlen).bind fun Xftype => ?_) g
  refine moves_ite (fun _ => moves_pure fun _ => id) fun _ => ?_
  have hid : Moves (fun off => Inside Xbuf Xbuflen off ∧ 1 ≤ off)
      (deserialize_i16_from_buffer mem Xbuf Xbuflen) (fun _ => Inside Xbuf Xbuflen) :=
    (moves_image hlen 2 _).mono (fun _ h => h.1.behind) fun _ _ => id
  exact hid.bind fun Xfid => (hfields _ _ g).bind fun g => moves_pure fun _ => id

/-- The call of a structure's function; if the offset wraps, it is before
the memory. -/
theorem moves_call (hlen : 0 ≤ Xbuf → Xbuf + Xbuflen < 2 ^ 32) {α : Type}
    {f : Int → Nat → Scan α}
    (hf : ∀ (buf : Int) (buflen : Nat), (0 ≤ buf → buf + buflen < 2 ^ 32) →
      Moves (Between buf) (f buf buflen) (fun _ off => Inside buf buflen off ∧ 1 ≤ off)) :
    Moves (Behind Xbuf Xbuflen) (callFromBuffer Xbuf Xbuflen f)
      (fun _ => Behind Xbuf Xbuflen) := by
  intro off st a off' st' hoff hrun
  have hbuf : 0 ≤ Xbuf := hoff.elim (fun h => h.1) fun h => h.1
  have hbound := hlen hbuf
  have hzero : Between (Xbuf + off) 0 := ⟨.inl rfl, .inl ⟨by decide, by decide⟩⟩
  have hleft : 0 ≤ Xbuf + off → off ≤ Xbuflen ∧ 0 ≤ off := by
    intro hpos
    rcases hoff with ⟨-, hlo, hle, -⟩ | ⟨-, -, -, hneg⟩
    · exact ⟨hle, hlo⟩
    · omega
  have hcall := hf (Xbuf + off) (u64 (Xbuflen - off)) (by
    intro hpos
    obtain ⟨hle, hlo⟩ := hleft hpos
    unfold u64
    omega)
  rcases runs_bind.mp hrun with ⟨o, st₁, hrun, hres⟩ | ⟨e, -, he⟩
  · match o with
    | none => exact nomatch (runs_pure.mp hres).1
    | some (a', Xret) =>
        obtain ⟨⟨hpos, hlo', hle', hhi'⟩, -⟩ := hcall _ _ _ _ _ hzero hrun
        obtain ⟨hle, hlo⟩ := hleft hpos
        have hu64 : (u64 (Xbuflen - off) : Int) = Xbuflen - off := by
          unfold u64
          omega
        rw [hu64] at hle'
        have hhi : off < 2 ^ 31 := by
          rcases hoff with ⟨-, -, -, hhi⟩ | ⟨-, -, -, hneg⟩
          · exact hhi
          · omega
        simp only [if_neg (Int.not_lt.mpr hlo')] at hres
        obtain ⟨heq, -⟩ := runs_pure.mp hres
        cases heq
        rcases i32_sum hlo hhi hlo' hhi' with ⟨h, heq⟩ | ⟨h, heq⟩
        · rw [heq]
          exact .inl ⟨hbuf, by omega, by omega, h⟩
        · rw [heq]
          exact .inr ⟨hbuf, by omega, by omega, by omega⟩
  · exact nomatch he

end Fields

mutual

/-- The reader of a type keeps the offset within the buffer, or leaves it.
-/
theorem Ty.moves (mem : Bytes) : (t : Ty) → (Xbuf : Int) → (Xbuflen : Nat) →
    (0 ≤ Xbuf → Xbuf + Xbuflen < 2 ^ 32) →
    Moves (Behind Xbuf Xbuflen) (t.deserialize_field_from_buffer mem Xbuf Xbuflen)
      (fun _ => Behind Xbuf Xbuflen)
  | .base b, _, _, hlen => (b.moves hlen).mono (fun _ => id) fun _ _ => Inside.behind
  | .enum _, _, _, hlen =>
      (moves_image hlen 4 _).mono (fun _ => id) fun _ _ => Inside.behind
  | .struct _ fs, _, _, hlen => moves_call hlen fun buf buflen hlen =>
      moves_fields hlen (fs.moves mem buf buflen hlen) _
  | .list e, Xbuf, Xbuflen, hlen => by
      have helems := e.moves mem Xbuf Xbuflen hlen
      refine (moves_image hlen 1 _).bind fun _ => ?_
      refine Moves.bind (Q := fun _ => Inside Xbuf Xbuflen) ?_ fun size => ?_
      · exact (moves_image hlen 4 _).mono (fun _ => Inside.behind) fun _ _ => id
      · exact (helems.times size.toNat).mono (fun _ => Inside.behind) fun _ _ => id

/-- The same for the `switch` of a structure. -/
theorem Fields.moves (mem : Bytes) : (fs : Fields) → (Xbuf : Int) → (Xbuflen : Nat) →
    (0 ≤ Xbuf → Xbuf + Xbuflen < 2 ^ 32) → (Xfid : Int) → (Xftype : Nat) → (g : fs.Got) →
    Moves (Inside Xbuf Xbuflen) (fs.case_from_buffer mem Xbuf Xbuflen Xfid Xftype g)
      (fun _ => Between Xbuf)
  | .nil, _, _, _, _, Xftype, _ =>
      (moves_skipUnknown Xftype).bind fun _ => moves_pure fun _ => id
  | .cons key t fs, Xbuf, Xbuflen, hlen, Xfid, Xftype, g => by
      unfold Fields.case_from_buffer
      refine moves_ite (fun _ => moves_ite (fun _ => ?_) fun _ => ?_) fun _ => ?_
      · have hvalue := (t.moves mem Xbuf Xbuflen hlen).mono (P := Inside Xbuf Xbuflen)
          (fun _ => Inside.behind) fun _ _ => Behind.between
        exact hvalue.bind fun v => moves_pure fun _ => id
      · exact (moves_skipUnknown Xftype).bind fun _ => moves_pure fun _ => id
      · exact (fs.moves mem Xbuf Xbuflen hlen Xfid Xftype g.2).bind fun rest =>
          moves_pure fun _ => id

end

/-- A definition that is read ends with a stop byte inside the buffer. -/
theorem Def.moves (d : Def) (mem : Bytes) {Xbuf : Int} {Xbuflen : Nat} (hbuf : 0 ≤ Xbuf)
    (hlen : Xbuf + Xbuflen < 2 ^ 32) :
    Moves (· = 0) (d.read_binary_from_buffer mem Xbuf Xbuflen)
      (fun _ off => Inside Xbuf Xbuflen off ∧ 1 ≤ off) := by
  have hfields := @moves_fields mem Xbuf Xbuflen (fun _ => hlen) _ _
    (d.fields.moves mem Xbuf Xbuflen fun _ => hlen) d.fields.os_zalloc
  have hinside : Inside Xbuf Xbuflen 0 := ⟨hbuf, by decide, by omega, by decide⟩
  unfold Def.read_binary_from_buffer
  cases d.sandesh with
  | true =>
      have hname := (@moves_string mem Xbuf Xbuflen fun _ => hlen).mono (P := (· = 0))
        (fun off h => h ▸ hinside.behind) fun _ _ h => h.behind.between
      exact hname.bind fun _ => hfields
  | false =>
      exact hfields.mono (fun off h => h ▸ hinside.behind.between) fun _ _ => id

-- ============================================================ sandesh.c

section Decode

variable (mem : Bytes) (sinfo_find_fn : Bytes → Option Def)

end Decode

end Sandesh.CGen
