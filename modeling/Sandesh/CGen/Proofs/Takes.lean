/-
The emitted readers take what the grammar says, and are silent where it
says nothing is left.

`Takes m A` says that the outcomes of a statement without a report are the
entries of `A`: -1 for `none`, and else the place behind. The rules follow
the statements of the reader. Where a statement only looks at the buffer it
is computed (`readField_eq`, `Scans`).
-/
import Sandesh.CGen.Proofs.Skipped

namespace Sandesh.CGen.Errors

open Lib Binary Binary.C
open Lib.Prog (Sticky Meets Turned sticky_pure sticky_throw meets_pure)

-- ================================================================ reports

section Keeps

variable {α β γ : Type}

/-- A statement with `*error`, wherever it is run. -/
def Keeps (m : Reads α) : Prop := ∀ Xoffset, Sticky Clear (m Xoffset)

/-- The rules for the statements of a reader: none of them sets `*error`
back to 0. -/
theorem keeps_pure (a : α) : Keeps (pure a) := fun _ => sticky_pure _

/-- A statement that has no way to `*error` leaves it alone. -/
theorem keeps_scan (m : Scan α) : Keeps (Reads.scan m) := fun _ => sticky_keeping _

/-- One statement after the other. -/
theorem Keeps.bind {m : Reads α} {f : α → Reads β} (hm : Keeps m) (hf : ∀ a, Keeps (f a)) :
    Keeps (m >>= f) := by
  intro Xoffset
  refine (hm Xoffset).bind fun o => ?_
  cases o with
  | none => exact sticky_pure _
  | some x => exact hf x.1 x.2

/-- A loop whose turns keep `*error`. -/
theorem Keeps.loop {body : γ → Reads (γ ⊕ γ)} (h : ∀ g, Keeps (body g)) (g : γ) :
    Keeps (Reads.loop body g) := by
  intro Xoffset
  refine Sticky.loop (fun (t : γ × Int) => (h t.1 t.2).bind fun o => ?_) _
  match o with
  | none => exact sticky_pure _
  | some (.inl _, _) => exact sticky_pure _
  | some (.inr _, _) => exact sticky_pure _

/-- A statement a number of times. -/
theorem Keeps.times {m : Reads α} (h : Keeps m) (n : Nat) : Keeps (Reads.times m n) := by
  induction n with
  | zero => exact keeps_pure _
  | succ n ih => exact h.bind fun v => ih.bind fun vs => keeps_pure _

variable (mem : Bytes) (Xbuf : Int) (Xbuflen : Nat)

/-- The one statement of the readers that hands the pointer on. -/
theorem keeps_skipUnknown (Xftype : Nat) : Keeps (skipUnknown mem Xbuf Xbuflen Xftype) :=
  fun _ => (sticky_throw _).ite ((sticky_skip mem _).bind fun _ =>
    (sticky_pure _).ite (sticky_pure _))

/-- A field, if its value keeps `*error`. -/
theorem keeps_readField {fields : Int → Nat → γ → Reads γ}
    (h : ∀ Xfid Xftype g, Keeps (fields Xfid Xftype g)) (g : γ) :
    Keeps (readField mem Xbuf Xbuflen fields g) := by
  refine (keeps_scan _).bind fun Xftype => ?_
  by_cases hstop : thriftType Xftype = TType.T_STOP.code
  · rw [if_pos hstop]
    exact keeps_pure _
  · rw [if_neg hstop]
    exact (keeps_scan _).bind fun Xfid => (h _ _ g).bind fun g => keeps_pure _

/-- A reader called on the rest of the buffer. -/
theorem keeps_call {f : Int → Nat → Reads α} (h : ∀ buf buflen, Keeps (f buf buflen)) :
    Keeps (callFromBuffer Xbuf Xbuflen f) := by
  intro Xoffset
  refine (h _ _ 0).bind fun o => ?_
  match o with
  | none => exact sticky_pure _
  | some (a, Xret) => exact (sticky_pure _).ite (sticky_pure _)

mutual

/-- A reader does not take a report back, wherever it is run: nothing is
asked of the buffer here. The induction is that of the readers. -/
theorem keeps_field (mem : Bytes) : (t : Ty) → (Xbuf : Int) → (Xbuflen : Nat) →
    Keeps (deserialize_field_from_buffer mem t Xbuf Xbuflen)
  | .base _, _, _ => keeps_scan _
  | .enum _, _, _ => keeps_scan _
  | .struct _ fs, Xbuf, Xbuflen => keeps_call Xbuf Xbuflen fun buf buflen =>
      .loop (keeps_readField mem buf buflen (keeps_case mem fs buf buflen)) _
  | .list e, Xbuf, Xbuflen => (keeps_scan _).bind fun _ => (keeps_scan _).bind fun _ =>
      (keeps_field mem e Xbuf Xbuflen).times _

/-- The `switch` of a reader with these fields. -/
theorem keeps_case (mem : Bytes) : (fs : Fields) → (Xbuf : Int) → (Xbuflen : Nat) →
    (Xfid : Int) → (Xftype : Nat) → (g : fs.Got) →
    Keeps (case_from_buffer mem fs Xbuf Xbuflen Xfid Xftype g)
  | .nil, Xbuf, Xbuflen, _, Xftype, g =>
      (keeps_skipUnknown mem Xbuf Xbuflen Xftype).bind fun _ => keeps_pure _
  | .cons key t fs, Xbuf, Xbuflen, Xfid, Xftype, g => by
      unfold case_from_buffer
      by_cases hkey : Xfid = key
      · rw [if_pos hkey]
        by_cases htype : Xftype = t.type_to_enum.code
        · rw [if_pos htype]
          exact (keeps_field mem t Xbuf Xbuflen).bind fun _ => keeps_pure _
        · rw [if_neg htype]
          exact (keeps_skipUnknown mem Xbuf Xbuflen Xftype).bind fun _ => keeps_pure _
      · rw [if_neg hkey]
        exact (keeps_case mem fs Xbuf Xbuflen Xfid Xftype g.2).bind fun _ => keeps_pure _

end

end Keeps

-- ============================================================= statements

section Readers

variable {mem : Bytes} (hlen : mem.length < 2 ^ 31)

include hlen

/-- An outcome of a statement: -1, or a place to go on from. -/
inductive Leaves (mem : Bytes) (buf : Nat) {α : Type} :
    Option (α × Int) → Option Rest → Env → Prop
  | short {env : Env} : Leaves mem buf none none env
  | left {a : α} {off : Nat} {q : Rest} {env : Env} (h : Stands mem q (buf + off) env) :
      Leaves mem buf (some (a, (off : Int))) (some q) env

variable (mem) in
/-- The outcomes of the statement without a report are the entries of `A`. -/
def Takes {α : Type} (buf : Nat) (m : Reads α) (A : Grammar) : Prop :=
  ∀ ⦃p off env⦄, Stands mem p (buf + off) env → Meets Clear (m off) env (A p) (Leaves mem buf)

/-- A field that is skipped: the reader goes on behind the value, or there
was a report. -/
theorem takes_skipUnknown (buf Xftype : Nat) :
    Takes mem buf (skipUnknown mem buf (mem.length - buf) Xftype) (skipped Xftype) := by
  intro p off env h
  have hinside := h.inside
  have hleft := u32_left rfl hlen h
  unfold skipUnknown
  rw [if_neg (by omega), hleft, show ((buf : Int) + off).toNat = buf + off by omega]
  have hat : SkipAt mem ⟨buf + off, p.bytes.length, Xftype⟩ (Xftype, p) env :=
    ⟨rfl, h.length, h⟩
  refine ((meets_skip hlen hat).bind (K := fun r o => o = r) (fun _ =>
    (sticky_pure _).ite (sticky_pure _)) ?_).congr fun o => ?_
  · intro ret r env₁ _ _ hV
    cases hV with
    | @intro n q _ hq =>
        have hinside : buf + off + n ≤ mem.length := hq.inside
        have hsum : i32 ((off : Int) + (n : Int)) = (off + n : Nat) :=
          i32_eq (by omega) (by omega)
        rw [if_neg (Int.not_lt.mpr (Int.natCast_nonneg n)), hsum]
        refine meets_pure hq.clear (.left ?_)
        rw [← Nat.add_assoc]
        exact hq
  · exact ⟨fun ho => by obtain ⟨r, hr, rfl⟩ := ho; exact hr, fun ho => ⟨o, ho, rfl⟩⟩

omit hlen

section Rules

variable {α β γ : Type} {buf : Nat}

/-- The same grammar, in other words. -/
theorem Takes.congr {m : Reads α} {A B : Grammar} (h : Takes mem buf m A)
    (hiff : ∀ p o, A p o ↔ B p o) : Takes mem buf m B :=
  fun _ _ _ hstands => (h hstands).congr (hiff _)

/-- Nothing is taken. -/
theorem takes_pure (a : α) : Takes mem buf (pure a) fun p o => o = some p :=
  fun _ _ _ h => meets_pure h.clear (.left h)

/-- Statements in a row take their pieces in a row. The second must not take
a report of the first one back. -/
theorem Takes.bind {m : Reads α} {f : α → Reads β} {A B : Grammar}
    (hm : Takes mem buf m A) (hkeeps : ∀ a, Keeps (f a)) (hf : ∀ a, Takes mem buf (f a) B) :
    Takes mem buf (m >>= f) (A.before B) := by
  intro p off env h
  refine (hm h).bind (fun o => ?_) ?_
  · cases o with
    | none => exact sticky_pure _
    | some x => exact hkeeps x.1 x.2
  · intro o r env₁ hclear _ hV
    cases hV with
    | short => exact meets_pure hclear .short
    | left hq => exact hf _ hq

/-- Nothing behind a piece is the piece alone. -/
theorem before_done {A : Grammar} {p : Rest} {o : Option Rest} :
    A.before (fun p o => o = some p) p o ↔ A p o := by
  constructor
  · intro h
    obtain ⟨r, hA, hr⟩ := h
    cases r with
    | none => exact hr ▸ hA
    | some q => exact hr ▸ hA
  · intro h
    refine ⟨o, h, ?_⟩
    cases o with
    | none => rfl
    | some q => rfl

/-- Nothing is taken behind the first statement. -/
theorem Takes.last {m : Reads α} {A : Grammar} (hm : Takes mem buf m A) (f : α → β) :
    Takes mem buf (do pure (f (← m))) A :=
  (hm.bind (fun _ => keeps_pure _) fun a => takes_pure (f a)).congr fun _ _ => before_done

/-- A loop over a known number of elements. -/
theorem Takes.times {m : Reads α} {A : Grammar} (h : Takes mem buf m A) (hkeeps : Keeps m)
    (n : Nat) : Takes mem buf (Reads.times m n) (times A n) := by
  induction n with
  | zero => exact takes_pure _
  | succ n ih =>
      exact h.bind (fun v => (hkeeps.times n).bind fun vs => keeps_pure _) fun v =>
        ih.last (v :: ·)

end Rules

-- ======================================================= bytes in memory

section Scans

variable {α β : Type} {buf off : Nat} {p : Rest} {env : Env}

/-- A statement that is known to go on, or to stop. -/
theorem scan_then {m : Scan α} {f : α → Scan β} {Xoffset Xoffset₁ : Int} {a : α}
    (h : m Xoffset = pure (some (a, Xoffset₁))) : (m >>= f) Xoffset = f a Xoffset₁ := by
  show (m Xoffset >>= _) = _
  rw [h]
  rfl

/-- A statement that falls short ends the rest. -/
theorem scan_stops {m : Scan α} {f : α → Scan β} {Xoffset : Int}
    (h : m Xoffset = pure none) : (m >>= f) Xoffset = pure none := by
  show (m Xoffset >>= _) = _
  rw [h]
  rfl

include hlen

/-- A bounds check fails where fewer bytes are left. The offset is an
`int32_t`: where the sum wraps it is negative, and too large as a `size_t`.
-/
theorem chk_short (h : Stands mem p (buf + off) env) {n : Nat} (hn : n < 2 ^ 31)
    (hlt : p.bytes.length < n) :
    read_buffer_chk_memcpy_incr_offset mem buf (mem.length - buf) n off = pure none := by
  have hlength := h.length
  have hinside := h.inside
  unfold read_buffer_chk_memcpy_incr_offset
  refine if_pos ?_
  -- the sum is too large, or it has become negative
  by_cases hsum : off + n < 2 ^ 31
  · rw [i32_eq (by omega) (by omega)]
    unfold u64
    omega
  · rw [i32_high (by omega) (by omega)]
    unfold u64
    omega

/-- Where the bytes are there they are copied, and the offset goes on behind
them. -/
theorem chk_takes (h : Stands mem p (buf + off) env) {n : Nat} (hn : n ≤ p.bytes.length) :
    read_buffer_chk_memcpy_incr_offset mem buf (mem.length - buf) n off =
      pure (some (⟨p.bytes.take n, List.length_take_of_le hn⟩, ((off + n : Nat) : Int))) := by
  have hlength := h.length
  have hinside := h.inside
  have hsum : i32 ((off : Int) + n) = (off + n : Nat) := i32_eq (by omega) (by omega)
  have hpos : ((buf : Int) + off).toNat = buf + off := by omega
  unfold read_buffer_chk_memcpy_incr_offset memcpyFrom
  rw [hsum, u64_nat (by omega), if_neg (by omega), dif_pos ⟨by omega, by omega⟩]
  simp only [hpos, h.bytes]
  rfl

/-- A statement that makes something of bytes that are there. -/
theorem image_takes (h : Stands mem p (buf + off) env) {n : Nat} (hn : n ≤ p.bytes.length)
    (f : { bs : Bytes // bs.length = n } → α) :
    (do
      let b ← read_buffer_chk_memcpy_incr_offset mem buf (mem.length - buf) n
      pure (f b) : Scan α) off =
      pure (some (f ⟨p.bytes.take n, List.length_take_of_le hn⟩, ((off + n : Nat) : Int))) :=
  scan_then (chk_takes hlen h hn)

/-- The value is the number that the bytes are in network order, here and
for the longer ones. -/
theorem byte_takes (h : Stands mem p (buf + off) env) (hn : 1 ≤ p.bytes.length) :
    deserialize_byte_from_buffer mem buf (mem.length - buf) off =
      pure (some (BitVec.ofNat 8 (numberAt 1 p.bytes), ((off + 1 : Nat) : Int))) := by
  have himage := image_takes hlen h hn fun b => BitVec.ofNat 8 (ofImage b.1)
  rwa [ofImage_one] at himage

/-- Two bytes are there for an `i16`. -/
theorem i16_takes (h : Stands mem p (buf + off) env) (hn : 2 ≤ p.bytes.length) :
    deserialize_i16_from_buffer mem buf (mem.length - buf) off =
      pure (some (BitVec.ofNat 16 (numberAt 2 p.bytes), ((off + 2 : Nat) : Int))) := by
  have himage := image_takes hlen h hn fun b => BitVec.ofNat 16 (swap 2 (ofImage b.1))
  rwa [swap_image hn] at himage

/-- Four bytes are there for an `i32`. -/
theorem i32_takes (h : Stands mem p (buf + off) env) (hn : 4 ≤ p.bytes.length) :
    deserialize_i32_from_buffer mem buf (mem.length - buf) off =
      pure (some (BitVec.ofNat 32 (numberAt 4 p.bytes), ((off + 4 : Nat) : Int))) := by
  have himage := image_takes hlen h hn fun b => BitVec.ofNat 32 (swap 4 (ofImage b.1))
  rwa [swap_image hn] at himage

/-- Each of the three is -1 where its bytes are not there. -/
theorem byte_short (h : Stands mem p (buf + off) env) (hlt : p.bytes.length < 1) :
    deserialize_byte_from_buffer mem buf (mem.length - buf) off = pure none :=
  scan_stops (chk_short hlen h (by decide) hlt)

/-- An `i16` with fewer than two. -/
theorem i16_short (h : Stands mem p (buf + off) env) (hlt : p.bytes.length < 2) :
    deserialize_i16_from_buffer mem buf (mem.length - buf) off = pure none :=
  scan_stops (chk_short hlen h (by decide) hlt)

/-- An `i32` with fewer than four. -/
theorem i32_short (h : Stands mem p (buf + off) env) (hlt : p.bytes.length < 4) :
    deserialize_i32_from_buffer mem buf (mem.length - buf) off = pure none :=
  scan_stops (chk_short hlen h (by decide) hlt)

/-- The statement takes a value of this span, or falls short. -/
def Scans (mem : Bytes) (buf : Nat) (m : Scan α) (span : Bytes → Option Nat) : Prop :=
  ∀ ⦃p off env⦄, Stands mem p (buf + off) env →
    (span p.bytes = none ∧ m off = pure none) ∨
      ∃ n a, span p.bytes = some n ∧ n ≤ p.bytes.length ∧
        m off = pure (some (a, ((off + n : Nat) : Int)))

/-- What is made of a fixed number of bytes. -/
theorem scans_image {n : Nat} (hn : n < 2 ^ 31) (f : { bs : Bytes // bs.length = n } → α) :
    Scans mem buf (do
      let b ← read_buffer_chk_memcpy_incr_offset mem buf (mem.length - buf) n
      pure (f b)) (within n) := by
  intro p off env h
  by_cases hlt : p.bytes.length < n
  · exact .inl ⟨within_of_lt hlt, scan_stops (chk_short hlen h hn hlt)⟩
  · have hle := Nat.le_of_not_lt hlt
    exact .inr ⟨n, _, within_of_le hle, hle, scan_then (chk_takes hlen h hle)⟩

omit hlen in
/-- What is made of a value that is taken makes no difference. -/
theorem Scans.last {m : Scan α} {span : Bytes → Option Nat} (h : Scans mem buf m span)
    (f : α → β) : Scans mem buf (do pure (f (← m))) span := by
  intro p off env hstands
  rcases h hstands with ⟨hspan, hm⟩ | ⟨n, a, hspan, hn, hm⟩
  · exact .inl ⟨hspan, scan_stops hm⟩
  · exact .inr ⟨n, f a, hspan, hn, scan_then hm⟩

omit hlen in
/-- The same behind `k` bytes that are there. -/
theorem Scans.behind {m : Scan α} {n k : Nat} (hm : Scans mem buf m (within n))
    (h : Stands mem p (buf + off) env) (hk : k ≤ p.bytes.length) :
    (within (k + n) p.bytes = none ∧ m (off + k : Nat) = pure none) ∨
      ∃ l a, within (k + n) p.bytes = some l ∧ l ≤ p.bytes.length ∧
        m (off + k : Nat) = pure (some (a, ((off + l : Nat) : Int))) := by
  have hnext : Stands mem (p.drop k) (buf + (off + k)) env := by
    rw [← Nat.add_assoc]
    exact h.drop hk
  have hlength : (p.drop k).bytes.length = p.bytes.length - k := List.length_drop
  rcases hm hnext with ⟨hspan, hrun⟩ | ⟨l, a, hspan, hle, hrun⟩
  · have hlt : (p.drop k).bytes.length < n := by
      by_contra hle
      rw [within_of_le (Nat.le_of_not_lt hle)] at hspan
      exact nomatch hspan
    exact .inl ⟨within_of_lt (by omega), hrun⟩
  · have hle : n ≤ (p.drop k).bytes.length := by
      by_contra hlt
      rw [within_of_lt (Nat.lt_of_not_le hlt)] at hspan
      exact nomatch hspan
    rw [within_of_le hle] at hspan
    cases hspan
    refine .inr ⟨k + n, a, within_of_le (by omega), by omega, ?_⟩
    rw [hrun, Nat.add_assoc]

/-- A length, and so many bytes; a length that is not positive stands for no
bytes. -/
theorem scans_string : Scans mem buf
    (deserialize_string_from_buffer mem buf (mem.length - buf)) spanString := by
  intro p off env h
  by_cases hfour : p.bytes.length < 4
  · exact .inl ⟨if_pos hfour, scan_stops (i32_short hlen h hfour)⟩
  have hspan : spanString p.bytes = within (4 + (sizeAt p.bytes).toNat) p.bytes := if_neg hfour
  have hlt := sizeAt_lt p.bytes
  unfold deserialize_string_from_buffer
  rw [scan_then (i32_takes hlen h (Nat.le_of_not_lt hfour)), toInt_sizeAt, hspan]
  by_cases hpos : sizeAt p.bytes > 0
  · rw [if_pos hpos, toNat_sizeAt hpos]
    exact (scans_image hlen (by omega) fun b => some b.1).behind h (Nat.le_of_not_lt hfour)
  · have hnone : 4 + (sizeAt p.bytes).toNat = 4 := by omega
    rw [if_neg hpos, hnone]
    exact .inr ⟨4, none, within_of_le (by omega), by omega, rfl⟩

/-- A family, and the bytes that go with it; another family ends the
statement. -/
theorem scans_ipaddr : Scans mem buf
    (deserialize_ipaddr_from_buffer mem buf (mem.length - buf)) Base.ipaddr.span := by
  intro p off env h
  by_cases hone : p.bytes.length < 1
  · have hnil : p.bytes = [] := List.eq_nil_of_length_eq_zero (by omega)
    refine .inl ⟨?_, scan_stops (byte_short hlen h hone)⟩
    rw [hnil]
    rfl
  have hone := Nat.le_of_not_lt hone
  have hfamily : (BitVec.ofNat 8 (numberAt 1 p.bytes)).toNat = numberAt 1 p.bytes := by
    rw [BitVec.toNat_ofNat]
    exact Nat.mod_eq_of_lt (numberAt_one_lt _)
  have hspan : Base.ipaddr.span p.bytes = if numberAt 1 p.bytes = AF_INET then
      within 5 p.bytes else if numberAt 1 p.bytes = AF_INET6 then within 17 p.bytes
      else none := rfl
  unfold deserialize_ipaddr_from_buffer
  rw [scan_then (byte_takes hlen h hone), hfamily, hspan]
  by_cases hv4 : numberAt 1 p.bytes = AF_INET
  · simp only [if_pos hv4]
    exact (scans_image hlen (by decide) fun b => IpAddr.ipv4 b.1 b.2).behind h hone
  by_cases hv6 : numberAt 1 p.bytes = AF_INET6
  · simp only [if_neg hv4, if_pos hv6]
    exact (scans_image hlen (by decide) fun b => IpAddr.ipv6 b.1 b.2).behind h hone
  · refine .inl ⟨?_, ?_⟩
    · rw [if_neg hv4, if_neg hv6]
    · rw [if_neg hv4, if_neg hv6]
      rfl

/-- A byte takes one byte. -/
theorem scans_byte : Scans mem buf
    (deserialize_byte_from_buffer mem buf (mem.length - buf)) (within 1) :=
  scans_image hlen (by decide) fun b => BitVec.ofNat 8 (ofImage b.1)

/-- An `i16` takes two. -/
theorem scans_i16 : Scans mem buf
    (deserialize_i16_from_buffer mem buf (mem.length - buf)) (within 2) :=
  scans_image hlen (by decide) fun b => BitVec.ofNat 16 (swap 2 (ofImage b.1))

/-- An `i32` takes four. -/
theorem scans_i32 : Scans mem buf
    (deserialize_i32_from_buffer mem buf (mem.length - buf)) (within 4) :=
  scans_image hlen (by decide) fun b => BitVec.ofNat 32 (swap 4 (ofImage b.1))

/-- An `i64` takes eight. -/
theorem scans_i64 : Scans mem buf
    (deserialize_i64_from_buffer mem buf (mem.length - buf)) (within 8) :=
  scans_image hlen (by decide) fun b => BitVec.ofNat 64 (os_get_value64 b.1)

/-- The reader of each base type takes what `Base.span` says. -/
theorem scans_base (b : Base) :
    Scans mem buf (b.deserialize_from_buffer mem buf (mem.length - buf)) b.span := by
  cases b with
  | bool => exact scans_image hlen (by decide) _
  | byte => exact (scans_byte hlen).last _
  | i16 | u16 => exact (scans_i16 hlen).last _
  | i32 | u32 | ipv4 => exact (scans_i32 hlen).last _
  | i64 | u64 => exact (scans_i64 hlen).last _
  | string | xml => exact (scans_string hlen).last _
  | ipaddr => exact (scans_ipaddr hlen).last _
  | uuid => exact scans_image hlen (by decide) _

end Scans

-- =============================================================== readers

section Statements

variable {α γ : Type} {buf : Nat}

/-- A statement that only looks at the buffer: it is silent where the value
is not there. -/
theorem takes_scan {m : Scan α} {span : Bytes → Option Nat} (hm : Scans mem buf m span) :
    Takes mem buf (Reads.scan m) (spans span) := by
  intro p off env h
  unfold Reads.scan spans
  rcases hm h with ⟨hspan, hrun⟩ | ⟨n, a, hspan, hn, hrun⟩
  · rw [hrun, hspan]
    exact meets_pure h.clear .short
  · rw [hrun, hspan]
    refine meets_pure h.clear (.left ?_)
    rw [← Nat.add_assoc]
    exact h.drop hn

/-- The same as `scan_then` and `scan_stops`, with `*error`. -/
theorem reads_then {m : Scan α} {f : α → Reads γ} {Xoffset Xoffset₁ : Int} {a : α}
    (h : m Xoffset = pure (some (a, Xoffset₁))) :
    (Reads.scan m >>= f) Xoffset = f a Xoffset₁ := by
  show (keeping (m Xoffset) >>= _) = _
  rw [h]
  rfl

/-- The same for a statement with `*error`. -/
theorem reads_stops {m : Scan α} {f : α → Reads γ} {Xoffset : Int}
    (h : m Xoffset = pure none) : (Reads.scan m >>= f) Xoffset = pure none := by
  show (keeping (m Xoffset) >>= _) = _
  rw [h]
  rfl

include hlen

/-- One turn of the loop over the fields. -/
theorem readField_eq {p : Rest} {off : Nat} {env : Env} (h : Stands mem p (buf + off) env)
    (fields : Int → Nat → γ → Reads γ) (g : γ) :
    readField mem buf (mem.length - buf) fields g off =
      if p.bytes.length < 1 then pure none
      else if p.type = TType.T_STOP.code then pure (some (.inr g, ((off + 1 : Nat) : Int)))
      else if p.bytes.length < 3 then pure none
      else (fields p.id p.type g >>= fun g => pure (.inl g) : Reads (γ ⊕ γ))
        ((off + 3 : Nat) : Int) := by
  unfold readField
  by_cases hone : p.bytes.length < 1
  · rw [if_pos hone, reads_stops (byte_short hlen h hone)]
  have hnext := h.drop (n := 1) (by omega)
  rw [Nat.add_assoc] at hnext
  have hlength : (p.drop 1).bytes.length = p.bytes.length - 1 := List.length_drop
  rw [if_neg hone, reads_then (byte_takes hlen h (Nat.le_of_not_lt hone)), type_eq]
  by_cases hstop : p.type = TType.T_STOP.code
  · rw [if_pos hstop, if_pos hstop]
    rfl
  rw [if_neg hstop, if_neg hstop]
  by_cases hthree : p.bytes.length < 3
  · rw [if_pos hthree, reads_stops (i16_short hlen hnext (by omega))]
  · rw [if_neg hthree, reads_then (i16_takes hlen hnext (by omega))]
    rfl

/-- The outcome of a turn that goes on: -1, or another turn. -/
inductive GoesOn (mem : Bytes) (buf : Nat) :
    Option ((γ ⊕ γ) × Int) → Option Rest → Env → Prop
  | short {env : Env} : GoesOn mem buf none none env
  | again {g : γ} {off : Nat} {q : Rest} {env : Env} (h : Stands mem q (buf + off) env) :
      GoesOn mem buf (some (.inl g, (off : Int))) (some q) env

/-- The loop over the fields takes fields up to a stop, if the `switch`
takes what follows a type and an id. -/
theorem takes_fields {fields : Int → Nat → γ → Reads γ} {A : Nat → Int → Grammar}
    (hkeeps : ∀ Xfid Xftype g, Keeps (fields Xfid Xftype g))
    (h : ∀ Xfid Xftype g, Takes mem buf (fields Xfid Xftype g) (A Xftype Xfid)) (g : γ) :
    Takes mem buf (Reads.loop (readField mem buf (mem.length - buf) fields) g)
      (upToStop A) := by
  intro p off env hstands
  refine Meets.loop
    (fun (t : γ × Int) p env => ∃ off : Nat, t.2 = off ∧ Stands mem p (buf + off) env)
    (fun t => ?_) ?_ ⟨off, rfl, hstands⟩
  · refine (keeps_readField mem buf (mem.length - buf) hkeeps t.1 t.2).bind fun o => ?_
    match o with
    | none => exact sticky_pure _
    | some (.inl _, _) => exact sticky_pure _
    | some (.inr _, _) => exact sticky_pure _
  intro t p env hat
  obtain ⟨g, Xoffset⟩ := t
  obtain ⟨off, rfl, hstands⟩ := hat
  have hclear := hstands.clear
  unfold fieldTurn
  simp only [readField_eq hlen hstands]
  by_cases hone : p.bytes.length < 1
  · simp only [if_pos hone]
    exact meets_pure hclear (.leave .short)
  by_cases hstop : p.type = TType.T_STOP.code
  · simp only [if_neg hone, if_pos hstop]
    refine meets_pure hclear (.leave (.left ?_))
    rw [← Nat.add_assoc]
    exact hstands.drop (by omega)
  by_cases hthree : p.bytes.length < 3
  · simp only [if_neg hone, if_neg hstop, if_pos hthree]
    exact meets_pure hclear (.leave .short)
  simp only [if_neg hone, if_neg hstop, if_neg hthree]
  have hvalue : Stands mem (p.drop 3) (buf + (off + 3)) env := by
    rw [← Nat.add_assoc]
    exact hstands.drop (by omega)
  have hgoes : Meets Clear ((fields p.id p.type g >>= fun g => pure (.inl g) :
      Reads (γ ⊕ γ)) ((off + 3 : Nat) : Int)) env
      (fun r => ∃ r', A p.type p.id (p.drop 3) r' ∧ r = r') (GoesOn mem buf) := by
    refine (h p.id p.type g hvalue).bind (fun o => ?_) ?_
    · cases o with
      | none => exact sticky_pure _
      | some x => exact sticky_pure _
    · intro o r env₁ hclear _ hV
      cases hV with
      | short => exact meets_pure hclear .short
      | left hq => exact meets_pure hclear (.again hq)
  refine (hgoes.bind (K := fun r o => o = turned r) (fun o => ?_) ?_).congr fun o => ?_
  · match o with
    | none => exact sticky_pure _
    | some (.inl _, _) => exact sticky_pure _
    | some (.inr _, _) => exact sticky_pure _
  · intro o r env₁ hclear _ hV
    cases hV with
    | short => exact meets_pure hclear (.leave .short)
    | again hq => exact meets_pure hclear (.again ⟨_, rfl, hq⟩)
  · constructor
    · intro hex
      obtain ⟨r, ⟨r', hA, rfl⟩, ho⟩ := hex
      exact ⟨r, hA, ho⟩
    · intro hex
      obtain ⟨r, hA, ho⟩ := hex
      exact ⟨r, ⟨r, hA, rfl⟩, ho⟩

/-- The function of a structure starts over at offset 0, in a buffer that
begins where the caller stands; the caller adds what it returns. -/
theorem takes_call {f : Int → Nat → Reads α} {A : Grammar}
    (h : ∀ buf : Nat, Takes mem buf (f buf (mem.length - buf)) A) :
    Takes mem buf (callFromBuffer buf (mem.length - buf) f) A := by
  intro p off env hstands
  have hinside := hstands.inside
  have hbuf : (buf : Int) + off = ((buf + off : Nat) : Int) := rfl
  have hbuflen : u64 (((mem.length - buf : Nat) : Int) - off) = mem.length - (buf + off) := by
    unfold u64
    omega
  unfold callFromBuffer
  rw [hbuf, hbuflen]
  have hcall : Stands mem p (buf + off + 0) env := hstands
  refine ((h (buf + off) hcall).bind (K := fun r o => o = r) (fun o => ?_) ?_).congr
    fun o => ?_
  · match o with
    | none => exact sticky_pure _
    | some (_, _) => exact (sticky_pure _).ite (sticky_pure _)
  · intro o r env₁ hclear _ hV
    cases hV with
    | short => exact meets_pure hclear .short
    | @left a n q _ hq =>
        have hinside : buf + off + n ≤ mem.length := hq.inside
        have hsum : i32 ((off : Int) + (n : Int)) = (off + n : Nat) :=
          i32_eq (by omega) (by omega)
        simp only [if_neg (Int.not_lt.mpr (Int.natCast_nonneg n)), hsum]
        refine meets_pure hclear (.left ?_)
        rw [← Nat.add_assoc]
        exact hq
  · exact ⟨fun ho => by obtain ⟨r, hr, rfl⟩ := ho; exact hr, fun ho => ⟨o, ho, rfl⟩⟩

end Statements

include hlen

mutual

/-- The reader of a type takes what the grammar has for it. The induction is
that of the type; the list is the one case whose length comes from the
buffer. -/
theorem takes_field : (t : Ty) → (buf : Nat) →
    Takes mem buf (deserialize_field_from_buffer mem t buf (mem.length - buf)) t.takes
  | .base b, buf => takes_scan (scans_base hlen b)
  | .enum _, buf => takes_scan (scans_i32 hlen)
  | .struct _ fs, buf => takes_call hlen fun buf =>
      takes_fields hlen (keeps_case mem fs buf _) (takes_case fs buf) _
  | .list e, buf => by
      intro p off env h
      unfold deserialize_field_from_buffer Ty.takes
      by_cases hone : p.bytes.length < 1
      · rw [reads_stops (byte_short hlen h hone)]
        simp only [if_pos (show p.bytes.length < 5 by omega)]
        exact meets_pure h.clear .short
      have hnext := h.drop (n := 1) (by omega)
      rw [Nat.add_assoc] at hnext
      have hlength : (p.drop 1).bytes.length = p.bytes.length - 1 := List.length_drop
      rw [reads_then (byte_takes hlen h (Nat.le_of_not_lt hone))]
      by_cases hfive : p.bytes.length < 5
      · rw [reads_stops (i32_short hlen hnext (by omega))]
        simp only [if_pos hfive]
        exact meets_pure h.clear .short
      have helements := hnext.drop (n := 4) (by omega)
      rw [Nat.add_assoc, Rest.drop_drop] at helements
      have hsize : (BitVec.ofNat 32 (numberAt 4 (p.drop 1).bytes)).toNat
          = numberAt 4 (p.bytes.drop 1) := toNat_numberAt _
      rw [reads_then (i32_takes hlen hnext (by omega)), hsize]
      simp only [if_neg hfive]
      exact (takes_field e buf).times (keeps_field mem e _ _) _ helements

/-- The `switch`: a field that is known with its type, and else a value that
is skipped. -/
theorem takes_case : (fs : Fields) → (buf : Nat) → (Xfid : Int) → (Xftype : Nat) →
    (g : fs.Got) → Takes mem buf
      (case_from_buffer mem fs buf (mem.length - buf) Xfid Xftype g) (fs.takes Xftype Xfid)
  | .nil, buf, _, Xftype, g => (takes_skipUnknown hlen buf Xftype).last fun _ => g
  | .cons key t fs, buf, Xfid, Xftype, g => by
      unfold case_from_buffer Fields.takes
      by_cases hkey : Xfid = key
      · rw [if_pos hkey, if_pos hkey]
        by_cases htype : Xftype = t.type_to_enum.code
        · rw [if_pos htype, if_pos htype]
          exact (takes_field t buf).last fun v => (some v, g.2)
        · rw [if_neg htype, if_neg htype]
          exact (takes_skipUnknown hlen buf Xftype).last fun _ => g
      · rw [if_neg hkey, if_neg hkey]
        exact (takes_case fs buf Xfid Xftype g.2).last fun rest => (g.1, rest)

end

end Readers

end Sandesh.CGen.Errors
