/-
A skip takes what the grammar says, or reports.

The code stands somewhere in the buffer (`Stands`), and so far nothing has
been reported. What it does once something is reported does not matter,
since no store sets `*error` back to 0 (the `sticky` lemmas); until then the
results of `thrift_binary_protocol_skip_from_buffer` are the entries of
`skipped` (`meets_skip`). Below 2^31 bytes no sum wraps.
-/
import Sandesh.CGen.Errors
import Sandesh.CGen.Grammar

namespace Sandesh.CGen.Errors

open Lib Binary Binary.C
open Lib.Prog (Runs Sticky Meets Turned runs_pure runs_act runs_focus sticky_pure meets_pure
  meets_none)

-- ================================================================ reports

/-- Nothing has been reported. -/
def Clear (env : Env) : Prop := env.error = 0

/-- Code without a way to `*error` runs as it does without it. -/
theorem runs_keeping {α : Type} {m : Prog Bytes Fault α} {env env' : Env}
    {res : Except Fault α} :
    (keeping m).Runs env res env' ↔
      ∃ state, m.Runs env.state res state ∧ env' = ⟨state, env.error⟩ :=
  runs_focus

section Sticky

variable {α β γ : Type}

/-- A store of an error is not taken back where the error is not 0. -/
theorem sticky_setting {code : Int} (h : code ≠ 0) (a : α) : Sticky Clear (setting code a) := by
  intro env res env' hrun herr
  cases runs_act.mp hrun
  exact absurd herr h

theorem sticky_keeping (m : Prog Bytes Fault α) : Sticky Clear (keeping m) := by
  intro env res env' hrun herr
  obtain ⟨state, -, rfl⟩ := runs_keeping.mp hrun
  exact herr

theorem receive_ne_zero : THRIFT_TRANSPORT_ERROR_RECEIVE ≠ 0 := by decide

/-- All the checks of a skip but one store this error. -/
theorem sticky_receive (a : α) : Sticky Clear (setting THRIFT_TRANSPORT_ERROR_RECEIVE a) :=
  sticky_setting receive_ne_zero a

section Skip

variable (mem : Bytes) {skip : SkipArgs → Prog Env Fault Int}
  (hskip : ∀ a, Sticky Clear (skip a))

include hskip

/-- The turns of both loops go on after a call that has failed, but they do
not take its report back. -/
theorem sticky_skipField (buf buflen result : Nat) :
    Sticky Clear (skipField mem skip buf buflen result) :=
  (sticky_receive _).ite ((sticky_keeping _).bind fun _ => (sticky_pure _).ite
    ((sticky_receive _).ite ((hskip _).bind fun _ => sticky_pure _)))

omit mem in
theorem sticky_skipElement (buf buflen elem_type : Nat) (size : Int) (t : Nat × Nat) :
    Sticky Clear (skipElement skip buf buflen elem_type size t) :=
  ((hskip _).bind fun _ => sticky_pure _).ite (sticky_pure _)

/-- One level of the recursion, if the calls below do not take a report
back. -/
theorem sticky_skipBody (a : SkipArgs) : Sticky Clear (skipFromBufferBody mem skip a) := by
  unfold skipFromBufferBody
  cases shape a.type with
  | fixed n => exact (sticky_receive _).ite (sticky_pure _)
  | string =>
      exact (sticky_receive _).ite ((sticky_keeping _).bind fun _ =>
        ((sticky_receive _).ite (sticky_pure _)).ite (sticky_pure _))
  | struct => exact Sticky.loop (sticky_skipField mem hskip _ _) 0
  | list =>
      exact (sticky_receive _).ite ((sticky_keeping _).bind fun _ => (sticky_keeping _).bind
        fun _ => (sticky_receive _).ite ((sticky_keeping _).bind fun _ =>
        (sticky_setting (by decide) _).ite
          (Sticky.loop (sticky_skipElement hskip _ _ _ _) _)))
  | default => exact sticky_pure _

end Skip

/-- A skip does not take a report back. -/
theorem sticky_skip (mem : Bytes) (a : SkipArgs) :
    Sticky Clear (thrift_binary_protocol_skip_from_buffer mem a) :=
  Sticky.fix (fun _ hskip => sticky_skipBody mem hskip) a

end Sticky

-- ================================================================ places

/-- The code stands at `pos` in the memory, and the buffer ends with it. -/
structure Stands (mem : Bytes) (p : Rest) (pos : Nat) (env : Env) : Prop where
  inside : pos ≤ mem.length
  bytes : p.bytes = mem.drop pos
  stale : p.stale = env.state
  clear : Clear env

section Stands

variable {mem : Bytes} {p : Rest} {pos : Nat} {env : Env}

/-- What is left ends with the memory. -/
theorem Stands.length (h : Stands mem p pos env) : p.bytes.length = mem.length - pos := by
  rw [h.bytes, List.length_drop]

/-- Behind bytes that are there. -/
theorem Stands.drop (h : Stands mem p pos env) {n : Nat} (hn : n ≤ p.bytes.length) :
    Stands mem (p.drop n) (pos + n) env where
  inside := by
    have := h.length
    have := h.inside
    omega
  bytes := by
    show p.bytes.drop n = _
    rw [h.bytes, List.drop_drop]
  stale := h.stale
  clear := h.clear

/-- Bytes in a row. -/
theorem Rest.drop_drop (p : Rest) (a b : Nat) : (p.drop a).drop b = p.drop (a + b) := by
  show Rest.mk ((p.bytes.drop a).drop b) p.stale = _
  rw [List.drop_drop]
  rfl

/-- A report is no outcome. -/
theorem meets_setting {α ρ : Type} {code : Int} (h : code ≠ 0) {a : α}
    {V : α → ρ → Env → Prop} : Meets Clear (setting code a) env (fun _ => False) V := by
  refine meets_none fun a' env' hrun herr => ?_
  cases runs_act.mp hrun
  exact h herr

/-- A statement that is known to succeed at once. -/
theorem keeping_pure {α β : Type} (a : α) (f : α → Prog Env Fault β) :
    (keeping (pure a) >>= f) = f a := rfl

/-- The bytes of a variable that is not set. -/
theorem keeping_draw {β : Type} (n : Nat) (env : Env) (f : Bytes → Prog Env Fault β) :
    (keeping (drawStale n) >>= f) env
      = f (draw n env.state).1 ⟨(draw n env.state).2, env.error⟩ := rfl

/-- Bytes that are there. -/
theorem keeping_fetch {β : Type} (h : Stands mem p pos env) {n : Nat}
    (hn : n ≤ p.bytes.length) (f : Bytes → Prog Env Fault β) :
    (keeping (fetch mem pos n) >>= f) = f (p.bytes.take n) := by
  have hlength := h.length
  have hinside := h.inside
  have hfetch : fetch mem pos n = pure (p.bytes.take n) := by
    unfold fetch
    rw [if_pos (by omega), h.bytes]
  rw [hfetch, keeping_pure]

-- =============================================================== numbers

/-- One byte has only one order. -/
theorem ofImage_one (bs : Bytes) : ofImage (bs.take 1) = numberAt 1 bs := by
  cases bs with
  | nil => rfl
  | cons b bs => rfl

/-- `ntohs` and `ntohl` of bytes as they are in memory. -/
theorem swap_image {n : Nat} {bs : Bytes} (h : n ≤ bs.length) :
    swap n (ofImage (bs.take n)) = numberAt n bs := by
  have hswap := swap_ofImage (bs.take n)
  rwa [List.length_take_of_le h] at hswap

/-- The type, as the code computes it. -/
theorem type_eq (p : Rest) :
    thriftType (BitVec.ofNat 8 (numberAt 1 p.bytes)) = p.type := rfl

/-- The length, as the code computes it. -/
theorem toInt_sizeAt (bs : Bytes) :
    (BitVec.ofNat 32 (numberAt 4 bs)).toInt = sizeAt bs := rfl

/-- A positive length is the same without its sign. -/
theorem toNat_sizeAt {bs : Bytes} (h : sizeAt bs > 0) :
    (BitVec.ofNat 32 (numberAt 4 bs)).toNat = (sizeAt bs).toNat := by
  have hcond := BitVec.toInt_eq_toNat_cond (BitVec.ofNat 32 (numberAt 4 bs))
  rw [toInt_sizeAt] at hcond
  split at hcond
  · omega
  · omega

/-- Four bytes are a number of 32 bits. -/
theorem toNat_numberAt (bs : Bytes) :
    (BitVec.ofNat 32 (numberAt 4 bs)).toNat = numberAt 4 bs := by
  have hlt := ofBe_lt (bs.take 4)
  have hpow : 256 ^ (bs.take 4).length ≤ 256 ^ 4 :=
    Nat.pow_le_pow_right (by decide) (List.length_take_le 4 bs)
  rw [BitVec.toNat_ofNat]
  exact Nat.mod_eq_of_lt (Nat.lt_of_lt_of_le hlt hpow)

theorem numberAt_one_lt (bs : Bytes) : numberAt 1 bs < 256 := by
  have hlt := ofBe_lt (bs.take 1)
  have hlength : (bs.take 1).length ≤ 1 := List.length_take_le 1 bs
  have hpow : 256 ^ (bs.take 1).length ≤ 256 ^ 1 := Nat.pow_le_pow_right (by decide) hlength
  exact Nat.lt_of_lt_of_le hlt hpow

theorem sizeAt_lt (bs : Bytes) : sizeAt bs < 2 ^ 31 := BitVec.toInt_lt

theorem within_of_le {n : Nat} {bs : Bytes} (h : n ≤ bs.length) : within n bs = some n :=
  if_neg (Nat.not_lt.mpr h)

theorem within_of_lt {n : Nat} {bs : Bytes} (h : bs.length < n) : within n bs = none :=
  if_pos h

end Stands

-- ================================================================== skip

section Skip

variable {mem : Bytes}

/-- A result of a skip that started at `buf`. -/
inductive Skipped (mem : Bytes) (buf : Nat) : Int → Option Rest → Env → Prop
  | intro {n : Nat} {q : Rest} {env : Env} (h : Stands mem q (buf + n) env) :
      Skipped mem buf n (some q) env

/-- A skip never falls short: it reports. -/
theorem skips_ne_none (depth type : Nat) (p : Rest) : ¬ skips depth type p none := by
  cases depth with
  | zero => exact id
  | succ depth => exact fun h => h.1 rfl

/-- Nor do several of them. -/
theorem times_ne_none {A : Grammar} (h : ∀ p, ¬ A p none) (n : Nat) (p : Rest) :
    ¬ times A n p none := by
  induction n generalizing p with
  | zero => exact fun hnone => nomatch hnone
  | succ n ih =>
      intro hex
      obtain ⟨r, hA, hr⟩ := hex
      cases r with
      | none => exact h p hA
      | some q => exact ih q hr

/-- One turn of a loop over elements, of which some are left. -/
def elementTurn (A : Grammar) : Nat × Rest → (Nat × Rest) ⊕ Option Rest → Prop
  | (0, p), o => o = .inr (some p)
  | (n + 1, p), o => ∃ r, A p r ∧ o = match r with
      | none => .inr none
      | some q => .inl (n, q)

/-- The loop over the elements, by the number of those that are left. -/
theorem iterates_times {A : Grammar} {n : Nat} {p : Rest} {o : Option Rest} :
    Iterates (elementTurn A) (n, p) o ↔ times A n p o := by
  induction n generalizing p with
  | zero =>
      constructor
      · intro h
        cases h with
        | leave h => exact Sum.inr.inj h
        | again h => exact nomatch h
      · intro h
        exact .leave (congrArg Sum.inr h)
  | succ n ih =>
      constructor
      · intro h
        cases h with
        | leave h =>
            obtain ⟨r, hA, heq⟩ := h
            cases r with
            | none => exact ⟨none, hA, Sum.inr.inj heq⟩
            | some q => exact nomatch heq
        | again h rest =>
            obtain ⟨r, hA, heq⟩ := h
            cases r with
            | none => exact nomatch heq
            | some q =>
                cases heq
                exact ⟨some q, hA, ih.mp rest⟩
      · intro h
        obtain ⟨r, hA, hr⟩ := h
        cases r with
        | none => exact .leave ⟨none, hA, congrArg Sum.inr hr⟩
        | some q => exact .again ⟨some q, hA, rfl⟩ (ih.mpr hr)

/-- A call of a skip, on all that is left. -/
structure SkipAt (mem : Bytes) (a : SkipArgs) (k : Nat × Rest) (env : Env) : Prop where
  type : a.type = k.1
  buflen : a.buflen = mem.length - a.buf
  stands : Stands mem k.2 a.buf env

variable {p : Rest} {buf buflen : Nat} {env : Env}

/-- What is not there is reported. -/
theorem meets_reported {span : Bytes → Option Nat} (hspan : span p.bytes = none) {code : Int}
    (hcode : code ≠ 0) {r : Int} :
    Meets Clear (setting code r) env (fun o => o ≠ none ∧ spans span p o)
      (Skipped mem buf) := by
  refine (meets_setting hcode).congr fun o => ⟨False.elim, fun ho => ho.1 ?_⟩
  have hspans := ho.2
  unfold spans at hspans
  rw [hspans, hspan]
  rfl

/-- A value that is there is skipped, and its length returned. -/
theorem meets_spanned (h : Stands mem p buf env) {span : Bytes → Option Nat} {n : Nat}
    (hspan : span p.bytes = some n) (hn : n ≤ p.bytes.length) {r : Int} (hr : r = n) :
    Meets Clear (pure r : Prog Env Fault Int) env (fun o => o ≠ none ∧ spans span p o)
      (Skipped mem buf) := by
  subst hr
  refine (meets_pure h.clear (.intro (h.drop hn))).congr fun o => ?_
  unfold spans
  rw [hspan]
  exact ⟨fun ho => ⟨by rw [ho]; exact Option.some_ne_none _, ho⟩, And.right⟩

variable (hbuflen : buflen = mem.length - buf)

include hbuflen

/-- The cases of the `switch` from here on: each returns the length of a
value that is there, and reports if it is not. -/
theorem meets_skipFixed (h : Stands mem p buf env) (n : Nat) :
    Meets Clear (skipFixed n buflen) env (fun o => o ≠ none ∧ spans (within n) p o)
      (Skipped mem buf) := by
  have hlength := h.length
  unfold skipFixed
  by_cases hlt : n > buflen
  · rw [if_pos hlt]
    exact meets_reported (within_of_lt (by omega)) receive_ne_zero
  · rw [if_neg hlt]
    exact meets_spanned h (within_of_le (by omega)) (by omega) rfl

variable (hlen : mem.length < 2 ^ 31)

include hlen

/-- The length of a string is tested without its sign as an `uint32_t`;
below 2^31 bytes the sum does not wrap. -/
theorem meets_skipString (h : Stands mem p buf env) :
    Meets Clear (skipString mem buf buflen) env (fun o => o ≠ none ∧ spans spanString p o)
      (Skipped mem buf) := by
  have hlength := h.length
  unfold skipString
  by_cases hfour : p.bytes.length < 4
  · rw [if_pos (by omega)]
    exact meets_reported (if_pos hfour) receive_ne_zero
  have hspan : spanString p.bytes = within (4 + (sizeAt p.bytes).toNat) p.bytes := if_neg hfour
  have hlt := sizeAt_lt p.bytes
  rw [if_neg (by omega), keeping_fetch h (by omega)]
  simp only [swap_image (Nat.le_of_not_lt hfour)]
  change Meets Clear (if sizeAt p.bytes > 0 then _ else _) _ _ _
  by_cases hpos : sizeAt p.bytes > 0
  · have hsum := u32_eq (x := 4 + sizeAt p.bytes) (by omega) (by omega)
    rw [if_pos hpos]
    change Meets Clear (if u32 (4 + sizeAt p.bytes) > buflen then _
      else pure (i32 (4 + sizeAt p.bytes))) _ _ _
    by_cases hfit : u32 (4 + sizeAt p.bytes) > buflen
    · rw [if_pos hfit]
      exact meets_reported (hspan.trans (within_of_lt (by omega))) receive_ne_zero
    · rw [if_neg hfit]
      refine meets_spanned h (hspan.trans (within_of_le (by omega))) (by omega) ?_
      rw [i32_eq (by omega) (by omega)]
      omega
  · rw [if_neg hpos]
    exact meets_spanned h (hspan.trans (within_of_le (by omega))) (by omega) (by omega)

/-- What is left of the buffer, as the loops compute it. -/
theorem u32_left {t : Nat} (h : Stands mem p (buf + t) env) :
    u32 ((buflen : Int) - t) = p.bytes.length := by
  have hlength := h.length
  have hinside := h.inside
  unfold u32
  omega

variable {skip : SkipArgs → Prog Env Fault Int} {depth : Nat}
  (hskip : ∀ {a k env}, SkipAt mem a k env →
    Meets Clear (skip a) env (skips depth k.1 k.2) (Skipped mem a.buf))

include hskip

/-- One turn of the loop for a structure: a field is skipped, or the loop is
left behind a stop. A call that reports ends the list of outcomes. -/
theorem meets_skipField {t : Nat} (h : Stands mem p (buf + t) env) :
    Meets Clear (skipField mem skip buf buflen t) env
      (fun o => (∀ r, o = .inr r → r ≠ none) ∧ fieldTurn (fun type _ => skips depth type) p o)
      (Turned (fun t p env => Stands mem p (buf + t) env) (Skipped mem buf)) := by
  have hlength := h.length
  have hinside := h.inside
  unfold skipField fieldTurn
  rw [u32_left hbuflen hlen h]
  by_cases hone : p.bytes.length < 1
  · rw [if_pos hone]
    refine (meets_setting receive_ne_zero).congr fun o => ?_
    rw [if_pos hone]
    exact ⟨False.elim, fun ho => ho.1 none ho.2 rfl⟩
  have hnext := h.drop (n := 1) (by omega)
  have hu32 : u32 ((t : Int) + 1) = t + 1 := u32_nat (n := t + 1) (by omega)
  rw [if_neg hone, keeping_fetch h (by omega)]
  simp only [hu32, if_neg hone, ofImage_one, type_eq]
  by_cases hstop : p.type = TType.T_STOP.code
  · have hi32 : i32 ((t + 1 : Nat) : Int) = (t + 1 : Nat) := i32_eq (by omega) (by omega)
    simp only [if_pos hstop]
    rw [hi32]
    refine (meets_pure h.clear (.leave (.intro hnext))).congr fun o => ?_
    exact ⟨fun ho => ⟨fun r hr => by cases ho.symm.trans hr; exact Option.some_ne_none _, ho⟩,
      And.right⟩
  simp only [if_neg hstop]
  rw [u32_left hbuflen hlen hnext]
  have hlength₁ := hnext.length
  by_cases hthree : p.bytes.length < 3
  · rw [if_pos (by omega)]
    refine (meets_setting receive_ne_zero).congr fun o => ?_
    rw [if_pos hthree]
    exact ⟨False.elim, fun ho => ho.1 none ho.2 rfl⟩
  -- the value behind the type and the id
  have hvalue := h.drop (n := 3) (by omega)
  have hu32 : u32 (((t + 1 : Nat) : Int) + 2) = t + 3 := u32_nat (n := t + 3) (by omega)
  rw [if_neg (by omega), hu32, u32_left hbuflen hlen hvalue]
  simp only [if_neg hthree]
  have hat : SkipAt mem ⟨buf + (t + 3), (p.drop 3).bytes.length, p.type⟩ (p.type, p.drop 3)
      env := ⟨rfl, hvalue.length, hvalue⟩
  refine ((hskip hat).bind (K := fun r o => o = turned r) (fun _ => sticky_pure _) ?_).congr
    fun o => ?_
  · intro ret r env₁ _ _ hV
    cases hV with
    | @intro n q _ hq =>
        have hinside : buf + (t + 3) + n ≤ mem.length := hq.inside
        have hsum : u32 (((t + 3 : Nat) : Int) + (n : Int)) = t + 3 + n :=
          u32_nat (n := t + 3 + n) (by omega)
        rw [hsum]
        refine meets_pure hq.clear (.again ?_)
        have hpos : buf + (t + 3 + n) = buf + (t + 3) + n := by omega
        rw [hpos]
        exact hq
  · refine ⟨fun ho => ⟨fun r hr => ?_, ho⟩, And.right⟩
    obtain ⟨r', hskips, rfl⟩ := ho
    cases r' with
    | none => exact absurd hskips (skips_ne_none depth p.type (p.drop 3))
    | some q => exact nomatch hr

variable (hsticky : ∀ a, Sticky Clear (skip a))

include hsticky

/-- The loop for a structure: fields up to a stop. -/
theorem meets_skipStruct (h : Stands mem p buf env) :
    Meets Clear (Prog.loop (skipField mem skip buf buflen) 0) env
      (fun o => o ≠ none ∧ upToStop (fun type _ => skips depth type) p o) (Skipped mem buf) :=
  (Meets.loop (fun t p env => Stands mem p (buf + t) env)
    (sticky_skipField mem hsticky buf buflen) (meets_skipField hbuflen hlen hskip) (t := 0)
    h).congr fun _ => iterates_and

omit hsticky in
/-- One turn of the loop over the elements, of which `n` are left. -/
theorem meets_skipElement {elem_type : Nat} {size : Int} {n : Nat} {t : Nat × Nat}
    (hn : t.1 + n = size) (h : Stands mem p (buf + t.2) env) :
    Meets Clear (skipElement skip buf buflen elem_type size t) env
      (elementTurn (skips depth elem_type) (n, p))
      (Turned (fun t k env => t.1 + k.1 = size ∧ Stands mem k.2 (buf + t.2) env)
        (Skipped mem buf)) := by
  have hlength := h.length
  have hinside := h.inside
  unfold skipElement
  cases n with
  | zero =>
      have hi32 : i32 t.2 = t.2 := i32_eq (by omega) (by omega)
      rw [if_neg (by omega), hi32]
      exact meets_pure h.clear (.leave (.intro h))
  | succ n =>
      rw [if_pos (by omega), u32_left hbuflen hlen h]
      have hat : SkipAt mem ⟨buf + t.2, p.bytes.length, elem_type⟩ (elem_type, p) env :=
        ⟨rfl, hlength, h⟩
      refine (hskip hat).bind (fun _ => sticky_pure _) ?_
      intro ret r env₁ _ _ hV
      cases hV with
      | @intro m q _ hq =>
          have hinside : buf + t.2 + m ≤ mem.length := hq.inside
          have hsum : u32 ((t.2 : Int) + (m : Int)) = t.2 + m :=
            u32_nat (n := t.2 + m) (by omega)
          have hpos : buf + (t.2 + m) = buf + t.2 + m := by omega
          rw [hsum]
          refine meets_pure hq.clear (.again ⟨?_, ?_⟩)
          · show ((t.1 + 1 : Nat) : Int) + (n : Nat) = size
            omega
          · show Stands mem q (buf + (t.2 + m)) _
            rw [hpos]
            exact hq

/-- A list: type and size, and the elements. Three of the four bytes of the
type come from a variable that is not set. -/
theorem meets_skipList (h : Stands mem p buf env) :
    Meets Clear (skipList mem skip buf buflen) env
      (fun o => o ≠ none ∧ 5 ≤ p.bytes.length ∧ 0 ≤ p.size ∧
        times (skips depth p.elem_type) p.size.toNat p.elements o) (Skipped mem buf) := by
  have hlength := h.length
  unfold skipList
  by_cases hone : p.bytes.length < 1
  · rw [if_pos (by omega)]
    exact (meets_setting receive_ne_zero).congr fun o =>
      ⟨False.elim, fun ho => by have := ho.2.1; omega⟩
  rw [if_neg (by omega), keeping_fetch h (by omega)]
  -- three bytes of the variable are not set
  refine Meets.of_eq ?_ (keeping_draw 3 env _)
  have hdrawn : Stands mem ⟨p.bytes, (draw 3 p.stale).2⟩ buf
      ⟨(draw 3 env.state).2, env.error⟩ :=
    ⟨h.inside, h.bytes, congrArg (fun stale => (draw 3 stale).2) h.stale, h.clear⟩
  have htype : ofImage (p.bytes.take 1 ++ (draw 3 env.state).1) = p.elem_type := by
    rw [← h.stale]
    rfl
  simp only [htype]
  by_cases hfive : p.bytes.length < 5
  · rw [if_pos (by omega)]
    exact (meets_setting receive_ne_zero).congr fun o =>
      ⟨False.elim, fun ho => by have := ho.2.1; omega⟩
  have hsize := hdrawn.drop (n := 1) (show 1 ≤ p.bytes.length by omega)
  have hfour : 4 ≤ (p.bytes.drop 1).length := by
    rw [List.length_drop]
    omega
  rw [if_neg (by omega), keeping_fetch hsize hfour]
  change Meets Clear (if (BitVec.ofNat 32 (swap 4 (ofImage ((p.bytes.drop 1).take 4)))).toInt
    < 0 then _ else Prog.loop (skipElement skip buf buflen p.elem_type
      (BitVec.ofNat 32 (swap 4 (ofImage ((p.bytes.drop 1).take 4)))).toInt) (0, 5)) _ _ _
  rw [swap_image hfour]
  change Meets Clear (if p.size < 0 then _ else Prog.loop (skipElement skip buf buflen
    p.elem_type p.size) (0, 5)) _ _ _
  by_cases hneg : p.size < 0
  · rw [if_pos hneg]
    exact (meets_setting (by decide)).congr fun o =>
      ⟨False.elim, fun ho => by have := ho.2.2.1; omega⟩
  have helements : Stands mem p.elements (buf + 5) ⟨(draw 3 env.state).2, env.error⟩ :=
    hdrawn.drop (n := 5) (show 5 ≤ p.bytes.length by omega)
  rw [if_neg hneg]
  refine (Meets.loop
    (fun t (k : Nat × Rest) env => t.1 + k.1 = p.size ∧ Stands mem k.2 (buf + t.2) env)
    (sticky_skipElement hsticky buf buflen p.elem_type p.size)
    (fun hat => meets_skipElement hbuflen hlen hskip hat.1 hat.2)
    (t := (0, 5)) (k := (p.size.toNat, p.elements)) ⟨by omega, helements⟩).congr fun o => ?_
  rw [iterates_times]
  refine ⟨fun ho => ⟨fun hnone => ?_, by omega, by omega, ho⟩, fun ho => ho.2.2.2⟩
  subst hnone
  exact times_ne_none (skips_ne_none depth p.elem_type) _ _ ho

omit hbuflen in
/-- One level of the recursion, if the calls below are right up to a depth.
-/
theorem meets_skipBody {a : SkipArgs} {k : Nat × Rest} (hat : SkipAt mem a k env) :
    Meets Clear (skipFromBufferBody mem skip a) env (skips (depth + 1) k.1 k.2)
      (Skipped mem a.buf) := by
  have hstands := hat.stands
  have hbuflen := hat.buflen
  unfold skipFromBufferBody
  rw [skips, hat.type]
  cases shape k.1 with
  | fixed n => exact meets_skipFixed hbuflen hstands n
  | string => exact meets_skipString hbuflen hlen hstands
  | struct => exact meets_skipStruct hbuflen hlen hskip hsticky hstands
  | list => exact meets_skipList hbuflen hlen hskip hsticky hstands
  | default =>
      refine (meets_pure hstands.clear (.intro (n := 0) hstands)).congr fun o => ?_
      exact ⟨fun ho => ⟨by rw [ho]; exact Option.some_ne_none _, ho⟩, And.right⟩

end Skip

/-- A skip reports, or takes a value. -/
theorem meets_skip {mem : Bytes} (hlen : mem.length < 2 ^ 31) {a : SkipArgs}
    {k : Nat × Rest} {env : Env} (hat : SkipAt mem a k env) :
    Meets Clear (thrift_binary_protocol_skip_from_buffer mem a) env (skipped k.1 k.2)
      (Skipped mem a.buf) := by
  refine Meets.fix (SkipAt mem) (V := fun a => Skipped mem a.buf)
    (L := fun depth k => skips depth k.1 k.2) (fun _ hskip => sticky_skipBody mem hskip)
    (fun _ _ h => h) ?_ hat
  intro skip depth hsticky hskip a k env hat
  exact meets_skipBody hlen hskip hsticky hat

end Sandesh.CGen.Errors
