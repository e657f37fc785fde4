/-
The lengths the Python reader returns, against what it takes.

Every operation makes one read of the buffer and does the rest with the
text it got. If it succeeds, its length is the one of that read, and the
buffer is shorter by as much (`Counted`); the rules below follow the
operations through. Two operations return the length of something else:
`readString` that of the unescaped string, `readXML` that of the text
between the marks.
-/
import Sandesh.Py.Protocol
import Sandesh.Xml.Proofs.Escape

namespace Sandesh.Py

open Lib
open Xml (TType HasEntity length_unescape_eq_iff)

-- ================================================================= find

/-- What is found lies within the text. -/
theorem find_le {pat s : Bytes} {i : Nat} (h : find pat s = some i) :
    i + pat.length ≤ s.length := by
  induction s generalizing i with
  | nil =>
      rw [find] at h
      by_cases hpat : pat = []
      · rw [if_pos hpat] at h
        injection h with h
        rw [← h, hpat]
        exact Nat.le_refl 0
      · rw [if_neg hpat] at h
        cases h
  | cons c s ih =>
      rw [find] at h
      by_cases hpre : pat <+: c :: s
      · rw [if_pos hpre] at h
        injection h with h
        rw [← h, Nat.zero_add]
        exact hpre.length_le
      · rw [if_neg hpre] at h
        obtain ⟨j, hj, rfl⟩ := Option.map_eq_some_iff.mp h
        have hle := ih hj
        rw [List.length_cons]
        omega

/-- A read of no more than there is. -/
def Bounded (f : Bytes → Option (Bytes × Nat)) : Prop :=
  ∀ buf v k, f buf = some (v, k) → k ≤ buf.length

/-- No read of the reader takes more than there is. -/
theorem bounded_tagText (end_tag : Bool) : Bounded (tagText end_tag) := by
  intro buf v k h
  unfold tagText at h
  dsimp only at h
  generalize (if end_tag = true then lit "</" else lit "<") = tag_start at h
  by_cases hstart : tag_start ≠ buf.take tag_start.length
  · rw [if_pos hstart] at h
    cases h
  · rw [if_neg hstart] at h
    obtain ⟨i, hi, heq⟩ := Option.map_eq_some_iff.mp h
    injection heq with _ hk
    have hle := find_le hi
    rw [← hk]
    exact hle

/-- A value is no longer than the buffer. -/
theorem bounded_valueText : Bounded valueText := by
  intro buf v k h
  obtain ⟨i, hi, heq⟩ := Option.map_eq_some_iff.mp h
  injection heq with _ hk
  have hle := find_le hi
  rw [← hk]
  exact Nat.le_of_add_right_le hle

/-- Nor is a CDATA section. -/
theorem bounded_cdataText : Bounded cdataText := by
  intro buf v k h
  unfold cdataText at h
  dsimp only at h
  split at h
  · cases h
  · obtain ⟨i, hi, heq⟩ := Option.map_eq_some_iff.mp h
    injection heq with _ hk
    have hle := find_le hi
    rw [← hk]
    exact hle

-- ============================================================== methods

/-- `_read_buf`, or what it will be made from. -/
def TXMLProtocol.front (s : TXMLProtocol) : Bytes := s.read_buf.getD s.trans

variable {α β : Type} {s s' : TXMLProtocol}

/-- The bytes in front, once there is a reader. -/
theorem front_eq {buf : Bytes} (h : s.read_buf = some buf) :
    s.front = buf := by
  rw [TXMLProtocol.front, h]
  rfl

/-- A method that returns has returned at every step. -/
theorem bind_ok {m : Method α} {f : α → Method β} {b : β}
    (h : (m >>= f) s = .ok (b, s')) :
    ∃ a s₁, m s = .ok (a, s₁) ∧ f a s₁ = .ok (b, s') := by
  simp only [bind] at h
  cases hm : m s with
  | error e =>
      rw [hm] at h
      cases h
  | ok x =>
      rw [hm] at h
      exact ⟨x.1, x.2, rfl, h⟩

/-- A function of a result comes after the run. -/
theorem map_ok {m : Method α} {f : α → β} {b : β}
    (h : (f <$> m) s = .ok (b, s')) :
    ∃ a, m s = .ok (a, s') ∧ f a = b := by
  obtain ⟨a, s₁, hm, hf⟩ := bind_ok h
  cases hf
  exact ⟨a, hm, rfl⟩

/-- The buffer is left alone. -/
def Quiet (m : Method α) : Prop :=
  ∀ ⦃s a s'⦄, m s = .ok (a, s') → s'.read_buf = s.read_buf

/-- What comes after a read of `k` characters: the buffer is left alone,
and a length that is not negative is `k`. -/
def After (len : α → Option Int) (k : Nat) (m : Method α) : Prop :=
  ∀ ⦃s a s'⦄, m s = .ok (a, s') → s'.read_buf = s.read_buf
    ∧ ∀ n, len a = some n → 0 ≤ n → n = k

/-- A length that is not negative is what the buffer has lost. -/
def Counted (len : α → Option Int) (m : Method α) : Prop :=
  ∀ ⦃s a s'⦄, m s = .ok (a, s') → ∀ n, len a = some n → 0 ≤ n →
    ∃ k : Nat, n = k ∧ k ≤ s.front.length
      ∧ s'.read_buf = some (s.front.drop k)

/-- There is no length, or a negative one. -/
def Fails (len : α → Option Int) (m : Method α) : Prop :=
  ∀ ⦃s a s'⦄, m s = .ok (a, s') → ∀ n, len a = some n → n < 0

/-- The rules for a method that comes back with an error. -/
theorem fails_pure {len : α → Option Int} {a : α}
    (h : ∀ n, len a = some n → n < 0) : Fails len (pure a : Method α) := by
  intro s a' s' hok
  cases hok
  exact h

/-- -1 is one. -/
theorem minus_one : ∀ n, some (-1 : Int) = some n → n < 0 := by
  intro n h
  injection h with h
  omega

section After

variable {len : α → Option Int} {k : Nat}

/-- The rules for what a method does behind a read whose count is known. -/
theorem after_raise {e : PyExc} : After len k (raise e : Method α) := by
  intro s a s' h
  cases h

/-- A result that stands for a failure. -/
theorem after_failed {a : α} (h : ∀ n, len a = some n → n < 0) :
    After len k (pure a : Method α) := by
  intro s a' s' hok
  cases hok
  refine ⟨rfl, fun n hn hpos => ?_⟩
  exact absurd hpos (Int.not_le.mpr (h n hn))

/-- A result that is the length. -/
theorem after_length {a : α} (h : len a = some (k : Int)) :
    After len k (pure a : Method α) := by
  intro s a' s' hok
  cases hok
  refine ⟨rfl, fun n hn _ => ?_⟩
  rw [h] at hn
  injection hn with hn
  exact hn.symm

/-- Something that reads nothing goes first. -/
theorem after_bind {m : Method β} {f : β → Method α} (hm : Quiet m)
    (hf : ∀ b, After len k (f b)) : After len k (m >>= f) := by
  intro s a s' hok
  obtain ⟨b, s₁, h₁, h₂⟩ := bind_ok hok
  obtain ⟨hbuf, hlen⟩ := hf b h₂
  exact ⟨hbuf.trans (hm h₁), hlen⟩

/-- A branch. -/
theorem after_ite {c : Prop} [Decidable c] {m₁ m₂ : Method α}
    (h₁ : After len k m₁) (h₂ : After len k m₂) :
    After len k (if c then m₁ else m₂) := by
  by_cases h : c
  · rw [if_pos h]
    exact h₁
  · rw [if_neg h]
    exact h₂

end After

/-- The statements that do not touch the buffer. -/
theorem quiet_append (tag : Option Bytes) : Quiet (append tag) := by
  intro s a s' h
  cases h
  rfl

/-- Popping a name reads nothing. -/
theorem quiet_pop : Quiet pop := by
  intro s a s' h
  unfold pop at h
  cases htag : s.xml_tag with
  | nil =>
      rw [htag] at h
      cases h
  | cons tag rest =>
      rw [htag] at h
      cases h
      rfl

/-- Looking up a type reads nothing. -/
theorem quiet_fieldType (name : Bytes) : Quiet (fieldType name) := by
  intro s a s' h
  unfold fieldType at h
  cases hfind : field_typename_dict.find? (fun t => t.2 == name) with
  | none =>
      rw [hfind] at h
      cases h
  | some t =>
      rw [hfind] at h
      cases h
      rfl

/-- Looking takes nothing. -/
theorem peekXMLTag_ok {num_bytes : Nat} {x : Option Bytes}
    (h : peekXMLTag num_bytes s = .ok (x, s')) :
    s' = s ∧ s.read_buf = some s.front := by
  unfold peekXMLTag at h
  unfold TXMLProtocol.front
  cases hbuf : s.read_buf with
  | none =>
      rw [hbuf] at h
      cases h
  | some buf =>
      rw [hbuf] at h
      cases h
      exact ⟨rfl, rfl⟩

/-- What a read does. -/
theorem reading_ok {f : Bytes → Option (Bytes × Nat)}
    {x : Option (Bytes × Nat)} (h : reading f s = .ok (x, s')) :
    ∃ buf, s.read_buf = some buf ∧ x = f buf
      ∧ s'.read_buf = some (x.elim buf fun t => buf.drop t.2) := by
  unfold reading at h
  cases hbuf : s.read_buf with
  | none =>
      rw [hbuf] at h
      cases h
  | some buf =>
      simp only [hbuf] at h
      refine ⟨buf, rfl, ?_⟩
      cases hf : f buf with
      | none =>
          simp only [hf] at h
          cases h
          exact ⟨rfl, hbuf⟩
      | some t =>
          simp only [hf] at h
          cases h
          exact ⟨rfl, rfl⟩

/-- An operation is a read, and what comes after it. -/
theorem counted_reading {f : Bytes → Option (Bytes × Nat)}
    (hf : Bounded f) {len : α → Option Int}
    {g : Option (Bytes × Nat) → Method α}
    (hnone : Fails len (g none))
    (hsome : ∀ v k, After len k (g (some (v, k)))) :
    Counted len (reading f >>= g) := by
  intro s a s' hok n hn hpos
  obtain ⟨x, s₁, h₁, h₂⟩ := bind_ok hok
  obtain ⟨buf, hbuf, hx, hs₁⟩ := reading_ok h₁
  have hfront := front_eq hbuf
  cases hx' : x with
  | none =>
      rw [hx'] at h₂
      exact absurd hpos (Int.not_le.mpr (hnone h₂ n hn))
  | some t =>
      rw [hx'] at h₂ hs₁ hx
      obtain ⟨hkeep, hlen⟩ := hsome t.1 t.2 h₂
      refine ⟨t.2, hlen n hn hpos, ?_, ?_⟩
      · rw [hfront]
        exact hf buf t.1 t.2 hx.symm
      · rw [hkeep, hs₁, hfront]
        rfl

/-- The first operation makes the reader. -/
theorem counted_withReader {len : α → Option Int} {m : Bool → Method α}
    (hm : ∀ b, Counted len (m b)) : Counted len (withReader m) := by
  intro s a s' hok
  unfold withReader at hok
  cases hbuf : s.read_buf with
  | some buf =>
      rw [hbuf] at hok
      exact hm false hok
  | none =>
      rw [hbuf] at hok
      obtain ⟨_, s₁, h₁, h₂⟩ := bind_ok hok
      unfold newReader at h₁
      by_cases hempty : s.trans = []
      · rw [if_pos hempty] at h₁
        cases h₁
      · rw [if_neg hempty] at h₁
        cases h₁
        have hfront : s.front = s.trans := by
          rw [TXMLProtocol.front, hbuf]
          rfl
        rw [hfront]
        exact hm true h₂

/-- The methods one by one: the length they return is what they have taken
off the buffer. -/
theorem counted_map {m : Method α} {f : α → Option Int}
    (hm : Counted f m) : Counted id (f <$> m) := by
  intro s a s' hok
  obtain ⟨b, hb, rfl⟩ := map_ok hok
  exact hm hb

-- =========================================================== operations

/-- The opening tag of a message counts what it reads. -/
theorem counted_readSandeshBegin :
    Counted (fun x => some x.1) readSandeshBegin := by
  refine counted_withReader fun _ =>
    counted_reading (bounded_tagText false) (fails_pure minus_one) ?_
  intro tag length
  dsimp only
  cases extractXMLTagName tag with
  | none => exact after_failed minus_one
  | some t =>
      refine after_bind (quiet_append _) fun _ => ?_
      cases namedAttr (lit "type") t.2 with
      | none => exact after_failed minus_one
      | some a => exact after_ite (after_length rfl) (after_failed minus_one)

/-- So does a closing tag with a name. -/
theorem counted_readNamedEnd : Counted id readNamedEnd := by
  refine counted_reading (bounded_tagText true) ?_ ?_
  · intro s a s' hok n hn
    obtain ⟨name_begin, s₁, _, h₂⟩ := bind_ok hok
    by_cases hname : name_begin ≠ (none : Option (Bytes × Nat)).map Prod.fst
    · rw [if_pos hname] at h₂
      cases h₂
      exact minus_one n hn
    · rw [if_neg hname] at h₂
      cases h₂
      cases hn
  · intro tag length
    refine after_bind quiet_pop fun _ => ?_
    exact after_ite (after_failed minus_one) (after_length rfl)

/-- The opening tag of a struct. -/
theorem counted_readStructBegin : Counted id readStructBegin := by
  refine counted_withReader fun retried =>
    counted_reading (bounded_tagText false) ?_ ?_
  · intro s a s' hok n hn
    by_cases hretried :
        retried = true ∧ (none : Option (Bytes × Nat)) = none
    · rw [if_pos hretried] at hok
      cases hok
      exact minus_one n hn
    · rw [if_neg hretried] at hok
      cases hok
      cases hn
  · intro tag length
    refine after_ite (after_failed minus_one) ?_
    exact after_bind (quiet_append _) fun _ => after_length rfl

/-- The tag of an element. -/
theorem counted_readElement (end_tag : Bool) :
    Counted some (readElement end_tag) :=
  counted_reading (bounded_tagText end_tag) (fails_pure minus_one)
    fun _ _ => after_length rfl

/-- The tag of a field. -/
theorem counted_readFieldTag :
    Counted (fun x => some x.length) readFieldTag := by
  refine counted_reading (bounded_tagText false) (fails_pure minus_one) ?_
  intro tag length
  dsimp only
  cases extractXMLTagName tag with
  | none => exact after_failed minus_one
  | some t =>
      refine after_bind (quiet_append _) fun _ => ?_
      cases namedAttr (lit "type") t.2 with
      | none => exact after_failed minus_one
      | some a =>
          refine after_bind (quiet_fieldType _) fun _ => ?_
          cases (namedAttr (lit "identifier") a.2).bind fun t => int t.1 with
          | none => exact after_failed minus_one
          | some fid => exact after_length rfl

/-- The tag of a field, or the closing tag it leaves alone. -/
theorem counted_readFieldBegin :
    Counted (fun x => some x.length) readFieldBegin := by
  intro s a s' hok n hn hpos
  obtain ⟨found, s₁, h₁, h₂⟩ := bind_ok hok
  obtain ⟨rfl, hbuf⟩ := peekXMLTag_ok h₁
  cases found with
  | none =>
      cases h₂
      exact absurd hpos (Int.not_le.mpr (minus_one n hn))
  | some field_stop =>
      by_cases hstop : field_stop = lit "</"
      · -- the end tag of the struct stays in the buffer
        simp only [hstop, if_true] at h₂
        cases h₂
        injection hn with hn
        exact ⟨0, hn.symm, Nat.zero_le _, hbuf⟩
      · simp only [hstop, if_false] at h₂
        exact counted_readFieldTag h₂ n hn hpos

/-- The closing tag of a field. -/
theorem counted_readFieldEnd : Counted some readFieldEnd := by
  refine counted_reading (bounded_tagText true) (fails_pure minus_one) ?_
  intro tag length
  refine after_bind quiet_pop fun _ => ?_
  exact after_ite (after_failed minus_one) (after_length rfl)

/-- The loop over the attributes of a container. -/
theorem after_types (length : Nat) (typed : List Bytes) (tag : Bytes)
    (acc : List TType) :
    After (fun x => some x.1) length
      (readContainerBegin.types length typed tag acc) := by
  induction typed generalizing tag acc with
  | nil =>
      unfold readContainerBegin.types
      cases (namedAttr (lit "size") tag).bind fun t => int t.1 with
      | none => exact after_failed minus_one
      | some size => exact after_length rfl
  | cons name typed ih =>
      unfold readContainerBegin.types
      cases namedAttr name tag with
      | none => exact after_failed minus_one
      | some t => exact after_bind (quiet_fieldType _) fun _ => ih _ _

/-- The opening tag of a container. -/
theorem counted_readContainerBegin (typename : Bytes) (typed : List Bytes) :
    Counted (fun x => some x.1) (readContainerBegin typename typed) := by
  refine counted_reading (bounded_tagText false) (fails_pure minus_one) ?_
  intro tag length
  dsimp only
  cases extractXMLTagName tag with
  | none => exact after_failed minus_one
  | some t =>
      exact after_ite (after_failed minus_one) (after_types length typed _ _)

/-- Its closing tag. -/
theorem counted_readContainerEnd (typename : Bytes) :
    Counted some (readContainerEnd typename) :=
  counted_reading (bounded_tagText true) (fails_pure minus_one)
    fun _ _ => after_ite (after_failed minus_one) (after_length rfl)

/-- A value that is converted from its text. -/
theorem counted_readScalar (conv : Bytes → Conv α) :
    Counted (fun x => some x.1) (readScalar conv) := by
  refine counted_reading bounded_valueText (fails_pure minus_one) ?_
  intro str length
  dsimp only
  cases conv str with
  | value v => exact after_length rfl
  | ValueError => exact after_failed minus_one
  | raises e => exact after_raise

-- =============================================================== counts

/-- The buffer has lost `n` characters from its front. -/
def Removed (s s' : TXMLProtocol) (n : Int) : Prop :=
  ∃ gone, gone ++ s'.front = s.front ∧ (gone.length : Int) = n

/-- A number of bytes is removed if it is the one by which the buffer is
shorter. -/
theorem removed_iff {k : Nat} {n : Int} (hk : k ≤ s.front.length)
    (h : s'.read_buf = some (s.front.drop k)) :
    Removed s s' n ↔ n = k := by
  unfold Removed
  rw [front_eq h]
  constructor
  · intro hex
    obtain ⟨gone, hgone, hlen⟩ := hex
    have hsum := congrArg List.length hgone
    rw [List.length_append, List.length_drop] at hsum
    omega
  · intro heq
    obtain rfl := heq
    refine ⟨s.front.take k, List.take_append_drop k _, ?_⟩
    rw [List.length_take, Nat.min_eq_left hk]

/-- A count that is an honest one. -/
theorem Counted.removed {len : α → Option Int} {m : Method α}
    (hm : Counted len m) {a : α} (hok : m s = .ok (a, s')) {n : Int}
    (hn : len a = some n) (hpos : 0 ≤ n) : Removed s s' n := by
  obtain ⟨k, hnk, hk, hbuf⟩ := hm hok n hn hpos
  exact (removed_iff hk hbuf).mpr hnk

/-- The text that `readString` reads. -/
def nextText (buf : Bytes) : Bytes := buf.takeWhile (· != 60)

/-- A search for one character. -/
theorem find_char {c : UInt8} {s : Bytes} {i : Nat}
    (h : find [c] s = some i) : s.take i = s.takeWhile (· != c) := by
  induction s generalizing i with
  | nil => cases h
  | cons d s ih =>
      rw [find] at h
      by_cases hd : c = d
      · rw [if_pos (by simp [hd])] at h
        injection h with h
        simp [← h, hd]
      · rw [if_neg (by simp [hd])] at h
        obtain ⟨j, hj, rfl⟩ := Option.map_eq_some_iff.mp h
        have hne : (d != c) = true := by
          rw [bne_iff_ne]
          exact Ne.symm hd
        rw [List.take_succ_cons, List.takeWhile_cons, if_pos hne, ih hj]

/-- The four spellings that `readString` looks for. -/
def entities : List Bytes :=
  [lit "&amp;", lit "&apos;", lit "&lt;", lit "&gt;"]

/-- The length stays exactly if there is nothing to unescape. -/
theorem length_unescape_iff (string : Bytes) :
    (unescape string).length = string.length
      ↔ ∀ e ∈ entities, ¬ e <:+: string := by
  have h := length_unescape_eq_iff string
  rw [HasEntity, not_or, not_or] at h
  refine h.trans ?_
  simp [entities]

/-- A string returns the length of its result, so its count is right if
nothing was unescaped. -/
theorem readString_removed {a : Int × Option Bytes} {n : Int}
    (hok : readString s = .ok (a, s')) (hn : a.1 = n) (hpos : 0 ≤ n) :
    Removed s s' n ↔ ∀ e ∈ entities, ¬ e <:+: nextText s.front := by
  obtain ⟨x, s₁, h₁, h₂⟩ := bind_ok hok
  obtain ⟨buf, hbuf, hx, hs₁⟩ := reading_ok h₁
  have hfront := front_eq hbuf
  cases x with
  | none =>
      cases h₂
      exact absurd (hn ▸ hpos) (by decide)
  | some t =>
      cases h₂
      obtain ⟨i, hi, ht⟩ := Option.map_eq_some_iff.mp hx.symm
      have hi' := find_le hi
      have htext : t.1 = nextText buf := by
        rw [← ht]
        exact find_char hi
      have hle : i ≤ buf.length := Nat.le_of_add_right_le hi'
      have hlen : t.1.length = t.2 := by
        rw [← ht, List.length_take, Nat.min_eq_left hle]
      have hk : t.2 ≤ s.front.length := by
        rw [hfront, ← ht]
        exact hle
      rw [← hfront] at hs₁
      rw [removed_iff hk hs₁, ← length_unescape_iff, hfront, ← htext, hlen,
        ← hn]
      exact Int.ofNat_inj

/-- An xml returns the length of its text without the delimiters, so its
count is never right. -/
theorem readXML_removed {a : Int × Option Bytes} {n : Int}
    (hok : readXML s = .ok (a, s')) (hn : a.1 = n) (hpos : 0 ≤ n) :
    ¬ Removed s s' n := by
  obtain ⟨x, s₁, h₁, h₂⟩ := bind_ok hok
  obtain ⟨buf, hbuf, hx, hs₁⟩ := reading_ok h₁
  have hfront := front_eq hbuf
  cases x with
  | none =>
      cases h₂
      exact absurd (hn ▸ hpos) (by decide)
  | some t =>
      cases h₂
      have hk : t.2 ≤ s.front.length := by
        rw [hfront]
        exact bounded_cdataText buf t.1 t.2 hx.symm
      rw [← hfront] at hs₁
      rw [removed_iff hk hs₁, ← hn]
      -- the marks around the text are gone too
      have hmarks : t.1.length < t.2 := by
        unfold cdataText at hx
        dsimp only at hx
        by_cases hopen : lit "<![CDATA["
            ≠ buf.take (lit "<![CDATA[").length
        · rw [if_pos hopen] at hx
          cases hx
        · rw [if_neg hopen] at hx
          obtain ⟨i, hi, ht⟩ := Option.map_eq_some_iff.mp hx.symm
          have hclose : (lit "]]>").length = 3 := rfl
          rw [← ht, List.length_drop, List.length_take, hclose]
          omega
      dsimp only
      omega

/-- When an operation returns what it takes: always, but for these two. -/
def ReadOp.Exact (op : ReadOp) (s : TXMLProtocol) : Prop :=
  op ≠ .readXML
    ∧ (op = .readString → ∀ e ∈ entities, ¬ e <:+: nextText s.front)

/-- All the others. -/
theorem counted_run (L : Libs) {op : ReadOp} (hxml : op ≠ .readXML)
    (hstring : op ≠ .readString) : Counted id (op.run L) := by
  cases op with
  | readString => exact absurd rfl hstring
  | readXML => exact absurd rfl hxml
  | readSandeshBegin => exact counted_map counted_readSandeshBegin
  | readSandeshEnd => exact counted_readNamedEnd
  | readStructBegin => exact counted_readStructBegin
  | readStructEnd => exact counted_readNamedEnd
  | readContainerElementBegin => exact counted_map (counted_readElement false)
  | readContainerElementEnd => exact counted_map (counted_readElement true)
  | readFieldBegin => exact counted_map counted_readFieldBegin
  | readFieldEnd => exact counted_map counted_readFieldEnd
  | readMapBegin => exact counted_map (counted_readContainerBegin _ _)
  | readMapEnd => exact counted_map (counted_readContainerEnd _)
  | readListBegin => exact counted_map (counted_readContainerBegin _ _)
  | readListEnd => exact counted_map (counted_readContainerEnd _)
  | readSetBegin => exact counted_map (counted_readContainerBegin _ _)
  | readSetEnd => exact counted_map (counted_readContainerEnd _)
  | readBool => exact counted_map (counted_readScalar _)
  | readByte => exact counted_map (counted_readScalar _)
  | readI16 => exact counted_map (counted_readScalar _)
  | readI32 => exact counted_map (counted_readScalar _)
  | readI64 => exact counted_map (counted_readScalar _)
  | readU16 => exact counted_map (counted_readScalar _)
  | readU32 => exact counted_map (counted_readScalar _)
  | readU64 => exact counted_map (counted_readScalar _)
  | readIPV4 => exact counted_map (counted_readScalar _)
  | readIPADDR => exact counted_map (counted_readScalar _)
  | readDouble => exact counted_map (counted_readScalar _)
  | readBinary => exact counted_map (counted_readScalar _)
  | readUUID => exact counted_map (counted_readScalar _)

/-- Every read at once. -/
theorem run_removed_iff (L : Libs) (op : ReadOp) {n : Int}
    (hok : op.run L s = .ok (some n, s')) (hpos : 0 ≤ n) :
    Removed s s' n ↔ op.Exact s := by
  by_cases hxml : op = .readXML
  · subst hxml
    obtain ⟨a, ha, hn⟩ := map_ok hok
    injection hn with hn
    refine iff_of_false (readXML_removed ha hn hpos) ?_
    exact fun h => h.1 rfl
  · by_cases hstring : op = .readString
    · subst hstring
      obtain ⟨a, ha, hn⟩ := map_ok hok
      injection hn with hn
      rw [readString_removed ha hn hpos]
      exact ⟨fun h => ⟨hxml, fun _ => h⟩, fun h => h.2 rfl⟩
    · refine iff_of_true ?_ ⟨hxml, fun h => absurd h hstring⟩
      exact (counted_run L hxml hstring).removed hok rfl hpos

end Sandesh.Py
