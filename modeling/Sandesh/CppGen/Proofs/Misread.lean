/-
Values that do not come back.

Where a container puts no tags around base values, the first of them is
read over those that follow, and the next from nothing. So every type that
is not separable has a value that is read as another one. In a list and in
most maps it is the last value that is lost; numbers followed by a bool are
told apart, and it takes a second entry to confuse them.
-/
import Sandesh.CppGen.Proofs.Structs

namespace Sandesh.CppGen

open Lib Xml Header

variable {W : World} {F : Foreign} {junk : Bool}
  {less : (t : Ty) → t.Val F → t.Val F → Bool}

-- ======================================================== base values

/-- The true type is bool. -/
def Ty.isBool : Ty → Bool
  | base b => b = .bool
  | typedef t => t.isBool
  | enum | struct _ _ | list _ | set _ | map _ _ => false

theorem Ty.bare_of_undelimited {t : Ty} (h : t.undelimited = true) :
    t.trueBaseOrEnum = true ∧ t.isBaseOrEnum = false := by
  simpa [Ty.undelimited] using h

theorem elementText_undelimited {t : Ty} (h : t.undelimited = true) (s : Bytes) :
    elementText t.isBaseOrEnum s = s := by
  rw [(Ty.bare_of_undelimited h).2]
  rfl

theorem deserialize_undelimited {t : Ty} (h : t.undelimited = true) {α : Type}
    (m : Read (Int × α)) : deserializeElement Reads.code t.isBaseOrEnum m = m := by
  rw [(Ty.bare_of_undelimited h).2]
  rfl

/-- A value that is not the one read from nothing. It is written in digits,
unless it is a bool. -/
def Lost (W : World) (less : (t : Ty) → t.Val F → t.Val F → Bool) (t : Ty) (u v : t.Val F) :
    Prop :=
  t.Legal less v ∧ v ≠ t.back W u []
    ∧ (t.isBool = false → ∀ c ∈ t.text W v, isXMLNumeric c = true)

theorem exists_other {w : Nat} (hw : 0 < w) (u : BitVec w) : ∃ v : BitVec w, v ≠ u := by
  have hne : 1#w ≠ 0#w := by
    intro h
    have hnat := congrArg BitVec.toNat h
    simp only [BitVec.toNat_ofNat, Nat.zero_mod] at hnat
    rw [Nat.mod_eq_of_lt (Nat.one_lt_two_pow (by omega))] at hnat
    cases hnat
  by_cases hu : u = 0#w
  · exact ⟨1#w, hu ▸ hne⟩
  · exact ⟨0#w, Ne.symm hu⟩

/-- Two values in order, such that the set of what is read is another. -/
def Confused (W : World) (less : (t : Ty) → t.Val F → t.Val F → Bool) (t : Ty)
    (u a b : t.Val F) : Prop :=
  t.Legal less a ∧ t.Legal less b ∧ less t a b = true
    ∧ [t.back W u (t.text W a ++ t.text W b), t.back W u []].foldl
      (fun s v => Sorted.insert (less t) v s) [] ≠ [a, b]

theorem foldl_insert_ne {α : Type} {lt : α → α → Bool} {z p a b : α} (ha : z ≠ a) (hb : z ≠ b) :
    [z, p].foldl (fun s v => Sorted.insert lt v s) [] ≠ [a, b] := by
  intro heq
  have hmem : z ∈ [z, p].foldl (fun s v => Sorted.insert lt v s) [] :=
    Sorted.mem_insert List.mem_cons_self
  rw [heq] at hmem
  rcases List.mem_cons.mp hmem with h | h
  · exact ha h
  · exact hb (List.mem_singleton.mp h)

/-- It is enough that the first is read as neither. -/
theorem confused_of_ne {t : Ty} {u a b z : t.Val F} (ha : t.Legal less a) (hb : t.Legal less b)
    (hlt : less t a b = true) (hz : t.back W u (t.text W a ++ t.text W b) = z) (hza : z ≠ a)
    (hzb : z ≠ b) : Confused W less t u a b := by
  refine ⟨ha, hb, hlt, ?_⟩
  rw [hz]
  exact foldl_insert_ne hza hzb

section Numbers

variable (hW : Decimals W)

include hW

omit hW in
theorem twelve_ne {w : Nat} (h : (12#w).toNat = 12) : 12#w ≠ 1#w ∧ 12#w ≠ 2#w := by
  have hle : ∀ n, (BitVec.ofNat w n).toNat ≤ n := by
    intro n
    rw [BitVec.toNat_ofNat]
    exact Nat.mod_le n _
  have hone := hle 1
  have htwo := hle 2
  constructor
  · intro heq
    rw [heq] at h
    omega
  · intro heq
    rw [heq] at h
    omega

/-- One and two are read as twelve. -/
theorem twelve {w : Nat} (hw : w ≤ 64) (h : (12#w).toNat = 12) :
    W.stringToInteger w (W.integerToString 1 ++ W.integerToString 2) = 12#w := by
  have htext : decimalInt 1 ++ decimalInt 2 = decimal (12#w).toNat := by
    rw [h]
    decide
  rw [hW.text, hW.text, htext]
  exact hW.unsigned w _ hw

theorem Base.exists_lost (b : Base) (hb : b.plain = true) (u : b.Val F) :
    ∃ v, Lost W less (.base b) u v := by
  have hnum : ∀ i, ∀ c ∈ W.integerToString i, isXMLNumeric c = true := numeric_integer hW
  have hother : ∀ {w : Nat}, 0 < w → ∀ u : BitVec w, ∃ v : BitVec w, v ≠ u := exists_other
  cases b with
  | bool =>
      refine ⟨!u, trivial, ?_, fun h => by cases h⟩
      have hall : ∀ u : Bool, (!u) ≠ boolBack u [] := by decide
      exact hall u
  | string =>
      have hzero : PlainText (lit "0") ∧ lit "0" ≠ unescapeXMLControlChars []
          ∧ ∀ c ∈ escapeXMLControlChars (lit "0"), isXMLNumeric c = true := by
        refine ⟨by unfold PlainText; decide, by decide, by decide⟩
      exact ⟨lit "0", hzero.1, hzero.2.1, fun _ => hzero.2.2⟩
  | byte => exact (hother (by decide) _).imp fun _ h => ⟨trivial, h, fun _ => hnum _⟩
  | i16 => exact (hother (by decide) _).imp fun _ h => ⟨trivial, h, fun _ => hnum _⟩
  | i32 => exact (hother (by decide) _).imp fun _ h => ⟨trivial, h, fun _ => hnum _⟩
  | i64 => exact (hother (by decide) _).imp fun _ h => ⟨trivial, h, fun _ => hnum _⟩
  | u16 => exact (hother (by decide) _).imp fun _ h => ⟨trivial, h, fun _ => hnum _⟩
  | u32 => exact (hother (by decide) _).imp fun _ h => ⟨trivial, h, fun _ => hnum _⟩
  | u64 => exact (hother (by decide) _).imp fun _ h => ⟨trivial, h, fun _ => hnum _⟩
  | ipv4 => exact (hother (by decide) _).imp fun _ h => ⟨trivial, h, fun _ => hnum _⟩
  | ipaddr => cases hb
  | double => cases hb
  | xml => cases hb
  | uuid => cases hb

omit hW in
/-- A set that has one bool in it twice has it once. -/
theorem confused_bool (hless : StdLess less) (u : Bool) :
    Confused (F := F) W less (.base .bool) u false true := by
  have hback : ∀ u : Bool, boolBack u (boolText false ++ boolText true) = u := by decide
  have hempty : ∀ u : Bool, boolBack u [] = u := by decide
  have hsame : less (.base .bool) u u = false := by
    rw [hless.bool]
    cases u <;> rfl
  refine ⟨trivial, trivial, by rw [hless.bool]; rfl, ?_⟩
  show [boolBack u (boolText false ++ boolText true), boolBack u []].foldl
    (fun s v => Sorted.insert (less (.base .bool)) v s) [] ≠ [false, true]
  rw [hback, hempty]
  have hinsert : Sorted.insert (less (.base .bool)) u [u] = [u] := Sorted.insert_same hsame
  show Sorted.insert (less (.base .bool)) u [u] ≠ [false, true]
  rw [hinsert]
  intro heq
  cases (List.cons.inj heq).2

theorem Base.exists_confused (hless : StdLess less) (b : Base) (hb : b.plain = true)
    (u : b.Val F) : ∃ a a', Confused W less (.base b) u a a' := by
  cases b with
  | bool => exact ⟨false, true, confused_bool hless u⟩
  | string =>
      have hplain : PlainText (lit "a") ∧ PlainText (lit "b") ∧ PlainText (lit "ab") := by
        unfold PlainText
        decide
      have hback : unescapeXMLControlChars (escapeXMLControlChars (lit "a")
          ++ escapeXMLControlChars (lit "b")) = lit "ab" := by
        rw [escape_plain hplain.1, escape_plain hplain.2.1]
        exact unescape_plain hplain.2.2
      have hne : lit "ab" ≠ lit "a" ∧ lit "ab" ≠ lit "b" := by decide
      exact ⟨lit "a", lit "b", confused_of_ne hplain.1 hplain.2.1
        (by rw [hless.string]; decide) hback hne.1 hne.2⟩
  | byte => exact ⟨1#8, 2#8, confused_of_ne trivial trivial (by rw [hless.byte]; decide)
      (twelve hW (by decide) rfl) (twelve_ne rfl).1 (twelve_ne rfl).2⟩
  | i16 => exact ⟨1#16, 2#16, confused_of_ne trivial trivial (by rw [hless.i16]; decide)
      (twelve hW (by decide) rfl) (twelve_ne rfl).1 (twelve_ne rfl).2⟩
  | i32 => exact ⟨1#32, 2#32, confused_of_ne trivial trivial (by rw [hless.i32]; decide)
      (twelve hW (by decide) rfl) (twelve_ne rfl).1 (twelve_ne rfl).2⟩
  | i64 => exact ⟨1#64, 2#64, confused_of_ne trivial trivial (by rw [hless.i64]; decide)
      (twelve hW (by decide) rfl) (twelve_ne rfl).1 (twelve_ne rfl).2⟩
  | u16 => exact ⟨1#16, 2#16, confused_of_ne trivial trivial (by rw [hless.u16]; decide)
      (twelve hW (by decide) rfl) (twelve_ne rfl).1 (twelve_ne rfl).2⟩
  | u32 => exact ⟨1#32, 2#32, confused_of_ne trivial trivial (by rw [hless.u32]; decide)
      (twelve hW (by decide) rfl) (twelve_ne rfl).1 (twelve_ne rfl).2⟩
  | u64 => exact ⟨1#64, 2#64, confused_of_ne trivial trivial (by rw [hless.u64]; decide)
      (twelve hW (by decide) rfl) (twelve_ne rfl).1 (twelve_ne rfl).2⟩
  | ipv4 => exact ⟨1#32, 2#32, confused_of_ne trivial trivial (by rw [hless.ipv4]; decide)
      (twelve hW (by decide) rfl) (twelve_ne rfl).1 (twelve_ne rfl).2⟩
  | ipaddr => cases hb
  | double => cases hb
  | xml => cases hb
  | uuid => cases hb

theorem Ty.exists_lost : (t : Ty) → t.trueBaseOrEnum = true → t.Plain → (u : t.Val F) →
    ∃ v, Lost W less t u v
  | .base b, _, hb, u => b.exists_lost hW hb u
  | .enum, _, _, _ => (exists_other (by decide) _).imp fun _ h =>
      ⟨trivial, h, fun _ => numeric_integer hW _⟩
  | .typedef t, ht, hplain, u => t.exists_lost ht hplain u

theorem Ty.exists_confused (hless : StdLess less) : (t : Ty) → t.trueBaseOrEnum = true →
    t.Plain → (u : t.Val F) → ∃ a a', Confused W less t u a a'
  | .base b, _, hb, u => b.exists_confused hW hless hb u
  | .enum, _, _, _ => ⟨1#32, 2#32, confused_of_ne trivial trivial
      (by rw [hless.enum]; decide) (twelve hW (by decide) rfl) (twelve_ne rfl).1
      (twelve_ne rfl).2⟩
  | .typedef t, ht, hplain, u => by
      obtain ⟨a, a', ha, ha', hlt, hne⟩ := t.exists_confused hless ht hplain u
      have hsame : less (.typedef t) = less t := funext₂ (hless.typedef t)
      refine ⟨a, a', ha, ha', (hless.typedef t a a').trans hlt, ?_⟩
      rw [hsame]
      exact hne

end Numbers

/-- A bool that is set, and is not by a read of any other text. -/
theorem Ty.exists_true : (t : Ty) → t.isBool = true → ∃ v : t.Val F, t.Legal less v
    ∧ v ≠ t.zero F ∧ t.text W v = lit "true"
    ∧ ∀ str, str ≠ lit "true" → t.back W (t.zero F) str = t.zero F
  | .base b, hb => by
      obtain rfl : b = .bool := by simpa [Ty.isBool] using hb
      refine ⟨true, trivial, Bool.true_eq_false_eq_False, rfl, ?_⟩
      intro str hstr
      show boolBack false str = false
      rw [boolBack, if_neg hstr, ite_self]
  | .typedef t, ht => t.exists_true ht

-- ========================================================== containers

/-- Some value is read as another. -/
def Misread (W : World) (junk : Bool) (less : (t : Ty) → t.Val F → t.Val F → Bool) (t : Ty) :
    Prop :=
  ∃ v v', t.Legal less v ∧ v' ≠ v ∧ t.ReadsAs W junk less v v'

/-- An element that is read over `s`, and one that is read from nothing. -/
theorem takes_two {α : Type} {elem : Read (Int × α)} {s rest : Bytes} {a b : α}
    (ha : Takes elem s rest (fun x => x.2 = a)) (hb : Takes elem [] rest (fun x => x.2 = b)) :
    Takes (readElems elem 2) s rest (fun x => x.2 = [a, b]) := by
  have hone : Takes (readElems elem 1) [] rest (fun x => x.2 = [b]) := by
    have hnone : Takes (readElems elem 0) [] rest (fun x => x.2 = []) := takes_pure rfl
    refine hb.bind fun x hx => hnone.map fun y hy => ?_
    rw [hx, hy]
  have htwo : Takes (readElems elem 2) (s ++ []) rest (fun x => x.2 = [a, b]) := by
    refine ha.bind fun x hx => hone.map fun y hy => ?_
    rw [hx, hy]
  rwa [List.append_nil] at htwo

section Bare

variable (hW : Decimals W) {t : Ty} (ht : t.undelimited = true) (hplain : t.Plain)

include hW ht hplain

/-- Two base values without tags. -/
theorem takes_pair {a b : t.Val F} (ha : t.Legal less a) (hb : t.Legal less b) (u : t.Val F)
    {rest : Bytes} (hrest : Tagged rest) :
    Takes (readElems (deserializeElement Reads.code t.isBaseOrEnum
        (t.deserialize W Reads.code junk less u)) [a, b].length)
      ([a, b].flatMap fun v => elementText t.isBaseOrEnum (t.text W v)) rest
      (fun x => x.2 = [t.back W u (t.text W a ++ t.text W b), t.back W u []]) := by
  have hbare := (Ty.bare_of_undelimited ht).1
  obtain ⟨tail, rfl⟩ := hrest
  have hreadable : ∀ c ∈ t.text W a ++ t.text W b, readable t.numeric c := by
    intro c hc
    rcases List.mem_append.mp hc with hc | hc
    · exact t.text_readable hW hbare hplain a ha c hc
    · exact t.text_readable hW hbare hplain b hb c hc
  have htext : [a, b].flatMap (fun v => elementText t.isBaseOrEnum (t.text W v))
      = t.text W a ++ t.text W b := by
    simp only [elementText_undelimited ht]
    simp
  rw [htext, deserialize_undelimited ht]
  exact takes_two (t.takes_bare hbare hplain u hreadable tail)
    (t.takes_bare hbare hplain u (fun _ hc => absurd hc List.not_mem_nil) tail)

theorem misread_list : Misread (F := F) W junk less (.list t) := by
  obtain ⟨b, hb, hne, -⟩ : ∃ b, Lost W less t (t.zero F) b :=
    t.exists_lost hW (Ty.bare_of_undelimited ht).1 hplain (t.zero F)
  have hlen : [t.zero F, b].length < 2 ^ 32 := by
    show 2 < 2 ^ 32
    decide
  refine ⟨[t.zero F, b], _, ⟨hlen, ?_⟩, ?_, readsAs_of_elems hW hlen fun rest hrest =>
    takes_pair hW ht hplain t.zero_legal hb (t.zero F) hrest⟩
  · intro v hv
    rcases List.mem_cons.mp hv with rfl | hv
    · exact t.zero_legal
    · rw [List.mem_singleton.mp hv]
      exact hb
  · intro heq
    exact hne (List.cons.inj (List.cons.inj heq).2).1.symm

theorem misread_set (hless : StdLess less) : Misread (F := F) W junk less (.set t) := by
  obtain ⟨a, b, ha, hb, hlt, hne⟩ := t.exists_confused hW hless (Ty.bare_of_undelimited ht).1
    hplain (t.declared F junk)
  have hlen : [a, b].length < 2 ^ 32 := by
    show 2 < 2 ^ 32
    decide
  refine ⟨[a, b], _, ⟨hlen, ?_, ?_⟩, hne, readsAs_of_inserts hW hlen rfl fun rest hrest =>
    takes_pair hW ht hplain ha hb (t.declared F junk) hrest⟩
  · refine List.pairwise_cons.mpr ⟨?_, List.pairwise_singleton _ b⟩
    intro c hc
    rw [List.mem_singleton.mp hc]
    exact hlt
  · intro v hv
    rcases List.mem_cons.mp hv with rfl | hv
    · exact ha
    · rw [List.mem_singleton.mp hv]
      exact hb

end Bare

theorem Ty.numeric_of_isBool : (t : Ty) → t.isBool = true → t.numeric = false
  | .base b, hb => by
      obtain rfl : b = .bool := by simpa [Ty.isBool] using hb
      rfl
  | .typedef t, ht => t.numeric_of_isBool ht

section Map

variable (hW : Decimals W) {k v : Ty} (hk : k.undelimited = true) (hv : v.undelimited = true)
  (hkplain : k.Plain) (hvplain : v.Plain)

include hW hk hv hkplain hvplain

omit hW hkplain hvplain in
/-- The text of the entries, in which there are no tags. -/
theorem entriesText (es : List (k.Val F × v.Val F)) :
    (es.flatMap fun e => elementText k.isBaseOrEnum (k.text W e.1)
      ++ elementText v.isBaseOrEnum (v.text W e.2))
      = es.flatMap fun e => k.text W e.1 ++ v.text W e.2 := by
  simp only [elementText_undelimited hk, elementText_undelimited hv]

/-- The key is read over its value, and the value from nothing. -/
theorem misread_map_of_swallowed (h : k.numeric = false ∨ v.isBool = false) :
    Misread (F := F) W junk less (.map k v) := by
  have hkbare := (Ty.bare_of_undelimited hk).1
  have hvbare := (Ty.bare_of_undelimited hv).1
  obtain ⟨b, hb, hne, hdigits⟩ : ∃ b, Lost W less v (v.zero F) b :=
    v.exists_lost hW hvbare hvplain (v.zero F)
  have ha : k.Legal less (k.zero F) := k.zero_legal
  have hreadable : ∀ c ∈ k.text W (k.zero F) ++ v.text W b, readable k.numeric c := by
    intro c hc
    rcases List.mem_append.mp hc with hc | hc
    · exact k.text_readable hW hkbare hkplain _ ha c hc
    · cases hbool : v.isBool with
      | false => exact readable_of_numeric (hdigits hbool c hc) k.numeric
      | true =>
          have hnumeric : k.numeric = v.numeric := by
            rw [v.numeric_of_isBool hbool]
            exact h.resolve_right (by rw [hbool]; exact Bool.true_eq_false_eq_False)
          rw [hnumeric]
          exact v.text_readable hW hvbare hvplain b hb c hc
  have hlen : [(k.zero F, b)].length < 2 ^ 32 := by
    show 1 < 2 ^ 32
    decide
  refine ⟨[(k.zero F, b)], [(k.back W (k.declared F junk) (k.text W (k.zero F) ++ v.text W b),
    v.back W (v.zero F) [])], ⟨hlen, List.pairwise_singleton _ _, ?_⟩, ?_,
    readsAs_of_entries hW hlen fun rest hrest => ?_⟩
  · intro e he
    rw [List.mem_singleton.mp he]
    exact ⟨ha, hb⟩
  · intro heq
    exact hne (Prod.mk.inj (List.cons.inj heq).1).2.symm
  · obtain ⟨tail, rfl⟩ := hrest
    have htext : [(k.zero F, b)].flatMap (fun e => k.text W e.1 ++ v.text W e.2)
        = (k.text W (k.zero F) ++ v.text W b) ++ ([] ++ []) := by
      simp
    rw [entriesText hk hv, deserialize_undelimited hk, htext]
    simp only [deserialize_undelimited hv]
    refine takes_entry (k.takes_bare hkbare hkplain _ hreadable tail) ?_ (takes_pure rfl)
    exact v.takes_bare hvbare hvplain _ (fun _ hc => absurd hc List.not_mem_nil) tail

/-- A number is told from the bool behind it, and that bool not from the
number behind it. -/
theorem misread_map_of_bools (hless : StdLess less) (hnumeric : k.numeric = true)
    (hbool : v.isBool = true) : Misread (F := F) W junk less (.map k v) := by
  have hkbare := (Ty.bare_of_undelimited hk).1
  have hvbare := (Ty.bare_of_undelimited hv).1
  obtain ⟨a, a', ha, ha', hlt, -⟩ := k.exists_confused hW hless hkbare hkplain
    (k.declared F junk)
  obtain ⟨b, hb, hbne, htext, hzero⟩ : ∃ b : v.Val F, v.Legal less b ∧ b ≠ v.zero F
      ∧ v.text W b = lit "true"
      ∧ ∀ str, str ≠ lit "true" → v.back W (v.zero F) str = v.zero F := v.exists_true hbool
  have hdigits : ∀ c ∈ k.text W a, readable true c := by
    rw [← hnumeric]
    exact k.text_readable hW hkbare hkplain a ha
  have hdigits' : ∀ c ∈ k.text W a', readable true c := by
    rw [← hnumeric]
    exact k.text_readable hW hkbare hkplain a' ha'
  -- what the first bool is read over
  have hover : ∀ c ∈ lit "true" ++ (k.text W a' ++ lit "true"), readable v.numeric c := by
    have htrue : ∀ c ∈ lit "true", readable false c := by
      have hall : ∀ c ∈ lit "true", c ≠ kcXMLTagO := by decide
      exact hall
    rw [v.numeric_of_isBool hbool]
    intro c hc
    rcases List.mem_append.mp hc with hc | hc
    · exact htrue c hc
    · rcases List.mem_append.mp hc with hc | hc
      · exact readable_of_numeric (hdigits' c hc) false
      · exact htrue c hc
  have hlong : lit "true" ++ (k.text W a' ++ lit "true") ≠ lit "true" := by
    intro heq
    have hlen := congrArg List.length heq
    have hfour : (lit "true").length = 4 := by decide
    simp only [List.length_append, hfour] at hlen
    omega
  have hlen : [(a, b), (a', b)].length < 2 ^ 32 := by
    show 2 < 2 ^ 32
    decide
  let u := k.declared F junk
  refine ⟨[(a, b), (a', b)], Sorted.assign (less k) (k.back W u []) (v.zero F)
    [(k.back W u (k.text W a), v.zero F)], ⟨hlen, ?_, ?_⟩, ?_,
    readsAs_of_entries hW hlen fun rest hrest => ?_⟩
  · refine List.pairwise_cons.mpr ⟨?_, List.pairwise_singleton _ _⟩
    intro e he
    rw [List.mem_singleton.mp he]
    exact hlt
  · intro e he
    rcases List.mem_cons.mp he with rfl | he
    · exact ⟨ha, hb⟩
    · rw [List.mem_singleton.mp he]
      exact ⟨ha', hb⟩
  · intro heq
    have hmem : (a, b) ∈ Sorted.assign (less k) (k.back W u []) (v.zero F)
        [(k.back W u (k.text W a), v.zero F)] := by
      rw [heq]
      exact List.mem_cons_self
    rcases Sorted.mem_assign hmem with h | h
    · exact hbne h
    · exact hbne (Prod.mk.inj (List.mem_singleton.mp h)).2
  · obtain ⟨tail, rfl⟩ := hrest
    have hentries : [(a, b), (a', b)].flatMap (fun e => k.text W e.1 ++ v.text W e.2)
        = k.text W a ++ ((lit "true" ++ (k.text W a' ++ lit "true")) ++ ([] ++ ([] ++ []))) := by
      simp [htext]
    rw [entriesText hk hv, deserialize_undelimited hk, hentries]
    simp only [deserialize_undelimited hv]
    have hnil : ∀ {b : Bool}, ∀ c ∈ ([] : Bytes), readable b c := nofun
    have hfirst : isXMLNumeric 116 = false := by decide
    refine takes_entry (a := k.back W u (k.text W a)) (b := v.zero F) ?_ ?_ ?_
    · exact k.takes_number hnumeric u hdigits hfirst _
    · exact (v.takes_bare hvbare hvplain (v.zero F) hover tail).imp fun _ hx =>
        hx.trans (hzero _ hlong)
    · refine takes_entry (a := k.back W u []) (b := v.zero F) ?_ ?_ (takes_pure rfl)
      · exact k.takes_bare hkbare hkplain u hnil tail
      · show Takes (v.deserialize W Reads.code junk less ((Sorted.find (less k) (k.back W u [])
          [(k.back W u (k.text W a), v.zero F)]).getD (v.zero F))) [] _ _
        rw [Sorted.getD_find_singleton]
        exact (v.takes_bare hvbare hvplain (v.zero F) hnil tail).imp fun _ hx =>
          hx.trans (hzero [] (by decide))

end Map

end Sandesh.CppGen
