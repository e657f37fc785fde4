/-
`skip` on the entries of a map.

Where neither keys nor values stand in tags of elements, an entry is
skipped like an element of a list. Where one of them does, no turn of the
loop gets past more than one of the two (`Queue`), and the end of the map
is not reached.
-/
import Sandesh.CppGen.Proofs.SkipStructs

namespace Sandesh.CppGen

open Lib Xml Header LookaheadReader TType
open Lib.Prog (Runs runs_pure)

variable {W : World} {F : Foreign}

/-- One turn of the loop over the entries. -/
def skipEntry (W : World) (keyType valType : TType) : Read Int := do
  let ret ← skip W Reads.code keyType
  let ret2 ← skip W Reads.code valType
  pure (ret + ret2)

/-- A key and a value in a row. -/
theorem settles_entry {keyType valType : TType} {s t rest : Bytes} {good good' : Prop}
    (hk : Settles (skip W Reads.code keyType) s (t ++ rest) good (fun n => n = s.length))
    (hv : Settles (skip W Reads.code valType) t rest good' (fun n => n = t.length)) :
    Settles (skipEntry W keyType valType) (s ++ t) rest (good ∧ good')
      (fun n => n = (s ++ t).length) := by
  refine hk.bind fun n hn => hv.map fun n' hn' => ?_
  rw [hn, hn', List.length_append, Int.natCast_add]

/-- The same where only progress matters. -/
theorem goes_entry {keyType valType : TType} {s : Bytes} {Q Q' : Bytes → Prop}
    (hk : Goes (skip W Reads.code keyType) s Q)
    (hv : ∀ s', Q s' → Goes (skip W Reads.code valType) s' Q') :
    Goes (skipEntry W keyType valType) s Q' :=
  hk.bind fun _ s' hs' => (hv s' hs').bind fun _ _ hs'' => goes_pure hs''

-- ================================================= characters run together

/-- The second of two base types leaves nothing over. -/
theorem Base.left_left {a b : Base} {s : Bytes}
    (h : a.numeric = true → b.numeric = true → ∀ c ∈ s, isXMLNumeric c = true) :
    b.left (a.left s) = [] := by
  unfold Base.left
  by_cases hb : b.numeric = true
  · rw [if_pos hb]
    by_cases ha : a.numeric = true
    · rw [if_pos ha, List.dropWhile_eq_nil_iff.mpr (h ha hb)]
      rfl
    · rw [if_neg ha]
      rfl
  · rw [if_neg hb]

/-- Nothing is left that was not there. -/
theorem Base.not_mem_left (b : Base) {s : Bytes} {c : UInt8} (h : c ∉ s) : c ∉ b.left s := by
  intro hmem
  apply h
  rw [← b.front_append_left s]
  exact List.mem_append_right _ hmem

/-- A key and a value without tags. -/
theorem settles_pair {a b : Base} (ha : a ≠ .xml) (hb : b ≠ .xml) {s : Bytes}
    (hs : kcXMLTagO ∉ s)
    (hnumeric : a.numeric = true → b.numeric = true → ∀ c ∈ s, isXMLNumeric c = true)
    (tail : Bytes) :
    Settles (skipEntry W a.type_to_enum b.type_to_enum) s (kcXMLTagO :: tail)
      (Accept W [a, b] s) (fun n => n = s.length) := by
  have hnone := Base.left_left hnumeric
  have hall : b.front (a.left s) = a.left s := by
    have happend := b.front_append_left (a.left s)
    rwa [hnone, List.append_nil] at happend
  have hkey := a.settles (W := W) tail ha hs
  have hval := b.settles (W := W) tail hb (a.not_mem_left hs)
  rw [hnone, hall] at hval
  have hentry := settles_entry hkey hval
  rw [a.front_append_left] at hentry
  refine hentry.congr ?_
  simp only [Accept, and_true]

section Entries

variable (hW : Decimals W) (hF : F.Texts W) {k v : Ty} {es : List (k.Val F × v.Val F)}

/-- The entries, neither of whose parts stands in the tags of an element. -/
def entryText (W : World) (e : k.Val F × v.Val F) : Bytes := k.text W e.1 ++ v.text W e.2

include hW hF

/-- Entries without delimiters between them are read together. -/
theorem Ty.entries_together {a b : Base} (hk : k.leaf = some a) (hv : v.leaf = some b)
    (ha : a ≠ .xml) (hb : b ≠ .xml) (hclean : Every (fun e => k.Clean e.1 ∧ v.Clean e.2) es)
    (tail : Bytes) (acc : Int) :
    Settles (skipElems (skipEntry W k.type_to_enum v.type_to_enum) es.length acc)
      (es.flatMap (entryText W)) (kcXMLTagO :: tail)
      (Together W [a, b] es.length (es.flatMap (entryText W)))
      (fun n => n = acc + (es.flatMap (entryText W)).length) := by
  have hkey : ∀ e ∈ es, _ := fun e he => Ty.text_run hW hF hk ha e.1 (hclean e he).1
  have hval : ∀ e ∈ es, _ := fun e he => Ty.text_run hW hF hv hb e.2 (hclean e he).2
  have hno : kcXMLTagO ∉ es.flatMap (entryText W) := by
    simp only [List.mem_flatMap, not_exists, not_and, entryText, List.mem_append, not_or]
    exact fun e he => ⟨(hkey e he).1, (hval e he).1⟩
  have hnumeric : a.numeric = true → b.numeric = true →
      ∀ c ∈ es.flatMap (entryText W), isXMLNumeric c = true := by
    intro hna hnb c hc
    obtain ⟨e, he, hmem⟩ := List.mem_flatMap.mp hc
    rcases List.mem_append.mp hmem with hmem | hmem
    · exact (hkey e he).2 hna c hmem
    · exact (hval e he).2 hnb c hmem
  rw [k.enum_leaf hk, v.enum_leaf hv]
  refine settles_together (fun s hs => ?_) (fun hn => ?_) acc
  · apply settles_pair ha hb
    · rcases hs with rfl | rfl
      · exact hno
      · exact List.not_mem_nil
    · intro hna hnb
      rcases hs with rfl | rfl
      · exact hnumeric hna hnb
      · intro c hc
        cases hc
  · rw [List.length_eq_zero_iff.mp hn]
    rfl

omit hW hF in
/-- Keys or values have tags, and entries are skipped one by one. -/
theorem Ty.entries_apart (hsep : ¬ (k.Loose ∧ v.Loose))
    (hskips : ∀ e ∈ es, k.Skips W e.1 ∧ v.Skips W e.2) {rest : Bytes} (hrest : Tagged rest)
    (acc : Int) :
    Settles (skipElems (skipEntry W k.type_to_enum v.type_to_enum) es.length acc)
      (es.flatMap (entryText W)) rest
      (Every (fun e => k.Skippable W e.1 ∧ v.Skippable W e.2) es)
      (fun n => n = acc + (es.flatMap (entryText W)).length) := by
  refine settles_elems (R := fun rest => v.Loose → Tagged rest) ?_ ?_ (fun _ => hrest) acc
  · intro e _ rest _ hv
    have hk : ¬ k.Loose := fun hk => hsep ⟨hk, hv⟩
    exact ((Ty.tagged_of_not_loose hk e.1).append _).append _
  · intro e he rest hrest
    refine settles_entry ((hskips e he).1 fun hk => ?_) ((hskips e he).2 hrest)
    have hv : ¬ v.Loose := fun hv => hsep ⟨hk, hv⟩
    exact (Ty.tagged_of_not_loose hv e.2).append _

end Entries

-- ====================================================== elements in tags

/-- A loose type is a base type or an enum underneath. -/
theorem Ty.loose_leaf {t : Ty} (h : t.Loose) : t.leaf ≠ none := by
  obtain ⟨b, hleaf, -⟩ := h
  rw [hleaf]
  exact nofun

/-- How an opening tag begins. -/
theorem exists_name {name : Bytes} (hname : IsName name) (attrs s rest : Bytes) :
    ∃ c tail, between name attrs s ++ rest = kcXMLTagO :: c :: tail ∧ isNameChar c = true := by
  obtain ⟨c, name, rfl⟩ := List.exists_cons_of_ne_nil hname.1
  refine ⟨c, name ++ attrs ++ kcXMLTagC :: (s ++ (closeTag (c :: name) ++ rest)), ?_,
    hname.2 c List.mem_cons_self⟩
  rw [between, List.append_assoc, List.append_assoc, text_eq]
  rfl

/-- The tag that a value with tags begins with. -/
theorem Ty.exists_front : (t : Ty) → t.leaf = none → t.Sound W → (v : t.Val F) → (rest : Bytes) →
    ∃ c tail, t.text W v ++ rest = kcXMLTagO :: c :: tail ∧ isNameChar c = true
  | .typedef t, ht, hsound, v, rest => t.exists_front ht hsound v rest
  | .struct _ _, _, hsound, _, rest => exists_name hsound.1 _ _ rest
  | .list _, _, _, _, rest => exists_name (by decide) _ _ rest
  | .set _, _, _, _, rest => exists_name (by decide) _ _ rest
  | .map _ _, _, _, _, rest => exists_name (by decide) _ _ rest

/-- An element without tags of its own, or a value of the type. -/
def Ty.Item (W : World) (F : Foreign) (t : Ty) (x : Bytes) : Prop :=
  (∃ y, kcXMLTagO ∉ y ∧ x = elementText true y)
    ∨ ∃ v : t.Val F, t.Skips W v ∧ x = elementText t.isBaseOrEnum (t.text W v)

/-- More than `n` of these. -/
def Queue (W : World) (F : Foreign) (t : Ty) (rest : Bytes) (n : Nat) (s : Bytes) : Prop :=
  ∃ items : List Bytes, n < items.length ∧ (∀ x ∈ items, t.Item W F x)
    ∧ s = items.flatten ++ rest

section Queue

variable {t : Ty} (ht : t.leaf = none) {rest : Bytes} {n : Nat} {s : Bytes}

include ht

/-- A type with entries is no base type. -/
theorem Ty.not_declared : t.isBaseOrEnum = false := by
  rw [Bool.eq_false_iff]
  intro hdecl
  obtain ⟨b, hleaf⟩ := t.exists_leaf hdecl
  rw [ht] at hleaf
  cases hleaf

/-- A struct or container stands without a tag of its own. -/
theorem Ty.elementText_eq (v : t.Val F) :
    elementText t.isBaseOrEnum (t.text W v) = t.text W v := by
  rw [elementText, Ty.not_declared ht]
  rfl

/-- The type gets past one of them at most. -/
theorem Ty.Item.goes {x : Bytes} (hx : t.Item W F x) (more : Bytes) :
    Goes (skip W Reads.code t.type_to_enum) (x ++ more) (fun s => s = more) := by
  rcases hx with ⟨y, hy, rfl⟩ | ⟨v, hskips, rfl⟩
  · exact t.goes_element hy more ht
  · rw [Ty.elementText_eq ht]
    exact (hskips fun h => absurd ht (Ty.loose_leaf h)).goes rfl

/-- An item begins with an opening tag. -/
theorem Ty.Item.front (hsound : t.Sound W) {x : Bytes} (hx : t.Item W F x) (more : Bytes) :
    ∃ c tail, x ++ more = kcXMLTagO :: c :: tail ∧ isNameChar c = true := by
  rcases hx with ⟨y, -, rfl⟩ | ⟨v, -, rfl⟩
  · obtain ⟨tail, htail⟩ := exists_element y more
    exact ⟨101, tail, htail, by decide⟩
  · rw [Ty.elementText_eq ht]
    exact t.exists_front ht hsound v more

/-- So does a queue of them. -/
theorem Queue.front (hsound : t.Sound W) (h : Queue W F t rest n s) :
    ∃ c tail, s = kcXMLTagO :: c :: tail ∧ isNameChar c = true := by
  obtain ⟨items, hlen, hitems, rfl⟩ := h
  obtain ⟨x, items, rfl⟩ := List.exists_cons_of_length_pos (Nat.zero_lt_of_lt hlen)
  rw [List.flatten_cons, List.append_assoc]
  exact (hitems x List.mem_cons_self).front ht hsound _

/-- That tag ends nothing. -/
theorem Queue.stuck (hsound : t.Sound W) (h : Queue W F t rest n s) : Stuck s := by
  obtain ⟨c, tail, hs, hc⟩ := h.front ht hsound
  exact ⟨c, tail, isNameChar_ne hc (by decide), hs⟩

/-- A base value is not looked for in the right place. -/
theorem Queue.stays (hsound : t.Sound W) (h : Queue W F t rest n s) (b : Base) :
    Goes (skip W Reads.code b.type_to_enum) s (Queue W F t rest n) := by
  obtain ⟨c, tail, hs, hc⟩ := h.front ht hsound
  have hstays := b.stays (W := W) (isNameChar_ne hc (d := 33) (by decide)) tail
  rw [← hs] at hstays
  exact hstays.imp fun s' hs' => hs' ▸ h

/-- Skipping takes the first item off the queue. -/
theorem Queue.moves (h : Queue W F t rest (n + 1) s) :
    Goes (skip W Reads.code t.type_to_enum) s (Queue W F t rest n) := by
  obtain ⟨items, hlen, hitems, rfl⟩ := h
  obtain ⟨x, items, rfl⟩ := List.exists_cons_of_length_pos (Nat.zero_lt_of_lt hlen)
  rw [List.flatten_cons, List.append_assoc]
  refine ((hitems x List.mem_cons_self).goes ht _).imp fun s' hs' => ?_
  exact ⟨items, Nat.lt_of_succ_lt_succ hlen, fun y hy => hitems y (List.mem_cons_of_mem _ hy), hs'⟩

end Queue

section Tagged

/-- Keys and values in a row. -/
theorem flatten_pairs {α : Type} (f g : α → Bytes) (l : List α) :
    (l.flatMap fun a => [f a, g a]).flatten = l.flatMap fun a => f a ++ g a := by
  induction l with
  | nil => rfl
  | cons a l ih => simp [ih]

/-- There are twice as many of them. -/
theorem length_pairs {α : Type} (f g : α → Bytes) (l : List α) :
    (l.flatMap fun a => [f a, g a]).length = l.length + l.length := by
  induction l with
  | nil => rfl
  | cons a l ih =>
      rw [List.flatMap_cons, List.length_append, ih]
      simp only [List.length_cons, List.length_nil]
      omega

variable {k v : Ty}

/-- The entries as they are written. -/
def taggedEntry (W : World) (e : k.Val F × v.Val F) : Bytes :=
  elementText k.isBaseOrEnum (k.text W e.1) ++ elementText v.isBaseOrEnum (v.text W e.2)

/-- A map is such a queue. -/
theorem Queue.start {t : Ty} {es : List (k.Val F × v.Val F)} (hne : es ≠ [])
    (hk : ∀ e ∈ es, t.Item W F (elementText k.isBaseOrEnum (k.text W e.1)))
    (hv : ∀ e ∈ es, t.Item W F (elementText v.isBaseOrEnum (v.text W e.2))) (rest : Bytes) :
    Queue W F t rest es.length (es.flatMap (taggedEntry W) ++ rest) := by
  refine ⟨es.flatMap fun e => [elementText k.isBaseOrEnum (k.text W e.1),
    elementText v.isBaseOrEnum (v.text W e.2)], ?_, ?_, ?_⟩
  · have hpos := List.length_pos_iff.mpr hne
    rw [length_pairs]
    omega
  · intro x hx
    obtain ⟨e, he, hmem⟩ := List.mem_flatMap.mp hx
    simp only [List.mem_cons, List.not_mem_nil, or_false] at hmem
    rcases hmem with rfl | rfl
    · exact hk e he
    · exact hv e he
  · rw [flatten_pairs]
    rfl

/-- After the first key the reader is at the tag of an element. -/
theorem Ty.goes_key (hdecl : k.isBaseOrEnum = true ∨ v.isBaseOrEnum = true)
    {e : k.Val F × v.Val F} (hskips : k.Skips W e.1) (more : Bytes) :
    ∃ tail, Goes (skip W Reads.code k.type_to_enum) (taggedEntry W e ++ more)
      (fun s => s = kcXMLTagO :: 101 :: tail) := by
  rw [taggedEntry, List.append_assoc]
  by_cases hk : k.isBaseOrEnum = true
  · obtain ⟨b, hleaf⟩ := k.exists_leaf hk
    rw [hk, k.enum_leaf hleaf]
    obtain ⟨tail, htail⟩ := exists_element (k.text W e.1)
      (elementText v.isBaseOrEnum (v.text W e.2) ++ more)
    rw [htail]
    exact ⟨tail, b.stays (by decide) tail⟩
  · have hv := hdecl.resolve_left hk
    obtain ⟨tail, htail⟩ := exists_element (v.text W e.2) more
    rw [elementText, if_neg hk, hv]
    exact ⟨tail, (hskips fun _ => htail ▸ ⟨_, rfl⟩).goes htail⟩

/-- Neither key nor value gets ahead. -/
theorem Ty.entries_stuck_leaves (hdecl : k.isBaseOrEnum = true ∨ v.isBaseOrEnum = true)
    {a b : Base} (hk : k.leaf = some a) (hv : v.leaf = some b) {e : k.Val F × v.Val F}
    (hskips : k.Skips W e.1) (more : Bytes) (n : Nat) (acc : Int) :
    Goes (skipElems (skipEntry W k.type_to_enum v.type_to_enum) (n + 1) acc)
      (taggedEntry W e ++ more) Stuck := by
  obtain ⟨tail, hkey⟩ := Ty.goes_key hdecl hskips more
  have hval : ∀ s, s = kcXMLTagO :: 101 :: tail → Goes (skip W Reads.code v.type_to_enum) s
      (fun s => s = kcXMLTagO :: 101 :: tail) := by
    intro s hs
    rw [hs, v.enum_leaf hv]
    exact b.stays (by decide) tail
  have hkey' : ∀ s, s = kcXMLTagO :: 101 :: tail → Goes (skip W Reads.code k.type_to_enum) s
      (fun s => s = kcXMLTagO :: 101 :: tail) := by
    intro s hs
    rw [hs, k.enum_leaf hk]
    exact a.stays (by decide) tail
  refine Goes.imp (Q := fun s => s = kcXMLTagO :: 101 :: tail) ?_
    fun s hs => ⟨101, tail, by decide, hs⟩
  refine (goes_entry hkey hval).bind fun ret s hs => ?_
  exact goes_elems (Q := fun _ s => s = kcXMLTagO :: 101 :: tail)
    (fun _ s hs => goes_entry (hkey' s hs) hval) n _ s hs

/-- An xml in the tags of an element is not found. -/
theorem Ty.entries_stuck_xml
    (hdecl : k.isBaseOrEnum = true ∧ k.leaf = some .xml
      ∨ v.isBaseOrEnum = true ∧ v.leaf = some .xml) {e : k.Val F × v.Val F}
    (hskips : k.Skips W e.1) (more : Bytes) (n : Nat) (acc : Int) :
    Goes (skipElems (skipEntry W k.type_to_enum v.type_to_enum) (n + 1) acc)
      (taggedEntry W e ++ more) Stuck := by
  have hxml : ∀ tail, Fails (skip W Reads.code Base.xml.type_to_enum)
      (kcXMLTagO :: 101 :: tail) := by
    intro tail
    apply Fails.skip
    exact fails_cdata (by decide) tail
  refine Fails.goes (Fails.bind ?_)
  rcases hdecl with ⟨hk, hleaf⟩ | ⟨hv, hleaf⟩
  · obtain ⟨tail, htail⟩ := exists_element (k.text W e.1)
      (elementText v.isBaseOrEnum (v.text W e.2) ++ more)
    rw [taggedEntry, List.append_assoc, hk, htail, skipEntry, k.enum_leaf hleaf]
    exact (hxml tail).bind
  · obtain ⟨tail, hkey⟩ := Ty.goes_key (.inr hv) hskips more
    refine hkey.fails fun _ s hs => ?_
    rw [hs, v.enum_leaf hleaf]
    exact (hxml tail).bind

section Contents

variable (hW : Decimals W) (hF : F.Texts W) (hk : k.Sound W) (hv : v.Sound W)
  {es : List (k.Val F × v.Val F)} (hclean : Every (fun e => k.Clean e.1 ∧ v.Clean e.2) es)
  (hskips : ∀ e ∈ es, k.Skips W e.1 ∧ v.Skips W e.2) (hne : es ≠ [])

include hW hF

/-- An element of a base type has no tag in its characters. -/
theorem Ty.item_element {t d : Ty} (hdecl : d.isBaseOrEnum = true) {b : Base}
    (hleaf : d.leaf = some b) (hb : b ≠ .xml) (w : d.Val F) (hw : d.Clean w) :
    t.Item W F (elementText d.isBaseOrEnum (d.text W w)) := by
  rw [hdecl]
  exact .inl ⟨_, (Ty.text_run hW hF hleaf hb w hw).1, rfl⟩

include hk hv hclean hskips hne

/-- A map with elements in tags is not got past. -/
theorem Ty.entries_stuck (hdecl : k.isBaseOrEnum = true ∨ v.isBaseOrEnum = true)
    (rest : Bytes) (acc : Int) :
    Goes (skipElems (skipEntry W k.type_to_enum v.type_to_enum) es.length acc)
      (es.flatMap (taggedEntry W) ++ rest) Stuck := by
  obtain ⟨e, es', hcons⟩ := List.exists_cons_of_ne_nil hne
  have hfirst : k.Skips W e.1 := (hskips e (hcons ▸ List.mem_cons_self)).1
  have hentries : es.flatMap (taggedEntry W) ++ rest
      = taggedEntry W e ++ (es'.flatMap (taggedEntry W) ++ rest) := by
    rw [hcons, List.flatMap_cons, List.append_assoc]
  have hlen : es.length = es'.length + 1 := by
    rw [hcons]
    rfl
  cases hkleaf : k.leaf with
  | none =>
      -- keys lead, and take the elements for keys
      have hvdecl := hdecl.resolve_left (by rw [Ty.not_declared hkleaf]; exact nofun)
      obtain ⟨b, hvleaf⟩ := v.exists_leaf hvdecl
      by_cases hb : b = .xml
      · subst hb
        rw [hentries, hlen]
        exact Ty.entries_stuck_xml (.inr ⟨hvdecl, hvleaf⟩) hfirst _ _ acc
      · have hstart := Queue.start (W := W) (t := k) hne
          (fun e he => .inr ⟨e.1, (hskips e he).1, rfl⟩)
          (fun e he => Ty.item_element hW hF hvdecl hvleaf hb e.2 (hclean e he).2) rest
        refine (goes_elems (fun n s hs => ?_) _ acc _ hstart).imp
          fun s hs => hs.stuck hkleaf hk
        refine goes_entry (hs.moves hkleaf) fun s' hs' => ?_
        rw [v.enum_leaf hvleaf]
        exact hs'.stays hkleaf hk b
  | some a =>
      cases hvleaf : v.leaf with
      | some b =>
          rw [hentries, hlen]
          exact Ty.entries_stuck_leaves hdecl hkleaf hvleaf hfirst _ _ acc
      | none =>
          -- values do
          have hkdecl := hdecl.resolve_right (by rw [Ty.not_declared hvleaf]; exact nofun)
          by_cases ha : a = .xml
          · subst ha
            rw [hentries, hlen]
            exact Ty.entries_stuck_xml (.inl ⟨hkdecl, hkleaf⟩) hfirst _ _ acc
          · have hstart := Queue.start (W := W) (t := v) hne
              (fun e he => Ty.item_element hW hF hkdecl hkleaf ha e.1 (hclean e he).1)
              (fun e he => .inr ⟨e.2, (hskips e he).2, rfl⟩) rest
            refine (goes_elems (fun n s hs => ?_) _ acc _ hstart).imp
              fun s hs => hs.stuck hvleaf hv
            rw [k.enum_leaf hkleaf]
            exact goes_entry (hs.stays hvleaf hv a) fun s' hs' => hs'.moves hvleaf

omit hne in
/-- The contents of a map. -/
theorem Ty.entries_pass {rest : Bytes} (hrest : Closing rest) (acc : Int) :
    Passes (skipElems (skipEntry W k.type_to_enum v.type_to_enum) es.length acc)
      (es.flatMap (taggedEntry W)) rest
      (Every (fun e => k.Skippable W e.1 ∧ v.Skippable W e.2) es
        ∧ k.EntriesApart W v es.length (es.flatMap (entryText W)))
      (fun n => n = acc + (es.flatMap (taggedEntry W)).length) := by
  by_cases hdecl : k.isBaseOrEnum = true ∨ v.isBaseOrEnum = true
  · by_cases hne : es = []
    · subst hne
      apply Settles.passes
      exact settles_none ⟨nofun, fun _ => rfl, fun _ _ _ _ _ _ => .inl rfl⟩ acc
    · refine ⟨fun hgood => absurd ?_ hne,
        fun _ => Ty.entries_stuck hW hF hk hv hclean hskips hne hdecl rest acc⟩
      exact List.length_eq_zero_iff.mp (hgood.2.1 hdecl)
  · have hbare : (taggedEntry W : k.Val F × v.Val F → Bytes) = entryText W := by
      rw [not_or] at hdecl
      funext e
      simp only [taggedEntry, entryText, elementText, if_neg hdecl.1, if_neg hdecl.2]
    rw [hbare]
    apply Settles.passes
    by_cases hloose : k.Loose ∧ v.Loose
    · obtain ⟨⟨a, hkleaf, ha⟩, b, hvleaf, hb⟩ := hloose
      obtain ⟨tail, rfl⟩ := hrest
      refine (Ty.entries_together hW hF hkleaf hvleaf ha hb hclean _ acc).congr ?_
      refine ⟨fun hgood => hgood.2.2 a b hkleaf hvleaf ha hb, fun h => ⟨?_, ?_, ?_⟩⟩
      · intro e he
        obtain ⟨-, -, -, hkskip⟩ := k.text_leaf (W := W) hkleaf e.1
        obtain ⟨-, -, -, hvskip⟩ := v.text_leaf (W := W) hvleaf e.2
        rcases h with h | h
        · rw [List.length_eq_zero_iff.mp h] at he
          cases he
        · exact ⟨hkskip.mpr (Base.ne_double h.1.1), hvskip.mpr (Base.ne_double h.1.2.1)⟩
      · exact fun h => absurd h hdecl
      · intro a' b' hkleaf' hvleaf' _ _
        rw [hkleaf] at hkleaf'
        rw [hvleaf] at hvleaf'
        exact Option.some.inj hkleaf' ▸ Option.some.inj hvleaf' ▸ h
    · refine (Ty.entries_apart hloose hskips hrest.tagged acc).congr ?_
      refine and_iff_left ⟨fun h => absurd h hdecl, ?_⟩
      intro a b hkleaf hvleaf ha hb
      exact absurd ⟨⟨a, hkleaf, ha⟩, b, hvleaf, hb⟩ hloose

end Contents

end Tagged

end Sandesh.CppGen
