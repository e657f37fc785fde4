/-
The open tag of a field, written and read.

The reader takes the tag apart at `=`, `"` and blanks, and what it calls a
field's name, type and id depends on the words alone. The words of the
annotations come behind those of the field, and wherever `type` or
`identifier` is among them the word behind it is taken for a value, if
there is one. `assigned` lists these values; the field comes back exactly
when the last of each kind, if there is one, says what the field says.
-/
import Sandesh.CppGen.Read
import Sandesh.Header.Proofs.Offset

namespace Sandesh.CppGen

open Lib Xml Header TXMLWriter Prog TType

-- =============================================================== words

/-- A separator cuts the words in two. -/
theorem tokensFrom_append {c : UInt8} (hc : isSeparator c = true) (s t : Bytes) :
    ∀ cur, tokensFrom cur (s ++ c :: t) = tokensFrom cur s ++ tokens t := by
  induction s with
  | nil =>
      intro cur
      by_cases hcur : cur = []
      · simp [tokensFrom, hc, hcur, tokens]
      · simp [tokensFrom, hc, hcur, tokens]
  | cons d s ih =>
      intro cur
      rw [List.cons_append, tokensFrom, tokensFrom]
      by_cases hd : isSeparator d = true
      · rw [if_pos hd, if_pos hd]
        by_cases hcur : cur = []
        · rw [if_pos hcur, if_pos hcur, ih]
        · rw [if_neg hcur, if_neg hcur, ih, List.cons_append]
      · rw [if_neg hd, if_neg hd, ih]

/-- The tokenizer may start anew behind a separator. -/
theorem tokens_append {c : UInt8} (hc : isSeparator c = true) (s t : Bytes) :
    tokens (s ++ c :: t) = tokens s ++ tokens t :=
  tokensFrom_append hc s t []

/-- A text without separators is a word. -/
def IsWord (word : Bytes) : Prop := word ≠ [] ∧ ∀ c ∈ word, isSeparator c = false

/-- A word is one token. -/
theorem tokens_isWord {word : Bytes} (h : IsWord word) : tokens word = [word] := by
  have htokens := tokensFrom_word word h.2 [] []
  rw [List.append_nil, List.nil_append, tokensFrom, if_neg h.1] at htokens
  exact htokens

/-- A name is a word. -/
theorem isWord_of_isName {name : Bytes} (h : IsName name) : IsWord name :=
  ⟨h.1, fun c hc => isNameChar_separator (h.2 c hc)⟩

/-- What the words of a text are made of. -/
theorem mem_tokensFrom {word : Bytes} (s : Bytes) :
    ∀ cur, (∀ c ∈ cur, isSeparator c = false) → word ∈ tokensFrom cur s →
      IsWord word ∧ ∀ c ∈ word, c ∈ cur ++ s := by
  induction s with
  | nil =>
      intro cur hcur h
      rw [tokensFrom] at h
      split at h
      · cases h
      · rename_i hne
        obtain rfl := List.mem_singleton.mp h
        exact ⟨⟨hne, hcur⟩, fun c hc => List.mem_append_left [] hc⟩
  | cons d s ih =>
      intro cur hcur h
      rw [tokensFrom] at h
      have hskip : word ∈ tokensFrom [] s → IsWord word ∧ ∀ c ∈ word, c ∈ cur ++ d :: s := by
        intro h
        have hnone : ∀ c ∈ ([] : Bytes), isSeparator c = false :=
          fun c hc => absurd hc List.not_mem_nil
        obtain ⟨hword, hmem⟩ := ih [] hnone h
        refine ⟨hword, fun c hc => ?_⟩
        exact List.mem_append_right cur (List.mem_cons_of_mem d (hmem c hc))
      split at h
      · split at h
        · exact hskip h
        · rename_i hne
          rcases List.mem_cons.mp h with h | h
          · subst h
            exact ⟨⟨hne, hcur⟩, fun c hc => List.mem_append_left _ hc⟩
          · exact hskip h
      · rename_i hd
        have hcur' : ∀ c ∈ cur ++ [d], isSeparator c = false := by
          intro c hc
          rcases List.mem_append.mp hc with hc | hc
          · exact hcur c hc
          · rw [List.mem_singleton.mp hc]
            simpa using hd
        obtain ⟨hword, hmem⟩ := ih (cur ++ [d]) hcur' h
        refine ⟨hword, fun c hc => ?_⟩
        simpa using hmem c hc

/-- Every token is a word made of characters of the text. -/
theorem mem_tokens {s word : Bytes} (h : word ∈ tokens s) :
    IsWord word ∧ ∀ c ∈ word, c ∈ s :=
  mem_tokensFrom s [] nofun h

-- ========================================================= what is set

/-- The words that are taken for values of `type` and of `identifier`. The
word behind a `type` is its value even if it is `identifier`, and then the
value of that comes behind it; `none` where a value is missing. -/
def assigned : List Bytes → Option (List Bytes × List Bytes)
  | [] => some ([], [])
  | [word] => if word = lit "type" ∨ word = lit "identifier" then none else some ([], [])
  | word :: value :: rest =>
      if word = lit "type" then
        if value = lit "identifier" then
          match rest with
          | [] => none
          | id :: rest => (assigned rest).map fun x => (value :: x.1, id :: x.2)
        else (assigned rest).map fun x => (value :: x.1, x.2)
      else if word = lit "identifier" then
        (assigned rest).map fun x => (x.1, value :: x.2)
      else assigned (value :: rest)

variable {W : World}

/-- The types set one after the other. -/
def setTypes : TType → List Bytes → Except Fault TType
  | t, [] => .ok t
  | _, v :: types =>
      match getTypeIDForTypeName v with
      | .error e => .error e
      | .ok u => setTypes u types

/-- The ids that are read, one over the other. -/
def setIds (W : World) (i : BitVec 16) (ids : List Bytes) : BitVec 16 :=
  ids.foldl (fun _ v => W.stringToInteger 16 v) i

/-- One type more. -/
theorem setTypes_cons {v : Bytes} {types : List Bytes} {t t' : TType} :
    setTypes t (v :: types) = .ok t'
      ↔ ∃ u, getTypeIDForTypeName v = .ok u ∧ setTypes u types = .ok t' := by
  rw [setTypes]
  cases getTypeIDForTypeName v with
  | error e => simp
  | ok u => simp

section ReadAttrs

/-- A word meets the first attribute or a later one. -/
theorem meets_cons {σ : Type} (a : Attr σ) (attrs : List (Attr σ)) (word : Bytes) :
    Attr.meets (a :: attrs) word
      = if word = a.key then some (a, attrs) else Attr.meets attrs word := by
  unfold Attr.meets
  rw [List.dropWhile_cons]
  by_cases h : word = a.key
  · simp [h]
  · rw [if_pos (by simpa using Ne.symm h), if_neg h]

theorem meets_nil {σ : Type} (word : Bytes) : Attr.meets ([] : List (Attr σ)) word = none := rfl

/-- The first `if` of the loop, and the second. -/
def fieldType : Attr (TType × BitVec 16) := typeAttr (lit "type") fun t s => (t, s.2)

/-- The second attribute of a field. -/
def fieldIdentifier (W : World) : Attr (TType × BitVec 16) where
  key := lit "identifier"
  set := fun v s => .ok (s.1, W.stringToInteger 16 v)

/-- A field has these two. -/
theorem fieldAttrs_eq : fieldAttrs W = [fieldType, fieldIdentifier W] := rfl

theorem key_fieldType : fieldType.key = lit "type" := rfl

theorem key_fieldIdentifier : (fieldIdentifier W).key = lit "identifier" := rfl

/-- Behind the type only the id is looked for. -/
theorem meets_later (v : Bytes) : Attr.meets [fieldIdentifier W] v
    = if v = lit "identifier" then some (fieldIdentifier W, []) else none := by
  rw [meets_cons, key_fieldIdentifier, meets_nil]

/-- At first both are. -/
theorem meets_fieldAttrs (word : Bytes) : Attr.meets (fieldAttrs W) word
    = if word = lit "type" then some (fieldType, [fieldIdentifier W])
      else if word = lit "identifier" then some (fieldIdentifier W, []) else none := by
  rw [fieldAttrs_eq, meets_cons, key_fieldType, meets_later]

variable {word : Bytes} {rest : List Bytes} {s : TType × BitVec 16}

/-- A word that is neither `type` nor `identifier` is passed over. -/
theorem readAttrs_other (ht : word ≠ lit "type") (hi : word ≠ lit "identifier") :
    readAttrs (fieldAttrs W) (word :: rest) none s = readAttrs (fieldAttrs W) rest none s := by
  rw [readAttrs, meets_fieldAttrs, if_neg ht, if_neg hi]

/-- `identifier` and its value. -/
theorem readAttrs_identifier (v : Bytes) :
    readAttrs (fieldAttrs W) (lit "identifier" :: v :: rest) none s
      = readAttrs (fieldAttrs W) rest none (s.1, W.stringToInteger 16 v) := by
  rw [readAttrs, meets_fieldAttrs, if_neg (by decide), if_pos rfl, readAttrs]
  rfl

/-- `type` and its value, which may itself be `identifier`. -/
theorem readAttrs_type (v : Bytes) :
    readAttrs (fieldAttrs W) (lit "type" :: v :: rest) none s
      = match getTypeIDForTypeName v with
        | .error e => .error e
        | .ok t =>
            if v = lit "identifier" then
              readAttrs (fieldAttrs W) (lit "identifier" :: rest) none (t, s.2)
            else readAttrs (fieldAttrs W) rest none (t, s.2) := by
  have hset : fieldType.set v s = (getTypeIDForTypeName v).map fun t => (t, s.2) := rfl
  rw [readAttrs, meets_fieldAttrs, if_pos rfl, readAttrs, hset]
  cases getTypeIDForTypeName v with
  | error e => rfl
  | ok t =>
      by_cases hv : v = lit "identifier"
      · simp only [Except.map, meets_later, if_pos hv]
        rw [readAttrs, meets_fieldAttrs, if_neg (by decide), if_pos rfl]
      · simp only [Except.map, meets_later, if_neg hv]

/-- A value is missing. -/
theorem readAttrs_missing (h : word = lit "type" ∨ word = lit "identifier") :
    readAttrs (fieldAttrs W) [word] none s = .error .token := by
  rcases h with rfl | rfl
  · rw [readAttrs, meets_fieldAttrs, if_pos rfl, readAttrs]
  · rw [readAttrs, meets_fieldAttrs, if_neg (by decide), if_pos rfl, readAttrs]

end ReadAttrs

/-- Values put in front of those of the other words. -/
theorem exists_assigned_map {x : Option (List Bytes × List Bytes)}
    {f : List Bytes × List Bytes → List Bytes × List Bytes}
    {P : List Bytes → List Bytes → Prop} :
    (∃ types ids, x.map f = some (types, ids) ∧ P types ids)
      ↔ ∃ types ids, x = some (types, ids) ∧ P (f (types, ids)).1 (f (types, ids)).2 := by
  constructor
  · intro hex
    obtain ⟨types, ids, hmap, hP⟩ := hex
    obtain ⟨⟨types₀, ids₀⟩, hx, hf⟩ := Option.map_eq_some_iff.mp hmap
    exact ⟨types₀, ids₀, hx, by rw [hf]; exact hP⟩
  · intro hex
    obtain ⟨types, ids, hx, hP⟩ := hex
    exact ⟨_, _, by rw [hx, Option.map_some], hP⟩

/-- What is taken, by what the next words are: the word behind a `type` is
its value. -/
theorem assigned_type {value : Bytes} (h : ¬ value = lit "identifier") (rest : List Bytes) :
    assigned (lit "type" :: value :: rest)
      = (assigned rest).map fun x => (value :: x.1, x.2) := by
  rw [assigned.eq_def]
  simp only [if_pos, if_neg h]

/-- That word may be the other key, and then its value is the next one. -/
theorem assigned_both (id : Bytes) (rest : List Bytes) :
    assigned (lit "type" :: lit "identifier" :: id :: rest)
      = (assigned rest).map fun x => (lit "identifier" :: x.1, id :: x.2) := by
  rw [assigned, if_pos rfl, if_pos rfl]

/-- The word behind `identifier` is its value. -/
theorem assigned_identifier (value : Bytes) (rest : List Bytes) :
    assigned (lit "identifier" :: value :: rest)
      = (assigned rest).map fun x => (x.1, value :: x.2) := by
  have hne : ¬ lit "identifier" = lit "type" := by decide
  rw [assigned.eq_def]
  simp only [if_neg hne, if_pos]

/-- Any other word is passed over. -/
theorem assigned_other {word : Bytes} (ht : ¬ word = lit "type")
    (hi : ¬ word = lit "identifier") (value : Bytes) (rest : List Bytes) :
    assigned (word :: value :: rest) = assigned (value :: rest) := by
  rw [assigned.eq_def]
  simp only [if_neg ht, if_neg hi]

/-- What the reader makes of the words of a tag. -/
theorem readAttrs_ok (words : List Bytes) : ∀ {t t' : TType} {i i' : BitVec 16},
    readAttrs (fieldAttrs W) words none (t, i) = .ok (t', i')
      ↔ ∃ types ids, assigned words = some (types, ids) ∧ setTypes t types = .ok t'
        ∧ setIds W i ids = i' := by
  induction words using assigned.induct with
  | case1 =>
      intro t t' i i'
      simp [readAttrs, assigned, setTypes, setIds]
  | case2 word h =>
      intro t t' i i'
      simp [readAttrs_missing h, assigned, h]
  | case3 word h =>
      intro t t' i i'
      rw [not_or] at h
      rw [readAttrs_other h.1 h.2]
      simp [readAttrs, assigned, setTypes, setIds, h]
  | case4 =>
      intro t t' i i'
      have hname : getTypeIDForTypeName (lit "identifier") = .ok T_STOP := by decide
      rw [readAttrs_type, hname]
      simp only [if_pos]
      rw [readAttrs_missing (.inr rfl)]
      simp [assigned]
  | case5 id rest ih =>
      intro t t' i i'
      have hname : getTypeIDForTypeName (lit "identifier") = .ok T_STOP := by decide
      rw [readAttrs_type, hname, assigned_both, exists_assigned_map]
      simp only [if_pos]
      rw [readAttrs_identifier, ih]
      simp only [setTypes, hname]
      rfl
  | case6 value rest hvalue ih =>
      intro t t' i i'
      rw [readAttrs_type, assigned_type hvalue, exists_assigned_map]
      simp only [if_neg hvalue, setTypes]
      cases getTypeIDForTypeName value with
      | error e => simp
      | ok u => exact ih
  | case7 value rest _ ih =>
      intro t t' i i'
      rw [readAttrs_identifier, ih, assigned_identifier, exists_assigned_map]
      rfl
  | case8 word value rest ht hi ih =>
      intro t t' i i'
      rw [readAttrs_other ht hi, ih, assigned_other ht hi]

/-- The last type that is set, and that all of them can be read. -/
theorem setTypes_ok (types : List Bytes) : ∀ {t t' : TType},
    setTypes t types = .ok t'
      ↔ (∀ v ∈ types, ∃ u, getTypeIDForTypeName v = .ok u)
        ∧ (types.getLast?.map getTypeIDForTypeName).getD (.ok t) = .ok t' := by
  induction types with
  | nil =>
      intro t t'
      simp [setTypes]
  | cons v types ih =>
      intro t t'
      rw [setTypes_cons, List.getLast?_cons, Option.map_some, Option.getD_some,
        List.forall_mem_cons]
      constructor
      · intro hex
        obtain ⟨u, hu, hset⟩ := hex
        obtain ⟨hall, hlast⟩ := ih.mp hset
        refine ⟨⟨⟨u, hu⟩, hall⟩, ?_⟩
        cases hget : types.getLast? with
        | none =>
            rw [hget] at hlast
            exact hu.trans hlast
        | some w =>
            rw [hget] at hlast
            exact hlast
      · intro hex
        obtain ⟨⟨⟨u, hu⟩, hall⟩, hlast⟩ := hex
        refine ⟨u, hu, ih.mpr ⟨hall, ?_⟩⟩
        cases hget : types.getLast? with
        | none =>
            rw [hget] at hlast
            exact hu.symm.trans hlast
        | some w =>
            rw [hget] at hlast
            exact hlast

/-- The last id counts. -/
theorem setIds_eq (i : BitVec 16) (ids : List Bytes) :
    setIds W i ids = (ids.getLast?.map (W.stringToInteger 16)).getD i := by
  induction ids using List.reverseRecOn with
  | nil => rfl
  | append_singleton ids v _ => simp [setIds]

/-- The words of the annotations set nothing, or leave what was there. -/
def Harmless (W : World) (t : TType) (i : BitVec 16) (words : List Bytes) : Prop :=
  ∃ types ids, assigned words = some (types, ids)
    ∧ (∀ v ∈ types, ∃ u, getTypeIDForTypeName v = .ok u)
    ∧ (∀ v, types.getLast? = some v → getTypeIDForTypeName v = .ok t)
    ∧ ∀ v, ids.getLast? = some v → W.stringToInteger 16 v = i

/-- Annotations with neither word in them. -/
theorem harmless_of_none {t : TType} {i : BitVec 16} {words : List Bytes}
    (h : assigned words = some ([], [])) : Harmless W t i words := by
  refine ⟨[], [], h, ?_, ?_, ?_⟩
  · intro v hv
    cases hv
  · intro v hv
    cases hv
  · intro v hv
    cases hv

/-- Annotations do no harm exactly if what they set is what was set already.
-/
theorem readAttrs_same {t : TType} {i : BitVec 16} {words : List Bytes} :
    readAttrs (fieldAttrs W) words none (t, i) = .ok (t, i) ↔ Harmless W t i words := by
  rw [readAttrs_ok]
  refine exists_congr fun types => exists_congr fun ids => and_congr_right fun _ => ?_
  rw [setTypes_ok, setIds_eq, and_assoc]
  refine and_congr_right fun _ => and_congr ?_ ?_
  · cases types.getLast? <;> simp
  · cases ids.getLast? <;> simp

-- ============================================================ the tag

/-- The words of the annotations, in the order in which they are written. -/
def annotationWords (amap : List (Bytes × Bytes)) : List Bytes :=
  amap.flatMap fun a => tokens a.1 ++ tokens a.2

/-- What stands behind the name in the tag of a field. -/
def attrText (W : World) (fieldType : TType) (fieldId : BitVec 16)
    (amap : List (Bytes × Bytes)) : Bytes :=
  lit " " ++ formXMLAttr (lit "type") (fieldTypeName fieldType)
    ++ lit " " ++ formXMLAttr (lit "identifier") (W.integerToString fieldId.toInt)
    ++ amap.flatMap fun a => lit " " ++ formXMLAttr a.1 a.2

/-- The tag as text. -/
theorem writeFieldBegin_out (name : Bytes) (fieldType : TType) (fieldId : BitVec 16)
    (amap : List (Bytes × Bytes)) :
    (writeFieldBegin W name fieldType fieldId amap .init).out
      = openTag name (attrText W fieldType fieldId amap) := rfl

/-- An attribute falls into the words of its key and of its value: the
tokenizer knows no quotes. -/
theorem tokens_formXMLAttr (key value s : Bytes) :
    tokens (formXMLAttr key value ++ s) = tokens key ++ (tokens value ++ tokens s) := by
  have htext : formXMLAttr key value ++ s = key ++ 61 :: 34 :: (value ++ 34 :: s) := by
    simp [formXMLAttr, lit]
    decide
  rw [htext, tokens_append (by decide), tokens_sep (by decide), tokens_append (by decide)]

/-- A blank separates. -/
theorem tokens_blank (s : Bytes) : tokens (lit " " ++ s) = tokens s :=
  tokens_sep (by decide) s

/-- The words of the annotations. -/
theorem tokens_annotations (amap : List (Bytes × Bytes)) :
    tokens (amap.flatMap fun a => lit " " ++ formXMLAttr a.1 a.2) = annotationWords amap := by
  induction amap with
  | nil => rfl
  | cons a amap ih =>
      rw [annotationWords, List.flatMap_cons, List.flatMap_cons, List.append_assoc,
        tokens_blank, tokens_formXMLAttr, ih, List.append_assoc]
      rfl

/-- The names of types are words. -/
theorem isWord_fieldTypeName (t : TType) : IsWord (fieldTypeName t) := by
  refine isWord_of_isName ?_
  cases t <;> decide

/-- So are numbers. -/
theorem isWord_decimalInt (i : Int) : IsWord (decimalInt i) := by
  unfold decimalInt
  split
  · refine ⟨List.cons_ne_nil _ _, ?_⟩
    intro c hc
    rcases List.mem_cons.mp hc with rfl | hc
    · decide
    · exact (isWord_of_isName (isName_decimal _)).2 c hc
  · exact isWord_of_isName (isName_decimal _)

/-- The words of the whole tag. -/
theorem tokens_tag (hW : W.Decimal) (name : Bytes) (t : TType) (i : BitVec 16)
    (amap : List (Bytes × Bytes)) :
    tokens (name ++ attrText W t i amap)
      = tokens name ++ lit "type" :: fieldTypeName t :: lit "identifier"
        :: decimalInt i.toInt :: annotationWords amap := by
  have hname : ∀ s, tokens (name ++ (lit " " ++ s)) = tokens name ++ tokens s :=
    tokens_append (by decide) name
  have htype : tokens (lit "type") = [lit "type"] := by decide
  have hidentifier : tokens (lit "identifier") = [lit "identifier"] := by decide
  unfold attrText
  simp only [List.append_assoc]
  rw [hname, tokens_formXMLAttr, tokens_blank, tokens_formXMLAttr, tokens_annotations, hW.text,
    htype, hidentifier, tokens_isWord (isWord_fieldTypeName t),
    tokens_isWord (isWord_decimalInt i.toInt)]
  rfl

/-- There is no `>` in attributes if there is none in their names and
values. -/
theorem not_mem_attributes {amap : List (Bytes × Bytes)}
    (hamap : ∀ a ∈ amap, kcXMLTagC ∉ a.1 ∧ kcXMLTagC ∉ a.2) :
    kcXMLTagC ∉ amap.flatMap fun a => lit " " ++ formXMLAttr a.1 a.2 := by
  have hlit : kcXMLTagC ∉ lit " " ∧ kcXMLTagC ∉ lit "=\"" ∧ kcXMLTagC ∉ lit "\"" := by decide
  simp only [formXMLAttr, List.mem_flatMap, List.mem_append, not_exists, not_and, not_or]
  intro a ha
  exact ⟨hlit.1, ⟨⟨(hamap a ha).1, hlit.2.1⟩, (hamap a ha).2⟩, hlit.2.2⟩

/-- Nothing in the tag but what a user gives may end it early. -/
theorem not_mem_fieldTypeName (t : TType) : kcXMLTagC ∉ fieldTypeName t := by
  cases t <;> decide

theorem not_mem_decimalInt (i : Int) : kcXMLTagC ∉ decimalInt i := by
  intro hmem
  unfold decimalInt at hmem
  split at hmem
  · rcases List.mem_cons.mp hmem with h | h
    · exact absurd h (by decide)
    · exact not_mem_name (isName_decimal _) h
  · exact not_mem_name (isName_decimal _) hmem

/-- There is no `>` in what stands behind the name. -/
theorem not_mem_attrText (hW : W.Decimal) (t : TType) (i : BitVec 16)
    {amap : List (Bytes × Bytes)}
    (hamap : ∀ a ∈ amap, kcXMLTagC ∉ a.1 ∧ kcXMLTagC ∉ a.2) :
    kcXMLTagC ∉ attrText W t i amap := by
  have hkeys : kcXMLTagC ∉ lit "type" ∧ kcXMLTagC ∉ lit "identifier" := by decide
  have hall : ∀ a ∈ (lit "type", fieldTypeName t)
      :: (lit "identifier", W.integerToString i.toInt) :: amap,
      kcXMLTagC ∉ a.1 ∧ kcXMLTagC ∉ a.2 := by
    rw [hW.text]
    refine List.forall_mem_cons.mpr ⟨⟨hkeys.1, not_mem_fieldTypeName t⟩, ?_⟩
    exact List.forall_mem_cons.mpr ⟨⟨hkeys.2, not_mem_decimalInt i.toInt⟩, hamap⟩
  have hno := not_mem_attributes hall
  simpa [attrText] using hno

/-- The tag ends where it should if no name and no annotation has a `>`. -/
theorem not_mem_tag (hW : W.Decimal) {name : Bytes} (hname : kcXMLTagC ∉ name) (t : TType)
    (i : BitVec 16) {amap : List (Bytes × Bytes)}
    (hamap : ∀ a ∈ amap, kcXMLTagC ∉ a.1 ∧ kcXMLTagC ∉ a.2) :
    kcXMLTagC ∉ name ++ attrText W t i amap := by
  rw [List.mem_append, not_or]
  exact ⟨hname, not_mem_attrText hW t i hamap⟩

/-- Three types have no name. -/
def Named (t : TType) : Prop := t ≠ T_VOID ∧ t ≠ T_UTF8 ∧ t ≠ T_UTF16

instance (t : TType) : Decidable (Named t) := inferInstanceAs (Decidable (_ ∧ _ ∧ _))

/-- Every type that a name stands for has a name itself. -/
theorem named_ite {c : Prop} [Decidable c] {t u : TType} (ht : Named t) (hu : Named u) :
    Named (if c then t else u) := by
  split
  · exact ht
  · exact hu

/-- The words of the field, read. -/
theorem readAttrs_field (hW : W.Decimal) (t : TType) (i : BitVec 16) (words : List Bytes)
    (s : TType × BitVec 16) :
    readAttrs (fieldAttrs W) (lit "type" :: fieldTypeName t :: lit "identifier"
        :: decimalInt i.toInt :: words) none s
      = readAttrs (fieldAttrs W) words none
        (if Named t then t else T_STOP, i) := by
  have hne : ¬ fieldTypeName t = lit "identifier" := by
    cases t <;> decide
  have hname : getTypeIDForTypeName (fieldTypeName t)
      = .ok (if Named t then t else T_STOP) := by
    cases t <;> decide
  rw [readAttrs_type, hname]
  simp only [if_neg hne]
  rw [readAttrs_identifier, hW.parse 16 i (by decide)]

-- ============================================================ reading

/-- What is read from a tag with these words. -/
def readWords (W : World) (n : Int) (fieldType : TType) (fieldId : BitVec 16) :
    List Bytes → Except Abort (Int × Bytes × TType × BitVec 16)
  | [] => .error (.fault .token)
  | name :: words =>
      match readAttrs (fieldAttrs W) words none (fieldType, fieldId) with
      | .ok (t, i) => .ok (n, name, t, i)
      | .error f => .error (.fault f)

/-- `readFieldBegin` at a tag that is not a close tag. -/
theorem readFieldBegin_tag {s rest : Bytes} {r : LookaheadReader} (hs : kcXMLTagC ∉ s)
    (hslash : ¬ [kcXMLSlash] <+: s) (hr : Fresh (tagOpen false ++ s ++ kcXMLTagC :: rest) r)
    (name : Bytes) (t : TType) (i : BitVec 16) :
    ∃ r', (readFieldBegin W Reads.code name t i).Runs r
        (readWords W ((tagOpen false).length + s.length + 1) t i (tokens s)) r'
      ∧ Fresh rest r' := by
  obtain ⟨c, tail, htail⟩ : ∃ c tail, s ++ kcXMLTagC :: rest = c :: tail :=
    List.exists_cons_of_ne_nil (by simp)
  have hc : c ≠ kcXMLSlash := by
    intro hc
    apply hslash
    cases s with
    | nil =>
        injection htail with hhead
        rw [hc] at hhead
        exact absurd hhead (by decide)
    | cons d s =>
        injection htail with hhead
        rw [hhead, hc]
        exact ⟨s, rfl⟩
  have htext : tagOpen false ++ s ++ kcXMLTagC :: rest = kcXMLTagO :: c :: tail := by
    rw [List.append_assoc, htail]
    rfl
  rw [htext] at hr
  obtain ⟨r₁, hnear, hpeek⟩ := runs_peek2 hr
  rw [← htext] at hnear
  obtain ⟨r', hruns, hfresh⟩ := runs_tag hs hnear
  refine ⟨r', hpeek.mpr ?_, hfresh⟩
  rw [if_neg fun h => hc h.2]
  cases htokens : tokens s with
  | nil =>
      refine Runs.bind_error (hruns.bind_ok ?_)
      simp only [htokens]
      exact runs_throw.mpr ⟨rfl, rfl⟩
  | cons first words =>
      have htag : (readTagTokens Reads.code).Runs r₁
          (.ok ((tagOpen false).length + s.length + 1, first, words)) r' := by
        refine hruns.bind_ok ?_
        simp only [htokens]
        exact runs_pure.mpr ⟨rfl, rfl⟩
      refine htag.bind_ok ?_
      simp only [readWords]
      cases readAttrs (fieldAttrs W) words none (t, i) with
      | error f => exact Runs.bind_error (runs_throw.mpr ⟨rfl, rfl⟩)
      | ok x =>
          have hlift : (lift (.ok x)).Runs r' (.ok x) r' := runs_pure.mpr ⟨rfl, rfl⟩
          exact hlift.bind_ok (runs_pure.mpr ⟨rfl, rfl⟩)

/-- `readFieldBegin` after `writeFieldBegin`, from a reader at the tag and
with any values in the reference parameters. -/
def FieldTrip (W : World) (name : Bytes) (t : TType) (i : BitVec 16)
    (amap : List (Bytes × Bytes)) (rest : Bytes) : Prop :=
  ∀ r fname ftype fid, Fresh ((writeFieldBegin W name t i amap .init).out ++ rest) r →
    ∃ ret r', (readFieldBegin W Reads.code fname ftype fid).Runs r (.ok (ret, name, t, i)) r'
      ∧ Fresh rest r'

/-- A name that is one word and does not end the tag or make it a close
tag. -/
def PlainName (name : Bytes) : Prop :=
  IsWord name ∧ kcXMLTagC ∉ name ∧ ¬ [kcXMLSlash] <+: name

/-- The tag, by its delimiters. -/
theorem text_eq (name attrs rest : Bytes) :
    openTag name attrs ++ rest = tagOpen false ++ (name ++ attrs) ++ kcXMLTagC :: rest := by
  simp [openTag, tagOpen, lit]
  decide

/-- The count that the read returns. -/
theorem length_openTag (name attrs : Bytes) : ((openTag name attrs).length : Int)
    = (tagOpen false).length + (name ++ attrs).length + 1 := by
  simp [openTag, tagOpen, lit]
  omega

/-- `readFieldBegin` at a close tag reads nothing. -/
theorem readFieldBegin_slash {tail : Bytes} {r : LookaheadReader}
    (hr : Fresh (kcXMLTagO :: kcXMLSlash :: tail) r) (name : Bytes) (t : TType)
    (i : BitVec 16) :
    ∃ r', (readFieldBegin W Reads.code name t i).Runs r (.ok (0, name, T_STOP, i)) r'
      ∧ Near (kcXMLTagO :: kcXMLSlash :: tail) r' := by
  obtain ⟨r₁, hnear, hpeek⟩ := runs_peek2 hr
  refine ⟨r₁, hpeek.mpr ?_, hnear⟩
  rw [if_pos ⟨rfl, rfl⟩]
  exact runs_pure.mpr ⟨rfl, rfl⟩

/-- A tag has at least its name. -/
theorem readWords_ok {n ret : Int} {t t' : TType} {i i' : BitVec 16} {words : List Bytes}
    {name : Bytes} (h : readWords W n t i words = .ok (ret, name, t', i')) :
    ∃ rest, words = name :: rest
      ∧ readAttrs (fieldAttrs W) rest none (t, i) = .ok (t', i') := by
  cases words with
  | nil => cases h
  | cons first rest =>
      simp only [readWords] at h
      split at h
      · rename_i t₁ i₁ hattrs
        injection h with h
        simp only [Prod.mk.injEq] at h
        obtain ⟨-, rfl, rfl, rfl⟩ := h
        exact ⟨rest, rfl, hattrs⟩
      · cases h

/-- Behind a name comes a blank. -/
theorem slash_append {name : Bytes} (h : ¬ [kcXMLSlash] <+: name) (t : TType) (i : BitVec 16)
    (amap : List (Bytes × Bytes)) : ¬ [kcXMLSlash] <+: name ++ attrText W t i amap := by
  intro hfront
  cases name with
  | nil => exact absurd (List.cons_prefix_cons.mp hfront).1 (by decide)
  | cons c name =>
      rw [List.cons_append] at hfront
      have hc := (List.cons_prefix_cons.mp hfront).1
      exact h (hc ▸ List.prefix_append [c] name)

/-- A name that comes back is one word. -/
theorem plainName_of_trip (hW : W.Decimal) {name : Bytes} {t : TType} {i : BitVec 16}
    {amap : List (Bytes × Bytes)}
    (hamap : ∀ a ∈ amap, kcXMLTagC ∉ a.1 ∧ kcXMLTagC ∉ a.2) {rest : Bytes}
    (h : FieldTrip W name t i amap rest) : PlainName name := by
  obtain ⟨r, hfresh⟩ : ∃ r, Fresh (openTag name (attrText W t i amap) ++ rest) r :=
    ⟨_, fresh_new _ 0 (0, 0)⟩
  obtain ⟨ret, r', hruns, hrest⟩ := h r [] T_STOP 0 hfresh
  have hslash : ¬ [kcXMLSlash] <+: name := by
    intro hfront
    obtain ⟨tail, hname⟩ := hfront
    have htext : openTag name (attrText W t i amap) ++ rest
        = kcXMLTagO :: kcXMLSlash :: (tail ++ (attrText W t i amap ++ kcXMLTagC :: rest)) := by
      rw [text_eq, ← hname]
      simp [tagOpen]
    rw [htext] at hfresh
    obtain ⟨r₁, hruns₁, hnear⟩ := readFieldBegin_slash (W := W) hfresh [] T_STOP 0
    -- nothing has been read, so that the whole text is still there
    obtain rfl := (hruns.unique hruns₁).2
    have hlen := congrArg List.length (hnear.stream.symm.trans hrest.stream)
    simp only [List.length_cons, List.length_append] at hlen
    omega
  have htag : kcXMLTagC ∉ name := by
    intro hmem
    obtain ⟨s₀, s₁, hname, hs₀⟩ := List.eq_append_cons_of_mem hmem
    have htext : openTag name (attrText W t i amap) ++ rest
        = tagOpen false ++ s₀ ++ kcXMLTagC
          :: (s₁ ++ (attrText W t i amap ++ kcXMLTagC :: rest)) := by
      rw [text_eq, hname]
      simp
    have hslash₀ : ¬ [kcXMLSlash] <+: s₀ := by
      intro hfront
      apply hslash
      rw [hname]
      exact hfront.trans (List.prefix_append s₀ _)
    rw [htext] at hfresh
    obtain ⟨r₁, hruns₁, -⟩ := readFieldBegin_tag (W := W) hs₀ hslash₀ hfresh [] T_STOP 0
    obtain ⟨words, hwords, -⟩ := readWords_ok (hruns.unique hruns₁).1.symm
    have hword := (mem_tokens (hwords ▸ List.mem_cons_self)).2
    exact hs₀ (hword _ hmem)
  rw [text_eq] at hfresh
  obtain ⟨r₁, hruns₁, -⟩ := readFieldBegin_tag (W := W) (not_mem_tag hW htag t i hamap)
    (slash_append hslash t i amap) hfresh [] T_STOP 0
  obtain ⟨words, hwords, -⟩ := readWords_ok (hruns.unique hruns₁).1.symm
  exact ⟨(mem_tokens (hwords ▸ List.mem_cons_self)).1, htag, hslash⟩

-- ======================================================= unnamed types

section ReadsNamed

/-- What a text is read as has a name. -/
def ReadsNamed (x : Except Fault TType) : Prop := ∀ t, x = .ok t → Named t

/-- The rules for reads of a type. -/
theorem readsNamed_ok {t : TType} (h : Named t) : ReadsNamed (.ok t) := by
  intro u hu
  injection hu with hu
  exact hu ▸ h

theorem readsNamed_ite {c : Prop} [Decidable c] {x y : Except Fault TType}
    (hx : ReadsNamed x) (hy : ReadsNamed y) : ReadsNamed (if c then x else y) := by
  split
  · exact hx
  · exact hy

theorem readsNamed_map {α : Type} {x : Except Fault α} {f : α → TType}
    (h : ∀ a, Named (f a)) : ReadsNamed (x.map f) := by
  cases x with
  | error e => exact nofun
  | ok a => exact readsNamed_ok (h a)

/-- The table of names gives types that have names. -/
theorem getTypeIDForTypeName_named (v : Bytes) : ReadsNamed (getTypeIDForTypeName v) := by
  have hstop : Named T_STOP := by decide
  rcases v with - | ⟨c₀, - | ⟨c₁, v⟩⟩
  · exact readsNamed_ok hstop
  · exact readsNamed_ok hstop
  · unfold getTypeIDForTypeName
    repeat' apply readsNamed_ite
    all_goals first
      | apply readsNamed_ok
      | refine readsNamed_map fun c => ?_
    all_goals repeat' apply named_ite
    all_goals decide

end ReadsNamed

/-- A type without a name is not read from the words of a tag. -/
theorem setTypes_named {t t' : TType} {types : List Bytes} (ht : Named t)
    (h : setTypes t types = .ok t') : Named t' := by
  induction types generalizing t with
  | nil =>
      injection h with h
      exact h ▸ ht
  | cons v types ih =>
      obtain ⟨u, hu, hset⟩ := setTypes_cons.mp h
      exact ih (getTypeIDForTypeName_named v u hu) hset

-- ======================================================== the round trip

section RoundTrip

variable (hW : W.Decimal) {name : Bytes} {t : TType} {i : BitVec 16}
  {amap : List (Bytes × Bytes)} (hamap : ∀ a ∈ amap, kcXMLTagC ∉ a.1 ∧ kcXMLTagC ∉ a.2)
  {rest : Bytes} {r : LookaheadReader}

include hW hamap

/-- A tag with a plain name is read word by word. -/
theorem readFieldBegin_words (hname : PlainName name)
    (hr : Fresh (openTag name (attrText W t i amap) ++ rest) r) (fname : Bytes) (ftype : TType)
    (fid : BitVec 16) :
    ∃ r', (readFieldBegin W Reads.code fname ftype fid).Runs r
        (readWords W (openTag name (attrText W t i amap)).length ftype fid (name :: lit "type"
          :: fieldTypeName t :: lit "identifier" :: decimalInt i.toInt
          :: annotationWords amap)) r'
      ∧ Fresh rest r' := by
  rw [text_eq] at hr
  obtain ⟨r', hruns, hrest⟩ := readFieldBegin_tag (W := W)
    (not_mem_tag hW hname.2.1 t i hamap) (slash_append hname.2.2 t i amap) hr fname ftype fid
  rw [tokens_tag hW, tokens_isWord hname.1, ← length_openTag] at hruns
  exact ⟨r', hruns, hrest⟩

/-- A field that comes back. -/
theorem readFieldBegin_field (hname : PlainName name) (hnamed : Named t)
    (hharmless : Harmless W t i (annotationWords amap))
    (hr : Fresh (openTag name (attrText W t i amap) ++ rest) r) (fname : Bytes) (ftype : TType)
    (fid : BitVec 16) :
    ∃ r', (readFieldBegin W Reads.code fname ftype fid).Runs r
        (.ok ((openTag name (attrText W t i amap)).length, name, t, i)) r'
      ∧ Fresh rest r' := by
  obtain ⟨r', hruns, hrest⟩ := readFieldBegin_words hW hamap hname hr fname ftype fid
  simp only [readWords, readAttrs_field hW, if_pos hnamed,
    readAttrs_same.mpr hharmless] at hruns
  exact ⟨r', hruns, hrest⟩

end RoundTrip

/-- **Which fields come back.** The name is one word, the type has a name,
and the words of the annotations are harmless. -/
theorem field_round_trip_iff (hW : W.Decimal) (name : Bytes) (t : TType) (i : BitVec 16)
    {amap : List (Bytes × Bytes)}
    (hamap : ∀ a ∈ amap, kcXMLTagC ∉ a.1 ∧ kcXMLTagC ∉ a.2) (rest : Bytes) :
    FieldTrip W name t i amap rest
      ↔ PlainName name ∧ Named t ∧ Harmless W t i (annotationWords amap) := by
  constructor
  · intro h
    have hname := plainName_of_trip hW hamap h
    obtain ⟨r, hfresh⟩ : ∃ r, Fresh (openTag name (attrText W t i amap) ++ rest) r :=
      ⟨_, fresh_new _ 0 (0, 0)⟩
    obtain ⟨ret, r', hruns, -⟩ := h r [] T_STOP 0 hfresh
    obtain ⟨r₁, hruns₁, -⟩ := readFieldBegin_words hW hamap hname hfresh [] T_STOP 0
    obtain ⟨words, hwords, hattrs⟩ := readWords_ok (hruns.unique hruns₁).1.symm
    injection hwords with _ hwords
    rw [← hwords, readAttrs_field hW] at hattrs
    by_cases hnamed : Named t
    · rw [if_pos hnamed, readAttrs_same] at hattrs
      exact ⟨hname, hnamed, hattrs⟩
    · rw [if_neg hnamed, readAttrs_ok] at hattrs
      obtain ⟨types, ids, -, htypes, -⟩ := hattrs
      exact absurd (setTypes_named (by decide) htypes) hnamed
  · intro h r fname ftype fid hr
    obtain ⟨hname, hnamed, hharmless⟩ := h
    obtain ⟨r', hruns, hrest⟩ := readFieldBegin_field hW hamap hname hnamed hharmless hr fname
      ftype fid
    exact ⟨_, r', hruns, hrest⟩

/-- The name of a UVE, with its annotation. -/
theorem field_round_trip_key :
    World.plain.Decimal ∧ FieldTrip .plain (lit "name") T_STRING 1
      [(lit "key", lit "ObjectGeneratorInfo")] (lit "uve1</name>") := by
  have hname : PlainName (lit "name") :=
    ⟨⟨by decide, by decide⟩, by decide, by decide⟩
  have hwords : annotationWords [(lit "key", lit "ObjectGeneratorInfo")]
      = [lit "key", lit "ObjectGeneratorInfo"] := by decide
  have hassigned : assigned [lit "key", lit "ObjectGeneratorInfo"] = some ([], []) := by
    simp [assigned]
    decide
  have hharmless := hwords ▸ harmless_of_none (W := .plain) (t := T_STRING) (i := 1) hassigned
  exact ⟨posix_decimal, (field_round_trip_iff posix_decimal (lit "name") T_STRING 1 (by decide)
    _).mpr ⟨hname, by decide, hharmless⟩⟩

/-- An annotation whose last word is `type`. -/
theorem field_round_trip_fails :
    ¬ FieldTrip .plain (lit "a") T_I32 1 [(lit "tags", lit "type")] [] := by
  intro h
  have hW : World.plain.Decimal := posix_decimal
  obtain ⟨r, hfresh⟩ : ∃ r, Fresh ((writeFieldBegin .plain (lit "a") T_I32 1
      [(lit "tags", lit "type")] .init).out ++ []) r := ⟨_, fresh_new _ 0 (0, 0)⟩
  obtain ⟨ret, r', hruns, -⟩ := h r [] T_STOP 0 hfresh
  rw [writeFieldBegin_out, text_eq] at hfresh
  obtain ⟨r₁, hruns₁, -⟩ := readFieldBegin_tag (W := .plain)
    (not_mem_tag hW (by decide) T_I32 1 (by decide))
    (slash_append (by decide) T_I32 1 _) hfresh [] T_STOP 0
  obtain ⟨words, hwords, hattrs⟩ := readWords_ok (hruns.unique hruns₁).1.symm
  rw [tokens_tag hW, tokens_isWord ⟨by decide, by decide⟩, List.singleton_append] at hwords
  injection hwords with _ hwords
  have hannotations : annotationWords [(lit "tags", lit "type")] = [lit "tags", lit "type"] := by
    decide
  have hassigned : assigned [lit "tags", lit "type"] = none := by
    simp [assigned]
    decide
  rw [← hwords, readAttrs_field hW, hannotations, readAttrs_ok, hassigned] at hattrs
  obtain ⟨types, ids, hsome, -⟩ := hattrs
  cases hsome

end Sandesh.CppGen
