/-
Reading a value from its text, from the parts up.

`t.ReadsAs v v'` says that the generated code reads the text of `v` as
`v'`. For a value that comes back the two are the same; they are kept apart
so that a value which does not come back can be followed through whatever
it is part of.
-/
import Sandesh.CppGen.Proofs.Values

namespace Sandesh.CppGen

open Lib Xml Header

/-- A tag comes next. -/
def Tagged (s : Bytes) : Prop := ∃ tail, s = kcXMLTagO :: tail

theorem tagged_openTag (name attrs rest : Bytes) : Tagged (openTag name attrs ++ rest) := by
  rw [text_eq]
  exact ⟨name ++ attrs ++ kcXMLTagC :: rest, rfl⟩

theorem tagged_closeTag (name rest : Bytes) : Tagged (closeTag name ++ rest) :=
  ⟨_, List.append_assoc _ _ _⟩

theorem Tagged.append {s : Bytes} (h : Tagged s) (t : Bytes) : Tagged (s ++ t) := by
  obtain ⟨tail, rfl⟩ := h
  exact ⟨tail ++ t, rfl⟩

theorem tagged_flatMap {α : Type} {text : α → Bytes} (h : ∀ a, Tagged (text a)) (l : List α)
    {rest : Bytes} (hrest : Tagged rest) : Tagged (l.flatMap text ++ rest) := by
  cases l with
  | nil => exact hrest
  | cons a l =>
      rw [List.flatMap_cons, List.append_assoc]
      exact (h a).append _

-- =============================================================== loops

section Loops

variable {α β γ δ : Type} {rest : Bytes}

/-- The elements of a list, which need not be separate if there is one. -/
theorem takes_elems {elem : Read (Int × α)} {text : γ → Bytes} {bare : Bool} {vs : List γ}
    {vs' : List α}
    (h : List.Forall₂ (fun v v' => ∀ rest, (bare = true → Tagged rest) →
      Takes elem (text v) rest (fun x => x.2 = v')) vs vs')
    (hsep : bare = false ∨ vs.length ≤ 1) (hrest : Tagged rest) :
    Takes (readElems elem vs.length) (vs.flatMap text) rest (fun x => x.2 = vs') := by
  induction h with
  | nil => exact takes_pure rfl
  | @cons v v' vs vs' hv _ ih =>
      have hsep' : bare = false ∨ vs.length ≤ 1 := by
        refine hsep.imp_right fun hlen => ?_
        rw [List.length_cons] at hlen
        omega
      have hnext : bare = true → Tagged (vs.flatMap text ++ rest) := by
        intro hbare
        rcases hsep with hsep | hlen
        · rw [hsep] at hbare
          cases hbare
        · cases vs with
          | nil => exact hrest
          | cons w ws => simp at hlen
      refine (hv _ hnext).bind fun x hx => (ih hsep').map fun y hy => ?_
      rw [hx, hy]

/-- An entry of a map, and those behind it. -/
theorem takes_entry {less : α → α → Bool} {key : Read (Int × α)} {val : β → Read (Int × β)}
    {zero b : β} {a : α} {n : Nat} {m m' : List (α × β)} {s₁ s₂ s₃ : Bytes}
    (hkey : Takes key s₁ (s₂ ++ s₃ ++ rest) (fun x => x.2 = a))
    (hval : Takes (val ((Sorted.find less a m).getD zero)) s₂ (s₃ ++ rest) (fun x => x.2 = b))
    (hrest : Takes (readEntries less key val zero n (Sorted.assign less a b m)) s₃ rest
      (fun x => x.2 = m')) :
    Takes (readEntries less key val zero (n + 1) m) (s₁ ++ (s₂ ++ s₃)) rest
      (fun x => x.2 = m') := by
  refine hkey.bind fun x hx => ?_
  obtain ⟨ret, a'⟩ := x
  obtain rfl : a' = a := hx
  refine hval.bind fun y hy => ?_
  obtain ⟨ret2, b'⟩ := y
  obtain rfl : b' = b := hy
  exact hrest.map fun z hz => hz

/-- The entries of a map. Keys come back in an order in which each goes
behind those that are there. -/
theorem takes_entries {less : α → α → Bool} {key : Read (Int × α)} {val : β → Read (Int × β)}
    {zero : β} (ktext : γ → Bytes) (vtext : δ → Bytes) {kbare vbare : Bool}
    {es : List (γ × δ)} {es' : List (α × β)}
    (h : List.Forall₂ (fun e e' =>
      (∀ rest, (kbare = true → Tagged rest) → Takes key (ktext e.1) rest (fun x => x.2 = e'.1))
      ∧ ∀ rest, (vbare = true → Tagged rest) →
        Takes (val zero) (vtext e.2) rest (fun x => x.2 = e'.2)) es es')
    (hk : kbare = false → ∀ k, Tagged (ktext k)) (hv : vbare = false → ∀ v, Tagged (vtext v))
    (hsep : kbare = false ∨ vbare = false) (hrest : Tagged rest) :
    ∀ {m : List (α × β)}, (m ++ es').Pairwise (fun a b => less a.1 b.1 = true) →
      Takes (readEntries less key val zero es.length m)
        (es.flatMap fun e => ktext e.1 ++ vtext e.2) rest (fun x => x.2 = m ++ es') := by
  induction h with
  | nil =>
      intro m _
      rw [List.append_nil]
      exact takes_pure rfl
  | @cons e e' es es' he _ ih =>
      intro m hm
      have hlast : ∀ b ∈ m, less b.1 e'.1 = true := by
        intro b hb
        exact (List.pairwise_append.mp hm).2.2 b hb e' List.mem_cons_self
      have hm' : (m ++ [e'] ++ es').Pairwise (fun a b => less a.1 b.1 = true) := by
        rwa [List.append_assoc]
      -- behind a key comes its value, behind the value the next key
      have hvalue : kbare = true → Tagged (vtext e.2
          ++ es.flatMap (fun e => ktext e.1 ++ vtext e.2) ++ rest) := by
        intro hbare
        rcases hsep with hsep | hsep
        · rw [hsep] at hbare
          cases hbare
        · exact ((hv hsep e.2).append _).append _
      have hkey : vbare = true → Tagged (es.flatMap (fun e => ktext e.1 ++ vtext e.2) ++ rest) := by
        intro hbare
        rcases hsep with hsep | hsep
        · exact tagged_flatMap (fun e => (hk hsep e.1).append _) es hrest
        · rw [hsep] at hbare
          cases hbare
      rw [List.flatMap_cons, List.append_assoc]
      refine takes_entry (b := e'.2) (he.1 _ hvalue) ?_ ?_
      · rw [Sorted.find_last hlast]
        exact he.2 _ hkey
      · rw [Sorted.assign_last hlast]
        simpa using ih hm'

end Loops

-- ============================================================ elements

variable {W : World} {F : Foreign} {junk : Bool}
  {less : (t : Ty) → t.Val F → t.Val F → Bool}

/-- A variable before it is read. -/
def Ty.Start (junk : Bool) (t : Ty) (u : t.Val F) : Prop := u = t.zero F ∨ u = t.declared F junk

/-- The text of `v` is read as `v'`; behind a base value has to be a tag. -/
def Ty.ReadsAs (W : World) (junk : Bool) (less : (t : Ty) → t.Val F → t.Val F → Bool) (t : Ty)
    (v v' : t.Val F) : Prop :=
  ∀ u, t.Start junk u → ∀ rest, (t.trueBaseOrEnum = true → Tagged rest) →
    Takes (t.deserialize W Reads.code junk less u) (t.text W v) rest (fun x => x.2 = v')

theorem Ty.tagged_text : (t : Ty) → t.trueBaseOrEnum = false → (v : t.Val F) →
    Tagged (t.text W v)
  | .typedef t, ht, v => t.tagged_text ht v
  | .struct _ _, _, _ => (tagged_openTag _ _ _).append _
  | .list _, _, _ => (tagged_openTag _ _ _).append _
  | .set _, _, _ => (tagged_openTag _ _ _).append _
  | .map _ _, _, _ => (tagged_openTag _ _ _).append _

theorem Ty.tagged_element (t : Ty) (ht : t.undelimited = false) (v : t.Val F) :
    Tagged (elementText t.isBaseOrEnum (t.text W v)) := by
  unfold elementText
  split
  · exact (tagged_openTag _ _ _).append _
  · rename_i hdecl
    refine t.tagged_text ?_ v
    simpa [Ty.undelimited, hdecl] using ht

/-- The tags around an element, if there are any, are read with it. -/
theorem Ty.ReadsAs.element {t : Ty} {v v' u : t.Val F} (h : t.ReadsAs W junk less v v')
    (hu : t.Start junk u) (rest : Bytes) (hrest : t.undelimited = true → Tagged rest) :
    Takes (deserializeElement Reads.code t.isBaseOrEnum
        (t.deserialize W Reads.code junk less u))
      (elementText t.isBaseOrEnum (t.text W v)) rest (fun x => x.2 = v') := by
  unfold deserializeElement elementText
  by_cases hdecl : t.isBaseOrEnum = true
  · rw [if_pos hdecl, if_pos hdecl, List.append_assoc]
    have hopen : kcXMLTagC ∉ lit "element" ++ [] := by decide
    refine Takes.bind ((takes_open hopen _).map (Q := fun _ => True) fun _ _ => trivial) ?_
    intro _ _
    refine (h u hu _ fun _ => tagged_closeTag _ _).bind fun x hx => ?_
    exact (takes_close (by decide) rest).map fun _ _ => hx
  · rw [if_neg hdecl, if_neg hdecl]
    refine h u hu rest fun hbase => hrest ?_
    simp [Ty.undelimited, hbase, hdecl]

-- ========================================================== containers

theorem toNat_size {n : Nat} (hn : n < 2 ^ 32) : (BitVec.ofNat 32 n).toNat = n := by
  rw [BitVec.toNat_ofNat, Nat.mod_eq_of_lt hn]

section Containers

variable (hW : Decimals W)

include hW

/-- A list whose elements are read as others, in the one text they make. -/
theorem readsAs_of_elems {e : Ty} {vs vs' : List (e.Val F)} (hlen : vs.length < 2 ^ 32)
    (h : ∀ rest, Tagged rest → Takes (readElems (deserializeElement Reads.code e.isBaseOrEnum
        (e.deserialize W Reads.code junk less (e.zero F))) vs.length)
      (vs.flatMap fun v => elementText e.isBaseOrEnum (e.text W v)) rest
      (fun x => x.2 = vs')) :
    (Ty.list e).ReadsAs W junk less vs vs' := by
  intro u _ rest _
  show Takes _ (between _ _ _) rest _
  rw [between, List.append_assoc]
  refine (takes_listBegin hW e.named vs.length _).bind fun x hx => ?_
  rw [hx]
  simp only [toNat_size hlen]
  refine (h _ (tagged_closeTag _ rest)).bind fun y hy => ?_
  exact (takes_close (by decide) rest).map fun _ _ => hy

theorem readsAs_list {e : Ty} {vs vs' : List (e.Val F)}
    (h : List.Forall₂ (e.ReadsAs W junk less) vs vs')
    (hsep : e.undelimited = false ∨ vs.length ≤ 1) (hlen : vs.length < 2 ^ 32) :
    (Ty.list e).ReadsAs W junk less vs vs' :=
  readsAs_of_elems hW hlen fun _ =>
    takes_elems (h.imp fun _ _ hv => hv.element (.inl rfl)) hsep

/-- The same for a set, into which they are inserted. -/
theorem readsAs_of_inserts {e : Ty} {vs vs' s : List (e.Val F)} (hlen : vs.length < 2 ^ 32)
    (hs : vs'.foldl (fun s v => Sorted.insert (less e) v s) [] = s)
    (h : ∀ rest, Tagged rest → Takes (readElems (deserializeElement Reads.code e.isBaseOrEnum
        (e.deserialize W Reads.code junk less (e.declared F junk))) vs.length)
      (vs.flatMap fun v => elementText e.isBaseOrEnum (e.text W v)) rest
      (fun x => x.2 = vs')) :
    (Ty.set e).ReadsAs W junk less vs s := by
  intro u _ rest _
  show Takes _ (between _ _ _) rest _
  rw [between, List.append_assoc]
  refine (takes_setBegin hW e.named vs.length _).bind fun x hx => ?_
  rw [hx]
  simp only [toNat_size hlen]
  refine (h _ (tagged_closeTag _ rest)).bind fun y hy => ?_
  refine (takes_close (by decide) rest).map fun _ _ => ?_
  rw [hy]
  exact hs

theorem readsAs_set {e : Ty} {vs vs' : List (e.Val F)}
    (h : List.Forall₂ (e.ReadsAs W junk less) vs vs')
    (hsep : e.undelimited = false ∨ vs.length ≤ 1) (hlen : vs.length < 2 ^ 32)
    (horder : vs'.Pairwise fun a b => less e a b = true) :
    (Ty.set e).ReadsAs W junk less vs vs' :=
  readsAs_of_inserts hW hlen (Sorted.foldl_insert (s := []) horder) fun _ =>
    takes_elems (h.imp fun _ _ hv => hv.element (.inr rfl)) hsep

/-- And for a map. -/
theorem readsAs_of_entries {k v : Ty} {es es' : List (k.Val F × v.Val F)}
    (hlen : es.length < 2 ^ 32)
    (h : ∀ rest, Tagged rest → Takes (readEntries (less k)
      (deserializeElement Reads.code k.isBaseOrEnum
        (k.deserialize W Reads.code junk less (k.declared F junk)))
      (fun w => deserializeElement Reads.code v.isBaseOrEnum
        (v.deserialize W Reads.code junk less w)) (v.zero F) es.length [])
      (es.flatMap fun e => elementText k.isBaseOrEnum (k.text W e.1)
        ++ elementText v.isBaseOrEnum (v.text W e.2)) rest (fun x => x.2 = es')) :
    (Ty.map k v).ReadsAs W junk less es es' := by
  intro u _ rest _
  show Takes _ (between _ _ _) rest _
  rw [between, List.append_assoc]
  refine (takes_mapBegin hW k.named v.named es.length _).bind fun x hx => ?_
  rw [hx]
  simp only [toNat_size hlen]
  refine (h _ (tagged_closeTag _ rest)).bind fun y hy => ?_
  exact (takes_close (by decide) rest).map fun _ _ => hy

theorem readsAs_map {k v : Ty} {es es' : List (k.Val F × v.Val F)}
    (h : List.Forall₂ (fun e e' => k.ReadsAs W junk less e.1 e'.1
      ∧ v.ReadsAs W junk less e.2 e'.2) es es')
    (hsep : (k.undelimited = false ∨ v.undelimited = false) ∨ es = [])
    (hlen : es.length < 2 ^ 32)
    (horder : es'.Pairwise fun a b => less k a.1 b.1 = true) :
    (Ty.map k v).ReadsAs W junk less es es' := by
  refine readsAs_of_entries hW hlen fun rest hrest => ?_
  rcases hsep with hsep | rfl
  · exact takes_entries (fun w => elementText k.isBaseOrEnum (k.text W w))
      (fun w => elementText v.isBaseOrEnum (v.text W w))
      (h.imp fun e e' he => ⟨he.1.element (.inr rfl), he.2.element (.inl rfl)⟩)
      k.tagged_element v.tagged_element hsep hrest (m := []) horder
  · cases h
    exact takes_pure rfl

end Containers

end Sandesh.CppGen
