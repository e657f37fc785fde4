/-
What a reader makes of a struct from another version of the IDL
(`read_version`).

Each type settles: with all that it depends on as it should be the text is
taken and gives `adopt`, and otherwise the reader fails. In a struct the
loop is followed along the fields as they were written. What the reader has
then is what has been offered so far (`Held`), and no offer comes twice,
since no key does.
-/
import Sandesh.CppGen.Versions
import Sandesh.CppGen.Proofs.RoundTrip

namespace Sandesh.CppGen

open Lib Xml Header LookaheadReader TType
open Lib.Prog (Runs runs_pure runs_throw)

-- =============================================================== loops

section Loops

variable {α β γ : Type} {m : Read α} {f : α → Read β} {s t rest : Bytes} {good : Prop}
  {P : α → Prop} {Q : β → Prop}

/-- What is taken first does not matter to the rest. -/
theorem Takes.settlesBind (h : Takes m s (t ++ rest) P)
    (hf : ∀ a, P a → Settles (f a) t rest good Q) : Settles (m >>= f) (s ++ t) rest good Q :=
  ((h.settles trivial).bind hf).congr (true_and good).symm.to_iff

/-- A read whose outcome is settled, and one that takes what follows. -/
theorem Settles.takesBind (h : Settles m s (t ++ rest) good P)
    (hf : ∀ a, P a → Takes (f a) t rest Q) : Settles (m >>= f) (s ++ t) rest good Q :=
  (h.bind fun a ha => (hf a ha).settles trivial).congr (and_true good).symm.to_iff

/-- Less is said of what is read. -/
theorem Settles.imp {P' : α → Prop} (h : Settles m s rest good P) (hP : ∀ a, P a → P' a) :
    Settles m s rest good P' :=
  ⟨fun hgood => (h.takes hgood).imp hP, h.fails⟩

/-- The elements of a list, each of which is taken or not. -/
theorem settles_readElems {elem : Read (Int × α)} {text : γ → Bytes} {value : γ → α}
    {good : γ → Prop} {bare : Bool} {vs : List γ}
    (h : ∀ v ∈ vs, ∀ rest, (bare = true → Tagged rest) →
      Settles elem (text v) rest (good v) (fun x => x.2 = value v))
    (hsep : bare = false ∨ vs.length ≤ 1) (hrest : Tagged rest) :
    Settles (readElems elem vs.length) (vs.flatMap text) rest (Every good vs)
      (fun x => x.2 = vs.map value) := by
  induction vs with
  | nil => exact Takes.settles (takes_pure rfl) fun _ hv => absurd hv List.not_mem_nil
  | cons v vs ih =>
      have hsep' : bare = false ∨ vs.length ≤ 1 := by
        refine hsep.imp_right fun hlen => ?_
        rw [List.length_cons] at hlen
        omega
      have hnext : bare = true → Tagged (vs.flatMap text ++ rest) := by
        intro hbare
        rcases hsep with hsep | hlen
        · rw [hsep] at hbare
          cases hbare
        · cases vs with
          | nil => exact hrest
          | cons w ws => simp at hlen
      have hvs := ih (fun w hw => h w (List.mem_cons_of_mem _ hw)) hsep'
      refine ((h v List.mem_cons_self _ hnext).bind fun x hx => hvs.map fun y hy => ?_).congr
        List.forall_mem_cons
      rw [hx, hy]
      rfl

/-- The entries of a map. A key is not among those before it, so that there
is no entry of it yet. -/
theorem settles_readEntries {κ ν : Type} {less : κ → κ → Bool} {key : Read (Int × κ)}
    {g : ν → Read (Int × ν)} {zero : ν} {ktext vtext : γ → Bytes} {kvalue : γ → κ}
    {vvalue : γ → ν} {kgood vgood : γ → Prop} {kbare vbare : Bool} {es : List γ}
    (h : ∀ e ∈ es,
      (∀ rest, (kbare = true → Tagged rest) →
        Settles key (ktext e) rest (kgood e) (fun x => x.2 = kvalue e))
      ∧ ∀ rest, (vbare = true → Tagged rest) →
        Settles (g zero) (vtext e) rest (vgood e) (fun x => x.2 = vvalue e))
    (hk : kbare = false → ∀ e, Tagged (ktext e)) (hv : vbare = false → ∀ e, Tagged (vtext e))
    (hsep : (kbare = false ∨ vbare = false) ∨ es = []) (hrest : Tagged rest)
    (hes : es.Pairwise fun a b => Sorted.Apart less (kvalue a) (kvalue b)) :
    ∀ {m : List (κ × ν)}, (∀ b ∈ m, ∀ e ∈ es, Sorted.Apart less b.1 (kvalue e)) →
      Settles (readEntries less key g zero es.length m)
        (es.flatMap fun e => ktext e ++ vtext e) rest (Every (fun e => kgood e ∧ vgood e) es)
        (fun x => x.2
          = es.foldl (fun m e => Sorted.assign less (kvalue e) (vvalue e) m) m) := by
  induction es with
  | nil =>
      intro m _
      exact Takes.settles (takes_pure rfl) fun _ he => absurd he List.not_mem_nil
  | cons e es ih =>
      intro m hm
      obtain ⟨he, hes⟩ := List.pairwise_cons.mp hes
      have hsep' : kbare = false ∨ vbare = false := hsep.resolve_right (List.cons_ne_nil _ _)
      have hnew : ∀ b ∈ m, Sorted.Apart less b.1 (kvalue e) := fun b hb =>
        hm b hb e List.mem_cons_self
      have hm' : ∀ b ∈ Sorted.assign less (kvalue e) (vvalue e) m, ∀ e' ∈ es,
          Sorted.Apart less b.1 (kvalue e') :=
        Sorted.key_assign (P := fun a => ∀ e' ∈ es, Sorted.Apart less a (kvalue e')) he
          fun b hb e' he' => hm b hb e' (List.mem_cons_of_mem _ he')
      have hvalue : kbare = true → Tagged (vtext e
          ++ (es.flatMap (fun e => ktext e ++ vtext e) ++ rest)) := by
        intro hbare
        rcases hsep' with hsep' | hsep'
        · rw [hsep'] at hbare
          cases hbare
        · exact (hv hsep' e).append _
      have hkey : vbare = true → Tagged (es.flatMap (fun e => ktext e ++ vtext e) ++ rest) := by
        intro hbare
        rcases hsep' with hsep' | hsep'
        · exact tagged_flatMap (fun e => (hk hsep' e).append _) es hrest
        · rw [hsep'] at hbare
          cases hbare
      obtain ⟨hkeys, hvals⟩ := h e List.mem_cons_self
      have hrestEntries := ih (fun e he => h e (List.mem_cons_of_mem _ he)) (.inl hsep') hes hm'
      have hiff : Every (fun e => kgood e ∧ vgood e) (e :: es)
          ↔ kgood e ∧ vgood e ∧ Every (fun e => kgood e ∧ vgood e) es :=
        List.forall_mem_cons.trans and_assoc
      rw [List.flatMap_cons, List.append_assoc]
      have hkey' := hkeys (vtext e ++ es.flatMap (fun e => ktext e ++ vtext e) ++ rest) (by
        rwa [List.append_assoc])
      refine (hkey'.bind fun x hx => ?_).congr hiff
      obtain ⟨ret, a⟩ := x
      obtain rfl : a = kvalue e := hx
      have hval := hvals _ hkey
      dsimp only
      rw [Sorted.find_apart hnew]
      refine hval.bind fun y hy => ?_
      obtain ⟨ret2, b⟩ := y
      obtain rfl : b = vvalue e := hy
      exact hrestEntries.map fun z hz => hz

end Loops

-- ============================================================== offers

variable {W : World} {F : Foreign} {junk : Bool}
  {less : (t : Ty) → t.Val F → t.Val F → Bool}

/-- One more offer. -/
def Offer.and {V : Ty → Type} (o : Offer V) (key : Int) (ftype : TType) (v : (u : Ty) → V u) :
    Offer V :=
  fun k u => if key = k ∧ ftype = u.type_to_enum then some (v u) else o k u

/-- The keys in `isset` are those of the fields that have been offered. -/
def Fields.Marked : Fields → Offer (Ty.Val F) → List Int → Prop
  | .nil, _, _ => True
  | .cons g u gs, o, isset => (g.key ∈ isset ↔ (o g.key u).isSome = true) ∧ gs.Marked o isset

section Offers

variable {key : Int} {ftype : TType}

section And

variable {V : Ty → Type} {o : Offer V} {v : (u : Ty) → V u}

/-- An offer under another id, or of another type, makes no difference. -/
theorem Offer.and_of_ne {k : Int} (h : k ≠ key) (u : Ty) : o.and key ftype v k u = o k u :=
  if_neg fun hand => h hand.1.symm

theorem Offer.and_of_type {u : Ty} (h : ftype ≠ u.type_to_enum) (k : Int) :
    o.and key ftype v k u = o k u :=
  if_neg fun hand => h hand.2

/-- An offer under the id is taken. -/
theorem Offer.and_same (u : Ty) : o.and key u.type_to_enum v key u = some (v u) :=
  if_pos ⟨rfl, rfl⟩

end And

variable {o o' : Offer (Ty.Val F)} {v : (u : Ty) → u.Val F}

/-- What a reader ends up with depends on the offer at its ids only. -/
theorem Fields.collect_congr : (gs : Fields) → (∀ k ∈ gs.keys, ∀ u, o k u = o' k u) →
    gs.collect o = gs.collect o'
  | .nil, _ => rfl
  | .cons g u gs, h => by
      rw [Fields.collect, Fields.collect, h g.key List.mem_cons_self,
        gs.collect_congr fun k hk => h k (List.mem_cons_of_mem _ hk)]

theorem Fields.marked_congr {isset isset' : List Int} : (gs : Fields) →
    (∀ k ∈ gs.keys, ∀ u, o k u = o' k u) → (∀ k ∈ gs.keys, k ∈ isset ↔ k ∈ isset') →
    gs.Marked o isset → gs.Marked o' isset'
  | .nil, _, _, _ => trivial
  | .cons g u gs, ho, hi, h => by
      refine ⟨?_, gs.marked_congr (fun k hk => ho k (List.mem_cons_of_mem _ hk))
        (fun k hk => hi k (List.mem_cons_of_mem _ hk)) h.2⟩
      rw [← hi g.key List.mem_cons_self, ← ho g.key List.mem_cons_self]
      exact h.1

/-- An id that is not declared is not known. -/
theorem Fields.known_of_not_mem : (gs : Fields) → key ∉ gs.keys → gs.known key ftype = none
  | .nil, _ => rfl
  | .cons g u gs, h => by
      rw [Fields.known, if_neg (ne_of_mem_of_not_mem List.mem_cons_self h).symm]
      exact gs.known_of_not_mem fun hmem => h (List.mem_cons_of_mem _ hmem)

/-- An offer to the field in front. -/
theorem Fields.collect_and_head {g : Field} {u : Ty} {gs : Fields} (h : g.key ∉ gs.keys) :
    (Fields.cons g u gs).collect (o.and g.key u.type_to_enum v)
      = (g.req.put (v u), gs.collect o) := by
  have hrest : gs.collect (o.and g.key u.type_to_enum v) = gs.collect o :=
    gs.collect_congr fun k hk u => Offer.and_of_ne (ne_of_mem_of_not_mem hk h) u
  rw [Fields.collect, hrest, Offer.and_same]

/-- And to one behind it. -/
theorem Fields.collect_and_tail {g : Field} {u : Ty} {gs : Fields} (h : g.key ≠ key) :
    (Fields.cons g u gs).collect (o.and key ftype v)
      = (((Fields.cons g u gs).collect o).1, gs.collect (o.and key ftype v)) := by
  rw [Fields.collect, Fields.collect, Offer.and_of_ne h]

/-- An offer that nobody knows changes nothing. -/
theorem Fields.collect_unknown : (gs : Fields) → gs.keys.Nodup →
    gs.known key ftype = none → gs.collect (o.and key ftype v) = gs.collect o
  | .nil, _, _ => rfl
  | .cons g u gs, hdistinct, h => by
      obtain ⟨hkey, hdistinct⟩ := List.nodup_cons.mp hdistinct
      rw [Fields.known] at h
      rw [Fields.collect, Fields.collect]
      split at h
      · rename_i heq
        subst heq
        split at h
        · cases h
        · rename_i htype
          have hrest : gs.collect (o.and g.key ftype v) = gs.collect o :=
            gs.collect_congr fun k hk u => Offer.and_of_ne (ne_of_mem_of_not_mem hk hkey) u
          rw [Offer.and_of_type htype, hrest]
      · rename_i hne
        rw [Offer.and_of_ne (fun heq => hne heq.symm), gs.collect_unknown hdistinct h]

/-- The keys that are marked, with the one that is read. -/
theorem Fields.Marked.and {isset : List Int} : (gs : Fields) → gs.keys.Nodup →
    gs.Marked o isset →
    gs.Marked (o.and key ftype v)
      ((if (gs.known key ftype).isSome then [key] else []) ++ isset)
  | .nil, _, _ => trivial
  | .cons g u gs, hdistinct, h => by
      obtain ⟨hkey, hdistinct⟩ := List.nodup_cons.mp hdistinct
      rw [Fields.known]
      by_cases heq : key = g.key
      · subst heq
        rw [if_pos rfl]
        have hrest : ∀ k ∈ gs.keys, ∀ u', o k u' = o.and g.key ftype v k u' := fun k hk u' =>
          (Offer.and_of_ne (ne_of_mem_of_not_mem hk hkey) u').symm
        by_cases htype : ftype = u.type_to_enum
        · subst htype
          rw [if_pos rfl]
          refine ⟨?_, gs.marked_congr hrest (fun k hk => ?_) h.2⟩
          · rw [Offer.and_same]
            simp
          · simp [ne_of_mem_of_not_mem hk hkey]
        · rw [if_neg htype]
          refine ⟨?_, gs.marked_congr hrest (fun k hk => Iff.rfl) h.2⟩
          rw [Offer.and_of_type htype]
          exact h.1
      · rw [if_neg heq]
        refine ⟨?_, Fields.Marked.and gs hdistinct h.2⟩
        have hne : g.key ≠ key := fun h => heq h.symm
        rw [Offer.and_of_ne hne]
        refine Iff.trans ?_ h.1
        split <;> simp [hne]

/-- What is required has been read. -/
theorem Fields.Marked.supplied {isset : List Int} : (gs : Fields) → gs.Marked o isset →
    (gs.required.all (fun key => isset.contains key) = true ↔ gs.Supplied o)
  | .nil, _ => by simp [Fields.required, Fields.Supplied]
  | .cons g u gs, h => by
      have hrest := Fields.Marked.supplied gs h.2
      rw [Fields.required, Fields.Supplied, ← hrest, ← h.1]
      split
      · rename_i hreq
        simp [hreq]
      · rename_i hreq
        simp [hreq]

end Offers

-- =============================================================== a field

/-- The `switch`: a field that is known is read into its place, and any
other is skipped. -/
theorem Fields.settles_field {fid : BitVec 16} {key : Int} {ftype : TType} {o : Offer (Ty.Val F)}
    {val : (u : Ty) → u.Val F} {s rest : Bytes} {good : Prop} (hfid : fid.toInt = key) :
    (gs : Fields) → gs.keys.Nodup → (∀ u, o key u = none) →
    (∀ u, gs.known key ftype = some u →
      Settles (u.deserialize W Reads.code junk less (u.zero F)) s rest good
        (fun x => x.2 = val u)) →
    (gs.known key ftype = none →
      Settles (skip W Reads.code ftype) s rest good (fun _ => True)) →
    Settles (gs.deserialize W Reads.code junk less fid ftype (gs.collect o)) s rest good
      (fun x => x.2.1 = (if (gs.known key ftype).isSome then [key] else [])
        ∧ x.2.2 = gs.collect (o.and key ftype val))
  | .nil, _, _, _, hskip => by
      rw [Fields.deserialize]
      exact (hskip rfl).map fun _ _ => ⟨rfl, rfl⟩
  | .cons g u gs, hdistinct, hnone, hread, hskip => by
      have hboth : (Fields.cons g u gs).known key ftype = none →
          (Fields.cons g u gs).collect (o.and key ftype val) = (Fields.cons g u gs).collect o :=
        Fields.collect_unknown _ hdistinct
      obtain ⟨hkey, hdistinct⟩ := List.nodup_cons.mp hdistinct
      rw [Fields.known] at hread hskip hboth ⊢
      rw [Fields.deserialize, hfid]
      by_cases hid : key = g.key
      · rw [if_pos hid] at hread hskip hboth ⊢
        rw [if_pos hid]
        by_cases htype : ftype = u.type_to_enum
        · subst htype
          rw [if_pos rfl] at hread ⊢
          rw [if_pos rfl]
          have hslot : ((Fields.cons g u gs).collect o).1 = g.req.unset (u.zero F) := by
            rw [Fields.collect, ← hid, hnone]
          rw [hslot, Req.getD_unset, hid]
          refine (hread u rfl).map fun x hx => ⟨by simp, ?_⟩
          rw [Fields.collect_and_head hkey, ← hx]
          rfl
        · rw [if_neg htype] at hskip hboth ⊢
          rw [if_neg htype]
          exact (hskip rfl).map fun _ _ => ⟨rfl, (hboth rfl).symm⟩
      · rw [if_neg hid] at hread hskip ⊢
        rw [if_neg hid]
        have htail := gs.settles_field hfid hdistinct hnone hread hskip
        have hne : g.key ≠ key := fun h => hid h.symm
        refine htail.map fun x hx => ⟨hx.1, ?_⟩
        exact (congrArg (Prod.mk _) hx.2).trans (Fields.collect_and_tail hne).symm

-- ============================================================ the loop

/-- What is offered by one or the other. -/
def Offer.or {V : Ty → Type} (o o' : Offer V) : Offer V := fun k u => (o k u).or (o' k u)

/-- What the reader has of a struct. -/
structure Fields.Held (gs : Fields) (o : Offer (Ty.Val F)) (st : Reading (gs.Rec F)) : Prop where
  value : st.value = gs.collect o
  marked : gs.Marked o st.isset

/-- Nothing is offered under an id that is not written. -/
theorem Fields.offer_of_not_mem {key : Int} : (fs : Fields) → key ∉ fs.keys → (x : fs.Rec F) →
    (u : Ty) → fs.offer less x key u = none
  | .nil, _, _, _ => rfl
  | .cons f t fs, h, x, u => by
      rw [Fields.offer, if_neg (ne_of_mem_of_not_mem List.mem_cons_self h)]
      exact fs.offer_of_not_mem (fun hmem => h (List.mem_cons_of_mem _ hmem)) x.2 u

section Turn

variable {f : Field} {t : Ty} {fs gs : Fields} {o : Offer (Ty.Val F)}

/-- A field that is not written offers nothing. -/
theorem Offer.or_none (x : (Fields.cons f t fs).Rec F) (hget : f.req.get x.1 = none)
    (hkey : f.key ∉ fs.keys) :
    o.or ((Fields.cons f t fs).offer less x) = o.or (fs.offer less x.2) := by
  funext k u
  unfold Offer.or
  rw [Fields.offer]
  split
  · rename_i heq
    rw [← heq, fs.offer_of_not_mem hkey, hget]
    split <;> rfl
  · rfl

/-- A field that is written is offered before the others. -/
theorem Offer.or_some (x : (Fields.cons f t fs).Rec F) {v : t.Val F}
    (hget : f.req.get x.1 = some v) (hkey : f.key ∉ fs.keys) (hnone : ∀ u, o f.key u = none) :
    o.or ((Fields.cons f t fs).offer less x)
      = (o.and f.key t.type_to_enum fun u => t.adopt less u v).or (fs.offer less x.2) := by
  funext k u
  unfold Offer.or
  rw [Fields.offer]
  by_cases heq : f.key = k
  · subst heq
    rw [if_pos rfl, fs.offer_of_not_mem hkey, hnone, hget]
    by_cases htype : t.type_to_enum = u.type_to_enum
    · rw [if_pos htype, Offer.and, if_pos ⟨rfl, htype⟩]
      rfl
    · rw [if_neg htype, Offer.and_of_type htype, hnone]
  · rw [if_neg heq, Offer.and_of_ne fun h => heq h.symm]

/-- A field as it was written: its tag, its value, its end tag. -/
theorem readLoop_turn (hW : Decimals W) (hgs : gs.keys.Nodup)
    (hf : f.Sound W t.type_to_enum) {v : t.Val F} {val : (u : Ty) → u.Val F} {good : Prop}
    {rest : Bytes}
    (hfield : Settles (gs.deserialize W Reads.code junk less (BitVec.ofInt 16 f.key)
        t.type_to_enum (gs.collect o)) (t.text W v) (closeTag f.name ++ rest) good
      (fun x => x.2.1 = (if (gs.known f.key t.type_to_enum).isSome then [f.key] else [])
        ∧ x.2.2 = gs.collect (o.and f.key t.type_to_enum val)))
    {st : Reading (gs.Rec F)} (hst : gs.Held o st) {r : LookaheadReader}
    (hr : Fresh (between f.name (attrText W t.type_to_enum (BitVec.ofInt 16 f.key)
      f.annotations) (t.text W v) ++ rest) r) :
    (good → ∃ st₁ r₁, Fresh rest r₁ ∧ gs.Held (o.and f.key t.type_to_enum val) st₁
      ∧ ∀ {res r'}, (readLoop W Reads.code (gs.deserialize W Reads.code junk less) st₁).Runs
          r₁ res r' →
        (readLoop W Reads.code (gs.deserialize W Reads.code junk less) st).Runs r res r')
    ∧ (¬ good → ∃ e r', (readLoop W Reads.code (gs.deserialize W Reads.code junk less) st).Runs
      r (.error (.fault e)) r') := by
  rw [between, List.append_assoc, List.append_assoc] at hr
  obtain ⟨ra, hbegin, hfresh⟩ := readFieldBegin_field hW.toDecimal hf.tag
    (plainName_of_isName hf.name) t.named hf.harmless hr st.fname st.ftype st.fid
  rw [← hst.value] at hfield
  constructor
  · intro hgood
    obtain ⟨⟨n, isset, y⟩, rb, hruns, ⟨hisset, hy⟩, hready⟩ :=
      hfield.takes hgood ra hfresh.ready
    obtain ⟨rc, hend, hfresh'⟩ := runs_closeTag hf.name hready.near
    have hfieldEnd : (readFieldEnd Reads.code).Runs rb (.ok ((closeTag f.name).length : Int)) rc :=
      hend.bind_ok (runs_pure.mpr ⟨rfl, rfl⟩)
    refine ⟨⟨st.xfer + (openTag f.name (attrText W t.type_to_enum (BitVec.ofInt 16 f.key)
        f.annotations)).length + n + (closeTag f.name).length, f.name, t.type_to_enum,
        BitVec.ofInt 16 f.key, isset ++ st.isset, y⟩, rc, hfresh', ⟨hy, ?_⟩,
      fun hnext => Runs.again (hbegin.bind_ok ?_) hnext⟩
    · have hmarked : gs.Marked (o.and f.key t.type_to_enum val)
          ((if (gs.known f.key t.type_to_enum).isSome then [f.key] else []) ++ st.isset) :=
        Fields.Marked.and gs hgs hst.marked
      rwa [← hisset] at hmarked
    · simp only [if_neg t.ne_stop]
      exact hruns.bind_ok (hfieldEnd.bind_ok (runs_pure.mpr ⟨rfl, rfl⟩))
  · intro hbad
    obtain ⟨e, rb, hruns⟩ := hfield.fails hbad ra hfresh.ready
    refine ⟨e, rb, Runs.stop (hbegin.bind_ok ?_)⟩
    simp only [if_neg t.ne_stop]
    exact Runs.bind_error hruns

end Turn

-- ============================================================ a struct

/-- A reader for `u` takes the text of `v`, a value of `t`, and makes of it
what it is to make; or it fails. -/
def Ty.SettlesAs (W : World) (junk : Bool) (less : (t : Ty) → t.Val F → t.Val F → Bool)
    (t u : Ty) (v : t.Val F) : Prop :=
  ∀ w, u.Start junk w → ∀ rest, (t.trueBaseOrEnum = true → Tagged rest) →
    Settles (u.deserialize W Reads.code junk less w) (t.text W v) rest (t.Adoptable less W u v)
      (fun x => x.2 = t.adopt less u v)

/-- The loop over all the fields of a struct. -/
def Fields.SettlesAs (W : World) (junk : Bool) (less : (t : Ty) → t.Val F → t.Val F → Bool)
    (fs gs : Fields) (x : fs.Rec F) : Prop :=
  ∀ ⦃o : Offer (Ty.Val F)⦄, (∀ k ∈ fs.keys, ∀ u, o k u = none) → ∀ ⦃st : Reading (gs.Rec F)⦄,
    gs.Held o st → ∀ ⦃rest : Bytes⦄ ⦃r : LookaheadReader⦄,
    Fresh (fs.text W x ++ kcXMLTagO :: kcXMLSlash :: rest) r →
    (fs.Adoptable less W gs x → ∃ st' r',
      (readLoop W Reads.code (gs.deserialize W Reads.code junk less) st).Runs r (.ok st') r'
      ∧ gs.Held (o.or (fs.offer less x)) st' ∧ Near (kcXMLTagO :: kcXMLSlash :: rest) r')
    ∧ (¬ fs.Adoptable less W gs x → ∃ e r',
      (readLoop W Reads.code (gs.deserialize W Reads.code junk less) st).Runs r
        (.error (.fault e)) r')

/-- Without fields there is nothing to settle. -/
theorem Fields.settlesAs_nil (gs : Fields) (x : Fields.nil.Rec F) :
    Fields.nil.SettlesAs W junk less gs x := by
  intro o _ st hst rest r hr
  refine ⟨fun _ => ?_, fun hbad => absurd trivial hbad⟩
  obtain ⟨st', r', hruns, hvalue, hisset, hnear⟩ := readLoop_nil (W := W)
    (gs.deserialize W Reads.code junk less) st hr
  have hor : o.or (Fields.nil.offer less x) = o := by
    funext k u
    exact Option.or_none
  refine ⟨st', r', hruns, ?_, hnear⟩
  rw [hor]
  exact ⟨hvalue.trans hst.value, hisset ▸ hst.marked⟩

/-- One field more: it is adopted or skipped, and the others follow. -/
theorem Fields.settlesAs_cons (hW : Decimals W) (hF : F.Texts W) {f : Field} {t : Ty}
    {fs gs : Fields} (hgs : gs.keys.Nodup) (hsound : (Fields.cons f t fs).Sound W)
    {x : (Fields.cons f t fs).Rec F} (hx : (Fields.cons f t fs).Meant less gs x)
    (hv : ∀ v u, f.req.get x.1 = some v → gs.known f.key t.type_to_enum = some u →
      t.SettlesAs W junk less u v)
    (hfs : fs.SettlesAs W junk less gs x.2) :
    (Fields.cons f t fs).SettlesAs W junk less gs x := by
  intro o hnone st hst rest r hr
  obtain ⟨hf, hkey, ht, -⟩ := hsound
  have hnone' : ∀ k ∈ fs.keys, ∀ u, o k u = none := fun k hk =>
    hnone k (List.mem_cons_of_mem _ hk)
  rw [Fields.text] at hr
  cases hget : f.req.get x.1 with
  | none =>
      have hiff : (Fields.cons f t fs).Adoptable less W gs x ↔ fs.Adoptable less W gs x.2 := by
        refine and_iff_right fun v hsome => ?_
        rw [hget] at hsome
        cases hsome
      rw [hget] at hr
      rw [hiff, Offer.or_none x hget hkey]
      exact hfs hnone' hst hr
  | some v =>
      have hiff : (Fields.cons f t fs).Adoptable less W gs x
          ↔ ((gs.known f.key t.type_to_enum = none → t.Skippable W v)
            ∧ ∀ u, gs.known f.key t.type_to_enum = some u → t.Adoptable less W u v)
            ∧ fs.Adoptable less W gs x.2 := by
        refine and_congr_left fun _ => ?_
        rw [hget]
        exact ⟨fun h => h v rfl, fun h w hw => Option.some.inj hw ▸ h⟩
      rw [hget] at hr
      simp only [List.append_assoc] at hr
      have hnonekey := hnone f.key List.mem_cons_self
      have hfield : Settles (gs.deserialize W Reads.code junk less (BitVec.ofInt 16 f.key)
          t.type_to_enum (gs.collect o)) (t.text W v)
          (closeTag f.name ++ (fs.text W x.2 ++ kcXMLTagO :: kcXMLSlash :: rest))
          ((gs.known f.key t.type_to_enum = none → t.Skippable W v)
            ∧ ∀ u, gs.known f.key t.type_to_enum = some u → t.Adoptable less W u v)
          (fun x => x.2.1 = (if (gs.known f.key t.type_to_enum).isSome then [f.key] else [])
            ∧ x.2.2 = gs.collect (o.and f.key t.type_to_enum fun u => t.adopt less u v)) := by
        refine gs.settles_field hf.key hgs hnonekey (fun u hu => ?_) fun hu => ?_
        · refine (hv v u hget hu _ (.inl rfl) _ fun _ => tagged_closeTag _ _).congr ?_
          rw [hu]
          constructor
          · exact fun h => h.2 u rfl
          · intro h
            refine ⟨fun hno => absurd hno (Option.some_ne_none u), fun w hw => ?_⟩
            exact Option.some.inj hw ▸ h
        · have hskips := t.skips hW hF ht v ((hx.1 v hget).1 hu) fun _ =>
            tagged_closeTag f.name (fs.text W x.2 ++ kcXMLTagO :: kcXMLSlash :: rest)
          refine (hskips.imp fun _ _ => trivial).congr ?_
          rw [hu]
          constructor
          · exact fun h => h.1 rfl
          · exact fun h => ⟨fun _ => h, fun w hw => absurd hw.symm (Option.some_ne_none w)⟩
      obtain ⟨htakes, hfails⟩ := readLoop_turn hW hgs hf hfield hst hr
      rw [hiff, Offer.or_some x hget hkey hnonekey]
      by_cases hgood : (gs.known f.key t.type_to_enum = none → t.Skippable W v)
          ∧ ∀ u, gs.known f.key t.type_to_enum = some u → t.Adoptable less W u v
      · obtain ⟨st₁, r₁, hfresh, hst₁, hnext⟩ := htakes hgood
        have hnone₁ : ∀ k ∈ fs.keys, ∀ u,
            o.and f.key t.type_to_enum (fun u => t.adopt less u v) k u = none := by
          intro k hk u
          rw [Offer.and_of_ne (ne_of_mem_of_not_mem hk hkey)]
          exact hnone' k hk u
        obtain ⟨hrest, hrest'⟩ := hfs hnone₁ hst₁ hfresh
        constructor
        · intro hboth
          obtain ⟨st', r', hruns, hst', hnear⟩ := hrest hboth.2
          exact ⟨st', r', hnext hruns, hst', hnear⟩
        · intro hbad
          obtain ⟨e, r', hruns⟩ := hrest' fun h => hbad ⟨hgood, h⟩
          exact ⟨e, r', hnext hruns⟩
      · exact ⟨fun hboth => absurd hboth.1 hgood, fun _ => hfails hgood⟩

/-- With nothing offered the reader has what it started with. -/
theorem Fields.collect_none (gs : Fields) : gs.collect (fun _ _ => none) = gs.zero F := by
  induction gs using Fields.induct with
  | nil => rfl
  | cons g u gs ih =>
      rw [Fields.collect, ih]
      rfl

theorem Fields.marked_none (gs : Fields) : gs.Marked (F := F) (fun _ _ => none) [] := by
  induction gs using Fields.induct with
  | nil => trivial
  | cons g u gs ih => exact ⟨by simp, ih⟩

/-- The whole of a struct. -/
theorem Ty.settlesAs_struct {name name' : Bytes} {fs gs : Fields} (hname : IsName name)
    {x : fs.Rec F} (hfs : fs.SettlesAs W junk less gs x) :
    (Ty.struct name fs).SettlesAs W junk less (.struct name' gs) x := by
  intro w hw rest _
  have hzero : w = gs.zero F := hw.elim id id
  have hno : kcXMLTagC ∉ name ++ [] := by
    rw [List.append_nil]
    exact not_mem_name hname
  have hor : Offer.or (fun _ _ => none) (fs.offer less x) = fs.offer less x := by
    funext k u
    exact Option.none_or
  have hheld : gs.Held (fun _ _ => none) ⟨(openTag name []).length, name ++ [], W.junk.ftype,
      W.junk.fid, [], w⟩ := ⟨hzero.trans gs.collect_none.symm, gs.marked_none⟩
  have hloop := @hfs _ (fun _ _ _ => rfl) _ hheld (name ++ lit ">" ++ rest)
  rw [← closeTag_eq, hor] at hloop
  have htext : (Ty.struct name fs).text W x ++ rest
      = openTag name [] ++ (fs.text W x ++ (closeTag name ++ rest)) := by
    show between name [] (fs.text W x) ++ rest = _
    rw [between, List.append_assoc, List.append_assoc]
  -- up to the check of what is required
  have hread : fs.Adoptable less W gs x → ∀ r, Ready ((Ty.struct name fs).text W x ++ rest) r →
      ∃ st n r', gs.Held (fs.offer less x) st ∧ Ready rest r'
        ∧ ∀ {res r''}, ((if gs.required.all fun key => st.isset.contains key then
            pure (n, st.value) else fail : Read (Int × gs.Rec F)).Runs r' res r'' →
          (readStruct W Reads.code gs.required (gs.deserialize W Reads.code junk less) w).Runs
            r res r'') := by
    intro hgood r hr
    rw [htext] at hr
    obtain ⟨ra, hbegin, hfresh⟩ := runs_openTag hno hr.near
    obtain ⟨st, rb, hruns, hst, hnear⟩ := (hloop hfresh).1 hgood
    obtain ⟨rc, hend, hfresh'⟩ := runs_closeTag hname hnear
    have hstructEnd : (readStructEnd Reads.code).Runs rb (.ok ((closeTag name).length : Int))
        rc := hend.bind_ok (runs_pure.mpr ⟨rfl, rfl⟩)
    exact ⟨st, st.xfer + (closeTag name).length, rc, hst, hfresh'.ready, fun hlast =>
      hbegin.bind_ok (hruns.bind_ok (hstructEnd.bind_ok hlast))⟩
  constructor
  · intro hgood r hr
    obtain ⟨st, n, r', hst, hready, hnext⟩ := hread hgood.1 r hr
    refine ⟨(n, st.value), r', hnext ?_, hst.value, hready⟩
    rw [if_pos ((Fields.Marked.supplied gs hst.marked).mpr hgood.2)]
    exact runs_pure.mpr ⟨rfl, rfl⟩
  · intro hbad r hr
    by_cases hfields : fs.Adoptable less W gs x
    · obtain ⟨st, n, r', hst, -, hnext⟩ := hread hfields r hr
      refine ⟨.failed, r', hnext ?_⟩
      rw [if_neg fun hall => hbad ⟨hfields, (Fields.Marked.supplied gs hst.marked).mp hall⟩]
      exact runs_throw.mpr ⟨rfl, rfl⟩
    · rw [htext] at hr
      obtain ⟨ra, hbegin, hfresh⟩ := runs_openTag hno hr.near
      obtain ⟨e, rb, hruns⟩ := (hloop hfresh).2 hfields
      exact ⟨e, rb, hbegin.bind_ok (Runs.bind_error hruns)⟩

-- ========================================================== containers

/-- Tags around an element depend on its declared type, and that is alike. -/
theorem Ty.isBaseOrEnum_of_meant {t u : Ty} {v : t.Val F} (h : t.Meant less u v) :
    u.isBaseOrEnum = t.isBaseOrEnum := by
  cases t <;> cases u <;> first | rfl | exact absurd h id

/-- A value among the elements of a container, with its tags or without. -/
theorem Ty.SettlesAs.element {t u : Ty} {v : t.Val F} (h : t.SettlesAs W junk less u v)
    (hmeant : t.Meant less u v) {w : u.Val F} (hw : u.Start junk w) (rest : Bytes)
    (hrest : t.undelimited = true → Tagged rest) :
    Settles (deserializeElement Reads.code u.isBaseOrEnum
        (u.deserialize W Reads.code junk less w))
      (elementText t.isBaseOrEnum (t.text W v)) rest (t.Adoptable less W u v)
      (fun x => x.2 = t.adopt less u v) := by
  rw [Ty.isBaseOrEnum_of_meant hmeant]
  unfold deserializeElement elementText
  by_cases hdecl : t.isBaseOrEnum = true
  · rw [if_pos hdecl, if_pos hdecl, List.append_assoc]
    have hopen : kcXMLTagC ∉ lit "element" ++ [] := by decide
    refine Takes.settlesBind ((takes_open hopen _).map (Q := fun _ => True) fun _ _ => trivial) ?_
    intro _ _
    refine (h w hw _ fun _ => tagged_closeTag _ _).takesBind fun x hx => ?_
    exact (takes_close (by decide) rest).map fun _ _ => hx
  · rw [if_neg hdecl, if_neg hdecl]
    refine h w hw rest fun hbase => hrest ?_
    simp [Ty.undelimited, hbase, hdecl]

section Containers

variable (hW : Decimals W)

include hW

/-- The containers, from their elements. -/
theorem Ty.settlesAs_list {e e' : Ty} {vs : List (e.Val F)}
    (h : ∀ v ∈ vs, e.SettlesAs W junk less e' v) (hvs : (Ty.list e).Meant less (.list e') vs) :
    (Ty.list e).SettlesAs W junk less (.list e') vs := by
  intro w _ rest _
  obtain ⟨hlen, hsep, hmeant⟩ := hvs
  show Settles _ (between _ _ _) rest _ _
  rw [between, List.append_assoc]
  refine (takes_listBegin hW e.named vs.length _).settlesBind fun x hx => ?_
  rw [hx]
  simp only [toNat_size hlen]
  refine (settles_readElems (fun v hv rest hrest => (h v hv).element (hmeant v hv)
    (.inl rfl) rest hrest) hsep (tagged_closeTag _ rest)).takesBind fun y hy => ?_
  exact (takes_close (by decide) rest).map fun _ _ => hy

theorem Ty.settlesAs_set {e e' : Ty} {vs : List (e.Val F)}
    (h : ∀ v ∈ vs, e.SettlesAs W junk less e' v) (hvs : (Ty.set e).Meant less (.set e') vs) :
    (Ty.set e).SettlesAs W junk less (.set e') vs := by
  intro w _ rest _
  obtain ⟨hlen, hsep, hmeant⟩ := hvs
  show Settles _ (between _ _ _) rest _ _
  rw [between, List.append_assoc]
  refine (takes_setBegin hW e.named vs.length _).settlesBind fun x hx => ?_
  rw [hx]
  simp only [toNat_size hlen]
  refine (settles_readElems (fun v hv rest hrest => (h v hv).element (hmeant v hv)
    (.inr rfl) rest hrest) hsep (tagged_closeTag _ rest)).takesBind fun y hy => ?_
  refine (takes_close (by decide) rest).map fun _ _ => ?_
  rw [hy]
  exact List.foldl_map

theorem Ty.settlesAs_map {k v k' v' : Ty} {es : List (k.Val F × v.Val F)}
    (h : ∀ e ∈ es, k.SettlesAs W junk less k' e.1 ∧ v.SettlesAs W junk less v' e.2)
    (hes : (Ty.map k v).Meant less (.map k' v') es) :
    (Ty.map k v).SettlesAs W junk less (.map k' v') es := by
  intro w _ rest _
  obtain ⟨hlen, hsep, hmeant, horder⟩ := hes
  show Settles _ (between _ _ _) rest _ _
  rw [between, List.append_assoc]
  refine (takes_mapBegin hW k.named v.named es.length _).settlesBind fun x hx => ?_
  rw [hx]
  simp only [toNat_size hlen]
  have hboth : ∀ e ∈ es,
      (∀ rest, (k.undelimited = true → Tagged rest) →
        Settles (deserializeElement Reads.code k'.isBaseOrEnum
            (k'.deserialize W Reads.code junk less (k'.declared F junk)))
          (elementText k.isBaseOrEnum (k.text W e.1)) rest (k.Adoptable less W k' e.1)
          (fun x => x.2 = k.adopt less k' e.1))
      ∧ ∀ rest, (v.undelimited = true → Tagged rest) →
        Settles (deserializeElement Reads.code v'.isBaseOrEnum
            (v'.deserialize W Reads.code junk less (v'.zero F)))
          (elementText v.isBaseOrEnum (v.text W e.2)) rest (v.Adoptable less W v' e.2)
          (fun x => x.2 = v.adopt less v' e.2) := by
    intro e he
    obtain ⟨hk, hv⟩ := h e he
    obtain ⟨hkmeant, hvmeant⟩ := hmeant e he
    exact ⟨fun rest hrest => hk.element hkmeant (.inr rfl) rest hrest,
      fun rest hrest => hv.element hvmeant (.inl rfl) rest hrest⟩
  have hentries := settles_readEntries (m := [])
    (g := fun w => deserializeElement Reads.code v'.isBaseOrEnum
      (v'.deserialize W Reads.code junk less w)) hboth
    (fun hk e => k.tagged_element hk e.1) (fun hv e => v.tagged_element hv e.2) hsep
    (tagged_closeTag (lit "map") rest) horder fun b hb => absurd hb List.not_mem_nil
  refine hentries.takesBind fun y hy => ?_
  exact (takes_close (by decide) rest).map fun _ _ => hy

end Containers

-- ========================================================== every type

/-- The ids of a structure are apart. -/
theorem Fields.nodup_keys : (fs : Fields) → fs.Sound W → fs.keys.Nodup
  | .nil, _ => List.nodup_nil
  | .cons _ _ fs, h => List.nodup_cons.mpr ⟨h.2.1, fs.nodup_keys h.2.2.2⟩

/-- The type of a field that is known is one of the structure's. -/
theorem Fields.sound_of_known {key : Int} {ftype : TType} {u : Ty} : (gs : Fields) →
    gs.Sound W → gs.known key ftype = some u → u.Sound W
  | .cons g w gs, hsound, h => by
      rw [Fields.known] at h
      split at h
      · split at h
        · obtain rfl := Option.some.inj h
          exact hsound.2.2.1
        · cases h
      · exact gs.sound_of_known hsound.2.2.2 h

/-- A base type reads its text whatever the variable held, if the value is
one that its read returns. -/
theorem Base.returns (hW : Decimals W) (hF : F.Texts W) (b : Base) (u v : b.Val F)
    (hv : b.Returns v) (tail : Bytes) :
    Takes (b.read W Reads.code u) (b.text W v) (kcXMLTagO :: tail) (fun x => x.2 = v) := by
  have hplain : b.plain = true → b.Legal v →
      Takes (b.read W Reads.code u) (b.text W v) (kcXMLTagO :: tail) (fun x => x.2 = v) := by
    intro hb hlegal
    have hreadable := b.text_readable hW hb v hlegal
    exact (b.takes tail hb u hreadable).imp fun x hx => hx.trans (b.back_text hW hb u v hlegal)
  have hstring : ∀ {s : Bytes}, kcXMLTagO ∉ s →
      Takes (Reads.code.get .string) s (kcXMLTagO :: tail) (fun x => x = ((s.length : Int), s)) :=
    fun hs => takes_string tail fun c hc heq => hs (heq ▸ hc)
  cases b with
  | string =>
      obtain ⟨htag, hback⟩ := hv
      refine (hstring htag).map fun x hx => ?_
      rw [hx]
      exact hback
  | xml =>
      intro r hr
      obtain ⟨r', hruns, hfresh⟩ := runs_cdata hv hr.near
      exact ⟨_, r', hruns, rfl, hfresh.ready⟩
  | ipaddr =>
      have hread : Takes (readAddress Reads.code) (F.address_to_string v ++ [])
          (kcXMLTagO :: tail) (fun x => x.2 = v) := by
        refine Takes.bind (hstring (hF.addressTag v)) fun x hx => ?_
        rw [hx]
        dsimp only
        rw [show F.address_from_string (F.address_to_string v) = some v from hv]
        exact takes_pure rfl
      rwa [List.append_nil] at hread
  | uuid =>
      have htext : Base.text W .uuid v = F.uuid_to_string v := escape_plain (hF.uuid v)
      have htag : kcXMLTagO ∉ F.uuid_to_string v := fun hmem => hF.uuid v _ hmem (by decide)
      rw [htext]
      refine (hstring htag).map fun x hx => ?_
      rw [hx]
      exact congrArg (fun o => Option.getD o u) hv
  | double => exact hv.elim
  | bool => exact hplain rfl trivial
  | byte => exact hplain rfl trivial
  | i16 => exact hplain rfl trivial
  | i32 => exact hplain rfl trivial
  | i64 => exact hplain rfl trivial
  | u16 => exact hplain rfl trivial
  | u32 => exact hplain rfl trivial
  | u64 => exact hplain rfl trivial
  | ipv4 => exact hplain rfl trivial

mutual

/-- A reader of another version: it returns exactly if the value can be
adopted, and then it has adopted it. The induction is that of the writer's
type. -/
theorem Ty.settlesAs (hW : Decimals W) (hF : F.Texts W) : (t u : Ty) → t.Sound W →
    u.Sound W → (v : t.Val F) → t.Meant less u v → t.SettlesAs W junk less u v
  | .base b, u, _, _, v, hv => by
      cases u with
      | base b' =>
          obtain ⟨rfl, hv⟩ := hv
          have hadopt : Ty.adopt less (.base b') (.base b') v = v := dif_pos rfl
          intro w _ rest hrest
          obtain ⟨tail, rfl⟩ := hrest rfl
          rw [hadopt]
          exact (b'.returns hW hF w v hv tail).settles trivial
      | _ => exact absurd hv id
  | .enum, u, _, _, v, hv => by
      cases u with
      | enum =>
          intro w hw rest hrest
          exact (Ty.enum.readsAs_bare hW rfl trivial v trivial w hw rest hrest).settles trivial
      | _ => exact absurd hv id
  | .typedef t, u, ht, hu, v, hv => by
      cases u with
      | typedef u => exact t.settlesAs hW hF u ht hu v hv
      | _ => exact absurd hv id
  | .struct name fs, u, ht, hu, x, hx => by
      cases u with
      | struct _ gs =>
          exact Ty.settlesAs_struct ht.1 (fs.settlesAs hW hF gs ht.2 hu.2 x hx)
      | _ => exact absurd hx id
  | .list e, u, ht, hu, vs, hvs => by
      cases u with
      | list e' =>
          refine Ty.settlesAs_list hW (fun v hv => ?_) hvs
          exact e.settlesAs hW hF e' ht hu v (hvs.2.2 v hv)
      | _ => exact absurd hvs id
  | .set e, u, ht, hu, vs, hvs => by
      cases u with
      | set e' =>
          refine Ty.settlesAs_set hW (fun v hv => ?_) hvs
          exact e.settlesAs hW hF e' ht hu v (hvs.2.2 v hv)
      | _ => exact absurd hvs id
  | .map k v, u, ht, hu, es, hes => by
      cases u with
      | map k' v' =>
          refine Ty.settlesAs_map hW (fun e he => ?_) hes
          exact ⟨k.settlesAs hW hF k' ht.1 hu.1 e.1 (hes.2.2.1 e he).1,
            v.settlesAs hW hF v' ht.2 hu.2 e.2 (hes.2.2.1 e he).2⟩
      | _ => exact absurd hes id

/-- The same for the fields. -/
theorem Fields.settlesAs (hW : Decimals W) (hF : F.Texts W) : (fs gs : Fields) → fs.Sound W →
    gs.Sound W → (x : fs.Rec F) → fs.Meant less gs x → fs.SettlesAs W junk less gs x
  | .nil, gs, _, _, x, _ => gs.settlesAs_nil x
  | .cons f t fs, gs, hfs, hgs, x, hx => by
      refine Fields.settlesAs_cons hW hF (gs.nodup_keys hgs) hfs hx (fun v u hget hknown => ?_)
        (fs.settlesAs hW hF gs hfs.2.2.2 hgs x.2 hx.2)
      exact t.settlesAs hW hF u hfs.2.2.1 (gs.sound_of_known hgs hknown) v
        ((hx.1 v hget).2 u hknown)

end

-- ==================================================== the same version

section Ordered

variable (less)

mutual

/-- Sets and the keys of maps are in order, as the standard library keeps them. -/
def Ty.Ordered : (t : Ty) → t.Val F → Prop
  | .base _, _ => True
  | .enum, _ => True
  | .typedef t, v => t.Ordered v
  | .struct _ fs, x => fs.Ordered x
  | .list e, vs => Every e.Ordered vs
  | .set e, vs => List.Pairwise (fun a b => less e a b = true) vs ∧ Every e.Ordered vs
  | .map k v, es => List.Pairwise (fun a b => less k a.1 b.1 = true) es
      ∧ Every (fun e => k.Ordered e.1 ∧ v.Ordered e.2) es

/-- Sets and maps are in the reader's order everywhere below. -/
def Fields.Ordered : (fs : Fields) → fs.Rec F → Prop
  | .nil, _ => True
  | .cons f t fs, x => (∀ v, f.req.get x.1 = some v → t.Ordered v) ∧ fs.Ordered x.2

end

end Ordered

mutual

/-- A reader of the same version makes of a value the value. -/
theorem Ty.adopt_self : (t : Ty) → t.Sound W → (v : t.Val F) → t.Ordered less v →
    t.adopt less t v = v
  | .base _, _, _, _ => dif_pos rfl
  | .enum, _, _, _ => rfl
  | .typedef t, ht, v, hv => t.adopt_self ht v hv
  | .struct _ fs, ht, x, hx => fs.adopt_self ht.2 x hx
  | .list e, ht, vs, hvs =>
      (List.map_congr_left fun v hv => e.adopt_self ht v (hvs v hv)).trans (List.map_id' vs)
  | .set e, ht, _, hvs =>
      Sorted.foldl_insert_self (fun v hv => e.adopt_self ht v (hvs.2 v hv)) hvs.1
  | .map k v, ht, _, hes =>
      Sorted.foldl_assign_self (fun e he => ⟨k.adopt_self ht.1 e.1 (hes.2 e he).1,
        v.adopt_self ht.2 e.2 (hes.2 e he).2⟩) hes.1

/-- A reader of the same fields adopts them as they are. -/
theorem Fields.adopt_self : (fs : Fields) → fs.Sound W → (x : fs.Rec F) → fs.Ordered less x →
    fs.collect (fs.offer less x) = x
  | .nil, _, _, _ => rfl
  | .cons f t fs, hfs, x, hx => by
      obtain ⟨-, hkey, ht, hfs⟩ := hfs
      have hhead : (Fields.cons f t fs).offer less x f.key t = f.req.get x.1 := by
        rw [Fields.offer, if_pos rfl, if_pos rfl]
        cases hget : f.req.get x.1 with
        | none => rfl
        | some v => exact congrArg some (t.adopt_self ht v (hx.1 v hget))
      have htail : fs.collect ((Fields.cons f t fs).offer less x) = x.2 := by
        refine (fs.collect_congr fun k hk u => ?_).trans (fs.adopt_self hfs x.2 hx.2)
        rw [Fields.offer, if_neg (ne_of_mem_of_not_mem hk hkey).symm]
      rw [Fields.collect, hhead, htail]
      cases hget : f.req.get x.1 with
      | none => exact congrArg (·, x.2) (Req.eq_unset hget).symm
      | some v => exact congrArg (·, x.2) (Req.eq_put hget).symm

end

/-- **A reader of another version.** It makes of a value what it knows of
it, if what it does not know can be skipped and what it requires is there;
otherwise it fails. -/
theorem read_version (hW : Decimals W) (hF : F.Texts W) (t u : Ty) (ht : t.Sound W)
    (hu : u.Sound W) (v : t.Val F) (hv : t.Meant less u v) {tail : Bytes}
    {r : LookaheadReader} (hr : Fresh ((t.serialize W v .init).out ++ kcXMLTagO :: tail) r) :
    (t.Adoptable less W u v → ∃ n r', (u.deserialize W Reads.code junk less (u.zero F)).Runs r
      (.ok (n, t.adopt less u v)) r' ∧ Near (kcXMLTagO :: tail) r')
    ∧ (¬ t.Adoptable less W u v → ∃ e r', (u.deserialize W Reads.code junk less (u.zero F)).Runs r
      (.error (.fault e)) r') := by
  rw [out_eq] at hr
  have hsettles : Settles (u.deserialize W Reads.code junk less (u.zero F)) (t.text W v)
      (kcXMLTagO :: tail) (t.Adoptable less W u v) (fun x => x.2 = t.adopt less u v) :=
    t.settlesAs hW hF u ht hu v hv _ (.inl rfl) _ fun _ => ⟨tail, rfl⟩
  refine ⟨fun hgood => ?_, fun hbad => hsettles.fails hbad r hr.ready⟩
  obtain ⟨⟨n, w⟩, r', hruns, rfl, hready⟩ := hsettles.takes hgood r hr.ready
  exact ⟨n, r', hruns, hready.near⟩

/-- `struct Peer { 1: required bool up; 4: optional i32 retries }` -/
def newPeerTy : Ty := .struct (lit "Peer") (.cons ⟨lit "up", 1, .required, []⟩ (.base .bool)
  (.cons ⟨lit "retries", 4, .optional, []⟩ (.base .i32) .nil))

/-- `struct Node { 1: required ipaddr address; 2: required list<Peer> peers }` -/
def newNodeTy : Ty := .struct (lit "Node")
  (.cons ⟨lit "address", 1, .required, []⟩ (.base .ipaddr)
    (.cons ⟨lit "peers", 2, .required, []⟩ (.list newPeerTy) .nil))

/-- `struct Node { 2: required list<Peer> peers; 3: optional string note }`, from the time
when a peer had no retries. -/
def oldNodeTy : Ty := .struct (lit "Node")
  (.cons ⟨lit "peers", 2, .required, []⟩ (.list peerTy)
    (.cons ⟨lit "note", 3, .optional, []⟩ (.base .string) .nil))

/-- The example's address. -/
theorem isQuad_address : isQuad (lit "10.0.0.1") = true ∧ kcXMLTagO ∉ lit "10.0.0.1" := by
  decide

/-- What the new version writes in the example. -/
def newNodeValue : newNodeTy.Val .printed :=
  ((⟨lit "10.0.0.1", isQuad_address⟩ : Foreign.printed.Address),
    [((true, some 3#32, ()) : Bool × Option (BitVec 32) × Unit), (false, none, ())], ())

/-- The fields of the example are sound. -/
theorem quads_field {name : Bytes} {key : Int} {req : Req} {t : TType} (hname : IsName name)
    (hkey : (BitVec.ofInt 16 key).toInt = key) : Field.Sound quads ⟨name, key, req, []⟩ t :=
  ⟨hname, hkey, fun _ ha => absurd ha List.not_mem_nil, harmless_of_none rfl⟩

/-- The address and the retries are skipped, and there is no note. -/
theorem read_version_node :
    ∃ n r', (oldNodeTy.deserialize quads Reads.code false Ty.operatorLess
        (oldNodeTy.zero .printed)).Runs
      (.new ((newNodeTy.serialize quads newNodeValue .init).out ++ [kcXMLTagO]) 0 (0, 0))
      (.ok (n, ([((true, ()) : Bool × Unit), (false, ())], none, ()))) r'
      ∧ Near [kcXMLTagO] r' := by
  have hup : ∀ t, Field.Sound quads ⟨lit "up", 1, .required, []⟩ t := fun _ =>
    quads_field (by decide) (by decide)
  have hpeers : ∀ t, Field.Sound quads ⟨lit "peers", 2, .required, []⟩ t := fun _ =>
    quads_field (by decide) (by decide)
  have hnew : newNodeTy.Sound quads := by
    refine ⟨by decide, quads_field (by decide) (by decide), by decide, trivial, hpeers _,
      by decide, ⟨by decide, hup _, by decide, trivial, quads_field (by decide) (by decide),
        by decide, trivial, trivial⟩, trivial⟩
  have hold : oldNodeTy.Sound quads := by
    refine ⟨by decide, hpeers _, by decide, ⟨by decide, hup _, by decide, trivial, trivial⟩,
      quads_field (by decide) (by decide), by decide, trivial, trivial⟩
  have hlen : [((true, some 3#32, ()) : Bool × Option (BitVec 32) × Unit),
    (false, none, ())].length < 2 ^ 32 := by decide
  have hpeer : ∀ v : newPeerTy.Val .printed, newPeerTy.Meant Ty.operatorLess peerTy v := by
    intro v
    refine ⟨fun b _ => ⟨fun _ => trivial, fun u hu => ?_⟩,
      fun b _ => ⟨fun _ => trivial, fun u hu => ?_⟩, trivial⟩
    · obtain rfl := Option.some.inj hu
      exact ⟨rfl, trivial⟩
    · cases hu
  have hmeant : newNodeTy.Meant Ty.operatorLess oldNodeTy newNodeValue := by
    refine ⟨fun a _ => ⟨fun _ => trivial, fun u hu => ?_⟩,
      fun vs hvs => ⟨fun hnone => ?_, fun u hu => ?_⟩, trivial⟩
    · cases hu
    · cases hnone
    · obtain rfl := Option.some.inj hvs
      obtain rfl := Option.some.inj hu
      exact ⟨hlen, .inl rfl, fun v _ => hpeer v⟩
  have hadoptable : newNodeTy.Adoptable Ty.operatorLess quads oldNodeTy newNodeValue := by
    refine ⟨⟨fun a _ => ⟨fun _ => nofun, fun u hu => ?_⟩,
      fun vs hvs => ⟨fun hnone => ?_, fun u hu => ?_⟩, trivial⟩, fun _ => rfl, nofun, trivial⟩
    · cases hu
    · cases hnone
    · obtain rfl := Option.some.inj hu
      intro v _
      refine ⟨⟨fun b _ => ⟨fun h => ?_, fun u hu => ?_⟩,
        fun b _ => ⟨fun _ => nofun, fun u hu => ?_⟩, trivial⟩, fun _ => rfl, trivial⟩
      · cases h
      · obtain rfl := Option.some.inj hu
        trivial
      · cases hu
  exact (read_version posix_decimals printed_texts newNodeTy oldNodeTy hnew hold newNodeValue
    hmeant (fresh_new _ 0 (0, 0))).1 hadoptable

end Sandesh.CppGen
