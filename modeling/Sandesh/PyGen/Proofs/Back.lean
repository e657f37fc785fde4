/-
What Python writes, read in Python again (`python_round_trip`).

The text is that of a value in the sense of C++, which is what the reader
takes; the two conversions undo each other for an object that is `Kept`.
-/
import Sandesh.PyGen.Proofs.Read

namespace Sandesh.PyGen

open Lib Xml Header CppGen
open Lib.Prog (Runs)
open Py (TXMLProtocol)

variable {L : Libs} {F : Foreign} {A : Conversion L F} {B : Parsed F L} {W : World}
  {order : List (Bytes × Bytes) → List (Bytes × Bytes)}

-- ============================================================ base values

theorem toNat_ofInt_self {w : Nat} {i : Int} (hlo : 0 ≤ i) (hhi : i < 2 ^ w) :
    ((BitVec.ofInt w i).toNat : Int) = i := by
  have hpow : ((2 ^ w : Nat) : Int) = 2 ^ w := by push_cast; rfl
  rw [BitVec.toNat_ofInt, hpow, Int.emod_eq_of_lt hlo hhi, Int.toNat_of_nonneg hlo]

theorem base_kept (b : Base) (v : BaseObj L b) (h : BaseKept B A b v) (hv : BaseFine A b v) :
    baseObj B b (baseValue A b v) = v := by
  cases b with
  | bool | string | xml => rfl
  | double => exact hv.elim
  | ipaddr | uuid => exact h.2
  | byte | i16 | i32 | i64 => exact BitVec.toInt_ofInt_eq_self (by decide) h.1 h.2
  | u16 | u32 | u64 | ipv4 => exact toNat_ofInt_self h.1 h.2

theorem base_heard (b : Base) (v : BaseObj L b) (h : BaseKept B A b v) (hv : BaseFine A b v) :
    BaseHeard B b (baseValue A b v) := by
  cases b with
  | string =>
      show kcXMLTagO ∉ escapeXMLControlChars (v : Bytes)
        ∧ Py.unescape (escapeXMLControlChars (v : Bytes)) = v
      rw [escapeXMLControlChars_eq hv.1]
      exact ⟨not_mem_escapeInternal v, (unescape_escapeInternal_eq_iff v).mpr hv.2⟩
  | xml => exact hv
  | ipaddr =>
      have htext : L.IPAddress (F.address_to_string (A.address v)) = .value v := by
        rw [hv.1]
        exact h.1
      exact htext.trans (congrArg _ h.2.symm)
  | uuid =>
      have htext : L.UUID (F.uuid_to_string (A.uuid v)) = .value v := by
        rw [hv.1]
        exact h.1
      exact htext.trans (congrArg _ h.2.symm)
  | double => exact hv.elim
  | bool | byte | i16 | i32 | i64 | u16 | u32 | u64 | ipv4 => trivial

-- ============================================================ containers

/-- Elements that are all different are all added. -/
theorem foldl_added {t : Ty} {γ : Type} {g : γ → Obj L t} : (l : List γ) → (s : List (Obj L t)) →
    (s ++ l.map g).Pairwise (fun a b => same L t b a = false) →
    l.foldl (fun s x => added L t s (g x)) s = s ++ l.map g
  | [], s, _ => (List.append_nil s).symm
  | x :: l, s, h => by
      have hnew : s.any (same L t (g x)) = false := by
        rw [List.any_eq_false]
        intro a ha
        rw [(List.pairwise_append.mp h).2.2 a ha (g x) List.mem_cons_self]
        decide
      have hadded : added L t s (g x) = s ++ [g x] := by
        rw [added, hnew]
        rfl
      have hrest := foldl_added l (s ++ [g x]) (by simpa using h)
      rw [List.foldl_cons, hadded, hrest]
      simp

theorem foldl_assigned {t : Ty} {β γ : Type} {g : γ → Obj L t × β} : (l : List γ) →
    (m : List (Obj L t × β)) →
    (m ++ l.map g).Pairwise (fun a b => same L t b.1 a.1 = false) →
    l.foldl (fun m x => assigned L t m (g x)) m = m ++ l.map g
  | [], m, _ => (List.append_nil m).symm
  | x :: l, m, h => by
      have hnew : m.any (fun e => same L t (g x).1 e.1) = false := by
        rw [List.any_eq_false]
        intro a ha
        rw [(List.pairwise_append.mp h).2.2 a ha (g x) List.mem_cons_self]
        decide
      have hassigned : assigned L t m (g x) = m ++ [g x] := by
        rw [assigned, hnew]
        rfl
      have hrest := foldl_assigned l (m ++ [g x]) (by simpa using h)
      rw [List.foldl_cons, hassigned, hrest]
      simp

-- ============================================================== fields

/-- A field is given whatever its place. -/
theorem given_insert {f : Field} {t : Ty} (v : f.req.Slot (t.Val F)) (key : Int) (u : Ty) :
    (gs : Fields) → f.key ∉ gs.keys → (x : gs.Rec F) →
    given B (gs.insert f t) (gs.insertRec f v x) key u
      = if f.key = key then
          if t.type_to_enum = u.type_to_enum then (f.req.get v).map (fromCpp B t u) else none
        else given B gs x key u
  | .nil, _, _ => rfl
  | .cons g w gs, hkey, x => by
      obtain ⟨hne, hkey⟩ := not_or.mp (mt List.mem_cons.mpr hkey)
      have ih := given_insert v key u gs hkey x.2
      rw [Fields.insertRec]
      show given B (Fields.place (decide (f.key ≤ g.key)) f t g w gs (gs.insert f t)) _ key u = _
      cases decide (f.key ≤ g.key) with
      | true => rfl
      | false =>
          show (if g.key = key then _ else given B (gs.insert f t) (gs.insertRec f v x.2) key u)
            = if f.key = key then _ else if g.key = key then _ else given B gs x.2 key u
          rw [ih]
          by_cases hg : g.key = key
          · have hf : f.key ≠ key := fun hf => hne (hf.trans hg.symm)
            rw [if_pos hg, if_neg hf, if_pos hg]
            rfl
          · rw [if_neg hg, if_neg hg]

theorem given_head {f : Field} {t : Ty} {fs : Fields} (hkey : f.key ∉ fs.keys)
    (self : Attrs L (.cons f t fs)) :
    given B (writtenFields order (.cons f t fs)) (attrsValue A order (.cons f t fs) self)
        f.key t
      = self.1.map fun v => fromCpp B (written order t) t (value A order t v) := by
  have hkey' : (writtenField order f).key ∉ (writtenFields order fs).keys :=
    mt (mem_writtenFields fs).mp hkey
  refine (given_insert _ _ _ _ hkey' _).trans ?_
  refine (if_pos rfl).trans ((if_pos (written_enum order t)).trans ?_)
  exact Option.map_map _ _ self.1

theorem given_tail {f : Field} {t : Ty} {fs : Fields} (hkey : f.key ∉ fs.keys)
    (self : Attrs L (.cons f t fs)) (k : Int) (hk : k ∈ fs.keys) (u : Ty) :
    given B (writtenFields order (.cons f t fs)) (attrsValue A order (.cons f t fs) self) k u
      = given B (writtenFields order fs) (attrsValue A order fs self.2) k u := by
  have hkey' : (writtenField order f).key ∉ (writtenFields order fs).keys :=
    mt (mem_writtenFields fs).mp hkey
  have hne : (writtenField order f).key ≠ k := fun heq => hkey (heq ▸ hk)
  exact (given_insert _ _ _ _ hkey' _).trans (if_neg hne)

theorem map_self {α : Type} {g : α → α} {l : List α} (h : ∀ a ∈ l, g a = a) : l.map g = l :=
  (List.map_congr_left h).trans (List.map_id l)

-- ========================================================== every type

mutual

theorem kept_value : (t : Ty) → t.Sound W → (o : Obj L t) → Fine A t o → Kept B A t o →
    fromCpp B (written order t) t (value A order t o) = o
  | .base b, _, o, ho, hk => (congrArg (baseObj B b) (dif_pos rfl)).trans (base_kept b o hk ho)
  | .enum, _, o, _, hk => BitVec.toInt_ofInt_eq_self (w := 32) (by decide) hk.1 hk.2
  | .typedef t, ht, o, ho, hk => kept_value t ht o ho hk
  | .struct _ fs, ht, o, ho, hk => kept_attrs fs ht.2 o ho hk
  | .list e, ht, o, ho, hk =>
      List.map_map.trans (map_self fun v hv => kept_value e ht v (ho.2.2 v hv) (hk v hv))
  | .set e, ht, o, ho, hk => by
      have hsame := map_self (g := fun v => fromCpp B (written order e) e (value A order e v))
        fun v hv => kept_value e ht v (ho.2.2 v hv) (hk.2.1 v hv)
      refine List.foldl_map.trans ((foldl_added o [] ?_).trans hsame)
      rw [hsame]
      exact hk.2.2
  | .map k v, ht, o, ho, hk => by
      have hsame := map_self (g := fun e : Obj L k × Obj L v =>
          (fromCpp B (written order k) k (value A order k e.1),
            fromCpp B (written order v) v (value A order v e.2)))
        fun e he => Prod.ext (kept_value k ht.1 e.1 (ho.2.2 e he).1 (hk.2.1 e he).1)
          (kept_value v ht.2 e.2 (ho.2.2 e he).2 (hk.2.1 e he).2)
      refine List.foldl_map.trans ((foldl_assigned o [] ?_).trans hsame)
      rw [hsame]
      exact hk.2.2

theorem kept_attrs : (fs : Fields) → fs.Sound W → (self : Attrs L fs) → FineAttrs A fs self →
    KeptAttrs B A fs self →
    gather fs (given B (writtenFields order fs) (attrsValue A order fs self)) = self
  | .nil, _, _, _, _ => rfl
  | .cons f t fs, hfs, self, h, hk => by
      have htail : gather fs (given B (writtenFields order (.cons f t fs))
          (attrsValue A order (.cons f t fs) self)) = self.2 :=
        (gather_congr fs (given_tail hfs.2.1 self)).trans
          (kept_attrs fs hfs.2.2.2 self.2 h.2 hk.2)
      refine Prod.ext ?_ htail
      refine (given_head hfs.2.1 self).trans ?_
      obtain ⟨v, self⟩ := self
      cases v with
      | none => rfl
      | some v => exact congrArg some (kept_value t hfs.2.2.1 v (h.1 v rfl).2 (hk.1 v rfl))

end

theorem heard_insert {f : Field} {t : Ty} {us : Fields} (v : f.req.Slot (t.Val F))
    (gs : Fields) (x : gs.Rec F) :
    HeardFields B (gs.insert f t) us (gs.insertRec f v x)
      ↔ HeardFields B (.cons f t gs) us (v, x) := by
  induction gs using Fields.induct with
  | nil => exact Iff.rfl
  | cons g w gs ih =>
      have ih : HeardFields B (gs.insert f t) us (gs.insertRec f v x.2)
          ↔ HeardFields B (.cons f t gs) us (v, x.2) := ih x.2
      rw [Fields.insertRec]
      show HeardFields B (Fields.place (decide (f.key ≤ g.key)) f t g w gs (gs.insert f t)) us _ ↔ _
      cases decide (f.key ≤ g.key) with
      | true => exact Iff.rfl
      | false =>
          refine (and_congr_right fun _ => ih).trans ?_
          exact and_left_comm

mutual

/-- A writer in Python has what the reader in Python takes. -/
theorem heard_value : (t : Ty) → t.Sound W → (o : Obj L t) → Fine A t o → Kept B A t o →
    Heard B (written order t) t (value A order t o)
  | .base b, _, o, ho, hk => ⟨rfl, base_heard b o hk ho⟩
  | .enum, _, _, _, _ => trivial
  | .typedef t, ht, o, ho, hk => heard_value t ht o ho hk
  | .struct _ fs, ht, o, ho, hk =>
      heard_attrs fs ht.2 o ho hk fs (fs.knownIn_self (fs.nodup_keys ht.2))
  | .list e, ht, o, ho, hk => by
      have hsized := sized_map (g := fun v => value A order e v) ho.1 ho.2.1
      rw [← written_undelimited order e] at hsized
      exact ⟨hsized.1, hsized.2, List.forall_mem_map.mpr fun v hv =>
        heard_value e ht v (ho.2.2 v hv) (hk v hv)⟩
  | .set e, ht, o, ho, hk => by
      have hsized := sized_map (g := fun v => value A order e v) ho.1 ho.2.1
      rw [← written_undelimited order e] at hsized
      refine ⟨hsized.1, hsized.2, hk.1.imp_right fun hnil => ?_,
        List.forall_mem_map.mpr fun v hv => heard_value e ht v (ho.2.2 v hv) (hk.2.1 v hv)⟩
      exact congrArg (List.map _) hnil
  | .map k v, ht, o, ho, hk => by
      obtain ⟨hlen, hsep, hentries⟩ := ho
      rw [← written_undelimited order k,
        ← written_undelimited order v] at hsep
      refine ⟨(List.length_map _).trans_lt hlen, hsep.imp_right fun hnil => ?_,
        hk.1.imp_right fun hnil => ?_, List.forall_mem_map.mpr fun e he =>
          ⟨heard_value k ht.1 e.1 (hentries e he).1 (hk.2.1 e he).1,
            heard_value v ht.2 e.2 (hentries e he).2 (hk.2.1 e he).2⟩⟩
      · exact congrArg (List.map _) hnil
      · exact congrArg (List.map _) hnil

theorem heard_attrs : (fs : Fields) → fs.Sound W → (self : Attrs L fs) → FineAttrs A fs self →
    KeptAttrs B A fs self → (us : Fields) → fs.KnownIn us →
    HeardFields B (writtenFields order fs) us (attrsValue A order fs self)
  | .nil, _, _, _, _, _, _ => trivial
  | .cons f t fs, hfs, self, h, hk, us, hus => by
      have hrest := heard_attrs fs hfs.2.2.2 self.2 h.2 hk.2 us hus.2
      have hknown : us.known f.key (written order t).type_to_enum = some t := by
        rw [written_enum]
        exact hus.1
      refine (heard_insert _ _ _).mpr ⟨fun w hw => ⟨fun hnone => ?_, fun u hu => ?_⟩, hrest⟩
      · cases hnone.symm.trans hknown
      · obtain rfl := Option.some.inj (hknown.symm.trans hu)
        obtain ⟨v, hv, rfl⟩ := Option.map_eq_some_iff.mp hw
        exact heard_value t hfs.2.2.1 v (h.1 v hv).2 (hk.1 v hv)

end

/-- An object that is written in Python comes back in Python. -/
theorem python_round_trip (hW : Decimals W) (hF : F.Texts W) (t : Ty) (ht : t.Sound W)
    (hwritten : (written order t).Sound W) (o : Obj L t) (ho : Fine A t o) (hk : Kept B A t o) :
    ∃ w, write order t o .init = some w ∧ ∀ (p : TXMLProtocol) (tail : Bytes), ∃ n,
      (read L t).Runs (p.at (w.out ++ kcXMLTagO :: tail)) (.ok (.value n o))
        (p.at (kcXMLTagO :: tail)) := by
  refine ⟨_, write_prints hW hF t ht o ho .init, fun p tail => ?_⟩
  have hread := heard_in_python (L := L) hW hF (written order t) t hwritten ht _
    (heard_value t ht o ho hk) p tail
  rw [out_eq, kept_value t ht o ho hk] at hread
  exact hread

/-- A server with ports that are. -/
def portServer : Obj Libs.texts serverTy :=
  (some ([443, 80] : List Int), some (lit "10.0.0.1"), none, ())

/-- The ports are in the order in which they were written. -/
theorem python_round_trip_server :
    ∃ w, write id serverTy portServer .init = some w ∧ ∀ (p : TXMLProtocol) (tail : Bytes), ∃ n,
      (read Libs.texts serverTy).Runs (p.at (w.out ++ kcXMLTagO :: tail))
        (.ok (.value n portServer)) (p.at (kcXMLTagO :: tail)) := by
  have hfine : Fine Conversion.texts serverTy portServer := by
    refine ⟨fun v hv => ⟨rfl, ?_⟩, fun v hv => ⟨rfl, ?_⟩, fun v hv => ⟨rfl, ?_⟩, trivial⟩
    · obtain rfl := Option.some.inj hv
      exact ⟨by decide, .inl rfl, fun _ _ => trivial⟩
    · obtain rfl := Option.some.inj hv
      exact address_fine
    · cases hv
  have hports : ∀ i ∈ ([443, 80] : List Int), 0 ≤ i ∧ i < 2 ^ 16 := by decide
  have hdistinct : ([443, 80] : List Int).Pairwise (fun a b => equal b a = false) := by decide
  have hkept : Kept Parsed.texts Conversion.texts serverTy portServer := by
    refine ⟨fun v hv => ?_, fun v hv => ?_, fun _ _ => trivial, trivial⟩
    · obtain rfl := Option.some.inj hv
      exact ⟨.inl rfl, hports, hdistinct⟩
    · obtain rfl := Option.some.inj hv
      exact ⟨rfl, rfl⟩
  exact python_round_trip posix_decimals printed_texts serverTy serverTy_sound
    written_serverTy_sound portServer hfine hkept

end Sandesh.PyGen
