/-
One pass of an iterator over the entries of a map.

A loop that walks a map while it rewrites or erases the entry it stands
on is a `pass`: at each key a `Turn` says what is left there, what is sent
meanwhile, and whether the loop ever moves on. The map is a `Finmap`, so
a pass that leaves everything in place is an identity, and the order of
the walk is a parameter (`Order`) that no result depends on.

A `walk` visits every key. Its rules say, entry by entry,

- `lookup_walk`: what is left at a key;
- `mem_sent_walk`, `filter_sent_walk`: what was sent, and in whose turn;
- `stuck_walk`: whether the walk comes to its end.
-/
import Mathlib.Data.Finmap
import Sandesh.Lib.Prog

namespace Sandesh.Lib

universe u

/-- A finite map from keys to values. -/
abbrev Map (K V : Type u) := Finmap fun _ : K => V

/-- An order in which an iterator visits a set of keys. -/
structure Order (K : Type u) where
  list : Finset K → List K
  nodup : ∀ ks, (list ks).Nodup
  mem : ∀ {ks k}, k ∈ list ks ↔ k ∈ ks

/-- What one turn of the loop does with the entry it visits. -/
structure Turn (V M : Type u) where
  left : Option V
  sent : List M
  stuck : Bool

/-- What a pass over a map leaves, what it sent, and whether it got stuck.
-/
structure Passed (K V M : Type u) where
  map : Map K V
  sent : List M
  stuck : Bool

variable {K V M : Type u}

-- ===================================================== orders and maps

/-- There is one. -/
noncomputable def Order.any : Order K where
  list := Finset.toList
  nodup := Finset.nodup_toList
  mem := Finset.mem_toList

/-- If all but one of the keys send nothing, what is sent is what that one
sends. -/
theorem flatMap_of_one {g : K → List M} {k : K} {ks : List K}
    (hnd : ks.Nodup) (hk : k ∈ ks)
    (hother : ∀ k' ∈ ks, k' ≠ k → g k' = []) : ks.flatMap g = g k := by
  obtain ⟨before, after, rfl⟩ := List.append_of_mem hk
  have hne : ∀ k' ∈ before ++ after, k' ≠ k := by
    intro k' hk' heq
    subst heq
    exact (List.nodup_middle.mp hnd).notMem hk'
  have hbefore : before.flatMap g = [] :=
    List.flatMap_eq_nil_iff.mpr fun k' hk' =>
      hother k' (List.mem_append_left _ hk') (hne k' (List.mem_append_left _ hk'))
  have hafter : after.flatMap g = [] :=
    List.flatMap_eq_nil_iff.mpr fun k' hk' =>
      hother k' (List.mem_append_right _ (List.mem_cons_of_mem k hk'))
        (hne k' (List.mem_append_right _ hk'))
  rw [List.flatMap_append, List.flatMap_cons, hbefore, hafter, List.nil_append,
    List.append_nil]

namespace Map

variable [DecidableEq K]

/-- What is found at a key becomes `v`, or is erased. -/
def set (m : Map K V) (k : K) : Option V → Map K V
  | some v => m.insert k v
  | none => m.erase k

@[simp] theorem lookup_set (m : Map K V) (k : K) (v : Option V) :
    (set m k v).lookup k = v := by
  cases v with
  | none => exact Finmap.lookup_erase k m
  | some v => exact Finmap.lookup_insert m

theorem lookup_set_ne (m : Map K V) {k k' : K} (v : Option V) (h : k' ≠ k) :
    (set m k v).lookup k' = m.lookup k' := by
  cases v with
  | none => exact Finmap.lookup_erase_ne h
  | some v => exact Finmap.lookup_insert_of_ne m h

-- ============================================================ the pass

/-- Visits the keys in turn; a turn that never ends is the last. -/
def pass (f : K → V → Turn V M) : List K → Map K V → Passed K V M
  | [], m => ⟨m, [], false⟩
  | k :: ks, m =>
      match m.lookup k with
      | none => pass f ks m
      | some v =>
          let m' := set m k (f k v).left
          if (f k v).stuck then ⟨m', (f k v).sent, true⟩
          else
            let rest := pass f ks m'
            ⟨rest.map, (f k v).sent ++ rest.sent, rest.stuck⟩

variable {f : K → V → Turn V M} {k : K} {ks : List K} {m : Map K V} {v : V}

theorem pass_none (h : m.lookup k = none) : pass f (k :: ks) m = pass f ks m := by
  simp only [pass, h]

theorem pass_stuck (h : m.lookup k = some v) (hstuck : (f k v).stuck = true) :
    pass f (k :: ks) m = ⟨set m k (f k v).left, (f k v).sent, true⟩ := by
  simp only [pass, h, hstuck, if_true]

theorem pass_moves (h : m.lookup k = some v) (hmoves : (f k v).stuck = false) :
    pass f (k :: ks) m
      = ⟨(pass f ks (set m k (f k v).left)).map,
          (f k v).sent ++ (pass f ks (set m k (f k v).left)).sent,
          (pass f ks (set m k (f k v).left)).stuck⟩ := by
  simp only [pass, h, hmoves, Bool.false_eq_true, if_false]

/-- A key that is not visited keeps its entry. -/
theorem lookup_pass_notMem {k' : K} :
    ∀ {m : Map K V}, k' ∉ ks → (pass f ks m).map.lookup k' = m.lookup k' := by
  induction ks with
  | nil =>
      intro m _
      rfl
  | cons k ks ih =>
      intro m hk
      rw [List.mem_cons, not_or] at hk
      obtain ⟨hne, hks⟩ := hk
      cases hm : m.lookup k with
      | none =>
          rw [pass_none hm]
          exact ih hks
      | some v =>
          cases hs : (f k v).stuck with
          | true =>
              rw [pass_stuck hm hs]
              exact lookup_set_ne m _ hne
          | false =>
              rw [pass_moves hm hs]
              show (pass f ks _).map.lookup k' = _
              rw [ih hks, lookup_set_ne m _ hne]

/-- The pass comes to its end if every turn does. -/
theorem stuck_pass :
    ∀ {m : Map K V}, ks.Nodup →
      ((pass f ks m).stuck = false
        ↔ ∀ k ∈ ks, ∀ v, m.lookup k = some v → (f k v).stuck = false) := by
  induction ks with
  | nil =>
      intro m _
      simp only [pass, List.not_mem_nil, false_imp_iff, implies_true]
  | cons k ks ih =>
      intro m hnd
      obtain ⟨hk, hks⟩ := List.nodup_cons.mp hnd
      have hother : ∀ w, (∀ k' ∈ ks, ∀ v, (set m k w).lookup k' = some v →
          (f k' v).stuck = false)
          ↔ ∀ k' ∈ ks, ∀ v, m.lookup k' = some v → (f k' v).stuck = false := by
        intro w
        refine forall₂_congr fun k' hk' => ?_
        rw [lookup_set_ne m w (ne_of_mem_of_not_mem hk' hk)]
      simp only [List.forall_mem_cons]
      cases hm : m.lookup k with
      | none =>
          rw [pass_none hm, ih hks]
          simp only [reduceCtorEq, false_imp_iff, implies_true, true_and]
      | some v =>
          simp only [Option.some.injEq, forall_eq']
          cases hs : (f k v).stuck with
          | true =>
              rw [pass_stuck hm hs]
              simp only [Bool.true_eq_false, false_and]
          | false =>
              rw [pass_moves hm hs]
              simp only [true_and]
              rw [ih hks, hother]

/-- What a visited entry has become, if the pass comes to its end. -/
theorem lookup_pass :
    ∀ {m : Map K V}, ks.Nodup → (pass f ks m).stuck = false → k ∈ ks →
      (pass f ks m).map.lookup k
        = (m.lookup k).bind fun v => (f k v).left := by
  induction ks with
  | nil =>
      intro m _ _ hk
      exact absurd hk List.not_mem_nil
  | cons k₀ ks ih =>
      intro m hnd hend hk
      obtain ⟨hk₀, hks⟩ := List.nodup_cons.mp hnd
      cases hm : m.lookup k₀ with
      | none =>
          rw [pass_none hm] at hend ⊢
          rcases List.mem_cons.mp hk with rfl | hk
          · rw [lookup_pass_notMem hk₀, hm]
            rfl
          · exact ih hks hend hk
      | some v =>
          cases hs : (f k₀ v).stuck with
          | true =>
              rw [pass_stuck hm hs] at hend
              exact absurd hend Bool.true_eq_false.mp
          | false =>
              rw [pass_moves hm hs] at hend ⊢
              rcases List.mem_cons.mp hk with rfl | hk
              · show (pass f ks _).map.lookup k = _
                rw [lookup_pass_notMem hk₀, lookup_set, hm]
                rfl
              · show (pass f ks _).map.lookup k = _
                rw [ih hks hend hk, lookup_set_ne m _ (ne_of_mem_of_not_mem hk hk₀)]

/-- What was sent is what the turns send, one after the other. -/
theorem sent_pass :
    ∀ {m : Map K V}, ks.Nodup → (pass f ks m).stuck = false →
      (pass f ks m).sent
        = ks.flatMap fun k => ((m.lookup k).map fun v => (f k v).sent).getD [] := by
  induction ks with
  | nil =>
      intro m _ _
      rfl
  | cons k ks ih =>
      intro m hnd hend
      obtain ⟨hk, hks⟩ := List.nodup_cons.mp hnd
      rw [List.flatMap_cons]
      cases hm : m.lookup k with
      | none =>
          rw [pass_none hm] at hend ⊢
          rw [ih hks hend]
          rfl
      | some v =>
          cases hs : (f k v).stuck with
          | true =>
              rw [pass_stuck hm hs] at hend
              exact absurd hend Bool.true_eq_false.mp
          | false =>
              rw [pass_moves hm hs] at hend ⊢
              show (f k v).sent ++ _ = (f k v).sent ++ _
              rw [ih hks hend]
              congr 1
              refine List.flatMap_congr fun k' hk' => ?_
              rw [lookup_set_ne m _ (ne_of_mem_of_not_mem hk' hk)]

/-- Whatever is sent is sent in the turn of some entry, whether or not
the pass comes to its end. -/
theorem mem_sent_pass {x : M} :
    ∀ {m : Map K V}, ks.Nodup → x ∈ (pass f ks m).sent →
      ∃ k ∈ ks, ∃ v, m.lookup k = some v ∧ x ∈ (f k v).sent
        ∧ (pass f ks m).map.lookup k = (f k v).left := by
  induction ks with
  | nil =>
      intro m _ hx
      exact absurd hx List.not_mem_nil
  | cons k ks ih =>
      intro m hnd hx
      obtain ⟨hk, hks⟩ := List.nodup_cons.mp hnd
      cases hm : m.lookup k with
      | none =>
          rw [pass_none hm] at hx ⊢
          obtain ⟨k', hk', v, hv, hsent, hleft⟩ := ih hks hx
          exact ⟨k', List.mem_cons_of_mem k hk', v, hv, hsent, hleft⟩
      | some v =>
          cases hs : (f k v).stuck with
          | true =>
              rw [pass_stuck hm hs] at hx ⊢
              exact ⟨k, List.mem_cons_self, v, hm, hx, lookup_set m k _⟩
          | false =>
              rw [pass_moves hm hs] at hx ⊢
              rcases List.mem_append.mp hx with hx | hx
              · refine ⟨k, List.mem_cons_self, v, hm, hx, ?_⟩
                show (pass f ks _).map.lookup k = _
                rw [lookup_pass_notMem hk, lookup_set]
              · obtain ⟨k', hk', v', hv', hsent, hleft⟩ := ih hks hx
                rw [lookup_set_ne m _ (ne_of_mem_of_not_mem hk' hk)] at hv'
                exact ⟨k', List.mem_cons_of_mem k hk', v', hv', hsent, hleft⟩

-- ============================================================ the walk

/-- A pass over all keys. -/
def walk (o : Order K) (f : K → V → Turn V M) (m : Map K V) : Passed K V M :=
  pass f (o.list m.keys) m

variable {o : Order K}

theorem mem_list_keys : k ∈ o.list m.keys ↔ ∃ v, m.lookup k = some v := by
  rw [o.mem, Finmap.mem_keys, Finmap.mem_iff]

theorem lookup_of_notMem (h : k ∉ o.list m.keys) : m.lookup k = none := by
  refine Option.eq_none_iff_forall_ne_some.mpr fun v hv => ?_
  exact h (mem_list_keys.mpr ⟨v, hv⟩)

theorem keys_eq_empty : m.keys = ∅ ↔ ∀ k, m.lookup k = none := by
  rw [Finset.eq_empty_iff_forall_notMem]
  refine forall_congr' fun k => ?_
  rw [Finmap.mem_keys, Finmap.lookup_eq_none]

/-- The walk comes to its end if every turn does. -/
theorem stuck_walk :
    (walk o f m).stuck = false
      ↔ ∀ k v, m.lookup k = some v → (f k v).stuck = false := by
  unfold walk
  rw [stuck_pass (o.nodup _)]
  constructor
  · intro h k v hv
    exact h k (mem_list_keys.mpr ⟨v, hv⟩) v hv
  · intro h k _ v hv
    exact h k v hv

/-- What each entry has become. -/
theorem lookup_walk (hend : (walk o f m).stuck = false) (k : K) :
    (walk o f m).map.lookup k = (m.lookup k).bind fun v => (f k v).left := by
  by_cases hk : k ∈ o.list m.keys
  · exact lookup_pass (o.nodup _) hend hk
  · unfold walk
    rw [lookup_pass_notMem hk, lookup_of_notMem hk]
    rfl

theorem sent_walk (hend : (walk o f m).stuck = false) :
    (walk o f m).sent = (o.list m.keys).flatMap fun k =>
      ((m.lookup k).map fun v => (f k v).sent).getD [] :=
  sent_pass (o.nodup _) hend

/-- Whatever is sent is sent in the turn of some entry. -/
theorem mem_sent_walk {x : M} (hx : x ∈ (walk o f m).sent) :
    ∃ k v, m.lookup k = some v ∧ x ∈ (f k v).sent
      ∧ (walk o f m).map.lookup k = (f k v).left := by
  obtain ⟨k, -, v, hv, hsent, hleft⟩ := mem_sent_pass (o.nodup _) hx
  exact ⟨k, v, hv, hsent, hleft⟩

/-- And what is sent in the turn of an entry is sent by the walk. -/
theorem mem_sent_walk_of {x : M} (hend : (walk o f m).stuck = false)
    (hv : m.lookup k = some v) (hx : x ∈ (f k v).sent) :
    x ∈ (walk o f m).sent := by
  rw [sent_walk hend]
  refine List.mem_flatMap.mpr ⟨k, mem_list_keys.mpr ⟨v, hv⟩, ?_⟩
  rw [hv]
  exact hx

/-- What is sent for one key only is sent in its turn. -/
theorem filter_sent_walk {p : M → Bool} (hend : (walk o f m).stuck = false)
    (hother : ∀ k' v, k' ≠ k → (f k' v).sent.filter p = []) :
    (walk o f m).sent.filter p
      = ((m.lookup k).map fun v => (f k v).sent.filter p).getD [] := by
  have hturn : ∀ k' ∈ o.list m.keys, k' ≠ k →
      (((m.lookup k').map fun v => (f k' v).sent).getD []).filter p = [] := by
    intro k' _ hne
    cases m.lookup k' with
    | none => rfl
    | some v => exact hother k' v hne
  have hself : (((m.lookup k).map fun v => (f k v).sent).getD []).filter p
      = ((m.lookup k).map fun v => (f k v).sent.filter p).getD [] := by
    cases m.lookup k with
    | none => rfl
    | some v => rfl
  rw [sent_walk hend, List.filter_flatMap]
  by_cases hk : k ∈ o.list m.keys
  · rw [flatMap_of_one (o.nodup _) hk hturn, hself]
  · rw [lookup_of_notMem hk]
    refine List.flatMap_eq_nil_iff.mpr fun k' hk' => ?_
    exact hturn k' hk' fun heq => hk (heq ▸ hk')

end Map

-- ====================================================== loops over keys

section Loops

variable {S X : Type u} {g : K → S → X}

/-- A loop over keys, each turn of which touches its own key only: what has
become of a key is what its turn made of it. -/
theorem foldlM_own {f : S → K → Option S}
    (own : ∀ {s k s' k'}, f s k = some s' → k' ≠ k → g k' s' = g k' s) :
    ∀ {ks : List K} {s s' : S}, ks.Nodup → ks.foldlM f s = some s' →
      (∀ k, k ∉ ks → g k s' = g k s)
      ∧ ∀ k ∈ ks, ∃ s₀ s₁, g k s₀ = g k s ∧ f s₀ k = some s₁
        ∧ g k s' = g k s₁ := by
  intro ks
  induction ks with
  | nil =>
      intro s s' _ h
      injection h with h
      subst h
      exact ⟨fun k _ => rfl, fun k hk => absurd hk List.not_mem_nil⟩
  | cons k₀ ks ih =>
      intro s s' hnd h
      obtain ⟨hk₀, hks⟩ := List.nodup_cons.mp hnd
      rw [List.foldlM_cons] at h
      obtain ⟨s₁, hturn, hrest⟩ := Option.bind_eq_some_iff.mp h
      obtain ⟨hother, hown⟩ := ih hks hrest
      refine ⟨fun k hk => ?_, fun k hk => ?_⟩
      · rw [List.mem_cons, not_or] at hk
        rw [hother k hk.2, own hturn hk.1]
      · rcases List.mem_cons.mp hk with rfl | hk
        · exact ⟨s, s₁, rfl, hturn, hother k hk₀⟩
        · obtain ⟨s₂, s₃, hget, hturn', hlast⟩ := hown k hk
          refine ⟨s₂, s₃, ?_, hturn', hlast⟩
          rw [hget, own hturn (ne_of_mem_of_not_mem hk hk₀)]

/-- The loop comes to its end if every turn does that finds its key as it
was. -/
theorem foldlM_total {f : S → K → Option S}
    (own : ∀ {s k s' k'}, f s k = some s' → k' ≠ k → g k' s' = g k' s) :
    ∀ {ks : List K} {s : S}, ks.Nodup →
      (∀ k ∈ ks, ∀ s₀, g k s₀ = g k s → ∃ s₁, f s₀ k = some s₁) →
      ∃ s', ks.foldlM f s = some s' := by
  intro ks
  induction ks with
  | nil =>
      intro s _ _
      exact ⟨s, rfl⟩
  | cons k₀ ks ih =>
      intro s hnd hturns
      obtain ⟨hk₀, hks⟩ := List.nodup_cons.mp hnd
      obtain ⟨s₁, hturn⟩ := hturns k₀ List.mem_cons_self s rfl
      have hrest : ∃ s', ks.foldlM f s₁ = some s' := by
        refine ih hks fun k hk s₀ hs₀ => ?_
        refine hturns k (List.mem_cons_of_mem k₀ hk) s₀ (hs₀.trans ?_)
        exact own hturn (ne_of_mem_of_not_mem hk hk₀)
      obtain ⟨s', hrest⟩ := hrest
      refine ⟨s', ?_⟩
      rw [List.foldlM_cons, hturn]
      exact hrest

/-- What every turn of a loop keeps. -/
theorem foldlM_keeps {F : Type u} {P : S → Prop} {f : S → F → Option S} {fs : List F}
    (keeps : ∀ y ∈ fs, ∀ s s', P s → f s y = some s' → P s') :
    ∀ {s s' : S}, P s → fs.foldlM f s = some s' → P s' := by
  induction fs with
  | nil =>
      intro s s' hs h
      injection h with h
      exact h ▸ hs
  | cons y fs ih =>
      intro s s' hs h
      obtain ⟨hy, hrest⟩ := List.forall_mem_cons.mp keeps
      rw [List.foldlM_cons] at h
      obtain ⟨s₁, hturn, h⟩ := Option.bind_eq_some_iff.mp h
      exact ih hrest (hy s s₁ hs hturn) h

/-- A value that no turn of a loop touches. -/
theorem foldl_none {F : Type u} {q : S → X} {f : S → F → S} {fs : List F}
    (other : ∀ y ∈ fs, ∀ s, q (f s y) = q s) (s : S) :
    q (fs.foldl f s) = q s := by
  induction fs generalizing s with
  | nil => rfl
  | cons y fs ih =>
      obtain ⟨hy, hrest⟩ := List.forall_mem_cons.mp other
      rw [List.foldl_cons, ih hrest, hy]

/-- Of a value that only one turn touches, the loop makes what that turn
makes of it. -/
theorem foldl_one {F : Type u} {q : S → X} {f : S → F → S} {fs : List F} {x : F}
    (hnd : fs.Nodup) (hx : x ∈ fs)
    (other : ∀ y ∈ fs, y ≠ x → ∀ s, q (f s y) = q s) (s : S) :
    ∃ s₀, q s₀ = q s ∧ q (fs.foldl f s) = q (f s₀ x) := by
  obtain ⟨before, after, rfl⟩ := List.append_of_mem hx
  have hne : ∀ y ∈ before ++ after, y ≠ x := by
    intro y hy heq
    subst heq
    exact (List.nodup_middle.mp hnd).notMem hy
  refine ⟨before.foldl f s, foldl_none (fun y hy => ?_) s, ?_⟩
  · exact other y (List.mem_append_left _ hy) (hne y (List.mem_append_left _ hy))
  · rw [List.foldl_append, List.foldl_cons]
    refine foldl_none (fun y hy => ?_) _
    exact other y (List.mem_append_right _ (List.mem_cons_of_mem x hy))
      (hne y (List.mem_append_right _ hy))

/-- What one turn brings about, from what the others leave alone, and no
turn undoes. -/
theorem foldl_sets {F : Type u} {q : S → X} {f : S → F → S} {fs : List F} {x : F}
    {P : S → Prop} (hnd : fs.Nodup) (hx : x ∈ fs)
    (other : ∀ y ∈ fs, y ≠ x → ∀ s, q (f s y) = q s)
    (keeps : ∀ y ∈ fs, ∀ s, P s → P (f s y)) {s : S}
    (turn : ∀ s₀, q s₀ = q s → P (f s₀ x)) : P (fs.foldl f s) := by
  obtain ⟨before, after, rfl⟩ := List.append_of_mem hx
  rw [List.foldl_append, List.foldl_cons]
  have hfirst : P (f (before.foldl f s) x) := by
    refine turn _ (foldl_none (fun y hy => ?_) s)
    refine other y (List.mem_append_left _ hy) fun heq => ?_
    exact (List.nodup_middle.mp hnd).notMem (heq ▸ List.mem_append_left _ hy)
  refine List.foldlRecOn after f hfirst fun s hs y hy => ?_
  exact keeps y (List.mem_append_right _ (List.mem_cons_of_mem x hy)) s hs

theorem foldl_own {f : S → K → S}
    (own : ∀ {s k k'}, k' ≠ k → g k' (f s k) = g k' s)
    {ks : List K} {s : S} (hnd : ks.Nodup) {k : K} (hk : k ∈ ks) :
    ∃ s₀, g k s₀ = g k s
      ∧ g k (ks.foldl f s) = g k (f s₀ k) :=
  foldl_one hnd hk (fun _ _ hne _ => own hne.symm) s

/-- A key that is not visited stays as it was. -/
theorem foldl_notMem {f : S → K → S}
    (own : ∀ {s k k'}, k' ≠ k → g k' (f s k) = g k' s)
    {ks : List K} {s : S} {k : K} (hk : k ∉ ks) :
    g k (ks.foldl f s) = g k s :=
  foldl_none (fun _ hy _ => own (ne_of_mem_of_not_mem hy hk).symm) s

/-- If each turn makes of its own key what `t` says, so does the loop. -/
theorem foldl_each [DecidableEq K] {f : S → K → S} {t : K → X → X}
    (own : ∀ {s k k'}, k' ≠ k → g k' (f s k) = g k' s)
    (turn : ∀ {s k}, g k (f s k) = t k (g k s))
    {ks : List K} {s : S} (hnd : ks.Nodup) (k : K) :
    g k (ks.foldl f s) = if k ∈ ks then t k (g k s) else g k s := by
  by_cases hk : k ∈ ks
  · obtain ⟨s₀, hget, hlast⟩ := foldl_own (s := s) own hnd hk
    rw [if_pos hk, hlast, turn, hget]
  · rw [if_neg hk, foldl_notMem own hk]

end Loops

end Sandesh.Lib

/-
A `while` loop that walks a map.

`Pass` says what a walk over the entries of a map does, with a flag for a
turn that never moves on. A program that does the walk is a loop whose
variables are an iterator, the map and what was sent (`mk`), and a turn
that does not move is one that is taken for ever. `ends_loop_pass` ties
the two: the loop ends exactly if the pass does, with the same result.
-/

namespace Sandesh.Lib.Map

universe u

variable {K V M S : Type u} [DecidableEq K] {f : K → V → Turn V M}
  {mk : List K → Map K V → List M → S} {body : S → Comp (S ⊕ S)}

/-- The turns of the loop are those of the pass. -/
structure Walks (f : K → V → Turn V M) (mk : List K → Map K V → List M → S)
    (body : S → Comp (S ⊕ S)) : Prop where
  done : ∀ m sent r, (body (mk [] m sent)).Ends r ↔ r = .inr (mk [] m sent)
  moves : ∀ {k ks m v}, k ∉ ks → m.lookup k = some v → (f k v).stuck = false →
    ∀ sent r, (body (mk (k :: ks) m sent)).Ends r
      ↔ r = .inl (mk ks (set m k (f k v).left) (sent ++ (f k v).sent))
  stays : ∀ {k ks m v}, m.lookup k = some v → (f k v).stuck = true →
    ∀ sent r, ¬ (Comp.loop body (mk (k :: ks) m sent)).Ends r

/-- The loop ends exactly if the pass does, with what the pass does. -/
theorem ends_loop_pass (h : Walks f mk body) (ks : List K) :
    ∀ {m : Map K V} {sent : List M} {r : S}, ks.Nodup →
      (∀ k ∈ ks, ∃ v, m.lookup k = some v) →
      ((Comp.loop body (mk ks m sent)).Ends r
        ↔ (pass f ks m).stuck = false
          ∧ r = mk [] (pass f ks m).map (sent ++ (pass f ks m).sent)) := by
  induction ks with
  | nil =>
      intro m sent r _ _
      rw [Comp.ends_loop, h.done]
      simp only [h.done, reduceCtorEq, false_and, exists_false, or_false,
        Sum.inr.injEq]
      show r = _ ↔ false = false ∧ r = mk [] m (sent ++ [])
      rw [List.append_nil]
      exact (and_iff_right rfl).symm
  | cons k ks ih =>
      intro m sent r hnodup hmem
      obtain ⟨hk, hks⟩ := List.nodup_cons.mp hnodup
      obtain ⟨v, hv⟩ := hmem k List.mem_cons_self
      cases hstuck : (f k v).stuck with
      | true =>
          rw [pass_stuck hv hstuck]
          refine iff_of_false (h.stays hv hstuck sent r) ?_
          rintro ⟨hfalse, -⟩
          cases hfalse
      | false =>
          have hmem' : ∀ k' ∈ ks, ∃ v', (set m k (f k v).left).lookup k' = some v' := by
            intro k' hk'
            rw [lookup_set_ne _ _ (ne_of_mem_of_not_mem hk' hk)]
            exact hmem k' (List.mem_cons_of_mem k hk')
          rw [Comp.ends_loop, h.moves hk hv hstuck]
          simp only [h.moves hk hv hstuck, reduceCtorEq, false_or, Sum.inl.injEq,
            exists_eq_left]
          rw [ih hks hmem', pass_moves hv hstuck]
          simp only [List.append_assoc]

/-- The same for a loop over all keys. -/
theorem ends_loop_walk (h : Walks f mk body) (o : Order K) (m : Map K V)
    (sent : List M) (r : S) :
    (Comp.loop body (mk (o.list m.keys) m sent)).Ends r
      ↔ (walk o f m).stuck = false
        ∧ r = mk [] (walk o f m).map (sent ++ (walk o f m).sent) :=
  ends_loop_pass h _ (o.nodup _) fun _ hk => mem_list_keys.mp hk

end Sandesh.Lib.Map
