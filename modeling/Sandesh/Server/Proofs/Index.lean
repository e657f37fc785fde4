/-
Where connection indices leak.

An index that is handed out was free, and one that is given back is free
afterwards; shrinking the bitmap drops free indices only. While the indices
in use are those of the connections, and no two connections share one, all
of them are given back in the end. A session from an endpoint that has a
connection already breaks this at once: its index goes to nobody. So the
property holds throughout a run exactly when no such session comes in.
-/
import Sandesh.Server.Basic

namespace Sandesh.Server

open Lib

-- ======================================================== the bitmap

/-- The index is allocated: it has a bit and the bit is not set. -/
def InUse (conn_bmap_ : List Bool) (i : Nat) : Prop := conn_bmap_[i]? = some false

theorem inUse_set {bmap : List Bool} {bit i : Nat} {b : Bool} (hbit : bit < bmap.length) :
    InUse (bmap.set bit b) i ↔ if i = bit then b = false else InUse bmap i := by
  rw [InUse, List.getElem?_set]
  by_cases hi : i = bit
  · rw [if_pos hi, if_pos hi.symm, if_pos hbit, Option.some.injEq]
  · rw [if_neg hi, if_neg (Ne.symm hi), InUse]

/-- The index that is handed out was free, and is the only one that
changes. -/
theorem inUse_alloc (bmap : List Bool) :
    ¬ InUse bmap (AllocConnectionIndex bmap).1
      ∧ ∀ i, InUse (AllocConnectionIndex bmap).2 i
          ↔ i = (AllocConnectionIndex bmap).1 ∨ InUse bmap i := by
  unfold AllocConnectionIndex
  cases hfind : bmap.findIdx? id with
  | some bit =>
      obtain ⟨hlt, hset, -⟩ := List.findIdx?_eq_some_iff_getElem.mp hfind
      have hfree : ¬ InUse bmap bit := by
        rw [InUse, List.getElem?_eq_getElem hlt]
        simpa using hset
      refine ⟨hfree, fun i => ?_⟩
      rw [inUse_set hlt]
      by_cases hi : i = bit
      · simp [hi]
      · simp [hi]
  | none =>
      have hfree : ¬ InUse bmap bmap.length := by
        rw [InUse, List.getElem?_eq_none (le_refl _)]
        exact nofun
      refine ⟨hfree, fun i => ?_⟩
      show InUse ((bmap ++ [true]).set bmap.length false) i ↔ _
      rw [inUse_set (by simp)]
      by_cases hi : i = bmap.length
      · simp [hi]
      · rw [if_neg hi, InUse, InUse]
        by_cases hlt : i < bmap.length
        · rw [List.getElem?_append_left hlt]
          simp [hi]
        · rw [List.getElem?_eq_none (by simp; omega), List.getElem?_eq_none (by omega)]
          simp [hi]

/-- Only indices that are free are dropped. -/
theorem inUse_shrink {bmap : List Bool} {i : Nat} :
    ∀ {n : Nat}, n ≤ bmap.length → (∀ j, n ≤ j → ¬ InUse bmap j) →
      (InUse (shrink bmap n) i ↔ InUse bmap i)
  | 0, _, hfree => by
      have hi : ¬ InUse bmap i := hfree i (Nat.zero_le i)
      exact ⟨nofun, fun h => absurd h hi⟩
  | n + 1, hn, hfree => by
      rw [shrink]
      split
      case isTrue hset =>
        refine inUse_shrink (by omega) fun j hj => ?_
        by_cases hjn : j = n
        · rw [hjn, InUse, hset]
          exact nofun
        · exact hfree j (by omega)
      case isFalse =>
        split
        case isFalse => rfl
        case isTrue =>
          rw [InUse, InUse, List.getElem?_take]
          split
          case isTrue => rfl
          case isFalse hi => exact ⟨nofun, fun h => absurd h (hfree i (by omega))⟩

/-- An index that is given back is free, and nothing else changes. -/
theorem inUse_free {bmap : List Bool} {bit : Nat} (hbit : InUse bmap bit) (i : Nat) :
    InUse (FreeConnectionIndex bmap bit) i ↔ i ≠ bit ∧ InUse bmap i := by
  have hlt : bit < bmap.length := by
    rw [InUse] at hbit
    exact (List.getElem?_eq_some_iff.mp hbit).1
  rw [FreeConnectionIndex, inUse_shrink (le_refl _) ?_, inUse_set hlt]
  · by_cases hi : i = bit
    · simp [hi]
    · simp [hi]
  · intro j hj
    rw [InUse, List.getElem?_eq_none hj]
    exact nofun

-- ====================================================== the connections

variable {Endpoint : Type} [DecidableEq Endpoint]

/-- The endpoint has a connection with this instance. -/
def Holds (s : SandeshServer Endpoint) (e : Endpoint) (i : Nat) : Prop :=
  ∃ connection, s.connection_.lookup e = some connection ∧ connection.task_instance_ = i

/-- The indices in use are those of the connections. -/
def Exact (s : SandeshServer Endpoint) : Prop :=
  ∀ i, InUse s.conn_bmap_ i ↔ ∃ e, Holds s e i

/-- No two connections share an index. -/
def Distinct (s : SandeshServer Endpoint) : Prop :=
  ∀ e e' i, Holds s e i → Holds s e' i → e = e'

/-- A session that comes in is from an endpoint without a connection. -/
def FromNew (s : SandeshServer Endpoint) : Action Endpoint → Prop
  | .incoming remote => remote ∉ s.connection_
  | _ => True

variable {s s' : SandeshServer Endpoint} {a : Action Endpoint} {remote : Endpoint}

theorem holds_iff {c : SandeshConnection} {e : Endpoint}
    (hc : s.connection_.lookup e = some c) (i : Nat) :
    Holds s e i ↔ c.task_instance_ = i := by
  constructor
  · intro h
    obtain ⟨c', hc', hi⟩ := h
    rw [hc] at hc'
    cases hc'
    exact hi
  · intro hi
    exact ⟨c, hc, hi⟩

theorem not_holds {e : Endpoint} (hnone : s.connection_.lookup e = none) (i : Nat) :
    ¬ Holds s e i := by
  intro h
  obtain ⟨c, hc, -⟩ := h
  rw [hnone] at hc
  cases hc

/-- A connection that is put in the place of another, or in a free one. -/
theorem holds_insert {m : Map Endpoint SandeshConnection} {bmap : List Bool}
    (c : SandeshConnection) (e : Endpoint) (i : Nat) :
    Holds ⟨m.insert remote c, bmap⟩ e i
      ↔ if e = remote then c.task_instance_ = i else Holds ⟨m, bmap⟩ e i := by
  by_cases he : e = remote
  · subst he
    rw [if_pos rfl]
    exact holds_iff (Finmap.lookup_insert m) i
  · rw [if_neg he, Holds, Finmap.lookup_insert_of_ne m he]
    rfl

theorem holds_erase {m : Map Endpoint SandeshConnection} {bmap bmap' : List Bool}
    (e : Endpoint) (i : Nat) :
    Holds ⟨m.erase remote, bmap'⟩ e i ↔ e ≠ remote ∧ Holds ⟨m, bmap⟩ e i := by
  by_cases he : e = remote
  · subst he
    rw [Holds, Finmap.lookup_erase]
    exact ⟨nofun, fun h => absurd rfl h.1⟩
  · rw [Holds, Finmap.lookup_erase_ne he]
    exact ⟨fun h => ⟨he, h⟩, fun h => h.2⟩

/-- The connections and the bitmap say the same as before. -/
theorem same_of_holds (hexact : Exact s) (hdistinct : Distinct s)
    (hbmap : s'.conn_bmap_ = s.conn_bmap_) (hholds : ∀ e i, Holds s' e i ↔ Holds s e i) :
    Exact s' ∧ Distinct s' := by
  constructor
  · intro i
    rw [hbmap, hexact i]
    exact exists_congr fun e => (hholds e i).symm
  · intro e e' i he he'
    exact hdistinct e e' i ((hholds e i).mp he) ((hholds e' i).mp he')

theorem setSession_same (hexact : Exact s) (hdistinct : Distinct s) {b : Bool}
    (h : setSession s remote b = some s') : Exact s' ∧ Distinct s' := by
  obtain ⟨c, hc, rfl⟩ := Option.map_eq_some_iff.mp h
  refine same_of_holds hexact hdistinct rfl fun e i => ?_
  rw [holds_insert]
  by_cases he : e = remote
  · subst he
    rw [if_pos rfl, holds_iff hc]
  · rw [if_neg he]

/-- A session that comes in. -/
theorem step_incoming (s : SandeshServer Endpoint) (remote : Endpoint) :
    machine.step s (.incoming remote)
      = some ⟨match s.connection_.lookup remote with
          | none => s.connection_.insert remote
              ⟨(AllocConnectionIndex s.conn_bmap_).1, false⟩
          | some _ => s.connection_,
        (AllocConnectionIndex s.conn_bmap_).2⟩ := by
  show some (SandeshServer.AcceptSession ⟨s.connection_, _⟩ remote _).1 = _
  unfold SandeshServer.AcceptSession
  cases s.connection_.lookup remote <;> rfl

/-- The index of a session from an endpoint without a connection goes to
its connection. -/
theorem incoming_new (hexact : Exact s) (hdistinct : Distinct s)
    (hnew : remote ∉ s.connection_) (h : machine.step s (.incoming remote) = some s') :
    Exact s' ∧ Distinct s' := by
  have hlookup : s.connection_.lookup remote = none := Finmap.lookup_eq_none.mpr hnew
  obtain ⟨hfree, halloc⟩ := inUse_alloc s.conn_bmap_
  rw [step_incoming, hlookup] at h
  injection h with h
  subst h
  generalize (AllocConnectionIndex s.conn_bmap_).1 = bit at *
  have hholds : ∀ e i, Holds ⟨s.connection_.insert remote ⟨bit, false⟩,
      (AllocConnectionIndex s.conn_bmap_).2⟩ e i
        ↔ if e = remote then bit = i else Holds s e i :=
    fun e i => holds_insert _ e i
  have hunheld : ∀ e, ¬ Holds s e bit := fun e he => hfree ((hexact bit).mpr ⟨e, he⟩)
  have hremote : ∀ i, ¬ Holds s remote i := not_holds hlookup
  constructor
  · intro i
    rw [halloc i, hexact i]
    simp only [hholds]
    constructor
    · intro h
      rcases h with rfl | ⟨e, he⟩
      · exact ⟨remote, by rw [if_pos rfl]⟩
      · refine ⟨e, ?_⟩
        have hne : e ≠ remote := by
          rintro rfl
          exact hremote i he
        rw [if_neg hne]
        exact he
    · intro h
      obtain ⟨e, he⟩ := h
      split at he
      · exact .inl he.symm
      · exact .inr ⟨e, he⟩
  · intro e e' i he he'
    rw [hholds] at he he'
    split at he
    · next heq =>
        split at he'
        · next heq' => rw [heq, heq']
        · exact absurd (he ▸ he') (hunheld e')
    · split at he'
      · exact absurd (he' ▸ he) (hunheld e)
      · exact hdistinct e e' i he he'

/-- The index of a session from an endpoint with a connection goes to
nobody. -/
theorem incoming_known (hexact : Exact s) (hknown : remote ∈ s.connection_)
    (h : machine.step s (.incoming remote) = some s') : ¬ Exact s' := by
  obtain ⟨c, hc⟩ := Finmap.mem_iff.mp hknown
  obtain ⟨hfree, halloc⟩ := inUse_alloc s.conn_bmap_
  rw [step_incoming, hc] at h
  injection h with h
  subst h
  intro hexact'
  have hheld := (hexact' _).mp ((halloc _).mpr (.inl rfl))
  exact hfree ((hexact _).mpr hheld)

theorem destroy_same (hexact : Exact s) (hdistinct : Distinct s)
    (h : machine.step s (.destroy remote) = some s') : Exact s' ∧ Distinct s' := by
  obtain ⟨c, hc, rfl⟩ := Option.map_eq_some_iff.mp h
  have hheld : Holds s remote c.task_instance_ := ⟨c, hc, rfl⟩
  have huse : InUse s.conn_bmap_ c.task_instance_ := (hexact _).mpr ⟨remote, hheld⟩
  have hholds : ∀ e i, Holds (s.Destroy remote c) e i ↔ e ≠ remote ∧ Holds s e i :=
    fun e i => holds_erase e i
  constructor
  · intro i
    show InUse (FreeConnectionIndex s.conn_bmap_ c.task_instance_) i ↔ _
    rw [inUse_free huse, hexact i]
    simp only [hholds]
    constructor
    · intro h
      obtain ⟨hi, e, he⟩ := h
      refine ⟨e, ?_, he⟩
      rintro rfl
      exact hi ((holds_iff hc i).mp he).symm
    · intro h
      obtain ⟨e, hne, he⟩ := h
      refine ⟨?_, e, he⟩
      rintro rfl
      exact hne (hdistinct e remote _ he hheld)
  · intro e e' i he he'
    exact hdistinct e e' i ((hholds e i).mp he).2 ((hholds e' i).mp he').2

-- ================================================================= runs

/-- One step keeps the property exactly where `FromNew` says. -/
theorem step_exact_iff (hs : Exact s ∧ Distinct s) (h : machine.step s a = some s') :
    (Exact s' ↔ FromNew s a) ∧ (FromNew s a → Exact s' ∧ Distinct s') := by
  obtain ⟨hexact, hdistinct⟩ := hs
  have hkeeps : FromNew s a → Exact s' ∧ Distinct s' := by
    intro hnew
    cases a with
    | incoming remote => exact incoming_new hexact hdistinct hnew h
    | opened remote => exact setSession_same hexact hdistinct h
    | ended remote => exact setSession_same hexact hdistinct h
    | destroy remote => exact destroy_same hexact hdistinct h
  refine ⟨⟨fun hexact' => ?_, fun hnew => (hkeeps hnew).1⟩, hkeeps⟩
  cases a with
  | incoming remote =>
      intro hknown
      exact incoming_known hexact hknown h hexact'
  | opened remote => trivial
  | ended remote => trivial
  | destroy remote => trivial

theorem new_exact : Exact (SandeshServer.new : SandeshServer Endpoint)
    ∧ Distinct (SandeshServer.new : SandeshServer Endpoint) := by
  have hnone : ∀ e i, ¬ Holds (SandeshServer.new : SandeshServer Endpoint) e i :=
    fun e => not_holds (Finmap.lookup_empty e)
  refine ⟨fun i => ⟨nofun, fun h => ?_⟩, fun e _ i h _ => absurd h (hnone e i)⟩
  obtain ⟨e, he⟩ := h
  exact absurd he (hnone e i)

/-- **Where no index leaks.** The indices in use are those of the
connections in every state of a run, if and only if no session of the run
comes from an endpoint that has a connection. -/
theorem indices_exact_iff (as : List (Action Endpoint)) :
    machine.Each (fun _ _ s' => Exact s') (SandeshServer.new : SandeshServer Endpoint) as
      ↔ machine.Each (fun s a _ => FromNew s a) SandeshServer.new as :=
  Machine.each_iff (I := fun s => Exact s ∧ Distinct s)
    (fun hs h => (step_exact_iff hs h).1)
    (fun hs h hexact => (step_exact_iff hs h).2 ((step_exact_iff hs h).1.mp hexact))
    as new_exact

/-- A session that ends and a second one from the same endpoint. -/
theorem indices_leak :
    ∃ s : SandeshServer Nat, machine.run SandeshServer.new
        [.incoming 7, .opened 7, .ended 7, .incoming 7] = some s
      ∧ InUse s.conn_bmap_ 1 ∧ ∀ e, ¬ Holds s e 1 := by
  refine ⟨_, rfl, rfl, fun e he => ?_⟩
  have hbefore : Holds (⟨(∅ : Map Nat SandeshConnection).insert 7 ⟨0, false⟩, [false, false]⟩
      : SandeshServer Nat) e 1 := he
  rw [holds_insert] at hbefore
  split at hbefore
  · cases hbefore
  · exact not_holds (Finmap.lookup_empty e) 1 hbefore

end Sandesh.Server
