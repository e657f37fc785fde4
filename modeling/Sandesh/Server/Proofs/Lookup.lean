/-
`FindConnection` finds the wrong connections.

A connection is stored under its own endpoint in every state (`Stored`).
`Compare` is true of the connections of all other endpoints, so
`FindConnection` never returns the one that was asked for: it returns one
of another endpoint if there is any, and `NULL` if there is none. That is
right in a server without connections, and there only.
-/
import Sandesh.Server.Basic

namespace Sandesh.Server.Lookup

open Lib

variable {Endpoint : Type} [DecidableEq Endpoint] {order : Order Endpoint}
  {m m' : ConnectionMap Endpoint} {e : Endpoint} {c : SandeshConnection Endpoint}

-- =========================================================== the storage

/-- Every connection is stored under its own endpoint. -/
def Stored (m : ConnectionMap Endpoint) : Prop :=
  ∀ e c, m.lookup e = some c → c.endpoint_ = e

/-- At most one connection is stored for an endpoint. -/
def AtMostOne (m : ConnectionMap Endpoint) : Prop :=
  ∀ e c e' c', m.lookup e = some c → m.lookup e' = some c' →
    c.endpoint_ = c'.endpoint_ → c = c'

theorem stored_insert (h : Stored m) (hc : c.endpoint_ = e) : Stored (m.insert e c) := by
  intro e' c' hlookup
  by_cases he : e' = e
  · subst he
    rw [Finmap.lookup_insert] at hlookup
    injection hlookup with hlookup
    exact hlookup ▸ hc
  · rw [Finmap.lookup_insert_of_ne m he] at hlookup
    exact h e' c' hlookup

theorem stored_erase (h : Stored m) (e : Endpoint) : Stored (m.erase e) := by
  intro e' c' hlookup
  by_cases he : e' = e
  · subst he
    rw [Finmap.lookup_erase] at hlookup
    cases hlookup
  · rw [Finmap.lookup_erase_ne he] at hlookup
    exact h e' c' hlookup

theorem Stored.atMostOne (h : Stored m) : AtMostOne m := by
  intro e c e' c' hc hc' heq
  have hkeys : e = e' := by
    rw [← h e c hc, heq, h e' c' hc']
  subst hkeys
  exact Option.some.inj (hc.symm.trans hc')

theorem step_stored {a : Action Endpoint} (h : Stored m)
    (hstep : machine.step m a = some m') : Stored m' := by
  cases a with
  | AcceptSession remote session_instance =>
      injection hstep with hstep
      subst hstep
      unfold AcceptSession
      cases m.lookup remote with
      | none => exact stored_insert h rfl
      | some connection => exact h
  | RemoveConnection connection =>
      injection hstep with hstep
      subst hstep
      exact stored_erase h connection.endpoint_
  | set_session remote session_ =>
      obtain ⟨c, hc, rfl⟩ := Option.map_eq_some_iff.mp hstep
      exact stored_insert h (h remote c hc)

-- ============================================================ the lookup

/-- The stored connection whose endpoint is `e`, `NULL` if there is
none. -/
def Finds (order : Order Endpoint) (m : ConnectionMap Endpoint) (e : Endpoint) : Prop :=
  (∀ c, FindConnection order m e = some c → m.lookup c.endpoint_ = some c ∧ c.endpoint_ = e)
  ∧ (FindConnection order m e = none → ∀ c, m.lookup c.endpoint_ = some c → c.endpoint_ ≠ e)

theorem compare_iff : Compare e c = true ↔ c.endpoint_ ≠ e := by
  unfold Compare
  split
  · next h => exact iff_of_false Bool.false_ne_true (not_not.mpr h.symm)
  · next h => exact iff_of_true rfl (Ne.symm h)

/-- What is found has another endpoint. -/
theorem endpoint_of_find (h : FindConnection order m e = some c) : c.endpoint_ ≠ e :=
  compare_iff.mp (List.find?_some h)

/-- If nothing is found, there is nothing of another endpoint. -/
theorem endpoint_of_find_none (h : FindConnection order m e = none)
    {e' : Endpoint} (hc : m.lookup e' = some c) : c.endpoint_ = e := by
  have hkey : e' ∈ order.list m.keys :=
    order.mem.mpr (Finmap.mem_keys.mpr (Finmap.mem_of_lookup_eq_some hc))
  have hmem : c ∈ entries order m := List.mem_filterMap.mpr ⟨e', hkey, hc⟩
  have hcompare := List.find?_eq_none.mp h c hmem
  exact not_not.mp fun hne => hcompare (compare_iff.mpr hne)

theorem finds_empty : Finds order ∅ e := by
  have hnone : ∀ c, FindConnection order (∅ : ConnectionMap Endpoint) e ≠ some c := by
    intro c hc
    obtain ⟨e', -, hlookup⟩ := List.mem_filterMap.mp (List.mem_of_find?_eq_some hc)
    rw [Finmap.lookup_empty] at hlookup
    cases hlookup
  refine ⟨fun c hc => absurd hc (hnone c), fun _ c hc => ?_⟩
  rw [Finmap.lookup_empty] at hc
  cases hc

/-- For no endpoint is the lookup right, unless there are no
connections. -/
theorem finds_iff (h : Stored m) : Finds order m e ↔ m = ∅ := by
  constructor
  · intro hfinds
    obtain ⟨hsome, hnone⟩ := hfinds
    cases hfind : FindConnection order m e with
    | some c => exact absurd (hsome c hfind).2 (endpoint_of_find hfind)
    | none =>
        apply Finmap.ext_lookup
        intro e'
        rw [Finmap.lookup_empty]
        cases hlookup : m.lookup e' with
        | none => rfl
        | some c =>
            have hown := h e' c hlookup
            refine absurd (endpoint_of_find_none hfind hlookup) (hnone hfind c ?_)
            rw [hown]
            exact hlookup
  · intro hempty
    rw [hempty]
    exact finds_empty

-- ============================================================== the runs

/-- In every state of every run of a server, connections are stored under
their own endpoints, at most one for each, and `FindConnection` is right
about an endpoint if and only if there are no connections. -/
theorem find_connection_iff (order : Order Endpoint) (as : List (Action Endpoint)) :
    machine.Each
      (fun _ _ m => Stored m ∧ AtMostOne m ∧ ∀ e, Finds order m e ↔ m = ∅) ∅ as := by
  refine Machine.each_keeps (I := Stored) ?_ as ?_
  · intro m a m' h hstep
    have h' := step_stored h hstep
    exact ⟨h', h', h'.atMostOne, fun e => finds_iff h'⟩
  · intro e c hlookup
    rw [Finmap.lookup_empty] at hlookup
    cases hlookup

/-- One connection, from the endpoint 7: it is not found, whatever the
order. -/
theorem connection_not_found :
    ¬ ∃ order : Order Nat, machine.Each
      (fun _ _ m => Stored m ∧ AtMostOne m ∧ ∀ e, Finds order m e) ∅
      [.AcceptSession 7 0] := by
  intro h
  obtain ⟨order, heach⟩ := h
  obtain ⟨hstored, -, hfinds⟩ := (heach _ rfl).1
  have hempty := (finds_iff hstored).mp (hfinds 7)
  have hlookup : (AcceptSession (∅ : ConnectionMap Nat) 7 0).1.lookup 7
      = some ⟨7, 0, false⟩ := rfl
  rw [hempty, Finmap.lookup_empty] at hlookup
  cases hlookup

end Sandesh.Server.Lookup
