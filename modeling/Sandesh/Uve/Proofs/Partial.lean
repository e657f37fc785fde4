/-
Partial updates: what a cache and a receiver make of a sequence of updates
of one UVE, of which each sets some of the optional fields.

# The receiver

A receiver overwrites the fields that are set in a message and keeps the
others. `written` is what a message has for a field: the value of a field
that is set, or that is not optional. For such values merging is `<|>`,
in the cache (`stored_written`) as at the receiver (`attr_receive`), and
the last value given wins (`given`).

# What is not sent

`UpdateUVE` takes the hidden fields out of the struct that is then sent.
For a struct with a period it says whether there is anything to send: a
field that is set and not hidden, or one that is not optional, but the
name and the proxy do not count. So the receiver has the name and the
proxy of the last message that was sent, and is otherwise up to date.
-/
import Sandesh.Uve.Proofs.Calls
import Sandesh.Uve.Proofs.Generated

namespace Sandesh.Uve

open Lib

variable {V σ : Type} {t : UveType V σ} {f : Field}

-- ======================================================== the receiver

/-- A receiver that keeps the last value of every field. -/
structure Receiver (V : Type) where
  name : Option Bytes
  attr : Bytes → Option V

namespace Receiver

/-- Nothing received. -/
def empty : Receiver V := ⟨none, fun _ => none⟩

/-- Overwrites a field that is set. -/
def overwrite (attr : Bytes → Option V) (field : Bytes × Option V) :
    Bytes → Option V :=
  Function.update attr field.1 (field.2 <|> attr field.1)

/-- A message overwrites the fields that it has. -/
def receive (r : Receiver V) (m : Message V) : Receiver V :=
  ⟨some m.name, m.attrs.foldl overwrite r.attr⟩

end Receiver

/-- The cache of the sender, and the receiver of its messages. -/
structure Ends (V σ : Type) where
  cache : PerTypeMap (Attrs V σ)
  receiver : Receiver V

/-- One `Send`, whose message arrives. -/
def ends (t : UveType V σ) : Machine (Ends V σ) (Update (Attrs V σ)) where
  step s u := (Uve.UpdateUVE t.TM t.sandesh u s.cache).map fun r =>
    ⟨r.map, if r.send then s.receiver.receive (t.update_message u r.data)
      else s.receiver⟩

-- ====================================================== the vocabulary

/-- No field is a statistic. -/
def UveStruct.NoStats (d : UveStruct) : Prop := ∀ f ∈ d.fields, f.stats = none

/-- A call for this name and table, with `deleted` unset. -/
structure CallFor (name table : Bytes) (u : Update (Attrs V σ)) : Prop where
  name : u.data.name = name
  table : u.data.table_ = table
  deleted : u.data.deleted = false
  unset : u.data.rest.isset_deleted = false

/-- The last value given for a field. -/
def given (us : List (Update (Attrs V σ))) (f : Field) : Option V :=
  us.foldl (fun last u => u.data.rest.written f <|> last) none

/-- What the cache has for a field. -/
def cached (m : PerTypeMap (Attrs V σ)) (name table : Bytes) (f : Field) : Option V :=
  (m.find name table).bind fun e => e.data.rest.written f

/-- A field that is not optional and does not make a message. -/
def Field.quiet (f : Field) : Bool := f.req ≠ .T_OPTIONAL ∧ f.name = lit "proxy"

-- =========================================================== one update

theorem rawmap_noStats {d : UveStruct} (hd : d.NoStats) (snm : Bytes) :
    d.rawmap snm = [] := by
  refine List.filterMap_eq_nil_iff.mpr fun f hf => ?_
  rw [hd f hf]
  rfl

/-- What a turn of `UpdateUVE` does. -/
theorem updateField_noStats (hd : t.struct.NoStats) (hf : f ∈ t.struct.fields)
    (mono_usec : UInt64) (x : UveType.Updating V σ) :
    t.updateField mono_usec x f
      = if x.data.written f = none then x
        else ⟨x.send || (!f.hidden && !f.quiet),
          if f.hidden then x.data.unset f.name else x.data,
          x.tdata.set f (x.data.value f.name)⟩ := by
  have hstats : ¬ f.stats.isSome = true := by
    rw [hd f hf]
    exact Bool.noConfusion
  unfold UveType.updateField UveType.copyAttr
  rw [if_neg hstats, rawmap_noStats hd]
  by_cases hreq : f.req = .T_OPTIONAL
  · have hloud : f.quiet = false := decide_eq_false fun h => h.1 hreq
    rw [if_pos hreq, hloud]
    cases hset : x.data.isset f.name with
    | false => simp [Attrs.written, hreq, hset]
    | true =>
        cases hhidden : f.hidden with
        | true =>
            simp [Attrs.written, Attrs.unset, hset, Field.cache_attr_info, hreq, hhidden]
        | false => simp [Attrs.written, hset, Field.cache_attr_info, hreq, hhidden]
  · have hhidden := (t.struct.mandatory f hf hreq).1
    rw [if_neg hreq, hhidden]
    by_cases hproxy : f.name = lit "proxy"
    · have hquiet : f.quiet = true := decide_eq_true ⟨hreq, hproxy⟩
      simp [Attrs.written, hreq, hproxy, hquiet]
    · have hloud : f.quiet = false := decide_eq_false fun h => hproxy h.2
      simp [Attrs.written, hreq, hproxy, hloud]

theorem written_eq {a b : Attrs V σ} (h : a.slot f.name = b.slot f.name) :
    a.written f = b.written f := by
  obtain ⟨hisset, hvalue, -⟩ := slot_eq.mp h
  unfold Attrs.written
  rw [hisset, hvalue]

/-- The turn of another field leaves a field as it is. -/
theorem updateField_other (hd : t.struct.NoStats) {g : Field}
    (hf : f ∈ t.struct.fields) (hg : g ∈ t.struct.fields) (hne : g ≠ f)
    (mono_usec : UInt64) (x : UveType.Updating V σ) :
    (t.updateField mono_usec x g).data.slot f.name = x.data.slot f.name
      ∧ (t.updateField mono_usec x g).tdata.slot f.name = x.tdata.slot f.name := by
  have hname : f.name ≠ g.name := (name_ne hf hg hne).symm
  rw [updateField_noStats hd hg]
  split
  · exact ⟨rfl, rfl⟩
  · refine ⟨?_, ?_⟩
    · cases g.hidden with
      | true => exact slot_unset_ne hname _
      | false => rfl
    · unfold Attrs.slot Attrs.set
      simp only [Function.update_of_ne hname]
      split
      · rw [Function.update_of_ne hname]
      · rfl

theorem written_set (f : Field) (val : V) (a : Attrs V σ) :
    (a.set f val).written f = some val := by
  unfold Attrs.written Attrs.set
  by_cases hreq : f.req = .T_OPTIONAL
  · simp [hreq]
  · simp [hreq]

theorem written_unset (hreq : f.req = .T_OPTIONAL) (a : Attrs V σ) :
    (a.unset f.name).written f = none := by
  simp [Attrs.written, Attrs.unset, hreq]

theorem written_some {a : Attrs V σ} (h : a.written f ≠ none) :
    a.written f = some (a.value f.name) := by
  unfold Attrs.written at h ⊢
  split
  · rfl
  · rename_i hnot
    exact absurd (if_neg hnot) h

/-- What `UpdateUVE` leaves of a field in its two structs. -/
theorem UpdateUVE_written (hd : t.struct.NoStats) (hf : f ∈ t.struct.fields)
    (data tdata : UveData (Attrs V σ)) (mono_usec : UInt64) (level : SandeshLevel) :
    (t.UpdateUVE data tdata mono_usec level).tdata.rest.written f
        = (data.rest.written f <|> tdata.rest.written f)
      ∧ (t.UpdateUVE data tdata mono_usec level).data.written f
        = if f.hidden then none else data.rest.written f := by
  obtain ⟨x, hx, hlast⟩ := foldl_one
    (q := fun x : UveType.Updating V σ =>
      (x.data.slot f.name, x.tdata.slot f.name))
    (nodup_fields t.struct) hf
    (fun g hg hne x => Prod.ext (updateField_other hd hf hg hne mono_usec x).1
      (updateField_other hd hf hg hne mono_usec x).2)
    ⟨data.rest.isset_deleted, data.rest, { tdata.rest with
      isset_deleted := tdata.rest.isset_deleted || data.rest.isset_deleted }⟩
  injection hx with hdata htdata
  injection hlast with hdata' htdata'
  -- what the field's own turn finds is what was there at the start
  replace hdata : x.data.written f = data.rest.written f := written_eq hdata
  replace htdata : x.tdata.written f = tdata.rest.written f := written_eq htdata
  have hown := updateField_noStats hd hf mono_usec x
  rw [show (t.UpdateUVE data tdata mono_usec level).tdata.rest.written f = _
      from written_eq htdata',
    show (t.UpdateUVE data tdata mono_usec level).data.written f = _
      from written_eq hdata', hown]
  by_cases hnone : x.data.written f = none
  · rw [if_pos hnone, ← hdata, hnone, htdata]
    exact ⟨rfl, (ite_self none).symm⟩
  · rw [if_neg hnone, ← hdata, written_some hnone]
    refine ⟨written_set f _ x.tdata, ?_⟩
    cases hhidden : f.hidden with
    | true => exact written_unset (hidden_optional hf hhidden) x.data
    | false => exact written_some hnone

/-- `UpdateUVE` has something to send if a field that counts is set. -/
theorem send_of_written (hd : t.struct.NoStats) (hf : f ∈ t.struct.fields)
    {data tdata : UveData (Attrs V σ)} {mono_usec : UInt64} {level : SandeshLevel}
    (hsend : (t.UpdateUVE data tdata mono_usec level).send = false)
    (hpublic : f.hidden = false) (hloud : f.quiet = false) :
    data.rest.written f = none := by
  by_contra hset
  refine Bool.false_ne_true (hsend.symm.trans ?_)
  refine Bool.or_eq_true_iff.mpr (.inl ?_)
  refine foldl_sets (q := fun x : UveType.Updating V σ => x.data.slot f.name)
    (P := fun x => x.send = true) (nodup_fields t.struct) hf ?_ ?_ ?_
  · intro g hg hne x
    exact (updateField_other hd hf hg hne mono_usec x).1
  · intro g hg x hx
    rw [updateField_noStats hd hg]
    split
    · exact hx
    · exact Bool.or_eq_true_iff.mpr (.inl hx)
  · intro x hx
    have hwritten : x.data.written f = data.rest.written f := written_eq hx
    rw [updateField_noStats hd hf, if_neg (hwritten ▸ hset), hpublic, hloud]
    exact Bool.or_true _

/-- The message of a sync has the fields that are not hidden. -/
theorem LoadUVE_written (hd : t.struct.NoStats) (hf : f ∈ t.struct.fields)
    (cycle : UInt32) (data : UveData (Attrs V σ)) :
    (t.LoadUVE .ST_SYNC cycle data).2.written f
      = if f.hidden then none else data.rest.written f := by
  refine (written_eq (LoadUVE_slot hf data)).trans ?_
  unfold UveType.loadField Field.cache_attr_info
  rw [hd f hf]
  by_cases hreq : f.req = .T_OPTIONAL
  · cases hhidden : f.hidden with
    | true => simpa [hreq] using written_unset hreq data.rest
    | false => simp [hreq]
  · simp [hreq, (t.struct.mandatory f hf hreq).1]

/-- What a message leaves of a field at the receiver. -/
theorem attr_receive {d : UveStruct} (hf : f ∈ d.fields) {a : Attrs V σ}
    {m : Message V} (hm : m.attrs = d.attrs a) (r : Receiver V) :
    (r.receive m).attr f.name = (a.written f <|> r.attr f.name) := by
  have hfold : (r.receive m).attr
      = d.fields.foldl (fun attr g => Receiver.overwrite attr (g.name, a.written g))
          r.attr := by
    unfold Receiver.receive UveStruct.attrs at *
    rw [hm, List.foldl_map]
  have hother : ∀ g ∈ d.fields, g ≠ f → ∀ attr : Bytes → Option V,
      Receiver.overwrite attr (g.name, a.written g) f.name = attr f.name := by
    intro g hg hne attr
    exact Function.update_of_ne (name_ne hf hg hne).symm _ _
  obtain ⟨attr, hattr, hlast⟩ := foldl_one
    (q := fun attr : Bytes → Option V => attr f.name)
    (nodup_fields d) hf hother r.attr
  rw [hfold, hlast, ← hattr]
  exact Function.update_self _ _ _

-- ============================================================= the cache

/-- The fields that an update finds in the cache. -/
theorem entryFor_rest (u : Update (Attrs V σ)) (dsconf : Map Bytes Bytes)
    (e : UVEMapEntry (Attrs V σ)) :
    (entryFor t.TM t.sandesh u dsconf (some e)).data.rest = e.data.rest := by
  show (if t.TM ≠ 0 then _ else _ : UveData (Attrs V σ)).rest = _
  split
  · rfl
  · rfl

/-- The entry an update leaves has what the update gives, and otherwise
what was there. -/
theorem stored_written (hd : t.struct.NoStats) (hf : f ∈ t.struct.fields)
    (u : Update (Attrs V σ)) (m : PerTypeMap (Attrs V σ)) :
    (stored t.TM t.sandesh u m).data.rest.written f
      = (u.data.rest.written f <|> cached m u.data.name u.data.table_ f) := by
  unfold stored cached
  refine (UpdateUVE_written hd hf u.data _ u.time u.level).1.trans ?_
  cases m.find u.data.name u.data.table_ with
  | none =>
      -- a new struct has only the fields that the update has too
      by_cases hreq : f.req = .T_OPTIONAL
      · have hfresh : (entryFor t.TM t.sandesh u m.dsconf_ none).data.rest.written f
            = none := by
          simp [Attrs.written, entryFor, UveType.sandesh, hreq]
        rw [hfresh]
        rfl
      · have hset : u.data.rest.written f = some (u.data.rest.value f.name) :=
          if_pos (.inl hreq)
        rw [hset]
        rfl
  | some e =>
      rw [entryFor_rest]
      rfl

/-- The value of `deleted` stays as it is if no update sets it. -/
theorem stored_deleted_unset {u : Update (Attrs V σ)} {m : PerTypeMap (Attrs V σ)}
    (hunset : u.data.rest.isset_deleted = false)
    (hm : ∀ e, m.find u.data.name u.data.table_ = some e → e.data.deleted = false) :
    (stored t.TM t.sandesh u m).data.deleted = false := by
  unfold stored
  show (if u.data.rest.isset_deleted = true then _ else _) = false
  rw [hunset, if_neg Bool.false_ne_true]
  unfold entryFor
  cases hfind : m.find u.data.name u.data.table_ with
  | none => rfl
  | some e =>
      show (if t.TM ≠ 0 then _ else _ : UveData (Attrs V σ)).deleted = false
      split
      · rfl
      · exact hm e hfind

-- ============================================================== the runs

/-- The fields that a receiver has of a struct. -/
def restricted (a : Attrs V σ) (f : Field) : Option V :=
  if f.hidden then none else a.written f

/-- What holds after a `Send`, where `us` are the calls so far. -/
structure Alike (t : UveType V σ) (name table : Bytes)
    (us : List (Update (Attrs V σ))) (before after : Ends V σ) (send : Bool)
    (e : UVEMapEntry (Attrs V σ)) : Prop where
  found : after.cache.find name table = some e
  filed : e.data.name = name
  deleted : e.data.deleted = false
  last : ∀ f ∈ t.struct.fields, e.data.rest.written f = given us f
  received : ∀ f ∈ t.struct.fields, send = true ∨ f.quiet = false →
    after.receiver.attr f.name = restricted e.data.rest f
  named : send = true → after.receiver.name = some name
  kept : send = false → after.receiver = before.receiver
  unchanged : send = false → ∀ f ∈ t.struct.fields, f.hidden = false →
    f.quiet = false → cached before.cache name table f = e.data.rest.written f
  synced : ∀ cycle, ∃ m,
    t.Send ⟨name, table, e.data, e.level, .ST_SYNC, e.seqno, cycle, []⟩ = some m
      ∧ (Receiver.empty.receive m).name = some name
      ∧ ∀ f ∈ t.struct.fields,
        (Receiver.empty.receive m).attr f.name = restricted e.data.rest f

/-- What holds between the calls. -/
structure EndsInv (t : UveType V σ) (name table : Bytes)
    (us : List (Update (Attrs V σ))) (s : Ends V σ) : Prop where
  last : ∀ f ∈ t.struct.fields, cached s.cache name table f = given us f
  deleted : ∀ e, s.cache.find name table = some e → e.data.deleted = false
  received : ∀ f ∈ t.struct.fields, f.quiet = false →
    s.receiver.attr f.name = if f.hidden then none else cached s.cache name table f

theorem given_concat (us : List (Update (Attrs V σ))) (u : Update (Attrs V σ))
    (f : Field) : given (us ++ [u]) f = (u.data.rest.written f <|> given us f) := by
  unfold given
  rw [List.foldl_append]
  rfl

/-- A sync of the entry. -/
theorem synced_restricted (hd : t.struct.NoStats) (name table : Bytes)
    (e : UVEMapEntry (Attrs V σ)) (cycle : UInt32) :
    ∃ m, t.Send ⟨name, table, e.data, e.level, .ST_SYNC, e.seqno, cycle, []⟩ = some m
      ∧ (Receiver.empty.receive m).name = some e.data.name
      ∧ ∀ f ∈ t.struct.fields,
        (Receiver.empty.receive m).attr f.name = restricted e.data.rest f := by
  refine ⟨_, rfl, rfl, fun f hf => ?_⟩
  have hload := LoadUVE_written hd hf cycle e.data
  rw [attr_receive (a := (t.LoadUVE .ST_SYNC cycle e.data).2) hf rfl, hload]
  simp [restricted, Receiver.empty]

/-- One more call. -/
theorem ends_step (hd : t.struct.NoStats) {name table : Bytes} (htable : table ≠ [])
    {us : List (Update (Attrs V σ))} {u : Update (Attrs V σ)} {before : Ends V σ}
    (hinv : EndsInv t name table us before) (hu : CallFor name table u) :
    ∃ after r e, Uve.UpdateUVE t.TM t.sandesh u before.cache = some r
      ∧ (ends t).step before u = some after
      ∧ Alike t name table (us ++ [u]) before after r.send e
      ∧ EndsInv t name table (us ++ [u]) after := by
  obtain ⟨rfl, rfl, hdeleted, hunset⟩ := hu
  obtain ⟨r, hr⟩ := UpdateUVE_returns t.TM t.sandesh before.cache htable
  obtain ⟨hsend, hdata⟩ := merged_UpdateUVE hr
  have hfind : r.map.find u.data.name u.data.table_
      = some (stored t.TM t.sandesh u before.cache) := by
    rw [find_UpdateUVE hr, if_pos ⟨rfl, rfl⟩, hdeleted]
    rfl
  have hlast : ∀ f ∈ t.struct.fields,
      (stored t.TM t.sandesh u before.cache).data.rest.written f
        = given (us ++ [u]) f := by
    intro f hf
    rw [stored_written hd hf, hinv.last f hf, given_concat]
  have hcached : ∀ f, cached r.map u.data.name u.data.table_ f
      = (stored t.TM t.sandesh u before.cache).data.rest.written f := by
    intro f
    unfold cached
    rw [hfind]
    rfl
  -- a field that would have made a message is not in a call without one
  have hnone : r.send = false → ∀ f ∈ t.struct.fields, f.hidden = false →
      f.quiet = false → u.data.rest.written f = none := by
    intro hno f hf hpublic hloud
    have hoff : (t.UpdateUVE u.data _ _ u.level).send = false := hsend.symm.trans hno
    exact send_of_written hd hf hoff hpublic hloud
  have hreceived : ∀ f ∈ t.struct.fields, r.send = true ∨ f.quiet = false →
      (if r.send then before.receiver.receive (t.update_message u r.data)
        else before.receiver).attr f.name
        = restricted (stored t.TM t.sandesh u before.cache).data.rest f := by
    intro f hf hcounts
    unfold restricted
    rw [stored_written hd hf]
    cases hyes : r.send with
    | true =>
        have hwritten : r.data.rest.written f
            = if f.hidden then none else u.data.rest.written f := by
          rw [hdata]
          exact (UpdateUVE_written hd hf u.data _ u.time u.level).2
        rw [if_pos rfl, attr_receive (a := r.data.rest) hf rfl, hwritten]
        cases hquiet : f.quiet with
        | true =>
            obtain ⟨hreq, -⟩ := of_decide_eq_true hquiet
            rw [(t.struct.mandatory f hf hreq).1,
              show u.data.rest.written f = some (u.data.rest.value f.name)
                from if_pos (.inl hreq)]
            rfl
        | false =>
            rw [hinv.received f hf hquiet]
            cases f.hidden with
            | true => rfl
            | false => rfl
    | false =>
        have hloud := hcounts.resolve_left fun h => Bool.false_ne_true (hyes ▸ h)
        rw [if_neg Bool.false_ne_true, hinv.received f hf hloud]
        cases hhidden : f.hidden with
        | true => rfl
        | false =>
            rw [hnone hyes f hf hhidden hloud]
            rfl
  refine ⟨⟨r.map, if r.send then before.receiver.receive (t.update_message u r.data)
    else before.receiver⟩, r, stored t.TM t.sandesh u before.cache, hr, ?_, ?_, ?_⟩
  · show (Uve.UpdateUVE t.TM t.sandesh u before.cache).map _ = some _
    rw [hr]
    rfl
  · refine ⟨hfind, rfl, ?_, hlast, hreceived, ?_, ?_, ?_, ?_⟩
    · exact stored_deleted_unset hunset hinv.deleted
    · intro hyes
      simp only [hyes, if_true, hdata]
      rfl
    · intro hno
      simp only [hno, Bool.false_eq_true, if_false]
    · intro hno f hf hpublic hloud
      rw [stored_written hd hf, hnone hno f hf hpublic hloud]
      rfl
    · exact synced_restricted hd u.data.name u.data.table_ _
  · refine ⟨fun f hf => (hcached f).trans (hlast f hf), ?_, fun f hf hloud => ?_⟩
    · intro e he
      rw [hfind] at he
      obtain rfl := Option.some.inj he
      exact stored_deleted_unset hunset hinv.deleted
    · rw [hcached]
      exact hreceived f hf (.inr hloud)

theorem ends_run (hd : t.struct.NoStats) {name table : Bytes} (htable : table ≠ [])
    (us : List (Update (Attrs V σ))) {s : Ends V σ} (hs : EndsInv t name table [] s)
    (hus : ∀ u ∈ us, CallFor name table u) :
    ∃ s', (ends t).run s us = some s' ∧ EndsInv t name table us s' := by
  induction us using List.reverseRecOn with
  | nil => exact ⟨s, rfl, hs⟩
  | append_singleton us u ih =>
      obtain ⟨hall, hu⟩ := List.forall_mem_append.mp hus
      obtain ⟨before, hrun, hinv⟩ := ih hall
      obtain ⟨after, r, e, -, hstep, -, hinv'⟩ :=
        ends_step hd htable hinv (hu u List.mem_cons_self)
      exact ⟨after, (Machine.run_concat us u).mpr ⟨before, hrun, hstep⟩, hinv'⟩

/-- Whatever fields the calls for a UVE set, after each of them the cache
has the last value given for every field, and the receiver the same values
of the fields that are not hidden, except that the name and the proxy are
those of the last message. A call is not sent only if nothing else of
these has changed, and a sync of the entry makes up for it. -/
theorem partial_updates_merge (hd : t.struct.NoStats) {name table : Bytes}
    (htable : table ≠ []) {s : Ends V σ} (hnew : s.cache.find name table = none)
    (hempty : s.receiver = .empty) (us : List (Update (Attrs V σ)))
    (u : Update (Attrs V σ)) (hcalls : ∀ v ∈ us ++ [u], CallFor name table v) :
    ∃ before after r e, (ends t).run s us = some before
      ∧ Uve.UpdateUVE t.TM t.sandesh u before.cache = some r
      ∧ (ends t).step before u = some after
      ∧ Alike t name table (us ++ [u]) before after r.send e := by
  have hcached : ∀ f, cached s.cache name table f = none := by
    intro f
    unfold cached
    rw [hnew]
    rfl
  have hs : EndsInv t name table [] s := by
    refine ⟨fun f _ => hcached f, fun e he => ?_, fun f _ _ => ?_⟩
    · rw [hnew] at he
      cases he
    · rw [hempty, hcached]
      exact (ite_self none).symm
  obtain ⟨hus, hu⟩ := List.forall_mem_append.mp hcalls
  obtain ⟨before, hrun, hinv⟩ := ends_run hd htable us hs hus
  obtain ⟨after, r, e, hr, hstep, halike, -⟩ :=
    ends_step hd htable hinv (hu u List.mem_cons_self)
  exact ⟨before, after, r, e, hrun, hr, hstep, halike⟩

-- ============================================================ an example

/-- A struct with a period: a proxy, a field `x` and a hidden field `h`. -/
def sample : UveStruct where
  periodic := true
  fields := [⟨lit "proxy", .T_OPT_IN_REQ_OUT, false, none⟩,
    ⟨lit "x", .T_OPTIONAL, false, none⟩, ⟨lit "h", .T_OPTIONAL, true, none⟩]
  nodup := by decide
  own := by decide
  mandatory := by decide
  raw := by simp
  period := by simp

/-- The example's type. -/
def sampleType : UveType Nat Unit where
  struct := sample
  P := 60
  TM := 0
  zero _ := 0
  stats _ :=
    { make := fun _ => ()
      Update := fun _ _ _ => ()
      IsResult := fun _ => false
      FillResult := fun _ _ val => (val, false)
      Flush := fun _ => () }
  DSConf := ∅
  proxy data := [UInt8.ofNat (data.rest.value (lit "proxy"))]

/-- A call that sets one optional field. -/
def sampleUpdate (proxy : Nat) (snm : Bytes) (val : Nat) :
    Update (Attrs Nat Unit) where
  data :=
    { table_ := lit "ObjectSample"
      name := lit "one"
      deleted := false
      rest :=
        { value := fun m => if m = lit "proxy" then proxy else val
          isset := fun m => m = snm
          isset_deleted := false
          dsobj := fun _ => none } }
  seqnum := 1
  mono_usec := 1
  level := .SYS_NOTICE
  clock := 0

theorem sample_callFor (proxy : Nat) (snm : Bytes) (val : Nat) :
    CallFor (lit "one") (lit "ObjectSample") (sampleUpdate proxy snm val) :=
  ⟨rfl, rfl, rfl, rfl⟩

theorem sample_noStats : sample.NoStats := by
  unfold UveStruct.NoStats sample
  simp

/-- Two calls, the second of which is not sent. -/
theorem partial_updates_merge_two :
    ∃ before after r e,
      (ends sampleType).run ⟨.new sampleType.sandesh, .empty⟩
          [sampleUpdate 1 (lit "x") 5] = some before
        ∧ Uve.UpdateUVE 0 sampleType.sandesh (sampleUpdate 2 (lit "h") 6)
          before.cache = some r
        ∧ (ends sampleType).step before (sampleUpdate 2 (lit "h") 6) = some after
        ∧ Alike sampleType (lit "one") (lit "ObjectSample")
          ([sampleUpdate 1 (lit "x") 5] ++ [sampleUpdate 2 (lit "h") 6])
          before after r.send e := by
  refine partial_updates_merge sample_noStats (by decide) rfl rfl
    [sampleUpdate 1 (lit "x") 5] (sampleUpdate 2 (lit "h") 6) ?_
  intro v hv
  rcases List.mem_cons.mp hv with rfl | hv
  · exact sample_callFor _ _ _
  · rw [List.mem_singleton.mp hv]
    exact sample_callFor _ _ _

/-- The second call has another proxy and sets a hidden field only. It is
not sent, and the receiver still has the proxy of the first. -/
theorem partial_updates_proxy :
    ∃ after e,
      (ends sampleType).run ⟨.new sampleType.sandesh, .empty⟩
          [sampleUpdate 1 (lit "x") 5, sampleUpdate 2 (lit "h") 6] = some after
        ∧ after.cache.find (lit "one") (lit "ObjectSample") = some e
        ∧ ¬ ∀ f ∈ sampleType.struct.fields,
          after.receiver.attr f.name = restricted e.data.rest f := by
  refine ⟨_, _, rfl, rfl, fun h => ?_⟩
  have hproxy := h _ List.mem_cons_self
  revert hproxy
  decide

end Sandesh.Uve
