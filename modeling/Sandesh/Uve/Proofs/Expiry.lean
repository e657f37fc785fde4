/-
Expiry: a type with a timeout `TM` drops the UVEs that are no longer
updated.

The periodic syncs whose cycle is a multiple of `TM` are the rounds. Seen
from one pair, the cache is a counter of the rounds since the last update:
updated, then marked, then gone (`life`). `mark_step` says that every call
moves the entry as `life` does, `mark_run` that a run does, and both
halves of the timeout are facts about `life` alone.

The mark is the `deleted` flag of the cached data, which is also what
`T::Send` is given. So the round that erases an entry announces it, and so
does every other sync that comes across a marked entry.
-/
import Sandesh.Uve.Proofs.Calls

namespace Sandesh.Uve

open Lib

variable {β : Type} {TM : Nat} {T : UveSandesh β} {m m' : PerTypeMap β}
  {name table : Bytes}

/-- Merging an update that does not delete into data that is not marked
leaves it unmarked: the generated body only ever copies the flag of the
update. -/
def UveSandesh.CopiesDeleted (T : UveSandesh β) : Prop :=
  ∀ data tdata mono_usec level, data.deleted = false → tdata.deleted = false →
    (T.UpdateUVE data tdata mono_usec level).tdata.deleted = false

/-- No update deletes, and periodic syncs ask for everything. -/
def Act.Allowed : Act β → Prop
  | .update u => u.data.deleted = false
  | .sync _ _ c => c.st = .ST_PERIODIC → c.seqno = 0

/-- The step updates this entry. -/
def Act.updates (name table : Bytes) : Act β → Bool
  | .update u => name = u.data.name ∧ table = u.data.table_
  | .sync _ _ _ => false

/-- A periodic sync at a multiple of the timeout. -/
def Act.round (TM : Nat) : Act β → Bool
  | .update _ => false
  | .sync _ _ c => c.expires TM

-- ============================================================= messages

/-- A message to the collector, and the entry it is about. -/
structure EntryMessage (β : Type) where
  name : Bytes
  table : Bytes
  data : UveData β

/-- The message is about this entry. -/
def EntryMessage.isFor (name table : Bytes) (x : EntryMessage β) : Bool :=
  x.name = name ∧ x.table = table

/-- The messages of a call: the update itself, if `UpdateUVE` says so, and
what a sync hands to `T::Send`. -/
def messages (TM : Nat) (T : UveSandesh β) (m : PerTypeMap β) :
    Act β → List (EntryMessage β)
  | .update u =>
      match UpdateUVE TM T u m with
      | none => []
      | some r => if r.send then [⟨r.data.name, r.data.table_, r.data⟩] else []
  | .sync names tables c =>
      (SyncUVE TM names tables c m).sent.map fun x => ⟨x.name, x.table, x.data⟩

/-- The messages of a run. -/
def trace (TM : Nat) (T : UveSandesh β) : PerTypeMap β → List (Act β) →
    List (EntryMessage β)
  | _, [] => []
  | m, a :: as =>
      messages TM T m a ++ (((cache TM T).step m a).elim [] fun m' =>
        trace TM T m' as)

theorem trace_append (as : List (Act β)) (a : Act β) :
    ∀ {m m' : PerTypeMap β}, (cache TM T).run m as = some m' →
      trace TM T m (as ++ [a]) = trace TM T m as ++ messages TM T m' a := by
  induction as with
  | nil =>
      intro m m' hrun
      injection hrun with hrun
      subst hrun
      show messages TM T m a ++ _ = [] ++ messages TM T m a
      cases (cache TM T).step m a with
      | none => exact List.append_nil _
      | some m' => exact List.append_nil _
  | cons b as ih =>
      intro m m' hrun
      obtain ⟨m₁, hstep, hrest⟩ := Option.bind_eq_some_iff.mp hrun
      simp only [List.cons_append, trace, hstep, Option.elim_some]
      rw [ih hrest, List.append_assoc]

-- ============================================================ the calls

/-- Whether the pair is there, and marked. -/
def PerTypeMap.mark (m : PerTypeMap β) (name table : Bytes) : Option Bool :=
  (m.find name table).map fun e => e.data.deleted

/-- A pair through one call: updated, marked, gone. -/
def life (TM : Nat) (name table : Bytes) (x : Option Bool) (a : Act β) :
    Option Bool :=
  if a.updates name table then some false
  else if a.round TM then
    match x with
    | some false => some true
    | _ => none
  else x

theorem step_update {u : Update β} :
    (cache TM T).step m (.update u) = some m'
      ↔ ∃ r, UpdateUVE TM T u m = some r ∧ r.map = m' :=
  Option.map_eq_some_iff

theorem step_sync {names tables : Order Bytes} {c : SyncCall} :
    (cache TM T).step m (.sync names tables c) = some m'
      ↔ (SyncUVE TM names tables c m).stuck = false
        ∧ (SyncUVE TM names tables c m).map = m' := by
  show (if _ then none else some _) = some m' ↔ _
  cases (SyncUVE TM names tables c m).stuck with
  | true => simp
  | false => simp

/-- A sync for all tables returns. -/
theorem step_sync_all (names tables : Order Bytes) {c : SyncCall}
    (hc : c.table = []) :
    (cache TM T).step m (.sync names tables c)
      = some (SyncUVE TM names tables c m).map :=
  step_sync.mpr ⟨SyncUVE_stuck.mpr fun _ _ _ _ => .inl hc, rfl⟩

/-- With a timeout, an update leaves its entry unmarked. -/
theorem stored_deleted (hTM : TM ≠ 0) (hT : T.CopiesDeleted) {u : Update β}
    (hu : u.data.deleted = false) : (stored TM T u m).data.deleted = false := by
  refine hT _ _ _ _ hu ?_
  cases m.find u.data.name u.data.table_ with
  | none => rfl
  | some e =>
      unfold entryFor
      simp only [ne_eq, hTM, not_false_eq_true, if_true]

/-- Outside a round a sync leaves every entry as it is. -/
theorem after_of_not_expires {c : SyncCall} (h : ¬ c.expires TM)
    (e : UVEMapEntry β) : after TM c e = some e := by
  unfold after aged
  simp only [if_neg h, ite_self]

/-- Every call moves the pair as `life` does. -/
theorem mark_step (hTM : TM ≠ 0) (hT : T.CopiesDeleted) {a : Act β}
    (ha : a.Allowed) (hstep : (cache TM T).step m a = some m') :
    m'.mark name table = life TM name table (m.mark name table) a := by
  unfold life
  cases a with
  | update u =>
      obtain ⟨r, hr, rfl⟩ := step_update.mp hstep
      have hround : (Act.update u).round TM = false := rfl
      have hupdates : (Act.update u).updates name table
          = decide (name = u.data.name ∧ table = u.data.table_) := rfl
      unfold PerTypeMap.mark
      rw [find_UpdateUVE hr, hround, hupdates]
      change u.data.deleted = false at ha
      by_cases hpair : name = u.data.name ∧ table = u.data.table_
      · simp only [ha, Bool.false_eq_true, if_false,
          Option.map_some, stored_deleted hTM hT ha, hpair, and_self,
          decide_true, if_true]
      · simp only [hpair, decide_false, Bool.false_eq_true, if_false]
  | sync names tables c =>
      obtain ⟨hend, rfl⟩ := step_sync.mp hstep
      have hupdates : (Act.sync (β := β) names tables c).updates name table
          = false := rfl
      have hround : (Act.sync (β := β) names tables c).round TM
          = decide (c.expires TM) := rfl
      unfold PerTypeMap.mark
      rw [find_SyncUVE hend, hupdates, hround]
      simp only [Bool.false_eq_true, if_false, decide_eq_true_iff]
      by_cases hexp : c.expires TM
      · have hwants : ∀ seqno, c.wants seqno := fun _ => .inr (ha hexp.2.1)
        rw [if_pos hexp]
        cases m.find name table with
        | none => rfl
        | some e =>
            show (after TM c e).map _ = _
            unfold after aged
            rw [if_pos (hwants _), if_pos hexp]
            simp only [Option.map_some]
            cases hdel : e.data.deleted with
            | true => rfl
            | false => rfl
      · rw [if_neg hexp]
        cases m.find name table with
        | none => rfl
        | some e =>
            show (after TM c e).map _ = _
            rw [after_of_not_expires hexp]

-- ============================================================== the runs

/-- A run moves the pair as `life` does, call by call. -/
theorem mark_run (hTM : TM ≠ 0) (hT : T.CopiesDeleted) (as : List (Act β)) :
    ∀ {m m' : PerTypeMap β}, (∀ a ∈ as, a.Allowed) →
      (cache TM T).run m as = some m' →
      m'.mark name table
        = as.foldl (life TM name table) (m.mark name table) := by
  induction as with
  | nil =>
      intro m m' _ hrun
      injection hrun with hrun
      rw [hrun]
      rfl
  | cons a as ih =>
      intro m m' hallowed hrun
      obtain ⟨m₁, hstep, hrest⟩ := Option.bind_eq_some_iff.mp hrun
      have ha := hallowed a List.mem_cons_self
      rw [ih (fun b hb => hallowed b (List.mem_cons_of_mem a hb)) hrest,
        mark_step hTM hT ha hstep]
      rfl

/-- Without a round an updated pair stays unmarked. -/
theorem life_unmarked (as : List (Act β)) (h : ∀ a ∈ as, a.round TM = false) :
    as.foldl (life TM name table) (some false) = some false := by
  induction as with
  | nil => rfl
  | cons a as ih =>
      have hround := h a List.mem_cons_self
      rw [List.foldl_cons]
      have ha : life TM name table (some false) a = some false := by
        unfold life
        simp only [hround, Bool.false_eq_true, if_false, ite_self]
      rw [ha]
      exact ih fun b hb => h b (List.mem_cons_of_mem a hb)

/-- An update without a round after it leaves the pair unmarked. -/
theorem life_updated (as : List (Act β)) (h : ∀ a ∈ as, a.round TM = false)
    (hup : ∃ a ∈ as, a.updates name table = true) :
    ∀ x, as.foldl (life TM name table) x = some false := by
  induction as with
  | nil =>
      obtain ⟨a, ha, -⟩ := hup
      exact absurd ha List.not_mem_nil
  | cons a as ih =>
      intro x
      have hrest : ∀ b ∈ as, b.round TM = false :=
        fun b hb => h b (List.mem_cons_of_mem a hb)
      rw [List.foldl_cons]
      by_cases ha : a.updates name table = true
      · have hlife : life TM name table x a = some false := if_pos ha
        rw [hlife]
        exact life_unmarked as hrest
      · obtain ⟨b, hb, hbup⟩ := hup
        rcases List.mem_cons.mp hb with rfl | hb
        · exact absurd hbup ha
        · exact ih hrest ⟨b, hb, hbup⟩ _

/-- The rounds a pair still has. -/
def roundsLeft : Option Bool → Nat
  | some false => 2
  | some true => 1
  | none => 0

/-- A pair that is not updated is gone after the rounds it has. -/
theorem life_gone (as : List (Act β))
    (h : ∀ a ∈ as, a.updates name table = false) :
    ∀ x, roundsLeft x ≤ as.countP (Act.round TM) →
      as.foldl (life TM name table) x = none := by
  induction as with
  | nil =>
      intro x hx
      cases x with
      | none => rfl
      | some b =>
          cases b with
          | true => exact absurd hx (Nat.not_succ_le_zero 0)
          | false => exact absurd hx (Nat.not_succ_le_zero 1)
  | cons a as ih =>
      intro x hx
      have ha := h a List.mem_cons_self
      rw [List.foldl_cons]
      refine ih (fun b hb => h b (List.mem_cons_of_mem a hb)) _ ?_
      rw [List.countP_cons] at hx
      unfold life
      rw [ha]
      cases hround : a.round TM with
      | false =>
          simp only [hround, Bool.false_eq_true, if_false] at hx ⊢
          omega
      | true =>
          simp only [hround, Bool.false_eq_true, if_false, if_true] at hx ⊢
          cases x with
          | none => exact Nat.zero_le _
          | some b =>
              cases b with
              | true => exact Nat.zero_le _
              | false =>
                  simp only [roundsLeft] at hx ⊢
                  omega

-- ====================================================== the last message

/-- What a call sends for a pair that is not there and is not updated. -/
theorem messages_none {a : Act β} (hstep : (cache TM T).step m a = some m')
    (hfind : m.find name table = none) (hup : a.updates name table = false) :
    (messages TM T m a).filter (EntryMessage.isFor name table) = [] := by
  refine List.filter_eq_nil_iff.mpr fun x hx hfor => ?_
  have hpair : x.name = name ∧ x.table = table := of_decide_eq_true hfor
  cases a with
  | update u =>
      obtain ⟨r, hr, -⟩ := step_update.mp hstep
      have hdata := data_UpdateUVE hr
      simp only [messages, hr] at hx
      split at hx
      · obtain rfl := List.mem_singleton.mp hx
        have hself : name = u.data.name ∧ table = u.data.table_ :=
          ⟨hpair.1.symm.trans hdata.1, hpair.2.symm.trans hdata.2⟩
        exact absurd hself (of_decide_eq_false hup)
      · exact absurd hx List.not_mem_nil
  | sync names tables c =>
      obtain ⟨y, hy, rfl⟩ := List.mem_map.mp hx
      obtain ⟨e, he, -⟩ := mem_sent_SyncUVE hy
      obtain ⟨rfl, rfl⟩ := hpair
      rw [hfind] at he
      cases he

/-- The call that takes a pair out announces it. -/
theorem messages_removed {a : Act β} (ha : a.Allowed)
    (hstep : (cache TM T).step m a = some m') {e : UVEMapEntry β}
    (hfind : m.find name table = some e) (hgone : m'.find name table = none) :
    ∃ x, (messages TM T m a).filter (EntryMessage.isFor name table) = [x]
      ∧ x.data.deleted = true := by
  cases a with
  | update u =>
      obtain ⟨r, hr, rfl⟩ := step_update.mp hstep
      rw [find_UpdateUVE hr] at hgone
      change u.data.deleted = false at ha
      by_cases hpair : name = u.data.name ∧ table = u.data.table_
      · rw [if_pos hpair, ha] at hgone
        cases hgone
      · rw [if_neg hpair, hfind] at hgone
        cases hgone
  | sync names tables c =>
      obtain ⟨hend, rfl⟩ := step_sync.mp hstep
      rw [find_SyncUVE hend, hfind] at hgone
      change after TM c e = none at hgone
      have hsent := sent_SyncUVE hend name table
      rw [hfind] at hsent
      unfold after at hgone
      by_cases hwants : c.wants e.seqno
      · rw [if_pos hwants] at hgone
        unfold aged at hgone
        have hdel : e.data.deleted = true := by
          by_cases hexp : c.expires TM
          · rw [if_pos hexp] at hgone
            cases hdel : e.data.deleted with
            | true => rfl
            | false =>
                rw [hdel] at hgone
                cases hgone
          · rw [if_neg hexp] at hgone
            cases hgone
        refine ⟨⟨name, table, e.data⟩, ?_, hdel⟩
        simp only [Option.map_some, Option.getD_some, if_pos hwants] at hsent
        show List.filter _ (List.map _ _) = _
        rw [List.filter_map]
        show ((SyncUVE TM names tables c m).sent.filter
          (Sent.isFor name table)).map _ = _
        rw [hsent]
        rfl
      · rw [if_neg hwants] at hgone
        cases hgone

/-- After a run, the last message for a pair that is gone says so. -/
theorem last_message (as : List (Act β)) :
    ∀ {m : PerTypeMap β}, (∀ a ∈ as, a.Allowed) →
      (cache TM T).run (PerTypeMap.new T) as = some m →
      (∃ a ∈ as, a.updates name table = true) → m.find name table = none →
      ∃ x, ((trace TM T (PerTypeMap.new T) as).filter
          (EntryMessage.isFor name table)).getLast? = some x
        ∧ x.data.deleted = true := by
  induction as using List.reverseRecOn with
  | nil =>
      intro m _ _ hup
      obtain ⟨a, ha, -⟩ := hup
      exact absurd ha List.not_mem_nil
  | append_singleton as a ih =>
      intro m' hallowed hrun hup hgone
      obtain ⟨m, hrun', hstep⟩ := (Machine.run_concat as a).mp hrun
      have ha := hallowed a (List.mem_append_right _ List.mem_cons_self)
      rw [trace_append as a hrun', List.filter_append]
      cases hfind : m.find name table with
      | some e =>
          obtain ⟨x, hx, hdel⟩ := messages_removed ha hstep hfind hgone
          refine ⟨x, ?_, hdel⟩
          rw [hx]
          exact List.getLast?_concat
      | none =>
          have hself : a.updates name table = false := by
            cases a with
            | sync names tables c => rfl
            | update u =>
                obtain ⟨r, hr, rfl⟩ := step_update.mp hstep
                refine decide_eq_false fun hpair => ?_
                change u.data.deleted = false at ha
                rw [find_UpdateUVE hr, if_pos hpair, ha] at hgone
                cases hgone
          rw [messages_none hstep hfind hself, List.append_nil]
          refine ih (fun b hb => hallowed b (List.mem_append_left _ hb)) hrun' ?_
            hfind
          obtain ⟨b, hb, hbup⟩ := hup
          rcases List.mem_append.mp hb with hb | hb
          · exact ⟨b, hb, hbup⟩
          · obtain rfl := List.mem_singleton.mp hb
            rw [hself] at hbup
            cases hbup

-- ============================================================== timeout

theorem noEmpty_run (as : List (Act β)) :
    ∀ {m m' : PerTypeMap β}, m.NoEmpty → (cache TM T).run m as = some m' →
      m'.NoEmpty := by
  induction as with
  | nil =>
      intro m m' hm hrun
      injection hrun with hrun
      rwa [← hrun]
  | cons a as ih =>
      intro m m' hm hrun
      obtain ⟨m₁, hstep, hrest⟩ := Option.bind_eq_some_iff.mp hrun
      refine ih ?_ hrest
      cases a with
      | update u =>
          obtain ⟨r, hr, rfl⟩ := step_update.mp hstep
          exact noEmpty_UpdateUVE hr hm
      | sync names tables c =>
          obtain ⟨hend, rfl⟩ := step_sync.mp hstep
          exact noEmpty_SyncUVE hend

theorem mark_eq_none : m.mark name table = none ↔ m.find name table = none :=
  Option.map_eq_none_iff

/-- The timeout, over every run: what is updated between two rounds is
there after the second; what is not is gone after two rounds, and its last
message says so; nothing else takes out or marks an entry. -/
theorem uve_expiry (hTM : 1 ≤ TM) (hT : T.CopiesDeleted) (as : List (Act β))
    (hallowed : ∀ a ∈ as, a.Allowed)
    (hrun : (cache TM T).run (PerTypeMap.new T) as = some m)
    (name table : Bytes) :
    (∀ before between r, as = before ++ between ++ [r] →
      r.round TM = true → (∀ a ∈ between, a.round TM = false) →
      (∃ a ∈ between, a.updates name table = true) →
      (m.find name table).isSome)
    ∧ (∀ before u since, as = before ++ u :: since →
      u.updates name table = true →
      (∀ a ∈ since, a.updates name table = false) →
      2 ≤ since.countP (Act.round TM) → m.find name table = none)
    ∧ ((∃ a ∈ as, a.updates name table = true) → m.find name table = none →
      ∃ x, ((trace TM T (PerTypeMap.new T) as).filter
          (EntryMessage.isFor name table)).getLast? = some x
        ∧ x.data.deleted = true)
    ∧ ∀ names tables c m', ¬ c.expires TM →
      (cache TM T).step m (.sync names tables c) = some m' → m' = m := by
  have hzero : TM ≠ 0 := Nat.one_le_iff_ne_zero.mp hTM
  have hmark : m.mark name table = as.foldl (life TM name table) none :=
    mark_run hzero hT as hallowed hrun
  refine ⟨?_, ?_, last_message as hallowed hrun, ?_⟩
  · intro before between r has hround hno hup
    rw [has, List.foldl_append, List.foldl_append,
      life_updated between hno hup] at hmark
    cases hfind : m.find name table with
    | some e => rfl
    | none =>
        rw [mark_eq_none.mpr hfind] at hmark
        change none = life TM name table (some false) r at hmark
        unfold life at hmark
        rw [hround] at hmark
        split at hmark
        · cases hmark
        · cases hmark
  · intro before u since has hu hsince hrounds
    rw [has, List.foldl_append, List.foldl_cons] at hmark
    have hlife : ∀ x, life TM name table x u = some false := fun x => if_pos hu
    rw [hlife, life_gone since hsince (some false) hrounds] at hmark
    exact mark_eq_none.mp hmark
  · intro names tables c m' hexp hstep
    obtain ⟨hend, rfl⟩ := step_sync.mp hstep
    refine SyncUVE_same hend (noEmpty_run as ?_ hrun)
      fun _ _ e _ => after_of_not_expires hexp e
    intro name tables hlookup
    cases hlookup

/-- The cache with one entry. -/
def oneEntry : PerTypeMap Unit :=
  ((UpdateUVE 1 copying (generatorInfo 1 .SYS_NOTICE)
    (PerTypeMap.new copying)).map fun r => r.map).getD (PerTypeMap.new copying)

/-- A periodic sync, a round of every timeout. -/
def periodic : SyncCall := ⟨[], .ST_PERIODIC, 0, 0, []⟩

/-- An update, and the round after it. -/
theorem uve_expiry_updated :
    ∃ m : PerTypeMap Unit,
      (cache 1 copying).run (PerTypeMap.new copying)
        [.update (generatorInfo 1 .SYS_NOTICE), .sync .any .any periodic] = some m
      ∧ (m.find (lit "uve1") (lit "ObjectGeneratorInfo")).isSome := by
  have hrun := (Machine.run_concat
    [Act.update (generatorInfo 1 .SYS_NOTICE)] (.sync .any .any periodic)).mpr
    ⟨oneEntry, rfl, step_sync_all .any .any rfl⟩
  refine ⟨_, hrun, (uve_expiry (Nat.le_refl 1) ?_ _ ?_ hrun _ _).1 [] [_] _ rfl
    rfl ?_ ⟨_, List.mem_cons_self, rfl⟩⟩
  · intro data tdata mono_usec level hdata _
    exact hdata
  · intro a ha
    rcases List.mem_cons.mp ha with rfl | ha
    · rfl
    · obtain rfl := List.mem_singleton.mp ha
      exact fun _ => rfl
  · intro a ha
    obtain rfl := List.mem_singleton.mp ha
    rfl

-- =========================================================== withdrawal

/-- A sync reports an entry as deleted only if it takes it out. -/
def OnlyRemoved (TM : Nat) (m : PerTypeMap β) (a : Act β) : Prop :=
  ∀ names tables c, a = .sync names tables c →
    ∀ x ∈ (SyncUVE TM names tables c m).sent, x.data.deleted = true →
      (SyncUVE TM names tables c m).map.find x.name x.table = none

/-- A sync that is not a round comes across no marked entry that it would
send. -/
def NoneMarked (TM : Nat) (m : PerTypeMap β) (a : Act β) : Prop :=
  ∀ names tables c, a = .sync names tables c → ¬ c.expires TM →
    ∀ name table e, m.find name table = some e → c.wants e.seqno →
      e.data.deleted = false

theorem onlyRemoved_of_noneMarked {a : Act β} (h : NoneMarked TM m a) :
    OnlyRemoved TM m a := by
  intro names tables c ha x hx hdel
  obtain ⟨e, hfind, hwants, hmessage, hleft⟩ := mem_sent_SyncUVE hx
  have hdel' : e.data.deleted = true := by
    rw [hmessage] at hdel
    exact hdel
  rw [hleft]
  unfold aged
  by_cases hexp : c.expires TM
  · rw [if_pos hexp, if_pos hdel']
  · have hunmarked := h names tables c ha hexp x.name x.table e hfind hwants
    rw [hunmarked] at hdel'
    cases hdel'

theorem noneMarked_of_onlyRemoved {a : Act β}
    (hstep : (cache TM T).step m a = some m') (h : OnlyRemoved TM m a) :
    NoneMarked TM m a := by
  intro names tables c ha hexp name table e hfind hwants
  subst ha
  obtain ⟨hend, -⟩ := step_sync.mp hstep
  have hsent := sent_SyncUVE hend name table
  rw [hfind] at hsent
  simp only [Option.map_some, Option.getD_some, if_pos hwants] at hsent
  have hmem : c.message name table e ∈ (SyncUVE TM names tables c m).sent := by
    refine List.mem_of_mem_filter (p := Sent.isFor name table) ?_
    rw [hsent]
    exact List.mem_cons_self
  cases hdel : e.data.deleted with
  | false => rfl
  | true =>
      have hgone := h names tables c rfl _ hmem hdel
      have hkept := find_SyncUVE hend name table
      rw [hfind] at hkept
      change _ = after TM c e at hkept
      rw [after_of_not_expires hexp] at hkept
      exact absurd (hgone.symm.trans hkept) (by simp)

/-- In every run, no entry is reported as deleted while the cache still
holds it exactly as far as only the rounds come across marked entries;
and a sync that never returns reports none either if it comes across
none. -/
theorem uve_withdrawal_iff (TM : Nat) (T : UveSandesh β) (as : List (Act β)) :
    ((cache TM T).Each (fun m a _ => OnlyRemoved TM m a) (PerTypeMap.new T) as
      ↔ (cache TM T).Each (fun m a _ => NoneMarked TM m a) (PerTypeMap.new T) as)
    ∧ ∀ (m : PerTypeMap β) (a : Act β), NoneMarked TM m a → OnlyRemoved TM m a := by
  refine ⟨?_, fun m a => onlyRemoved_of_noneMarked⟩
  refine Machine.each_iff (I := fun _ => True) ?_ (fun _ _ _ => trivial) as trivial
  intro m a m' _ hstep
  exact ⟨noneMarked_of_onlyRemoved hstep, onlyRemoved_of_noneMarked⟩

/-- `SyncAllMaps` for a collector that has nothing. -/
def resync : SyncCall := ⟨[], .ST_SYNC, 0, 0, []⟩

/-- A resync right after the round that marked the entry. -/
theorem uve_withdrawn_early :
    ¬ ∀ as : List (Act Unit), (cache 1 copying).Each
      (fun m a _ => OnlyRemoved 1 m a) (PerTypeMap.new copying) as := by
  intro h
  have hrun := (Machine.run_concat
    [Act.update (generatorInfo 1 .SYS_NOTICE)] (.sync .any .any periodic)).mpr
    ⟨oneEntry, rfl, step_sync_all .any .any rfl⟩
  have hresync : (cache 1 copying).step
      (SyncUVE 1 .any .any periodic oneEntry).map (.sync .any .any resync) = _ :=
    step_sync_all .any .any rfl
  have hends : (SyncUVE 1 .any .any periodic oneEntry).stuck = false :=
    SyncUVE_stuck.mpr fun _ _ _ _ => .inl rfl
  have hlast := Machine.each_last _ (h _) hrun hresync
  have hmarked := find_SyncUVE hends (lit "uve1") (lit "ObjectGeneratorInfo")
  have hnone := noneMarked_of_onlyRemoved hresync hlast .any .any resync rfl
    (by decide) (lit "uve1") (lit "ObjectGeneratorInfo") _ (hmarked.trans rfl)
    (.inr rfl)
  cases hnone

end Sandesh.Uve
