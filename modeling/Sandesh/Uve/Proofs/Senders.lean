/-
Concurrent senders and the numbers in the cache.

A thread draws its number before it has the entry, and an update that
finds the entry there writes its number over the one that is in it. So a
thread that was overtaken by a later number sets the entry back, and the
entry then holds an update whose number is above its own: a collector that
has seen up to the lower one does not get it again. `InTurn` says that
this does not happen at a merge. It also fails once the 32 bits of the
counter have come round.

Beside the threads stand the numbers merged into each entry (`numbers`).
-/
import Sandesh.Uve.Proofs.Group
import Sandesh.Uve.Group

namespace Sandesh.Uve

open Lib

variable {τ β : Type} [DecidableEq τ] {T : UveSandesh β} {proxy : UveData β → Bytes}

/-- The entry that a call updates. -/
def SendCall.key (proxy : UveData β → Bytes) (c : SendCall β) : Option Key :=
  (cellOf (proxy c.cdata) c.partition).map fun cell =>
    ⟨cell, c.cdata.name, c.cdata.table_⟩

/-- The numbers merged into each entry. -/
abbrev Numbers := Key → List UInt32

/-- The numbers that have been merged, behind a step. -/
def Numbers.after (proxy : UveData β → Bytes) (ns : Numbers) (s : Senders τ β) :
    SendStep τ β → Numbers
  | .merge t =>
      match s.phase t with
      | .numbered msg_seqno call =>
          match call.key proxy with
          | some k => Function.update ns k (ns k ++ [msg_seqno])
          | none => ns
      | _ => ns
  | _ => ns

/-- The senders of a type without a timeout, with the numbers merged. -/
def numbered (T : UveSandesh β) (proxy : UveData β → Bytes) :
    Machine (Senders τ β × Numbers) (SendStep τ β) :=
  (senders 0 T proxy).watch fun ns s a => ns.after proxy s a

/-- Every entry has a number at least that of each update in it, and every
sync sends again the entries with an update that is not known. -/
structure ResyncSound (T : UveSandesh β) (s : Senders τ β × Numbers) : Prop where
  seqno : ∀ k e, s.1.uvemap.find T k = some e → ∀ n ∈ s.2 k, n ≤ e.seqno
  resent : ∀ k, ∀ n ∈ s.2 k, ∀ (o : Orders) (st : SendType) (seen cycle : UInt32)
    (ctx : Bytes), seen < n →
    ∃ e, s.1.uvemap.find T k = some e
      ∧ SyncCall.message ⟨[], st, seen, cycle, ctx⟩ k.name k.table e
        ∈ (s.1.uvemap.SyncUVE 0 T o ⟨[], st, seen, cycle, ctx⟩).sent

/-- A merge does not find a number above its own. -/
def InTurn (T : UveSandesh β) (proxy : UveData β → Bytes) (s : Senders τ β) :
    SendStep τ β → Prop
  | .merge t => ∀ msg_seqno call k e, s.phase t = .numbered msg_seqno call →
      call.key proxy = some k → s.uvemap.find T k = some e → e.seqno ≤ msg_seqno
  | _ => True

/-- No call deletes. -/
def Keeps : SendStep τ β → Prop
  | .number _ call => call.data.deleted = false
  | _ => True

-- ============================================================== one step

/-- What a merge does to the entries. -/
theorem find_update {g g' : Group β} {c : SendCall β} {n : UInt32} {send : Bool}
    {cdata : UveData β} (hkeeps : c.data.deleted = false)
    (h : g.UpdateUVE 0 T proxy (c.update n) c.partition = some (send, cdata, g')) :
    ∃ key, c.key proxy = some key
      ∧ (∃ e, g'.find T key = some e ∧ e.seqno = n)
      ∧ ∀ k, k ≠ key → g'.find T k = g.find T k := by
  unfold Group.UpdateUVE at h
  obtain ⟨cell, hcell, h⟩ := Option.bind_eq_some_iff.mp h
  obtain ⟨r, hr, h⟩ := Option.bind_eq_some_iff.mp h
  injection h with h
  injection h with _ h
  injection h with _ h
  have hfind := find_UpdateUVE hr
  have hseqno : (stored 0 T (c.update n) (g.get T cell)).seqno = n := by
    unfold stored entryFor
    cases (g.get T cell).find (c.update n).data.name (c.update n).data.table_ with
    | none => rfl
    | some e => rfl
  have hdeleted : (c.update n).data.deleted = false := hkeeps
  refine ⟨⟨cell, c.cdata.name, c.cdata.table_⟩, ?_, ⟨_, ?_, hseqno⟩, fun k hk => ?_⟩
  · unfold SendCall.key
    rw [show cellOf (proxy c.cdata) c.partition = some cell from hcell]
    rfl
  · rw [← h]
    unfold Group.find
    simp only [get_put]
    rw [hfind, if_pos ⟨rfl, rfl⟩, hdeleted]
    rfl
  · rw [← h]
    by_cases heq : k.cell = cell
    · unfold Group.find
      rw [heq, get_put, hfind, if_neg]
      rintro ⟨hname, htable⟩
      exact hk (by cases k; cases heq; cases hname; cases htable; rfl)
    · exact find_put_ne heq _

/-- What one step does. -/
theorem numbered_step {s s' : Senders τ β × Numbers} {a : SendStep τ β}
    (h : (numbered T proxy).step s a = some s') :
    ((∀ t, a ≠ .merge t) ∧ s'.1.uvemap = s.1.uvemap ∧ s'.2 = s.2
      ∧ ∀ t n call, s'.1.phase t = .numbered n call →
        s.1.phase t = .numbered n call ∨ a = .number t call)
    ∨ ∃ t n call send cdata, a = .merge t ∧ s.1.phase t = .numbered n call
      ∧ s.1.uvemap.UpdateUVE 0 T proxy (call.update n) call.partition
        = some (send, cdata, s'.1.uvemap)
      ∧ s'.2 = s.2.after proxy s.1 a
      ∧ ∀ t n call, s'.1.phase t = .numbered n call →
        s.1.phase t = .numbered n call := by
  obtain ⟨hstep, hnumbers⟩ := Machine.watch_step.mp h
  replace hstep : sendStep 0 T proxy s.1 a = some s'.1 := hstep
  unfold sendStep at hstep
  cases a with
  | number t call =>
      cases hphase : s.1.phase t with
      | idle =>
          simp only [hphase] at hstep
          injection hstep with hstep
          refine .inl ⟨nofun, by rw [← hstep], hnumbers, fun t' n call' h' => ?_⟩
          rw [← hstep] at h'
          by_cases ht : t' = t
          · subst ht
            simp only [Function.update_self] at h'
            cases h'
            exact .inr rfl
          · simp only [Function.update_of_ne ht] at h'
            exact .inl h'
      | numbered n call' => simp [hphase] at hstep
      | merged n cdata level => simp [hphase] at hstep
  | dispatch t =>
      cases hphase : s.1.phase t with
      | idle => simp [hphase] at hstep
      | numbered n call' => simp [hphase] at hstep
      | merged n cdata level =>
          simp only [hphase] at hstep
          injection hstep with hstep
          refine .inl ⟨nofun, by rw [← hstep], hnumbers, fun t' n call' h' => .inl ?_⟩
          rw [← hstep] at h'
          by_cases ht : t' = t
          · subst ht
            simp only [Function.update_self] at h'
            cases h'
          · simp only [Function.update_of_ne ht] at h'
            exact h'
  | merge t =>
      cases hphase : s.1.phase t with
      | idle => simp [hphase] at hstep
      | merged n cdata level => simp [hphase] at hstep
      | numbered n call =>
          simp only [hphase] at hstep
          obtain ⟨⟨send, cdata, uvemap⟩, hupdate, hstep⟩ :=
            Option.map_eq_some_iff.mp hstep
          refine .inr ⟨t, n, call, send, cdata, rfl, hphase, ?_, hnumbers,
            fun t' n' call' h' => ?_⟩
          · rw [← hstep]
            exact hupdate
          · rw [← hstep] at h'
            by_cases ht : t' = t
            · subst ht
              simp only [Function.update_self] at h'
              split at h'
              · cases h'
              · cases h'
            · simp only [Function.update_of_ne ht] at h'
              exact h'

-- ========================================================= the invariant

/-- What holds at every step of the threads. -/
structure SendersInv (T : UveSandesh β) (s : Senders τ β × Numbers) : Prop where
  keeps : ∀ t n call, s.1.phase t = .numbered n call → call.data.deleted = false
  present : ∀ k, s.2 k ≠ [] → ∃ e, s.1.uvemap.find T k = some e
  last : ∀ k e, s.1.uvemap.find T k = some e → e.seqno ∈ s.2 k
  seqno : ∀ k e, s.1.uvemap.find T k = some e → ∀ n ∈ s.2 k, n ≤ e.seqno

omit [DecidableEq τ] in
theorem sendersInv_start : SendersInv (τ := τ) T (.new T, fun _ => []) where
  keeps := fun t n call h => by cases h
  present := fun k h => absurd rfl h
  last := fun k e h => by
    have hnone : (Group.new T).find T k = none := by
      cases k with
      | mk cell name table =>
          cases cell with
          | native => rfl
          | proxy p i => rfl
    rw [show (Senders.new (τ := τ) T).uvemap.find T k = none from hnone] at h
    cases h
  seqno := fun k e _ n hn => absurd hn List.not_mem_nil

variable {s s' : Senders τ β × Numbers} {a : SendStep τ β}

omit [DecidableEq τ] in
/-- A merge adds its number to its entry. -/
theorem numbers_merge {ns : Numbers} {t : τ} {n : UInt32} {call : SendCall β}
    {key : Key} {s : Senders τ β} (hphase : s.phase t = .numbered n call)
    (hkey : call.key proxy = some key) :
    ns.after proxy s (.merge t) = Function.update ns key (ns key ++ [n]) := by
  unfold Numbers.after
  simp only [hphase, hkey]

theorem sendersInv_step (hinv : SendersInv T s) (hkeeps : Keeps a)
    (h : (numbered T proxy).step s a = some s') (hturn : InTurn T proxy s.1 a) :
    SendersInv T s' := by
  rcases numbered_step h with ⟨-, hmap, hnumbers, hphases⟩ | hmerge
  · refine ⟨fun t n call hphase => ?_, ?_, ?_, ?_⟩
    · rcases hphases t n call hphase with hold | hnew
      · exact hinv.keeps t n call hold
      · rw [hnew] at hkeeps
        exact hkeeps
    · rw [hmap, hnumbers]
      exact hinv.present
    · rw [hmap, hnumbers]
      exact hinv.last
    · rw [hmap, hnumbers]
      exact hinv.seqno
  · obtain ⟨t, n, call, send, cdata, rfl, hphase, hupdate, hnumbers, hphases⟩ := hmerge
    obtain ⟨key, hkey, ⟨e', he', hseqno⟩, hother⟩ :=
      find_update (hinv.keeps t n call hphase) hupdate
    rw [numbers_merge hphase hkey] at hnumbers
    refine ⟨fun t' n' call' h' => hinv.keeps t' n' call' (hphases t' n' call' h'),
      fun k hk => ?_, fun k e he => ?_, fun k e he n' hn' => ?_⟩
    · by_cases heq : k = key
      · rw [heq]
        exact ⟨e', he'⟩
      · rw [hnumbers, Function.update_of_ne heq] at hk
        rw [hother k heq]
        exact hinv.present k hk
    · by_cases heq : k = key
      · subst heq
        obtain rfl := Option.some.inj (he'.symm.trans he)
        rw [hnumbers, Function.update_self, hseqno]
        exact List.mem_append_right _ List.mem_cons_self
      · rw [hother k heq] at he
        rw [hnumbers, Function.update_of_ne heq]
        exact hinv.last k e he
    · by_cases heq : k = key
      · subst heq
        obtain rfl := Option.some.inj (he'.symm.trans he)
        rw [hnumbers, Function.update_self] at hn'
        rw [hseqno]
        rcases List.mem_append.mp hn' with hold | hnew
        · -- a number that is there already is at most that of the entry
          obtain ⟨e₀, he₀⟩ := hinv.present k (List.ne_nil_of_mem hold)
          exact UInt32.le_trans (hinv.seqno k e₀ he₀ n' hold)
            (hturn n call k e₀ hphase hkey he₀)
        · rw [List.mem_singleton.mp hnew]
          exact UInt32.le_refl n
      · rw [hother k heq] at he
        rw [hnumbers, Function.update_of_ne heq] at hn'
        exact hinv.seqno k e he n' hn'

/-- A sync of all tables sends every entry that is newer. -/
theorem mem_sent_group {g : Group β} {k : Key} {e : UVEMapEntry β} {o : Orders}
    {c : SyncCall} (hall : c.table = []) (he : g.find T k = some e)
    (hwants : c.wants e.seqno) :
    c.message k.name k.table e ∈ (g.SyncUVE 0 T o c).sent := by
  have hmaps : ∀ cell, (syncAt 0 T o c g cell).stuck = false :=
    fun cell => SyncUVE_stuck.mpr fun _ _ _ _ => .inl hall
  have hnodup := nodup_cells o.proxies g
  have hends : (g.SyncUVE 0 T o c).stuck = false :=
    (syncCells_stuck _ hnodup).mpr fun cell _ => hmaps cell
  have hsent : (g.SyncUVE 0 T o c).sent = _ := syncCells_sent _ hnodup hends
  have hpart := sent_SyncUVE (hmaps k.cell) k.name k.table
  rw [show (g.get T k.cell).find k.name k.table = some e from he, Option.map_some,
    Option.getD_some, if_pos hwants] at hpart
  rw [hsent]
  refine List.mem_flatMap.mpr ⟨k.cell, mem_cells_of_find he o.proxies, ?_⟩
  apply List.mem_of_mem_filter
  rw [show (syncAt 0 T o c g k.cell).sent.filter _ = _ from hpart]
  exact List.mem_cons_self

omit [DecidableEq τ] in
theorem resyncSound_of_inv (hinv : SendersInv T s) : ResyncSound T s := by
  refine ⟨hinv.seqno, fun k n hn o st seen cycle ctx hseen => ?_⟩
  obtain ⟨e, he⟩ := hinv.present k (List.ne_nil_of_mem hn)
  refine ⟨e, he, mem_sent_group rfl he (.inl ?_)⟩
  exact UInt32.lt_of_lt_of_le hseen (hinv.seqno k e he n hn)

/-- A merge that was overtaken sets the entry back. -/
theorem inTurn_of_sound (hinv : SendersInv T s)
    (h : (numbered T proxy).step s a = some s') (hsound : ResyncSound T s') :
    InTurn T proxy s.1 a := by
  rcases numbered_step h with ⟨hnot, -⟩ | hmerge
  · cases a with
    | merge t => exact absurd rfl (hnot t)
    | number t call => trivial
    | dispatch t => trivial
  · obtain ⟨t, n, call, send, cdata, rfl, hphase, hupdate, hnumbers, -⟩ := hmerge
    intro n' call' k e hphase' hkey he
    rw [hphase] at hphase'
    injection hphase' with hn hcall
    subst hn hcall
    obtain ⟨key, hkey', ⟨e', he', hseqno⟩, -⟩ :=
      find_update (hinv.keeps t n call hphase) hupdate
    obtain rfl := Option.some.inj (hkey.symm.trans hkey')
    rw [numbers_merge hphase hkey] at hnumbers
    rw [← hseqno]
    refine hsound.seqno k e' he' e.seqno ?_
    rw [hnumbers, Function.update_self]
    exact List.mem_append_left _ (hinv.last k e he)

-- ============================================================ the results

/-- In every interleaving of any number of threads that delete nothing, the
numbers in the cache are sound after every step exactly as far as every
merge comes in turn. -/
theorem senders_sound_iff (T : UveSandesh β) (proxy : UveData β → Bytes)
    (as : List (SendStep τ β)) (hkeeps : ∀ a ∈ as, Keeps a) :
    (numbered T proxy).Each (fun _ _ s' => ResyncSound T s') (.new T, fun _ => []) as
      ↔ (numbered T proxy).Each (fun s a _ => InTurn T proxy s.1 a)
        (.new T, fun _ => []) as := by
  refine Machine.each_iff_with (M := numbered T proxy) (I := SendersInv T) ?_ ?_ as
    hkeeps sendersInv_start
  · intro s a s' hinv ha hstep
    exact ⟨inTurn_of_sound hinv hstep,
      fun hturn => resyncSound_of_inv (sendersInv_step hinv ha hstep hturn)⟩
  · intro s a s' hinv ha hstep hsound
    exact sendersInv_step hinv ha hstep (inTurn_of_sound hinv hstep hsound)

/-- A call that sends `uve1`. -/
def sendInfo : SendCall Unit :=
  ⟨(generatorInfo 0 .SYS_NOTICE).data, .SYS_NOTICE, [], 1, -1, 1⟩

/-- The entry of `uve1`. -/
def infoKey : Key := ⟨.native, lit "uve1", lit "ObjectGeneratorInfo"⟩

theorem senders_sound_one :
    (numbered copying fun _ => []).Each (fun _ _ s' => ResyncSound copying s')
      (.new copying, fun _ => []) [.number true sendInfo, .merge true] := by
  refine (senders_sound_iff copying _ _ ?_).mpr ?_
  · intro a ha
    rcases List.mem_cons.mp ha with rfl | ha
    · rfl
    · rw [List.mem_singleton.mp ha]
      trivial
  · intro s₁ h₁
    refine ⟨trivial, fun s₂ h₂ => ⟨fun n call k e hphase hkey he => ?_, trivial⟩⟩
    -- there is no entry yet
    cases h₁
    cases hphase
    cases hkey
    cases he

/-- Two threads with one entry: the first draws 1, the second draws 2 and
merges, and then the first. The entry is left with 1, and a collector that
has seen 1 does not get the update 2. -/
theorem senders_overtaken :
    ¬ (numbered copying fun _ => []).Each (fun _ _ s' => ResyncSound copying s')
      (.new copying, fun _ => [])
      ([.number true sendInfo, .number false sendInfo, .merge false] ++ [.merge true]) := by
  intro h
  have hsound := Machine.each_last _ h rfl rfl
  have hle := hsound.seqno infoKey _ rfl 2 (by decide)
  exact absurd hle (by decide)

end Sandesh.Uve
