/-
Under the watch everything comes to an end.

The transport only gets shorter, and a tag that was read whole has taken
something from it. So a loop over fields turns no more often than there
are bytes, and `skip` goes no deeper: each nested struct or container
starts with a tag of its own. Care is needed at the end of the input,
where the reader still hands out bytes: `peek2` finds the old `data2_`
there, and behind it a tag may even be closed by an old `>`. That is the
one case in which a tag is good without its delimiter, and the tag after
it fails (`tag_behind`, `tag_peeked`).
-/
import Sandesh.Xml.Proofs.Watch

namespace Sandesh.Xml

open Lib Prog LookaheadReader

-- ====================================================== between reads

/-- Between two reads. -/
structure At (n : Nat) (r : LookaheadReader) : Prop where
  two : r.has2Data_ = false
  size : r.trans.length ≤ n
  out : r.ranOut = true → r.trans = []

/-- Before a tag, perhaps with two bytes of it looked at. -/
structure Peeked (n : Nat) (r : LookaheadReader) : Prop where
  one : r.hasData_ = false
  size : r.trans.length < n
  out : r.ranOut = true → r.trans = []

/-- Right behind a tag. -/
structure Behind (n : Nat) (r : LookaheadReader) : Prop
    extends Peeked n r where
  two : r.has2Data_ = false

/-- Behind a tag is between two reads. -/
theorem Behind.between {n : Nat} {r : LookaheadReader} (h : Behind n r) :
    At n r where
  two := h.two
  size := Nat.le_of_lt h.size
  out := h.out

/-- The bound made exact. -/
theorem Behind.tight {n : Nat} {r : LookaheadReader} (h : Behind n r) :
    Behind (r.trans.length + 1) r :=
  { h with size := Nat.lt_succ_self _ }

/-- `At` survives every move that only takes bytes. -/
theorem At.moves {n : Nat} {r r' : LookaheadReader} (h : At n r)
    (hmoves : Moves r r') : At n r' where
  two := hmoves.two h.two
  size := hmoves.size.trans h.size
  out := hmoves.out h.out

/-- Nothing is looked ahead at when both flags are down. -/
theorem look_eq_nil {r : LookaheadReader} :
    r.look = [] ↔ r.hasData_ = false ∧ r.has2Data_ = false := by
  obtain ⟨trans, hasData_, data_, has2Data_, data2_, firstRead_, ranOut⟩ := r
  cases hasData_ <;> cases has2Data_ <;> cases firstRead_ <;>
    simp [look, held, held2]

/-- Between reads at most one byte is held. -/
theorem At.look_le {n : Nat} {r : LookaheadReader} (h : At n r) :
    r.look.length ≤ 1 := by
  have htwo := h.two
  rw [look, held, held2, htwo]
  cases r.hasData_ <;> simp

/-- Before a tag at most two are. -/
theorem Peeked.look_le {n : Nat} {r : LookaheadReader} (h : Peeked n r) :
    r.look.length ≤ 2 := by
  have hone := h.one
  rw [look, held, held2, hone]
  cases r.has2Data_ <;> cases r.firstRead_ <;> simp

/-- What is still to be read: the bytes held and the transport. -/
theorem stream_length (r : LookaheadReader) :
    r.stream.length = r.look.length + r.trans.length :=
  List.length_append

-- ============================================================ one tag

/-- `read` takes the head of the stream, from the held bytes first. -/
theorem read_tail (r : LookaheadReader) :
    r.read.2.stream = r.stream.tail ∧ r.read.2.look = r.look.tail := by
  cases hr : r.stream with
  | nil =>
      have hlook : r.look = [] := by
        rw [stream, List.append_eq_nil_iff] at hr
        exact hr.1
      rw [read_nil hr, hlook]
      exact ⟨hr, hlook⟩
  | cons c t =>
      obtain ⟨r', hread, hstream, hlook, -⟩ := read_cons hr
      rw [hread]
      exact ⟨hstream, hlook⟩

/-- A match takes its own length. -/
theorem matchSyntax_drop (str : Bytes) :
    ∀ {r : LookaheadReader}, (matchSyntax str r).1 = true →
      (matchSyntax str r).2.stream = r.stream.drop str.length
        ∧ (matchSyntax str r).2.look = r.look.drop str.length := by
  induction str with
  | nil =>
      intro r _
      exact ⟨rfl, rfl⟩
  | cons ch str ih =>
      intro r hm
      rw [matchSyntax] at hm ⊢
      by_cases hc : r.read.1 ≠ ch
      · rw [if_pos hc] at hm
        cases hm
      · rw [if_neg hc] at hm ⊢
        obtain ⟨hstream, hlook⟩ := ih hm
        rw [hstream, hlook, (read_tail r).1, (read_tail r).2,
          List.drop_tail, List.drop_tail]
        exact ⟨rfl, rfl⟩

/-- With `data2_` out of the way, `data_` is the last byte matched. -/
theorem matchSyntax_data {endTag : Bool} {r : LookaheadReader}
    (htwo : r.has2Data_ = false)
    (hm : (matchSyntax (tagOpen endTag) r).1 = true) :
    (matchSyntax (tagOpen endTag) r).2.data_ ≠ kcXMLTagC := by
  have htwo' := (moves_read r).two htwo
  cases endTag with
  | false =>
      simp only [tagOpen, Bool.false_eq_true, if_false, matchSyntax] at hm ⊢
      by_cases hc : r.read.1 ≠ kcXMLTagO
      · rw [if_pos hc] at hm
        cases hm
      · rw [if_neg hc, read_data_eq htwo, not_not.mp hc]
        decide
  | true =>
      simp only [tagOpen, if_true, matchSyntax] at hm ⊢
      by_cases hc : r.read.1 ≠ kcXMLTagO
      · rw [if_pos hc] at hm
        cases hm
      · rw [if_neg hc] at hm ⊢
        by_cases hc' : r.read.2.read.1 ≠ kcXMLSlash
        · rw [if_pos hc'] at hm
          cases hm
        · rw [if_neg hc', read_data_eq htwo', not_not.mp hc']
          decide

section Tag

variable {endTag : Bool} {r r' : LookaheadReader} {ret : Int} {str : Bytes}

/-- A tag that was read whole ended at its `>`, or at an old one. -/
theorem tag_done (hruns : (readXMLTag endTag).Runs r (.ok (ret, str)) r')
    (hret : 0 ≤ ret) :
    (∃ k, 2 ≤ k ∧ k ≤ r.stream.length ∧ r'.stream = r.stream.drop k
        ∧ r'.look = r.look.drop k ∧ r'.ranOut = r.ranOut)
      ∨ (matchSyntax (tagOpen endTag) r).1 = true
        ∧ (matchSyntax (tagOpen endTag) r).2.data_ = kcXMLTagC
        ∧ r'.stream = [] := by
  rw [runs_readXMLTag] at hruns
  by_cases hm : (matchSyntax (tagOpen endTag) r).1 = true
  · rw [if_pos hm] at hruns
    obtain ⟨hstream₁, hlook₁⟩ := matchSyntax_drop _ hm
    have hopen : 1 ≤ (tagOpen endTag).length := by
      cases endTag <;> decide
    by_cases hmem : kcXMLTagC ∈ (matchSyntax (tagOpen endTag) r).2.stream
    · obtain ⟨s, rest, hstream, hs⟩ := List.eq_append_cons_of_mem hmem
      obtain ⟨r'', hloop, hrest, hlook, hout⟩ := tagLoop_runs s rest hs _
        ((tagOpen endTag).length, []) hstream
      obtain ⟨-, rfl⟩ := hruns.unique hloop
      have hdrop : rest = r.stream.drop
          ((tagOpen endTag).length + (s.length + 1)) := by
        rw [← List.drop_drop, ← hstream₁, hstream, List.drop_append,
          List.drop_eq_nil_of_le (Nat.le_succ _)]
        simp
      have hlen := congrArg List.length (hstream₁.symm.trans hstream)
      rw [List.length_drop, List.length_append, List.length_cons] at hlen
      refine .inl ⟨(tagOpen endTag).length + (s.length + 1), by omega,
        by omega, hrest.trans hdrop, ?_, ?_⟩
      · rw [hlook, hlook₁, List.drop_drop]
      · rw [hout, matchSyntax_ranOut _ (.inl (List.ne_nil_of_mem hmem))]
    · obtain ⟨htrans, hdata⟩ :=
        (tagLoop_returns.mp ⟨_, _, hruns⟩).resolve_left hmem
      obtain ⟨_, r'', hloop, hend, -⟩ := tagLoop_stale _ hmem
        ((tagOpen endTag).length, []) rfl htrans hdata
      obtain ⟨-, rfl⟩ := hruns.unique hloop
      exact .inr ⟨hm, hdata, hend⟩
  · rw [if_neg hm, runs_pure] at hruns
    injection hruns.1 with hval
    injection hval with hret' _
    rw [hret'] at hret
    exact absurd hret (by decide)

/-- Behind a tag nothing is looked at any more. -/
theorem behind_of_look {n : Nat} (hmoves : Moves r r') (hlook : r'.look = [])
    (hout : r.ranOut = true → r.trans = []) (hsize : r'.trans.length < n) :
    Behind n r' where
  one := (look_eq_nil.mp hlook).1
  two := (look_eq_nil.mp hlook).2
  size := hsize
  out := hmoves.out hout

/-- A good tag read between reads had its delimiter, and took a byte. -/
theorem tag_behind {n : Nat} (h : At n r)
    (hruns : (readXMLTag endTag).Runs r (.ok (ret, str)) r')
    (hret : 0 ≤ ret) : Behind n r' ∧ r'.ranOut = false := by
  have hmoves := (readOp_always (.tag endTag) hruns).1
  have hlen := stream_length r
  have hlook := h.look_le
  have hsize := h.size
  rcases tag_done hruns hret with ⟨k, hk, hle, hstream, hlook', hout⟩
    | ⟨hm, hdata, -⟩
  · have hnil : r'.look = [] := by
      rw [hlook']
      exact List.drop_eq_nil_of_le (hlook.trans (by omega))
    have hlen' := stream_length r'
    rw [hstream, hnil, List.length_drop, List.length_nil] at hlen'
    refine ⟨behind_of_look hmoves hnil h.out (by omega), ?_⟩
    rw [hout, Bool.eq_false_iff]
    intro hran
    rw [h.out hran, List.length_nil] at hlen
    omega
  · exact absurd hdata (matchSyntax_data h.two hm)

/-- With two bytes looked at, a good tag still took something from the
transport. -/
theorem tag_peeked {n : Nat} (h : Peeked n r)
    (hruns : (readXMLTag endTag).Runs r (.ok (ret, str)) r')
    (hret : 0 ≤ ret) : Behind n r' := by
  have hmoves := (readOp_always (.tag endTag) hruns).1
  have hlen := stream_length r
  have hlook := h.look_le
  have hsize := h.size
  rcases tag_done hruns hret with ⟨k, hk, hle, hstream, hlook', -⟩
    | ⟨-, -, hend⟩
  · have hnil : r'.look = [] := by
      rw [hlook']
      exact List.drop_eq_nil_of_le (hlook.trans hk)
    exact behind_of_look hmoves hnil h.out
      (Nat.lt_of_le_of_lt hmoves.size hsize)
  · rw [stream, List.append_eq_nil_iff] at hend
    exact behind_of_look hmoves hend.1 h.out
      (Nat.lt_of_le_of_lt hmoves.size hsize)

end Tag

-- ======================================================= watched reads

/-- A read under the watch stops, and what it may promise is what the
code's read does when it is good. -/
theorem total_get {P : LookaheadReader → Prop}
    {Q : Int × Bytes → LookaheadReader → Prop} (op : ReadOp)
    (h : ∀ r ret str r', P r → op.code.Runs r (.ok (ret, str)) r' →
      0 ≤ ret → Q (ret, str) r') : Total P (Reads.watched.get op) Q := by
  intro r hr
  by_cases hret : op.Returns r
  · obtain ⟨res, r', hruns⟩ := (returns_iff op r).mpr hret
    obtain ⟨-, ⟨ret, str⟩, rfl, -⟩ := readOp_always op hruns
    have hread : (Reads.watched.read op).Runs r (.ok (ret, str)) r' := by
      refine runs_guard.mpr ?_
      rw [if_pos hret]
      exact hruns
    by_cases hneg : ret < 0
    · refine ⟨.error (.fault .failed), r', hread.bind_ok ?_, ?_⟩
      · rw [if_pos hneg]
        exact runs_throw.mpr ⟨rfl, rfl⟩
      · intro a ha
        cases ha
    · refine ⟨.ok (ret, str), r', hread.bind_ok ?_, ?_⟩
      · rw [if_neg hneg]
        exact runs_pure.mpr ⟨rfl, rfl⟩
      · intro a ha
        injection ha with ha
        exact ha ▸ h r ret str r' hr hruns (Int.not_lt.mp hneg)
  · have hread : (Reads.watched.read op).Runs r (.error .watch) r := by
      refine runs_guard.mpr ?_
      rw [if_neg hret]
      exact ⟨rfl, rfl⟩
    refine ⟨.error .watch, r, hread.bind_error, ?_⟩
    intro a ha
    cases ha

section Reads

variable {n : Nat}

/-- Under the watch every read comes back, between two reads again. -/
theorem total_op (op : ReadOp) :
    Total (At n) (Reads.watched.get op) fun _ => At n := by
  refine total_get op ?_
  intro r ret str r' hr hruns _
  exact hr.moves (readOp_always op hruns).1

/-- `tag_behind` for the watched read. -/
theorem total_tag (endTag : Bool) :
    Total (At n) (Reads.watched.get (.tag endTag)) fun _ r =>
      Behind n r ∧ r.ranOut = false := by
  refine total_get _ ?_
  intro r ret str r' hr hruns hret
  exact tag_behind hr hruns hret

/-- `tag_peeked` for the watched read. -/
theorem total_tag_peeked (endTag : Bool) :
    Total (Peeked n) (Reads.watched.get (.tag endTag)) fun _ => Behind n := by
  refine total_get _ ?_
  intro r ret str r' hr hruns hret
  exact tag_peeked hr hruns hret

/-- Pure work changes nothing. -/
theorem total_lift {α : Type} {P : LookaheadReader → Prop}
    (x : Except Fault α) : Total P (lift x) fun _ => P := by
  cases x with
  | ok a => exact total_pure fun _ h => h
  | error f => exact total_throw

/-- A function of the result changes nothing. -/
theorem total_map {α β : Type} {P : LookaheadReader → Prop}
    {Q : LookaheadReader → Prop} {m : Read α} {f : α → β}
    (hm : Total P m fun _ => Q) : Total P (f <$> m) fun _ => Q :=
  total_bind hm fun _ => total_pure fun _ h => h

/-- A tag and its tokens, from wherever a tag may start. -/
theorem total_tokens {P Q : LookaheadReader → Prop}
    (h : Total P (Reads.watched.get (.tag false)) fun _ => Q) :
    Total P (readTagTokens Reads.watched) fun _ => Q := by
  refine total_bind h fun ⟨ret, str⟩ => ?_
  cases htokens : tokens str with
  | nil =>
      simp only [htokens]
      exact total_throw
  | cons name rest =>
      simp only [htokens]
      exact total_pure fun _ h => h

variable (W : World)

/-- The opening tag of a message, with its delimiter. -/
theorem total_readSandeshBegin :
    Total (At n) (readSandeshBegin Reads.watched) fun _ r =>
      Behind n r ∧ r.ranOut = false := by
  refine total_bind (total_tokens (total_tag false)) fun _ => ?_
  exact total_bind (total_lift _) fun _ => total_pure fun _ h => h

/-- The opening tag of a container. -/
theorem total_readContainerBegin {σ : Type} (name : Bytes)
    (attrs : List (Attr σ)) (s : σ) :
    Total (At n) (readContainerBegin Reads.watched name attrs s) fun _ =>
      Behind n := by
  refine total_bind (total_tokens (total_tag false)) fun _ => ?_
  refine total_ite (fun _ => total_throw) fun _ => ?_
  exact total_bind (total_lift _) fun _ => total_pure fun _ h => h.1

/-- Looking two bytes ahead before a tag. -/
theorem total_peek2 : Total (Peeked n) peek2Char fun _ => Peeked n := by
  intro r hr
  refine ⟨_, _, runs_act.mpr rfl, ?_⟩
  intro _ _
  obtain ⟨hone, hsize, hout⟩ := hr
  obtain ⟨trans, hasData_, data_, has2Data_, data2_, firstRead_, ranOut⟩ := r
  cases has2Data_ with
  | true => exact ⟨hone, hsize, hout⟩
  | false =>
      match trans with
      | [] => exact ⟨hone, hsize, fun _ => rfl⟩
      | [b] => exact ⟨hone, Nat.lt_of_succ_lt hsize, fun _ => rfl⟩
      | b :: c :: trans =>
          refine ⟨hone, Nat.lt_of_succ_lt (Nat.lt_of_succ_lt hsize), ?_⟩
          intro hran
          cases hout hran

/-- A field's tag, and where it leaves the reader. -/
theorem total_readFieldBegin (ftype : TType) (fid : BitVec 16) :
    Total (Behind n) (readFieldBegin W Reads.watched ftype fid) fun x r =>
      Peeked n r ∧ (x.2.1 ≠ .T_STOP → Behind n r) := by
  refine total_bind (total_conseq total_peek2 (fun _ h => h.toPeeked)
    fun _ _ h => h) fun _ => ?_
  refine total_bind total_peek2 fun _ => ?_
  refine total_ite (fun _ => total_pure ?_) fun _ => ?_
  · intro r hr
    exact ⟨hr, fun hne => absurd rfl hne⟩
  · refine total_bind (total_tokens (total_tag_peeked false)) fun _ => ?_
    refine total_bind (total_lift _) fun _ => total_pure ?_
    intro r hr
    exact ⟨hr.toPeeked, fun _ => hr⟩

-- ================================================================ skip

/-- One turn of a loop over fields: with `m` bytes to go it leaves, or goes
on with fewer. -/
theorem total_fieldTurn {α β τ : Type} {m : Nat} (ftype : TType)
    (fid : BitVec 16) (value : Int × TType × BitVec 16 → Read β)
    (hvalue : ∀ x, Total (At m) (value x) fun _ => At m)
    (leave : Int × TType × BitVec 16 → α)
    (next : Int × TType × BitVec 16 → β → Int → τ) :
    Total (Behind (m + 1)) (do
      let x ← readFieldBegin W Reads.watched ftype fid
      if x.2.1 = .T_STOP then Pure.pure (.inr (leave x))
      else
        let v ← value x
        let ret ← readFieldEnd Reads.watched
        Pure.pure (.inl (next x v ret)) : Read (τ ⊕ α)) fun y r =>
      Sum.elim (fun _ => Behind m r) (fun _ => Peeked (m + 1) r) y := by
  refine total_bind (total_readFieldBegin W ftype fid) fun x => ?_
  refine total_ite (fun _ => total_pure fun _ h => h.1) fun hne => ?_
  have hstart : ∀ r, Peeked (m + 1) r ∧ (x.2.1 ≠ .T_STOP →
      Behind (m + 1) r) → At m r := by
    intro r hex
    obtain ⟨-, h⟩ := hex
    have hr := h hne
    exact { hr.between with size := Nat.le_of_lt_succ hr.size }
  refine total_bind (total_conseq (hvalue x) hstart fun _ _ h => h)
    fun _ => ?_
  refine total_bind (total_map (total_tag true)) fun _ => total_pure ?_
  intro r hr
  exact hr.1

/-- The loop over fields, when the values are dealt with below `n`. -/
theorem total_fieldLoop {α τ : Type} {body : τ → Read (τ ⊕ α)}
    (hbody : ∀ m, m < n → ∀ t, Total (Behind (m + 1)) (body t) fun y r =>
      Sum.elim (fun _ => Behind m r) (fun _ => Peeked (m + 1) r) y) (t : τ) :
    Total (Behind n) (Prog.loop body t) fun _ => Peeked n := by
  refine total_loop (I := fun _ => Behind n) (fun r => r.trans.length) ?_ t
  intro t m r hex
  obtain ⟨hr, rfl⟩ := hex
  obtain ⟨res, r', hruns, hpost⟩ := hbody _ hr.size t r hr.tight
  refine ⟨res, r', hruns, ?_⟩
  intro y hy
  have hy' := hpost y hy
  cases y with
  | inl t₁ => exact ⟨{ hy' with size := hy'.size.trans hr.size }, hy'.size⟩
  | inr a =>
      exact { hy' with size := Nat.lt_of_lt_of_le hy'.size hr.size }

/-- The loop over fields: each turn takes at least one byte. -/
theorem total_skipFields {g : TType → Read Int}
    (hg : ∀ m, m < n → ∀ t, Total (At m) (g t) fun _ => At m)
    (result : Int) :
    Total (Behind n) (skipFields W Reads.watched g result) fun _ =>
      Peeked n := by
  refine total_fieldLoop (fun m hm t => ?_) _
  exact total_fieldTurn W t.2.1 t.2.2 (fun x => g x.2.1)
    (fun x => hg m hm x.2.1) (fun x => t.1 + x.1)
    (fun x ret2 ret3 => (t.1 + x.1 + ret2 + ret3, x.2.1, x.2.2))

/-- The loop over elements runs its count. -/
theorem total_skipElems {x : Read Int} (hx : Total (At n) x fun _ => At n) :
    ∀ (k : Nat) (result : Int),
      Total (At n) (skipElems x k result) fun _ => At n := by
  intro k
  induction k with
  | zero =>
      intro result
      exact total_pure fun _ h => h
  | succ k ih =>
      intro result
      exact total_bind hx fun ret => ih (result + ret)

end Reads

/-- `skip` comes back on all bytes, by induction on how many there are. -/
theorem total_skip (W : World) (n : Nat) :
    ∀ t, Total (At n) (skip W Reads.watched t) fun _ => At n := by
  induction n using Nat.strongRecOn with
  | ind n ih =>
      -- what follows a tag is shorter by at least one byte
      have hshort : ∀ r, Behind n r → At (n - 1) r := by
        intro r hr
        exact { hr.between with size := Nat.le_sub_one_of_lt hr.size }
      have hafter : ∀ r, At (n - 1) r → At n r := by
        intro r hr
        exact { hr with size := hr.size.trans (Nat.sub_le n 1) }
      have hstruct : ∀ result, Total (Behind n) (do
          let result ← skipFields W Reads.watched (skip W Reads.watched) result
          let ret ← readStructEnd Reads.watched
          Pure.pure (result + ret)) fun _ => At n := by
        intro result
        refine total_bind (total_skipFields W ih result) fun _ => ?_
        refine total_bind (total_map (total_tag_peeked true)) fun _ => ?_
        exact total_pure fun _ h => h.between
      have helems : ∀ (x : Read Int) (k : Nat) (result : Int),
          (0 < n → Total (At (n - 1)) x fun _ => At (n - 1)) →
          Total (Behind n) (do
            let result ← skipElems x k result
            let ret ← readContainerEnd Reads.watched
            Pure.pure (result + ret)) fun _ => At n := by
        intro x k result hx r hr
        have hpos : 0 < n := Nat.lt_of_le_of_lt (Nat.zero_le _) hr.size
        refine total_bind (total_skipElems (hx hpos) k result) (fun _ => ?_)
          r (hshort r hr)
        refine total_bind (total_map (total_op _)) fun _ => ?_
        exact total_pure hafter
      intro t
      apply total_fix
      cases t with
      | T_BOOL => exact total_map (total_op _)
      | T_STRING => exact total_map (total_op _)
      | T_XML => exact total_map (total_op _)
      | T_UUID => exact total_map (total_op _)
      | T_BYTE => exact total_map (total_map (total_op _))
      | T_I16 => exact total_map (total_map (total_op _))
      | T_I32 => exact total_map (total_map (total_op _))
      | T_I64 => exact total_map (total_map (total_op _))
      | T_U16 => exact total_map (total_map (total_op _))
      | T_U32 => exact total_map (total_map (total_op _))
      | T_U64 => exact total_map (total_map (total_op _))
      | T_IPV4 => exact total_map (total_map (total_op _))
      | T_IPADDR =>
          refine total_bind (total_op _) fun _ => ?_
          exact total_ite (fun _ => total_pure fun _ h => h)
            fun _ => total_throw
      | T_DOUBLE => exact total_throw
      | T_STRUCT =>
          refine total_bind (total_conseq (total_tag false) (fun _ h => h)
            fun _ _ h => h.1) fun _ => ?_
          exact hstruct _
      | T_SANDESH =>
          refine total_bind (total_conseq total_readSandeshBegin
            (fun _ h => h) fun _ _ h => h.1) fun _ => ?_
          exact hstruct _
      | T_MAP =>
          refine total_bind (total_readContainerBegin _ _ _) fun _ => ?_
          refine helems _ _ _ fun hpos => ?_
          have hlt := Nat.sub_lt hpos Nat.one_pos
          refine total_bind (ih _ hlt _) fun _ => ?_
          refine total_bind (ih _ hlt _) fun _ => ?_
          exact total_pure fun _ h => h
      | T_SET =>
          refine total_bind (total_readContainerBegin _ _ _) fun _ => ?_
          exact helems _ _ _ fun hpos => ih _ (Nat.sub_lt hpos Nat.one_pos) _
      | T_LIST =>
          refine total_bind (total_readContainerBegin _ _ _) fun _ => ?_
          exact helems _ _ _ fun hpos => ih _ (Nat.sub_lt hpos Nat.one_pos) _
      | T_STOP => exact total_pure fun _ h => h
      | T_VOID => exact total_pure fun _ h => h
      | T_UTF8 => exact total_pure fun _ h => h
      | T_UTF16 => exact total_pure fun _ h => h

end Sandesh.Xml
