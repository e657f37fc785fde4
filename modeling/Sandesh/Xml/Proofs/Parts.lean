/-
The reads go through a message part by part.

A reader and what is left for the parts stand at the same place (`Stands`):
the same bytes come next, and behind the last of them both find the same two
old bytes and the same `>`. One read under the watch is then one part
(`takes_read`): it takes the same text, it is refused where the part is, and
the watch stops it where the part's delimiter is missing. From there on the
operations follow the parts construct by construct (`Follows`), down to
`skip`, which follows the value of its type.
-/
import Sandesh.Xml.Parts
import Sandesh.Xml.Proofs.Runs

namespace Sandesh.Xml

open Lib Prog LookaheadReader

-- =========================================================== standing

/-- The reader is where `l` is left. -/
structure Stands (l : Left) (r : LookaheadReader) : Prop where
  stream : r.stream = l.bytes
  pair : r.data2_ = l.pair
  looked : r.has2Data_ = l.looked
  out : r.ranOut = l.out
  dry : r.ranOut = true → r.trans = []
  first : r.firstRead_ = false
  one : l.looked = true → r.hasData_ = false
  /-- the last byte that was read is the `>` of a tag or of a section -/
  last : r.hasData_ = false → r.data_ = kcXMLTagC

/-- Between two reads, of which the first left at most one byte peeked. -/
structure Between (l : Left) (r : LookaheadReader) : Prop extends Stands l r where
  two : l.looked = false

/-- Right behind a tag. -/
structure Bare (l : Left) (r : LookaheadReader) : Prop extends Between l r where
  none : r.hasData_ = false

/-- What was read is what was left, but for the front. -/
theorem Stands.moves {l : Left} {r r' : LookaheadReader} (h : Stands l r) (hmoves : Moves r r')
    (htwo : r'.has2Data_ = false) (hlast : r'.hasData_ = false → r'.data_ = kcXMLTagC)
    {bytes : Bytes} (hstream : r'.stream = bytes) {out : Bool} (hout : r'.ranOut = out) :
    Between ⟨bytes, l.pair, false, out⟩ r' where
  stream := hstream
  pair := hmoves.pair.trans h.pair
  looked := htwo
  out := hout
  dry := hmoves.out h.dry
  first := by
    rw [Bool.eq_false_iff]
    intro hfirst
    have htwo' := hmoves.first (fun hf => absurd hf (by rw [h.first]; exact Bool.false_ne_true))
      hfirst
    rw [htwo] at htwo'
    cases htwo'
  one := by
    intro hlooked
    cases hlooked
  last := hlast
  two := rfl

/-- Between reads, what is ahead is what is left. -/
theorem Between.ahead {l : Left} {r : LookaheadReader} (h : Between l r) :
    r.ahead = l.bytes := by
  have hs := h.stream
  rw [stream, look, held2, h.looked.trans h.two] at hs
  simpa [LookaheadReader.ahead] using hs

/-- With nothing left nothing is peeked. -/
theorem Between.nothing {l : Left} {r : LookaheadReader} (h : Between l r)
    (hnil : l.bytes = []) : r.hasData_ = false := by
  have hahead := h.ahead.trans hnil
  rw [LookaheadReader.ahead, held, List.append_eq_nil_iff] at hahead
  by_contra hne
  rw [if_pos (Bool.of_not_eq_false hne)] at hahead
  cases hahead.1

/-- How many bytes may be held. -/
theorem Stands.look_le {l : Left} {r : LookaheadReader} (h : Stands l r) :
    r.look.length ≤ if l.looked then 2 else 1 := by
  rw [look, held, held2, h.looked, h.first]
  cases hl : l.looked with
  | true =>
      rw [h.one hl]
      simp
  | false => cases r.hasData_ <;> simp

-- ============================================================ openings

/-- Bytes that are matched without the reader running out. -/
theorem prefix_of_match_le (str : Bytes) :
    ∀ {r : LookaheadReader}, str.length ≤ r.stream.length →
      (matchSyntax str r).1 = true → str <+: r.stream := by
  induction str with
  | nil =>
      intro r _ _
      exact List.nil_prefix
  | cons ch str ih =>
      intro r hlen hm
      rw [matchSyntax] at hm
      by_cases hc : r.read.1 ≠ ch
      · rw [if_pos hc] at hm
        cases hm
      · rw [if_neg hc] at hm
        cases hr : r.stream with
        | nil =>
            rw [hr] at hlen
            cases hlen
        | cons c t =>
            obtain ⟨r', hread, hstream, -, -⟩ := read_cons hr
            rw [hread] at hc hm
            rw [hr] at hlen
            have heq : c = ch := not_not.mp hc
            have hrest := ih (by rw [hstream]; exact Nat.le_of_succ_le_succ hlen) hm
            rw [hstream] at hrest
            rw [heq]
            exact List.cons_prefix_cons.mpr ⟨rfl, hrest⟩

/-- Behind the last byte that byte is found again, so a row in which no two
neighbours are the same is matched only where it is. -/
theorem prefix_of_match_apart (str : Bytes) :
    ∀ {r : LookaheadReader} {d : UInt8}, r.has2Data_ = false →
      (r.stream = [] → r.data_ = d) → List.IsChain (· ≠ ·) (d :: str) →
      (matchSyntax str r).1 = true → str <+: r.stream := by
  induction str with
  | nil =>
      intro r d _ _ _ _
      exact List.nil_prefix
  | cons ch str ih =>
      intro r d htwo hdata hchain hm
      rw [matchSyntax] at hm
      rw [List.isChain_cons_cons] at hchain
      by_cases hc : r.read.1 ≠ ch
      · rw [if_pos hc] at hm
        cases hm
      · rw [if_neg hc] at hm
        have hold := read_data_eq htwo
        cases hr : r.stream with
        | nil =>
            rw [read_nil hr, hdata hr] at hc
            exact absurd (not_not.mp hc) hchain.1
        | cons c t =>
            have htwo' := (moves_read r).two htwo
            obtain ⟨r', hread, hstream, -, -⟩ := read_cons hr
            rw [hread] at hc hm hold htwo'
            have heq : c = ch := not_not.mp hc
            have hrest := ih htwo' (fun _ => hold.trans heq) hchain.2 hm
            rw [hstream] at hrest
            rw [heq]
            exact List.cons_prefix_cons.mpr ⟨rfl, hrest⟩

/-- Matching syntax only takes bytes. -/
theorem moves_matchSyntax (str : Bytes) :
    ∀ r : LookaheadReader, Moves r (matchSyntax str r).2 := by
  induction str with
  | nil => exact Moves.refl
  | cons ch str ih =>
      intro r
      rw [matchSyntax]
      by_cases hc : r.read.1 ≠ ch
      · rw [if_pos hc]
        exact moves_read r
      · rw [if_neg hc]
        exact (moves_read r).trans (ih _)

/-- An opening is matched where it is. -/
theorem Stands.match_iff {l : Left} {r : LookaheadReader} (h : Stands l r) (str : Bytes)
    (hstr : List.IsChain (· ≠ ·) (kcXMLTagC :: str)) (hlen : l.looked = true → str.length ≤ 2) :
    (matchSyntax str r).1 = true ↔ str <+: l.bytes := by
  rw [← h.stream]
  constructor
  · intro hm
    cases hl : l.looked with
    | true =>
        refine prefix_of_match_le str ((hlen hl).trans ?_) hm
        have htwo := h.looked.trans hl
        rw [stream_length, LookaheadReader.look, held2, htwo, h.first, List.length_append]
        simp only [if_true, Bool.false_eq_true, if_false, List.length_cons, List.length_nil]
        omega
    | false =>
        refine prefix_of_match_apart str (h.looked.trans hl) ?_ hstr hm
        intro hnil
        refine h.last (look_eq_nil.mp ?_).1
        rw [LookaheadReader.stream, List.append_eq_nil_iff] at hnil
        exact hnil.1
  · rintro ⟨s, hs⟩
    exact matchSyntax_stream str hs.symm

-- ====================================================== watched reads

/-- What a snag is to the reads: the watch, or a fault; that the input ran
out is kept apart from a -1, which does not tell. -/
def Snag.Fits : Snag → Abort → LookaheadReader → Prop
  | .missing, e, _ => e = .watch
  | .refused f out, e, r => e = .fault f ∧ (f ≠ .failed → r.ranOut = out)

/-- A read has found what the part finds. -/
def Taken (Q : Int → Left → LookaheadReader → Prop) (x : Except Snag (Bytes × Left))
    (res : Except Abort (Int × Bytes)) (r : LookaheadReader) : Prop :=
  match x with
  | .ok (text, l) => ∃ n, res = .ok (n, text) ∧ Q n l r
  | .error o => ∃ e, res = .error e ∧ o.Fits e r

section Watched

variable {op : ReadOp} {r r' r₁ : LookaheadReader} {n : Int} {text : Bytes}
  {res : Except Abort (Int × Bytes)}

/-- A read that returns is the same under the watch. -/
theorem watched_read (hcode : op.code.Runs r (.ok (n, text)) r₁) :
    (Reads.watched.read op).Runs r (.ok (n, text)) r₁ := by
  refine runs_guard.mpr ?_
  rw [if_pos ((returns_iff op r).mp ⟨_, _, hcode⟩)]
  exact hcode

/-- A read that comes back is made under the watch. -/
theorem watched_ok (hcode : op.code.Runs r (.ok (n, text)) r₁) (hn : 0 ≤ n)
    (hruns : (Reads.watched.get op).Runs r res r') : res = .ok (n, text) ∧ r' = r₁ := by
  refine hruns.unique ((watched_read hcode).bind_ok ?_)
  rw [if_neg (Int.not_lt.mpr hn)]
  exact runs_pure.mpr ⟨rfl, rfl⟩

/-- A read that fails ends the reading. -/
theorem watched_failed (hcode : op.code.Runs r (.ok (-1, text)) r₁)
    (hruns : (Reads.watched.get op).Runs r res r') : res = .error (.fault .failed) := by
  have hfail : (Reads.watched.get op).Runs r (.error (.fault .failed)) r₁ := by
    refine (watched_read hcode).bind_ok ?_
    rw [if_pos (show (-1 : Int) < 0 by decide)]
    exact runs_throw.mpr ⟨rfl, rfl⟩
  exact (hruns.unique hfail).1

/-- One that does not is stopped before it begins. -/
theorem watched_never (hcode : ¬ op.code.Halts r)
    (hruns : (Reads.watched.get op).Runs r res r') : res = .error .watch := by
  have hread : (Reads.watched.read op).Runs r (.error .watch) r := by
    refine runs_guard.mpr ?_
    rw [if_neg fun h => hcode ((returns_iff op r).mpr h)]
    exact ⟨rfl, rfl⟩
  exact (hruns.unique hread.bind_error).1

end Watched

-- =============================================================== a tag

/-- The `>` of a tag is in `data_` then. -/
theorem Stands.closed {l : Left} {r r' : LookaheadReader} (h : Stands l r) (hmoves : Moves r r')
    {s rest : Bytes} (hs : s ≠ []) (hbytes : l.bytes = s ++ kcXMLTagC :: rest)
    (htrans : r'.trans = rest) : r'.data_ = kcXMLTagC := by
  obtain ⟨p, hp, hdata⟩ := hmoves.took
  have hstream := h.stream
  rw [hbytes, LookaheadReader.stream, hp, htrans, ← List.singleton_append, ← List.append_assoc,
    ← List.append_assoc] at hstream
  have hfront := List.append_cancel_right hstream
  rcases List.eq_nil_or_concat p with rfl | ⟨p', c, rfl⟩
  · -- both bytes of the tag were looked at
    rw [hdata]
    refine h.last (Bool.eq_false_iff.mpr fun hone => ?_)
    rw [List.append_nil] at hfront
    have hle := h.look_le
    have hlen := List.length_pos_iff.mpr hs
    rw [hfront, List.length_append, List.length_singleton] at hle
    cases hl : l.looked with
    | true =>
        rw [h.one hl] at hone
        cases hone
    | false =>
        rw [hl, if_neg Bool.false_ne_true] at hle
        omega
  · rw [List.concat_eq_append, ← List.append_assoc] at hfront
    rw [hdata, List.concat_eq_append, List.getLastD_concat]
    exact List.singleton_inj.mp (List.append_inj' hfront rfl).2

/-- Cut at the first byte that is not `p`. -/
theorem takeWhile_cut {p : UInt8 → Bool} {s : Bytes} (rest : Bytes) {c : UInt8}
    (hs : ∀ d ∈ s, p d = true) (hc : p c = false) :
    (s ++ c :: rest).takeWhile p = s ∧ (s ++ c :: rest).dropWhile p = c :: rest := by
  have hstop : ¬ p c = true := by
    rw [hc]
    exact Bool.false_ne_true
  constructor
  · rw [List.takeWhile_append_of_pos hs, List.takeWhile_cons_of_neg hstop, List.append_nil]
  · rw [List.dropWhile_append_of_pos hs, List.dropWhile_cons_of_neg hstop]

section Takes

variable {l : Left} {r r' : LookaheadReader} {res : Except Abort (Int × Bytes)}

/-- A tag that has been opened, and its `>` is there. -/
theorem takes_closed {endTag : Bool} {s rest : Bytes} (h : Stands l r) (hs : kcXMLTagC ∉ s)
    (hbytes : l.bytes = tagOpen endTag ++ (s ++ kcXMLTagC :: rest))
    (hruns : (Reads.watched.get (.tag endTag)).Runs r res r') :
    ∃ n, res = .ok (n, s) ∧ 0 < n ∧ Bare (l.behind rest) r' := by
  have hm := matchSyntax_stream _ (h.stream.trans hbytes)
  obtain ⟨hstream, hlook⟩ := matchSyntax_drop _ hm
  rw [h.stream, hbytes, List.drop_left] at hstream
  obtain ⟨r₁, hloop, hrest, hlook', hout⟩ := tagLoop_runs s rest hs _
    ((tagOpen endTag).length, []) hstream
  have hread : (ReadOp.tag endTag).code.Runs r
      (.ok ((tagOpen endTag).length + s.length + 1, s)) r₁ := by
    rw [ReadOp.code, runs_readXMLTag, if_pos hm]
    exact hloop
  obtain ⟨rfl, rfl⟩ := watched_ok hread (by omega) hruns
  have hmoves := (readOp_always (.tag endTag) hread).1
  have hnil : r'.look = [] := by
    have hle := h.look_le
    rw [hlook', hlook, List.drop_drop]
    refine List.drop_eq_nil_of_le (hle.trans ?_)
    have hopen : 1 ≤ (tagOpen endTag).length := by
      cases endTag <;> decide
    split <;> omega
  obtain ⟨hone, htwo⟩ := look_eq_nil.mp hnil
  have hran : r'.ranOut = l.out := by
    rw [hout, matchSyntax_ranOut _ (.inl ?_), h.out]
    rw [hstream]
    simp
  have htrans : r'.trans = rest := by
    rw [← hrest, LookaheadReader.stream, hnil, List.nil_append]
  have hlast : r'.data_ = kcXMLTagC := by
    refine h.closed hmoves (s := tagOpen endTag ++ s) ?_ ?_ htrans
    · cases endTag <;> exact List.cons_ne_nil _ _
    · rw [hbytes, List.append_assoc]
  refine ⟨_, rfl, by omega, ⟨?_, hone⟩⟩
  exact h.moves hmoves htwo (fun _ => hlast) hrest hran

/-- Of a tag that was looked at the transport has what is behind two bytes. -/
theorem Stands.looked_trans (h : Stands l r) (hlooked : l.looked = true) :
    r.trans.length + 2 = l.bytes.length := by
  have hlen := stream_length r
  rw [h.stream, LookaheadReader.look, held, held2, h.looked, hlooked, h.first,
    h.one hlooked] at hlen
  simp only [if_true, Bool.false_eq_true, if_false, List.nil_append, List.length_cons,
    List.length_nil] at hlen
  omega

/-- A tag that was looked at, and is closed by the `>` before it. -/
theorem takes_stale {endTag : Bool} {s : Bytes} (h : Stands l r) (hs : kcXMLTagC ∉ s)
    (hbytes : l.bytes = tagOpen endTag ++ s) (hlooked : l.looked = true)
    (hlen : l.bytes.length = 2)
    (hruns : (Reads.watched.get (.tag endTag)).Runs r res r') :
    ∃ n, res = .ok (n, s) ∧ 0 < n ∧ Bare { l.behind [] with out := true } r' := by
  have hm := matchSyntax_stream _ (h.stream.trans hbytes)
  obtain ⟨hstream, -⟩ := matchSyntax_drop _ hm
  rw [h.stream, hbytes, List.drop_left] at hstream
  have htrans : r.trans = [] := by
    have hlen' := h.looked_trans hlooked
    exact List.length_eq_zero_iff.mp (by omega)
  obtain ⟨p, hp, hdata⟩ := (moves_matchSyntax (tagOpen endTag) r).took
  rw [htrans] at hp
  obtain ⟨rfl, hdry⟩ := List.append_eq_nil_iff.mp hp.symm
  obtain ⟨ret, r₁, hloop, hend, hran⟩ := tagLoop_stale s hs ((tagOpen endTag).length, [])
    hstream hdry (hdata.trans (h.last (h.one hlooked)))
  have hread : (ReadOp.tag endTag).code.Runs r (.ok (ret, s)) r₁ := by
    rw [ReadOp.code, runs_readXMLTag, if_pos hm]
    exact hloop
  have hpos : 0 < ret := by
    obtain ⟨-, x, hx, hret⟩ := tagLoop_always _ hloop
    obtain rfl := Except.ok.inj hx
    refine lt_of_lt_of_le ?_ hret
    cases endTag <;> decide
  obtain ⟨rfl, rfl⟩ := watched_ok hread hpos.le hruns
  have hmoves := (readOp_always (.tag endTag) hread).1
  have hnil : r'.look = [] := by
    rw [LookaheadReader.stream, List.append_eq_nil_iff] at hend
    exact hend.1
  obtain ⟨hone, htwo⟩ := look_eq_nil.mp hnil
  obtain ⟨p, hp, hdata⟩ := hmoves.took
  rw [htrans] at hp
  obtain ⟨rfl, -⟩ := List.append_eq_nil_iff.mp hp.symm
  have hlast := hdata.trans (h.last (h.one hlooked))
  exact ⟨_, rfl, hpos, h.moves hmoves htwo (fun _ => hlast) hend hran, hone⟩

/-- A tag takes what the grammar cuts off, and something at least. -/
theorem takes_tag (endTag : Bool) (h : Stands l r)
    (hruns : (Reads.watched.get (.tag endTag)).Runs r res r') :
    Taken (fun n l r => 0 < n ∧ Bare l r) (l.tag endTag) res r' := by
  have hmatch := h.match_iff (tagOpen endTag) (by cases endTag <;> decide)
    fun _ => by cases endTag <;> decide
  rw [Left.tag]
  by_cases hopen : tagOpen endTag <+: l.bytes
  · obtain ⟨text, htext⟩ := id hopen
    rw [if_pos hopen, ← htext, List.drop_left]
    dsimp only
    by_cases hin : kcXMLTagC ∈ text
    · obtain ⟨s, rest, rfl, hs⟩ := List.eq_append_cons_of_mem hin
      have hcut := takeWhile_cut (p := (· != kcXMLTagC)) (s := s) rest
        (fun d hd => bne_iff_ne.mpr fun heq => hs (heq ▸ hd)) (bne_self_eq_false _)
      rw [if_pos hin, hcut.1, hcut.2, List.tail_cons]
      exact takes_closed h hs htext.symm hruns
    · rw [if_neg hin, htext]
      by_cases hold : l.looked = true ∧ l.bytes.length = 2
      · rw [if_pos hold]
        exact takes_stale h hin htext.symm hold.1 hold.2 hruns
      · rw [if_neg hold]
        refine ⟨_, watched_never (fun hhalts => ?_) hruns, rfl⟩
        have hm := hmatch.mpr hopen
        obtain ⟨hstream, hlook⟩ := matchSyntax_drop _ hm
        rw [h.stream, ← htext, List.drop_left] at hstream
        refine tagLoop_never (hstream ▸ hin) ?_ ((halts_opened runs_readXMLTag).mp hhalts hm)
        intro hdry
        cases hl : l.looked with
        | false => exact matchSyntax_data (h.looked.trans hl) hm
        | true =>
            -- more than the two bytes is left, and the opening is of these
            have hlen := h.looked_trans hl
            have hlen₁ := stream_length (matchSyntax (tagOpen endTag) r).2
            have hle := h.look_le
            rw [hstream, hdry, hlook, List.length_drop, List.length_nil] at hlen₁
            rw [hl, if_pos rfl] at hle
            have hall := congrArg List.length htext
            rw [List.length_append] at hall
            have hopened : 1 ≤ (tagOpen endTag).length ∧ (tagOpen endTag).length ≤ 2 := by
              cases endTag <;> decide
            exact absurd ⟨hl, by omega⟩ hold
  · rw [if_neg hopen]
    have hm : ¬ (matchSyntax (tagOpen endTag) r).1 = true := fun hm => hopen (hmatch.mp hm)
    have hread : (ReadOp.tag endTag).code.Runs r (.ok (-1, []))
        (matchSyntax (tagOpen endTag) r).2 := by
      rw [ReadOp.code, runs_readXMLTag, if_neg hm]
      exact runs_pure.mpr ⟨rfl, rfl⟩
    exact ⟨_, watched_failed hread hruns, rfl, fun hne => absurd rfl hne⟩

/-- Characters up to one that stops them. -/
theorem takes_chars {op : ReadOp} {stop : UInt8 → Bool} (hop : op.code = charsLoop stop (0, []))
    (h : Between l r) (hend : l.bytes = [] → stop kcXMLTagC = false)
    (hruns : (Reads.watched.get op).Runs r res r') :
    Taken (fun n l r => 0 ≤ n ∧ Between l r) (l.chars stop) res r' := by
  rw [Left.chars]
  by_cases hany : l.bytes.any stop = true
  · obtain ⟨s, c, rest, hbytes, hs, hc⟩ := exists_first (List.any_eq_true.mp hany)
    have hread := charsLoop_runs s rest hs hc r (0, []) (h.ahead.trans hbytes)
    rw [← hop] at hread
    obtain ⟨rfl, rfl⟩ := watched_ok hread (by simp) hruns
    have hcut := takeWhile_cut (p := fun c => !stop c) (s := s) rest (c := c)
      (fun d hd => by rw [hs d hd]; rfl) (by rw [hc]; rfl)
    have hmoves := (readOp_always op hread).1
    rw [if_pos hany, hbytes, hcut.1, hcut.2]
    refine ⟨_, rfl, by simp, ?_⟩
    refine h.moves hmoves (h.looked.trans h.two) ?_ ?_ h.out
    · intro hone
      cases hone
    · have htwo := h.looked.trans h.two
      simp [LookaheadReader.stream, LookaheadReader.look, held, held2, htwo]
  · rw [if_neg hany]
    refine ⟨_, watched_never ?_ hruns, rfl⟩
    rw [hop, charsLoop_returns, h.ahead]
    rintro (hmem | ⟨hnil, hdata⟩)
    · exact hany (List.any_eq_true.mpr hmem)
    · rw [h.last (h.nothing hnil), hend hnil] at hdata
      cases hdata

/-- A number that has nothing left to read ends at the `>`. -/
theorem takes_none (h : Between l r) (hnil : l.bytes = [])
    (hruns : (Reads.watched.get .numeric).Runs r res r') :
    ∃ n, res = .ok (n, []) ∧ 0 ≤ n
      ∧ Between { l.behind [kcXMLTagC] with out := true } r' := by
  have hahead := h.ahead.trans hnil
  have hdata := h.last (h.nothing hnil)
  have hread : (ReadOp.numeric).code.Runs r (.ok (0, []))
      { r with hasData_ := true, ranOut := true } :=
    charsLoop_stale (0, []) hahead (by rw [hdata]; decide)
  obtain ⟨rfl, rfl⟩ := watched_ok hread (Int.le_refl 0) hruns
  have hmoves := (readOp_always .numeric hread).1
  have htwo := h.looked.trans h.two
  refine ⟨_, rfl, Int.le_refl 0, h.moves hmoves htwo ?_ ?_ rfl⟩
  · intro hone
    cases hone
  · have htrans : r.trans = [] := by
      rw [LookaheadReader.ahead, List.append_eq_nil_iff] at hahead
      exact hahead.2
    simp [LookaheadReader.stream, LookaheadReader.look, held, held2, htwo, htrans, hdata,
      Left.behind]

/-- A section ends at the first `]]>`. -/
theorem cutCData_first {s : Bytes} (hs : ¬ kXMLCDATAC <:+: s) (rest : Bytes) :
    cutCData (s ++ (kXMLCDATAC ++ rest)) = some (s, rest) := by
  induction s with
  | nil => exact if_pos (List.prefix_append kXMLCDATAC rest)
  | cons c s ih =>
      have htail := ih fun h => hs (List.infix_cons_iff.mpr (.inr h))
      have hearly : ¬ kXMLCDATAC <+: c :: (s ++ (kXMLCDATAC ++ rest)) := cdata_early hs rest
      rw [List.cons_append, cutCData, if_neg hearly, htail]
      rfl

/-- Without `]]>` there is no section. -/
theorem cutCData_none {s : Bytes} (hs : ¬ kXMLCDATAC <:+: s) : cutCData s = none := by
  induction s with
  | nil => rfl
  | cons c s ih =>
      rw [List.infix_cons_iff, not_or] at hs
      rw [cutCData, if_neg hs.1, ih hs.2]
      rfl

/-- A section that has been opened, and its `]]>` is there. -/
theorem takes_section (h : Between l r) {s rest : Bytes} (hs : ¬ kXMLCDATAC <:+: s)
    (hm : (matchSyntax kXMLCDATAO r).1 = true)
    (hone : (matchSyntax kXMLCDATAO r).2.hasData_ = false)
    (htwo : (matchSyntax kXMLCDATAO r).2.has2Data_ = false)
    (hahead : (matchSyntax kXMLCDATAO r).2.ahead = s ++ (kXMLCDATAC ++ rest))
    (hbytes : l.bytes = kXMLCDATAO ++ (s ++ (kXMLCDATAC ++ rest)))
    (hruns : (Reads.watched.get .cdata).Runs r res r') :
    ∃ n, res = .ok (n, s) ∧ 0 ≤ n ∧ Between (l.behind rest) r' := by
  obtain ⟨ret, r₁, hloop, hcounted, hrest⟩ := cdataLoop_first rest hs
    (t := ⟨kXMLCDATAO.length, [], none, none⟩) (fun h => absurd rfl h) hahead
  have hread : (ReadOp.cdata).code.Runs r (.ok (ret, s)) r₁ := by
    rw [ReadOp.code, runs_readXMLCDATA, if_pos hm]
    exact hloop
  have hpos : 0 ≤ ret := le_trans (by decide) hcounted.le
  obtain ⟨rfl, rfl⟩ := watched_ok hread hpos hruns
  have hmoves := (readOp_always .cdata hread).1
  have hone' := hcounted.one hone
  have htwo' := hcounted.two.trans htwo
  have htrans : r'.trans = rest := by
    rw [← hrest, LookaheadReader.ahead, held, hone']
    rfl
  have hstream : r'.stream = rest := by
    rw [LookaheadReader.stream, look_eq_nil.mpr ⟨hone', htwo'⟩, List.nil_append, htrans]
  have hout : r'.ranOut = l.out := by
    rw [hcounted.ranOut, matchSyntax_ranOut _ (.inr ?_), h.out]
    rw [hahead]
    simp [kXMLCDATAC]
  have hlast : r'.data_ = kcXMLTagC := by
    refine h.closed hmoves (s := kXMLCDATAO ++ s ++ [kcXMLSBracketC, kcXMLSBracketC])
      (by simp) ?_ htrans
    rw [hbytes]
    simp [kXMLCDATAC]
  exact ⟨_, rfl, hpos, h.moves hmoves htwo' (fun _ => hlast) hstream hout⟩

/-- A section takes what the grammar cuts off. -/
theorem takes_cdata (h : Between l r) (hruns : (Reads.watched.get .cdata).Runs r res r') :
    Taken (fun n l r => 0 ≤ n ∧ Between l r) l.cdata res r' := by
  have hmatch := h.match_iff kXMLCDATAO (by decide) fun hl => by
    rw [h.two] at hl
    cases hl
  rw [Left.cdata]
  by_cases hopen : kXMLCDATAO <+: l.bytes
  · obtain ⟨text, htext⟩ := id hopen
    have hm := hmatch.mpr hopen
    obtain ⟨hstream, hlook⟩ := matchSyntax_drop _ hm
    rw [h.stream, ← htext, List.drop_left] at hstream
    have hnil : (matchSyntax kXMLCDATAO r).2.look = [] := by
      have hle := h.look_le
      rw [h.two, if_neg Bool.false_ne_true] at hle
      rw [hlook]
      exact List.drop_eq_nil_of_le (hle.trans (by decide))
    obtain ⟨hone, htwo⟩ := look_eq_nil.mp hnil
    have hahead : (matchSyntax kXMLCDATAO r).2.ahead = text := by
      rw [LookaheadReader.stream, hnil] at hstream
      rw [LookaheadReader.ahead, held, hone]
      exact hstream
    rw [if_pos hopen, ← htext, List.drop_left]
    by_cases hin : kXMLCDATAC <:+: text
    · obtain ⟨s, rest, rfl, hs⟩ := exists_first_cdata hin
      rw [cutCData_first hs]
      exact takes_section h hs hm hone htwo hahead htext.symm hruns
    · rw [cutCData_none hin]
      refine ⟨_, watched_never (fun hhalts => ?_) hruns, rfl⟩
      refine cdataLoop_never (hahead ▸ hin) ((halts_opened runs_readXMLCDATA).mp hhalts hm)
  · rw [if_neg hopen]
    have hm : ¬ (matchSyntax kXMLCDATAO r).1 = true := fun hm => hopen (hmatch.mp hm)
    have hread : (ReadOp.cdata).code.Runs r (.ok (-1, [])) (matchSyntax kXMLCDATAO r).2 := by
      rw [ReadOp.code, runs_readXMLCDATA, if_neg hm]
      exact runs_pure.mpr ⟨rfl, rfl⟩
    exact ⟨_, watched_failed hread hruns, rfl, fun hne => absurd rfl hne⟩

end Takes

-- ============================================================ following

section Follow

variable (W : World) {α β τ : Type}

/-- A count, and the parts follow from there. -/
def Counts (size : α → Int) (x : α) (l : Left) (r : LookaheadReader) : Prop :=
  0 ≤ size x ∧ Between l r

/-- A read follows the grammar if it takes what is cut off. -/
theorem follows_taken {op : ReadOp} {P : Left → LookaheadReader → Prop}
    {Q : Int → Left → LookaheadReader → Prop}
    (h : ∀ {l r res r'}, P l r → (Reads.watched.get op).Runs r res r' →
      Taken Q (l.read op) res r') :
    Follows (parts W) Snag.Fits P [.read op] (Reads.watched.get op) (fun _ => [])
      fun x => Q x.1 := by
  refine follows_step fun l r res r' hl hruns => ?_
  have htaken := h hl hruns
  have hturn : (parts W).turn (.read op) l = (l.read op).map fun x => ([], x.2) := rfl
  rw [hturn]
  cases hread : l.read op with
  | ok x =>
      rw [hread] at htaken
      obtain ⟨n, rfl, hQ⟩ := htaken
      exact .inl ⟨(n, x.1), x.2, rfl, rfl, hQ⟩
  | error o =>
      rw [hread] at htaken
      obtain ⟨e, rfl, hfits⟩ := htaken
      exact .inr ⟨e, o, rfl, rfl, hfits⟩

/-- A tag. -/
theorem follows_tag (endTag : Bool) :
    Follows (parts W) Snag.Fits Stands [.read (.tag endTag)] (Reads.watched.get (.tag endTag))
      (fun _ => []) fun x l r => 0 < x.1 ∧ Bare l r :=
  follows_taken W (takes_tag endTag)

/-- A text. -/
theorem follows_string :
    Follows (parts W) Snag.Fits Between [.read .string] (Reads.watched.get .string)
      (fun _ => []) (Counts Prod.fst) :=
  follows_taken W (P := Between) (Q := fun n l r => 0 ≤ n ∧ Between l r) fun h hruns =>
    takes_chars rfl h (fun _ => by decide) hruns

/-- The digits of a number. -/
theorem follows_numeric :
    Follows (parts W) Snag.Fits Between [.read .numeric] (Reads.watched.get .numeric)
      (fun _ => []) (Counts Prod.fst) := by
  refine follows_taken W (Q := fun n l r => 0 ≤ n ∧ Between l r) fun {l r res r'} h hruns => ?_
  rw [Left.read]
  by_cases hnil : l.bytes = []
  · rw [if_pos hnil]
    exact takes_none h hnil hruns
  · rw [if_neg hnil]
    exact takes_chars rfl h (fun hnil' => absurd hnil' hnil) hruns

/-- A CDATA section. -/
theorem follows_cdata :
    Follows (parts W) Snag.Fits Between [.read .cdata] (Reads.watched.get .cdata)
      (fun _ => []) (Counts Prod.fst) :=
  follows_taken W takes_cdata

/-- The end tag of anything. -/
theorem follows_end :
    Follows (parts W) Snag.Fits Stands [.read (.tag true)]
      (Prod.fst <$> Reads.watched.get (.tag true)) (fun _ => [])
      fun n l r => 0 ≤ n ∧ Bare l r :=
  (follows_tag W true).map (fun _ => rfl) fun _ _ _ h => ⟨h.1.le, h.2⟩

/-- An open tag, up to what it asks for. -/
theorem follows_tokens (use : Use) :
    Follows (parts W) Snag.Fits Stands [.opened use] (readTagTokens Reads.watched)
      (fun x => [.begun use x.2.1 x.2.2]) fun x l r => 0 < x.1 ∧ Bare l r := by
  refine follows_step fun l r res r' hl hruns => ?_
  unfold readTagTokens at hruns
  rcases runs_bind.mp hruns with ⟨⟨n, str⟩, r₁, hget, hrest⟩ | ⟨e, hget, rfl⟩
  · have htaken := takes_tag false hl hget
    cases htag : l.tag false with
    | error o =>
        rw [htag] at htaken
        obtain ⟨e, heq, -⟩ := htaken
        cases heq
    | ok x =>
        rw [htag] at htaken
        obtain ⟨n', heq, hpos, hbare⟩ := htaken
        obtain ⟨rfl, rfl⟩ := Prod.mk.inj (Except.ok.inj heq)
        cases htokens : tokens x.1 with
        | nil =>
            have hturn : (parts W).turn (.opened use) l = x.2.refused .token := by
              simp only [parts, Part.turn, htag, Bind.bind, Except.bind, htokens]
            simp only [htokens] at hrest
            obtain ⟨rfl, rfl⟩ := runs_throw.mp hrest
            exact .inr ⟨_, _, rfl, hturn, rfl, fun _ => hbare.out⟩
        | cons name rest =>
            have hturn : (parts W).turn (.opened use) l
                = .ok ([.begun use name rest], x.2) := by
              simp only [parts, Part.turn, htag, Bind.bind, Except.bind, htokens]
            simp only [htokens] at hrest
            obtain ⟨rfl, rfl⟩ := runs_pure.mp hrest
            exact .inl ⟨_, _, rfl, hturn, hpos, hbare⟩
  · have htaken := takes_tag false hl hget
    cases htag : l.tag false with
    | error o =>
        rw [htag] at htaken
        obtain ⟨e', heq, hfits⟩ := htaken
        obtain rfl := Except.error.inj heq
        have hturn : (parts W).turn (.opened use) l = .error o := by
          simp only [parts, Part.turn, htag]
          rfl
        exact .inr ⟨_, _, rfl, hturn, hfits⟩
    | ok x =>
        rw [htag] at htaken
        obtain ⟨n', heq, -⟩ := htaken
        cases heq

/-- Pure work on the tokens of an open tag. -/
theorem follows_begun {P : Left → LookaheadReader → Prop} (use : Use) (name : Bytes)
    (rest : List Bytes) {x : Except Fault α} {c : α → List Part}
    (hparts : use.parts W name rest = x.map c) (hout : ∀ l r, P l r → r.ranOut = l.out) :
    Follows (parts W) Snag.Fits P [.begun use name rest] (lift x) c fun _ => P := by
  refine follows_step fun l r res r' hl hruns => ?_
  have hturn : (parts W).turn (.begun use name rest) l = l.put (use.parts W name rest) := rfl
  rw [hturn, hparts]
  cases x with
  | ok a =>
      obtain ⟨rfl, rfl⟩ := runs_pure.mp hruns
      exact .inl ⟨a, l, rfl, rfl, hl⟩
  | error f =>
      obtain ⟨rfl, rfl⟩ := runs_throw.mp hruns
      exact .inr ⟨_, _, rfl, rfl, rfl, fun _ => hout _ _ hl⟩

/-- The opening tag of a message. -/
theorem follows_readSandeshBegin :
    Follows (parts W) Snag.Fits Stands [.opened .sandesh] (readSandeshBegin Reads.watched)
      (fun _ => []) fun x l r => 0 < x.1 ∧ Bare l r := by
  refine (follows_tokens W .sandesh).bind fun x => follows_given fun hpos => ?_
  refine (follows_begun W .sandesh _ _ (c := fun _ => []) rfl fun l r h => h.out).bind fun _ => ?_
  exact follows_pure (fun l r h => ⟨hpos, h⟩) rfl

/-- What a field takes the place of, once its type is known. -/
def afterField (x : Int × TType × BitVec 16) : List Part :=
  if x.2.1 = .T_STOP then []
  else [.value x.2.1, .read (.tag true), .fields x.2.1 x.2.2]

/-- Two bytes looked at. -/
theorem Bare.peeked {l : Left} {r : LookaheadReader} (h : Bare l r) :
    (r.peek2.1, r.peek2.2.peek2.1) = l.look.pair ∧ Stands l.look r.peek2.2.peek2.2 := by
  obtain ⟨bytes, pair, looked, out⟩ := l
  obtain ⟨trans, hasData_, data_, has2Data_, data2_, firstRead_, ranOut⟩ := r
  obtain ⟨⟨⟨hstream, hpair, hlooked, hout, hdry, hfirst, -, hlast⟩, htwo⟩, hnone⟩ := h
  dsimp only at hpair hlooked hout hdry hfirst hlast htwo hnone
  subst hpair hout hnone htwo hlooked hfirst
  have hbytes : trans = bytes := hstream
  subst hbytes
  rcases trans with - | ⟨a, - | ⟨b, t⟩⟩
  · exact ⟨rfl, rfl, rfl, rfl, rfl, fun _ => rfl, rfl, fun _ => rfl, hlast⟩
  · exact ⟨rfl, rfl, rfl, rfl, rfl, fun _ => rfl, rfl, fun _ => rfl, hlast⟩
  · refine ⟨rfl, rfl, rfl, rfl, rfl, fun hran => ?_, rfl, fun _ => rfl, hlast⟩
    cases hdry hran

/-- The tag of a field, and what is still to be skipped behind it. -/
theorem follows_readFieldBegin (ftype : TType) (fid : BitVec 16) :
    Follows (parts W) Snag.Fits Bare [.fields ftype fid]
      (readFieldBegin W Reads.watched ftype fid) afterField fun x l r =>
        0 ≤ x.1 ∧ Stands l r ∧ (x.2.1 ≠ .T_STOP → Bare l r) := by
  intro l r res r' hl hruns K
  obtain ⟨hpair, hstands⟩ := hl.peeked
  have hnext : (parts W).Next ([.fields ftype fid] ++ K, l)
      ((if l.look.pair = (kcXMLTagO, kcXMLSlash) then []
        else [.opened (.field ftype fid)]) ++ K, l.look) := StackMachine.next_of_turn rfl
  unfold readFieldBegin at hruns
  rw [runs_peek2Char, runs_peek2Char] at hruns
  by_cases hend : l.look.pair = (kcXMLTagO, kcXMLSlash)
  · rw [if_pos hend] at hnext
    rw [← hpair, Prod.mk.injEq] at hend
    rw [if_pos hend] at hruns
    obtain ⟨rfl, rfl⟩ := runs_pure.mp hruns
    exact .inl ⟨_, l.look, rfl, .single hnext, Int.le_refl 0, hstands, fun hne => absurd rfl hne⟩
  · rw [if_neg hend] at hnext
    rw [← hpair, Prod.mk.injEq] at hend
    rw [if_neg hend] at hruns
    have hfollows : Follows (parts W) Snag.Fits Stands [.opened (.field ftype fid)]
        (readTagTokens Reads.watched >>= fun x =>
          lift (readAttrs (fieldAttrs W) x.2.2 none (ftype, fid)) >>= fun y =>
            Pure.pure (x.1, y.1, y.2)) afterField fun x l r =>
        0 ≤ x.1 ∧ Stands l r ∧ (x.2.1 ≠ .T_STOP → Bare l r) := by
      refine (follows_tokens W _).bind fun x => follows_given fun hpos => ?_
      refine (follows_begun W (.field ftype fid) _ _ (c := fun y => afterField (x.1, y))
        rfl fun l r h => h.out).bind fun y => ?_
      exact follows_pure (fun l r h => ⟨hpos.le, h.toStands, fun _ => h⟩) rfl
    exact (hfollows hstands hruns K).from (.single hnext)

/-- The open tag of a container, and what it puts in its place. -/
theorem follows_container {σ : Type} (use : Use) {name : Bytes} {attrs : List (Attr σ)} {s : σ}
    {types : σ → List TType} {size : σ → BitVec 32}
    (hparts : ∀ first rest, use.parts W first rest
      = containerParts name first rest attrs s types size) :
    Follows (parts W) Snag.Fits Stands [.opened use]
      (readContainerBegin Reads.watched name attrs s)
      (fun x => [.rounds (types x.2) (size x.2).toNat, .read (.tag true)])
      fun x l r => 0 < x.1 ∧ Bare l r := by
  refine (follows_tokens W use).bind fun x => follows_given fun hpos => ?_
  refine follows_ite (fun hname => ?_) fun hname => ?_
  · refine follows_throw fun l r h => ⟨.refused .failed l.out, ?_, rfl, fun hne => absurd rfl hne⟩
    show l.put _ = _
    rw [hparts, containerParts, if_pos hname]
    rfl
  · have hbegun := follows_begun W (P := Bare) use x.2.1 x.2.2
      (x := readAttrs attrs x.2.2 none s)
      (c := fun s => [.rounds (types s) (size s).toNat, .read (.tag true)])
      (by rw [hparts, containerParts, if_neg hname]) fun l r h => h.out
    refine hbegun.bind fun s => ?_
    exact follows_pure (fun l r h => ⟨hpos, h⟩) rfl

/-- The elements of a container. -/
theorem follows_skipElems {ts : List TType} {elem : Read Int}
    (h : Follows (parts W) Snag.Fits Between (ts.map .value) elem (fun _ => []) (Counts id))
    (n : Nat) : ∀ result, 0 ≤ result → Follows (parts W) Snag.Fits Between [.rounds ts n]
      (skipElems elem n result) (fun _ => []) (Counts id) := by
  induction n with
  | zero =>
      intro result hresult
      refine Follows.turn (l := []) ?_ fun _ _ _ => rfl
      exact follows_pure (fun l r h => ⟨hresult, h⟩) rfl
  | succ n ih =>
      intro result hresult
      refine Follows.turn (l := ts.map .value ++ [.rounds ts n]) ?_ fun _ _ _ => rfl
      rw [List.append_nil]
      refine (h.frame [.rounds ts n]).bind fun ret => follows_given fun hret => ?_
      exact ih (result + ret) (Int.add_nonneg hresult hret)

/-- One turn of a loop over fields: the value is followed, whatever reads it. -/
theorem follows_fieldTurn (ftype : TType) (fid : BitVec 16)
    {value : Int × TType × BitVec 16 → Read β} {size : β → Int}
    (hvalue : ∀ x, Follows (parts W) Snag.Fits Between [.value x.2.1] (value x) (fun _ => [])
      (Counts size))
    {leave : Int × TType × BitVec 16 → α} {next : Int × TType × BitVec 16 → β → Int → τ}
    {k : τ → List Part} {I : τ → Left → LookaheadReader → Prop}
    {Q : α → Left → LookaheadReader → Prop}
    (hleave : ∀ x l r, 0 ≤ x.1 → Stands l r → Q (leave x) l r)
    (hk : ∀ x v ret, k (next x v ret) = [.fields x.2.1 x.2.2])
    (hnext : ∀ x v ret l r, 0 ≤ x.1 → 0 ≤ size v → 0 ≤ ret → Bare l r → I (next x v ret) l r) :
    Follows (parts W) Snag.Fits Bare [.fields ftype fid] (do
      let x ← readFieldBegin W Reads.watched ftype fid
      if x.2.1 = .T_STOP then Pure.pure (.inr (leave x))
      else
        let v ← value x
        let ret ← readFieldEnd Reads.watched
        Pure.pure (.inl (next x v ret)) : Read (τ ⊕ α)) (Sum.elim k fun _ => [])
      (Sum.elim I Q) := by
  refine (follows_readFieldBegin W ftype fid).bind fun x => follows_given fun hx => ?_
  rw [afterField]
  refine follows_ite (fun hstop => ?_) fun hstop => ?_
  · rw [if_pos hstop]
    exact follows_pure (fun l r h => hleave x l r hx h.1) rfl
  · rw [if_neg hstop]
    have hbegin := ((hvalue x).frame [.read (.tag true), .fields x.2.1 x.2.2]).conseq
      (A := fun l r => Stands l r ∧ (x.2.1 ≠ .T_STOP → Bare l r))
      (fun l r h => (h.2 hstop).toBetween) fun _ _ _ h => h
    refine hbegin.bind fun v => follows_given fun hv => ?_
    have hend := ((follows_end W).frame [.fields x.2.1 x.2.2]).conseq
      (A := Between) (fun l r h => h.toStands) fun _ _ _ h => h
    refine hend.bind fun ret => follows_given fun hret => ?_
    exact follows_pure (fun l r h => hnext x v ret l r hx hv hret h) (hk x v ret).symm

/-- The fields of a struct that has begun, and its end. -/
theorem follows_skipStruct {skip : TType → Read Int}
    (hskip : ∀ t, Follows (parts W) Snag.Fits Between [.value t] (skip t) (fun _ => [])
      (Counts id)) {result : Int} (hresult : 0 ≤ result) :
    Follows (parts W) Snag.Fits Bare (fieldParts W) (do
      let result ← skipFields W Reads.watched skip result
      let ret ← Prod.fst <$> Reads.watched.get (.tag true)
      Pure.pure (result + ret)) (fun _ => []) (Counts id) := by
  have hloop : Follows (parts W) Snag.Fits Bare [.fields W.junk.ftype W.junk.fid]
      (skipFields W Reads.watched skip result) (fun _ => []) fun n l r => 0 ≤ n ∧ Stands l r := by
    unfold skipFields
    refine Follows.conseq (follows_loop
      (I := fun (t : Int × TType × BitVec 16) l r => 0 ≤ t.1 ∧ Bare l r)
      (l := fun t => [Part.fields t.2.1 t.2.2]) (fun t => follows_given fun ht => ?_)
      (result, W.junk.ftype, W.junk.fid)) (fun l r h => ⟨hresult, h⟩) fun _ _ _ h => h
    exact follows_fieldTurn W t.2.1 t.2.2 (fun x => hskip x.2.1)
      (fun x l r hx h => ⟨Int.add_nonneg ht hx, h⟩) (fun _ _ _ => rfl)
      fun x v ret l r hx hv hret h => by
        have hv' : 0 ≤ v := hv
        exact ⟨by omega, h⟩
  refine (hloop.frame [.read (.tag true)]).bind fun n => follows_given fun hn => ?_
  refine (follows_end W).bind fun ret => follows_given fun hret => ?_
  exact follows_pure (fun l r h => ⟨Int.add_nonneg hn hret, h.toBetween⟩) rfl

/-- A value that is one read, of which the count is kept. -/
theorem follows_leaf {op : ReadOp} {t : TType} {m : Read (Int × α)} {n : Read Int}
    (hm : Follows (parts W) Snag.Fits Between [.read op] m (fun _ => []) (Counts Prod.fst))
    (hn : n = Prod.fst <$> m) (ht : Part.ofType W t = .ok [.read op]) :
    Follows (parts W) Snag.Fits Between [.value t] n (fun _ => []) (Counts id) := by
  refine Follows.turn (l := [.read op]) ?_ fun l r _ => ?_
  · rw [hn]
    exact hm.map (fun _ => rfl) fun _ _ _ h => h
  · show l.put _ = _
    rw [ht]
    rfl

/-- A number is its digits. -/
theorem follows_integer (w : Nat) :
    Follows (parts W) Snag.Fits Between [.read .numeric] (readXMLInteger W Reads.watched w)
      (fun _ => []) (Counts Prod.fst) :=
  (follows_numeric W).map (fun _ => rfl) fun _ _ _ h => h

/-- An address. -/
theorem follows_address :
    Follows (parts W) Snag.Fits Between [.address] (readIPADDR W Reads.watched)
      (fun _ => []) (Counts id) := by
  refine follows_step fun l r res r' hl hruns => ?_
  have hturn : (parts W).turn .address l = (l.read .string).bind fun x =>
      if W.isAddress x.1 then .ok ([], x.2) else x.2.refused .failed := rfl
  have htaken : ∀ {res r'}, (Reads.watched.get .string).Runs r res r' →
      Taken (fun n l r => 0 ≤ n ∧ Between l r) (l.read .string) res r' :=
    takes_chars rfl hl (fun _ => by decide)
  rw [hturn]
  unfold readIPADDR at hruns
  rcases runs_bind.mp hruns with ⟨⟨n, str⟩, r₁, hget, hrest⟩ | ⟨e, hget, rfl⟩
  · have htaken := htaken hget
    cases hread : l.read .string with
    | error o =>
        rw [hread] at htaken
        obtain ⟨e, heq, -⟩ := htaken
        cases heq
    | ok x =>
        rw [hread] at htaken
        obtain ⟨n', heq, hcounts⟩ := htaken
        obtain ⟨rfl, rfl⟩ := Prod.mk.inj (Except.ok.inj heq)
        rw [Except.bind]
        by_cases haddress : W.isAddress x.1 = true
        · simp only [if_pos haddress] at hrest ⊢
          obtain ⟨rfl, rfl⟩ := runs_pure.mp hrest
          exact .inl ⟨_, _, rfl, rfl, hcounts⟩
        · simp only [if_neg haddress] at hrest ⊢
          obtain ⟨rfl, rfl⟩ := runs_throw.mp hrest
          exact .inr ⟨_, _, rfl, rfl, rfl, fun hne => absurd rfl hne⟩
  · have htaken := htaken hget
    cases hread : l.read .string with
    | error o =>
        rw [hread] at htaken
        obtain ⟨e', heq, hfits⟩ := htaken
        obtain rfl := Except.error.inj heq
        exact .inr ⟨_, _, rfl, rfl, hfits⟩
    | ok x =>
        rw [hread] at htaken
        obtain ⟨n', heq, -⟩ := htaken
        cases heq

/-- The elements of a container that has begun, and its end. -/
theorem follows_elems {ts : List TType} {elem : Read Int}
    (helem : Follows (parts W) Snag.Fits Between (ts.map .value) elem (fun _ => []) (Counts id))
    (n : Nat) {ret : Int} (hret : 0 < ret) :
    Follows (parts W) Snag.Fits Bare [.rounds ts n, .read (.tag true)] (do
      let result ← skipElems elem n ret
      let ret2 ← readContainerEnd Reads.watched
      Pure.pure (result + ret2)) (fun _ => []) (Counts id) := by
  have helems := ((follows_skipElems W helem n ret hret.le).frame [.read (.tag true)]).conseq
    (A := Bare) (fun l r h => h.toBetween) fun _ _ _ h => h
  refine helems.bind fun result => follows_given fun hresult => ?_
  refine ((follows_end W).conseq (A := Between) (fun l r h => h.toStands)
    fun _ _ _ h => h).bind fun ret2 => follows_given fun hret2 => ?_
  exact follows_pure (fun l r h => ⟨Int.add_nonneg hresult hret2, h.toBetween⟩) rfl

/-- A value that begins with the open tag of a container. -/
theorem follows_contained {σ : Type} {t : TType} (use : Use) {name : Bytes}
    {attrs : List (Attr σ)} {s : σ} {types : σ → List TType} {size : σ → BitVec 32}
    {f : Int × σ → Read Int} (ht : Part.ofType W t = .ok [.opened use])
    (hparts : ∀ first rest, use.parts W first rest
      = containerParts name first rest attrs s types size)
    (hf : ∀ x, 0 < x.1 → Follows (parts W) Snag.Fits Bare
      [.rounds (types x.2) (size x.2).toNat, .read (.tag true)] (f x) (fun _ => [])
      (Counts id)) :
    Follows (parts W) Snag.Fits Between [.value t]
      (readContainerBegin Reads.watched name attrs s >>= f) (fun _ => []) (Counts id) := by
  refine Follows.turn (l := [.opened use]) ?_ fun l r _ => ?_
  · have hbegin := (follows_container W use hparts).conseq (A := Between)
      (fun l r h => h.toStands) fun _ _ _ h => h
    exact hbegin.bind fun x => follows_given fun hx => hf x hx
  · show l.put _ = _
    rw [ht]
    rfl

/-- A value of no bytes. -/
theorem follows_void {t : TType} (ht : Part.ofType W t = .ok []) :
    Follows (parts W) Snag.Fits Between [.value t] (Pure.pure 0) (fun _ => []) (Counts id) := by
  refine Follows.turn (l := []) ?_ fun l r _ => ?_
  · exact follows_pure (fun l r h => ⟨Int.le_refl 0, h⟩) rfl
  · show l.put _ = _
    rw [ht]
    rfl

/-- `skip` follows the value of its type. -/
theorem follows_skip (t : TType) :
    Follows (parts W) Snag.Fits Between [.value t] (skip W Reads.watched t) (fun _ => [])
      (Counts id) := by
  refine follows_fix (I := fun _ => Between) (l := fun t => [Part.value t])
    (fun skip hskip t => ?_) t
  have helem : ∀ t, Follows (parts W) Snag.Fits Between ([t].map .value) (skip t) (fun _ => [])
      (Counts id) := hskip
  cases t with
  | T_BOOL => exact follows_leaf W (follows_string W) rfl rfl
  | T_STRING => exact follows_leaf W (follows_string W) rfl rfl
  | T_UUID => exact follows_leaf W (follows_string W) rfl rfl
  | T_XML => exact follows_leaf W (follows_cdata W) rfl rfl
  | T_BYTE => exact follows_leaf W (follows_integer W 8) rfl rfl
  | T_I16 => exact follows_leaf W (follows_integer W 16) rfl rfl
  | T_I32 => exact follows_leaf W (follows_integer W 32) rfl rfl
  | T_I64 => exact follows_leaf W (follows_integer W 64) rfl rfl
  | T_U16 => exact follows_leaf W (follows_integer W 16) rfl rfl
  | T_U32 => exact follows_leaf W (follows_integer W 32) rfl rfl
  | T_U64 => exact follows_leaf W (follows_integer W 64) rfl rfl
  | T_IPV4 => exact follows_leaf W (follows_integer W 32) rfl rfl
  | T_IPADDR =>
      refine Follows.turn (l := [.address]) ?_ fun _ _ _ => rfl
      exact follows_address W
  | T_DOUBLE =>
      exact follows_throw fun l r h => ⟨.refused .double l.out, rfl, rfl, fun _ => h.out⟩
  | T_STRUCT =>
      refine Follows.turn (l := .read (.tag false) :: fieldParts W) ?_ fun _ _ _ => rfl
      refine (((follows_tag W false).frame (fieldParts W)).conseq (A := Between)
        (fun l r h => h.toStands) fun _ _ _ h => h).bind fun x => follows_given fun hx => ?_
      exact follows_skipStruct W hskip hx.le
  | T_SANDESH =>
      refine Follows.turn (l := .opened .sandesh :: fieldParts W) ?_ fun _ _ _ => rfl
      refine (((follows_readSandeshBegin W).frame (fieldParts W)).conseq (A := Between)
        (fun l r h => h.toStands) fun _ _ _ h => h).bind fun x => follows_given fun hx => ?_
      exact follows_skipStruct W hskip hx.le
  | T_MAP =>
      refine follows_contained W .map rfl (fun _ _ => rfl) fun x hx => ?_
      refine follows_elems W ?_ _ hx
      have hvalue := helem x.2.2.1
      refine ((hskip x.2.1).frame [.value x.2.2.1]).bind fun ret => follows_given fun hret => ?_
      refine hvalue.bind fun ret2 => follows_given fun hret2 => ?_
      exact follows_pure (fun l r h => ⟨Int.add_nonneg hret hret2, h⟩) rfl
  | T_SET =>
      refine follows_contained W .set rfl (fun _ _ => rfl) fun x hx => ?_
      exact follows_elems W (helem x.2.1) _ hx
  | T_LIST =>
      refine follows_contained W .list rfl (fun _ _ => rfl) fun x hx => ?_
      exact follows_elems W (helem x.2.1) _ hx
  | T_STOP => exact follows_void W rfl
  | T_VOID => exact follows_void W rfl
  | T_UTF8 => exact follows_void W rfl
  | T_UTF16 => exact follows_void W rfl

end Follow

end Sandesh.Xml
