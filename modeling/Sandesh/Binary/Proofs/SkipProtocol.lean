/-
`thrift_protocol_skip` over a memory buffer, on value trees.

With the whole value in the buffer no read fails, so the results that are
added up are lengths, and the stale bytes are never used.
-/
import Sandesh.Binary.Proofs.SkipTree
import Sandesh.Binary.Proofs.Reads

namespace Sandesh.Binary

open Lib C
open Lib.Prog (Runs runs_act runs_pure runs_fix)

variable {s : Input} {rest : Bytes}

theorem protocolCall_reads {α : Type} {f : Reader Buffer α} {bs : Bytes} {v : α}
    (hf : Reads memorySource f bs v) (hs : s.buffer.unread = bs ++ rest)
    (hlt : bs.length < 2 ^ 31) :
    ∃ s', (protocolCall f).Runs s (.ok (some v, (bs.length : Int))) s' ∧
      s'.buffer.unread = rest := by
  obtain ⟨b', hread, ht⟩ := hf s.buffer rest hs hlt
  change s.buffer.unread = bs ++ b'.unread at ht
  rw [hs] at ht
  refine ⟨{ s with buffer := b' }, runs_act.mpr ?_,
    (List.append_cancel_left ht).symm⟩
  rw [hread]

theorem protocolRead_reads {α : Type} {f : Reader Buffer α} {bs : Bytes} {v : α}
    (hf : Reads memorySource f bs v) (hs : s.buffer.unread = bs ++ rest)
    (hlt : bs.length < 2 ^ 31) :
    ∃ s', (protocolRead f).Runs s (.ok (bs.length : Int)) s' ∧
      s'.buffer.unread = rest := by
  obtain ⟨s', hrun, hs'⟩ := protocolCall_reads hf hs hlt
  exact ⟨s', hrun.bind_ok (runs_pure.mpr ⟨rfl, rfl⟩), hs'⟩

/-- A value of a fixed width. -/
theorem skipRead_runs {t : TType} {n : Nat} (h : t.shape = .fixed n) {bs : Bytes}
    (hlen : bs.length = n) (hs : s.buffer.unread = bs ++ rest) :
    ∃ s', (skipRead t).Runs s (.ok (n : Int)) s' ∧ s'.buffer.unread = rest := by
  have hn : n ≤ 16 := by
    cases t <;> simp only [TType.shape, Shape.fixed.injEq, reduceCtorEq] at h <;>
      omega
  have hrun : ∀ {α : Type} {f : Reader Buffer α} {v : α},
      Reads memorySource f bs v →
      ∃ s', (protocolRead f).Runs s (.ok (n : Int)) s' ∧ s'.buffer.unread = rest := by
    intro α f v hf
    rw [← hlen]
    exact protocolRead_reads hf hs (by omega)
  have hvalue : ∀ {α : Type} (g : Bytes → α),
      Reads memorySource (C.map g (C.get memoryBuffer n)) bs (g bs) := by
    intro α g
    rw [← hlen]
    exact C.reads_value g bs
  have hget : Reads memorySource (C.get memoryBuffer n) bs bs := by
    rw [← hlen]
    exact C.reads_get bs
  cases t <;> simp only [TType.shape, Shape.fixed.injEq, reduceCtorEq] at h <;>
    subst h
  case T_UUID => exact hrun hget
  all_goals exact hrun (hvalue _)

theorem skipBinary_runs {str : Bytes} (hlt : str.length + 4 < 2 ^ 31)
    (hs : s.buffer.unread = be 4 str.length ++ str ++ rest) :
    ∃ s', skipBinary.Runs s (.ok ((4 + str.length : Nat) : Int)) s' ∧
      s'.buffer.unread = rest := by
  have hsize := toNat_ofNat_of_lt (n := str.length) (by omega)
  have hint := toInt_length (show str.length < 2 ^ 31 by omega)
  have hhead := C.reads_i32 (BitVec.ofNat 32 str.length)
  rw [hsize] at hhead
  rw [List.append_assoc] at hs
  obtain ⟨s₁, hrun₁, hs₁⟩ := protocolCall_reads hhead hs (by rw [length_be]; decide)
  rw [length_be] at hrun₁
  by_cases hempty : str.length = 0
  · refine ⟨s₁, hrun₁.bind_ok ?_, ?_⟩
    · dsimp only
      rw [hint, if_neg (by omega), hempty]
      exact runs_pure.mpr ⟨rfl, rfl⟩
    · rw [hs₁, List.length_eq_zero_iff.mp hempty, List.nil_append]
  · obtain ⟨s₂, hrun₂, hs₂⟩ := protocolCall_reads (C.reads_get str) hs₁ (by omega)
    refine ⟨s₂, hrun₁.bind_ok ?_, hs₂⟩
    dsimp only
    rw [hint, if_pos (by omega), hsize]
    refine hrun₂.bind_ok (runs_pure.mpr ⟨?_, rfl⟩)
    rw [i32_eq (by omega) (by omega)]
    rfl

theorem readFieldType_runs {t : TType} (hne : t ≠ .T_STOP) (id : BitVec 16)
    (ftype : Nat) (hs : s.buffer.unread = be 1 t.code ++ be 2 id.toNat ++ rest) :
    ∃ s', (readFieldType ftype).Runs s (.ok (t.code, 3)) s' ∧
      s'.buffer.unread = rest := by
  rw [List.append_assoc] at hs
  obtain ⟨s₁, hrun₁, hs₁⟩ := protocolCall_reads (reads_type C.reads_byte t) hs
    (by rw [length_be]; decide)
  obtain ⟨s₂, hrun₂, hs₂⟩ := protocolCall_reads (C.reads_i16 id) hs₁
    (by rw [length_be]; decide)
  rw [length_be] at hrun₁ hrun₂
  refine ⟨s₂, hrun₁.bind_ok ?_, hs₂⟩
  simp only [thriftType_code]
  rw [if_neg (fun h => hne (TType.code_inj h))]
  exact hrun₂.bind_ok (runs_pure.mpr ⟨rfl, rfl⟩)

theorem readFieldType_stop (ftype : Nat) (hs : s.buffer.unread = 0 :: rest) :
    ∃ s', (readFieldType ftype).Runs s (.ok (TType.T_STOP.code, 1)) s' ∧
      s'.buffer.unread = rest := by
  have hs : s.buffer.unread = be 1 TType.T_STOP.code ++ rest := hs
  obtain ⟨s₁, hrun₁, hs₁⟩ := protocolCall_reads (reads_type C.reads_byte .T_STOP) hs
    (by rw [length_be]; decide)
  refine ⟨s₁, hrun₁.bind_ok ?_, hs₁⟩
  simp only [thriftType_code, if_true]
  exact runs_pure.mpr ⟨rfl, rfl⟩

theorem readListType_runs {t : TType} {n : Nat} (hn : n < 2 ^ 31) (e size : Nat)
    (hs : s.buffer.unread = be 1 t.code ++ be 4 n ++ rest) :
    ∃ s', (readListType e size).Runs s (.ok (t.code, n, 5)) s' ∧
      s'.buffer.unread = rest := by
  have hsize := toNat_ofNat_of_lt (n := n) (by omega)
  have hlong := C.reads_i32 (BitVec.ofNat 32 n)
  rw [hsize] at hlong
  rw [List.append_assoc] at hs
  obtain ⟨s₁, hrun₁, hs₁⟩ := protocolCall_reads (reads_type C.reads_byte t) hs
    (by rw [length_be]; decide)
  obtain ⟨s₂, hrun₂, hs₂⟩ := protocolCall_reads hlong hs₁
    (by rw [length_be]; decide)
  rw [length_be] at hrun₁ hrun₂
  refine ⟨s₂, hrun₁.bind_ok ?_, hs₂⟩
  simp only [thriftType_code]
  refine hrun₂.bind_ok ?_
  have hint : (BitVec.ofNat 32 n).toInt = n := by
    rw [toInt_of_lt (by omega), hsize]
  dsimp only
  rw [hint, if_neg (by omega), hsize]
  exact runs_pure.mpr ⟨rfl, rfl⟩

-- ================================================================ trees

/-- What the call and its loops do with a tree that is in the buffer. -/
def SkipsTree {k : Kind} (v : Tree k) : Prop :=
  ∀ {s : Input} {rest : Bytes}, s.buffer.unread = v.out.bytes ++ rest →
    match k with
    | .value type =>
        ∃ s', (thrift_protocol_skip type).Runs s (.ok (v.out.bytes.length : Int)) s' ∧
          s'.buffer.unread = rest
    | .fields => ∀ ftype result, result + v.out.bytes.length < 2 ^ 31 →
        ∃ s', (Prog.loop (skipProtocolField thrift_protocol_skip)
            (ftype, result)).Runs s (.ok (result + v.out.bytes.length : Nat)) s' ∧
          s'.buffer.unread = rest
    | .elems type n => ∀ i result, result + v.out.bytes.length < 2 ^ 31 →
        ∃ s', (Prog.loop (skipProtocolElement thrift_protocol_skip type (i + n))
            (i, result)).Runs s (.ok (result + v.out.bytes.length : Nat)) s' ∧
          s'.buffer.unread = rest

theorem protocol_skip_runs {type : Nat} {res : Except Fault Int} {s' : Input}
    (h : (skipBody thrift_protocol_skip type).Runs s res s') :
    (thrift_protocol_skip type).Runs s res s' := runs_fix.mpr h

theorem runs_unset (n : Nat) (s : Input) :
    ∃ x, (unset n).Runs s (.ok x) { s with stale := (draw n s.stale).2 } :=
  ⟨_, runs_act.mpr rfl⟩

theorem u32_sum {a b : Nat} (h : a + b < 2 ^ 31) :
    u32 ((a : Int) + b) = a + b := u32_nat (n := a + b) (by omega)

theorem i32_nat {n : Nat} (h : n < 2 ^ 31) : i32 n = n :=
  i32_eq (by omega) (by omega)

theorem shape_code (t : TType) : shape t.code = t.shape := by
  unfold shape
  rw [TType.ofCode_code]

/-- A scalar that is not an address. -/
theorem Scalar.skips (v : Scalar) (hlt : v.out.bytes.length < 2 ^ 31)
    (hknown : ∀ a, v ≠ .ipaddr a) (hs : s.buffer.unread = v.out.bytes ++ rest) :
    ∃ s', (thrift_protocol_skip v.type.code).Runs s
        (.ok (v.out.bytes.length : Int)) s' ∧ s'.buffer.unread = rest := by
  rcases v.shape_out with ⟨a, rfl⟩ | hshape | ⟨hshape, str, hstr⟩
  · exact absurd rfl (hknown a)
  · rw [shape_code] at hshape
    obtain ⟨s', hrun, hs'⟩ := skipRead_runs hshape rfl hs
    refine ⟨s', protocol_skip_runs ?_, hs'⟩
    simp only [skipBody, TType.ofCode_code, hshape]
    exact hrun
  · rw [shape_code] at hshape
    rw [hstr, Out.good_bytes] at hs hlt ⊢
    rw [List.length_append, length_be] at hlt ⊢
    obtain ⟨s', hrun, hs'⟩ := skipBinary_runs (by omega) hs
    refine ⟨s', protocol_skip_runs ?_, hs'⟩
    simp only [skipBody, TType.ofCode_code, hshape]
    exact hrun

/-- The field type is read, and its value is skipped. -/
theorem skipProtocolField_goes {t : TType} {id : BitVec 16} {bs : Bytes}
    (hne : t ≠ .T_STOP) (ftype : Nat) {result n : Nat} (hlt : result + 3 + n < 2 ^ 31)
    (hs : s.buffer.unread = be 1 t.code ++ be 2 id.toNat ++ bs)
    (hcall : ∀ {s₁ : Input}, s₁.buffer.unread = bs →
      ∃ s', (thrift_protocol_skip t.code).Runs s₁ (.ok (n : Int)) s' ∧
        s'.buffer.unread = rest) :
    ∃ s', (skipProtocolField thrift_protocol_skip (ftype, result)).Runs s
        (.ok (.inl (t.code, result + 3 + n))) s' ∧ s'.buffer.unread = rest := by
  obtain ⟨s₁, hhead, hs₁⟩ := readFieldType_runs hne id ftype hs
  obtain ⟨s₂, hskip, hs₂⟩ := hcall hs₁
  refine ⟨s₂, hhead.bind_ok ?_, hs₂⟩
  dsimp only
  rw [if_neg (fun h => hne (TType.code_inj h))]
  refine hskip.bind_ok (runs_pure.mpr ⟨?_, rfl⟩)
  have hthree : u32 ((result : Int) + 3) = result + 3 :=
    u32_nat (n := result + 3) (by omega)
  rw [hthree, u32_sum (by omega)]

theorem skipProtocolElement_goes {type i k n result : Nat}
    (hlt : result + n < 2 ^ 31) {s' : Input}
    (hcall : (thrift_protocol_skip type).Runs s (.ok (n : Int)) s') :
    (skipProtocolElement thrift_protocol_skip type (i + (k + 1)) (i, result)).Runs s
      (.ok (.inl (i + 1, result + n))) s' := by
  unfold skipProtocolElement
  rw [if_pos (by show i < i + (k + 1); omega)]
  refine hcall.bind_ok (runs_pure.mpr ⟨?_, rfl⟩)
  rw [u32_sum hlt]

theorem Tree.skips {k : Kind} (v : Tree k) (hok : v.out.ok = true)
    (hlt : v.out.bytes.length < 2 ^ 31) (hknown : v.NoAddress) : SkipsTree v := by
  induction v with
  | leaf v =>
      intro s rest hs
      exact v.skips hlt hknown hs
  | struct fs ih =>
      intro s rest hs
      obtain ⟨ftype, hunset⟩ := runs_unset 4 s
      obtain ⟨s', hloop, hs'⟩ := ih hok hlt hknown
        (s := { s with stale := (draw 4 s.stale).2 }) hs ftype 0 (by
          rw [Nat.zero_add]
          exact hlt)
      rw [Nat.zero_add] at hloop
      exact ⟨s', protocol_skip_runs (hunset.bind_ok hloop), hs'⟩
  | @list t cnt es ih =>
      obtain ⟨hes, hbytes⟩ := Tree.list_out hok
      have hcnt := es.least_le hes
      change cnt ≤ _ at hcnt
      intro s rest hs
      show ∃ s', (thrift_protocol_skip TType.T_LIST.code).Runs s
        (.ok ((Tree.list t es).out.bytes.length : Int)) s' ∧ _
      rw [hbytes] at hlt hs ⊢
      simp only [List.length_append, length_be] at hlt ⊢
      rw [toNat_ofNat_of_lt (by omega), List.append_assoc] at hs
      obtain ⟨e, hunset₁⟩ := runs_unset 4 s
      obtain ⟨size, hunset₂⟩ := runs_unset 4 { s with stale := (draw 4 s.stale).2 }
      obtain ⟨s₁, hhead, hs₁⟩ := readListType_runs (by omega) e size
        (s := { s with stale := (draw 4 (draw 4 s.stale).2).2 }) hs
      obtain ⟨s', hloop, hs'⟩ := ih hes (by omega) hknown hs₁ 0 5 (by omega)
      rw [Nat.zero_add] at hloop
      exact ⟨s', protocol_skip_runs
        (hunset₁.bind_ok (hunset₂.bind_ok (hhead.bind_ok hloop))), hs'⟩
  | stop =>
      intro s rest hs ftype result hlt
      change result + 1 < 2 ^ 31 at hlt
      obtain ⟨s', hhead, hs'⟩ := readFieldType_stop ftype hs
      refine ⟨s', Runs.leave (hhead.bind_ok ?_), hs'⟩
      have hone : u32 ((result : Int) + 1) = result + 1 :=
        u32_nat (n := result + 1) (by omega)
      dsimp only
      rw [if_pos rfl, hone, i32_nat hlt]
      exact runs_pure.mpr ⟨rfl, rfl⟩
  | field t id hne v fs ihv ihfs =>
      obtain ⟨hv, hfs, hbytes⟩ := Tree.field_out hok
      obtain ⟨hkv, hkfs⟩ := hknown
      intro s rest hs ftype result hbound
      rw [hbytes] at hlt hs hbound ⊢
      simp only [List.length_append, length_be] at hlt hbound ⊢
      rw [List.append_assoc, List.append_assoc v.out.bytes] at hs
      have hsize : result + 3 + v.out.bytes.length < 2 ^ 31 := by omega
      obtain ⟨s₁, hturn, hs₁⟩ := skipProtocolField_goes hne ftype hsize hs
        (ihv hv (by omega) hkv)
      obtain ⟨s', hloop, hs'⟩ := ihfs hfs (by omega) hkfs hs₁ t.code
        (result + 3 + v.out.bytes.length) (by omega)
      refine ⟨s', ?_, hs'⟩
      have hsum : result + 3 + v.out.bytes.length + fs.out.bytes.length
          = result + (1 + 2 + (v.out.bytes.length + fs.out.bytes.length)) := by
        omega
      rw [hsum] at hloop
      exact hturn.again hloop
  | nil =>
      intro s rest hs i result hlt
      change result < 2 ^ 31 at hlt
      refine ⟨s, Runs.leave ?_, hs⟩
      unfold skipProtocolElement
      dsimp only
      rw [Nat.add_zero, if_neg (Nat.lt_irrefl i), i32_nat hlt]
      exact runs_pure.mpr ⟨rfl, rfl⟩
  | @cons type cnt v es ihv ihes =>
      obtain ⟨hv, hes, hbytes⟩ := Tree.cons_out hok
      obtain ⟨hkv, hkes⟩ := hknown
      intro s rest hs i result hbound
      rw [hbytes] at hlt hs hbound ⊢
      rw [List.length_append] at hlt hbound ⊢
      rw [List.append_assoc] at hs
      obtain ⟨s₁, hskip, hs₁⟩ := ihv hv (by omega) hkv hs
      obtain ⟨s', hloop, hs'⟩ := ihes hes (by omega) hkes hs₁ (i + 1)
        (result + v.out.bytes.length) (by omega)
      refine ⟨s', ?_, hs'⟩
      rw [Nat.add_assoc result, show i + 1 + cnt = i + (cnt + 1) by omega] at hloop
      exact (skipProtocolElement_goes (by omega) hskip).again hloop

end Sandesh.Binary
