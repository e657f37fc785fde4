/-
Which received messages crash the process.

Every path is followed to its end: a control message needs a registered
name and a body that decodes, because both callers of
`DecodeCtrlSandesh` call through the pointer it returns, whatever it is;
any kind will do, the casts are checked. A message without the hint may
be unknown or fail to decode, but what does decode has to be a request.
-/
import Sandesh.Ctrl.Basic

namespace Sandesh.Ctrl

open Lib Header

variable (factory : Factory) (logs : LogLevel → Bool)
variable (msg : Bytes) (header : SandeshHeader) (sandesh_name : Bytes)
  (header_offset : Nat)

/-- The name is registered, as the kind `k`, and the body decodes. -/
def Decodes (k : Kind) : Prop :=
  factory.CreateInstance sandesh_name = some k
    ∧ factory.readFails sandesh_name k (msg.drop header_offset) = false

/-- What keeps the client up. -/
def ClientSafe : Prop :=
  if header.control then
    ∃ k, Decodes factory msg sandesh_name header_offset k
  else ∀ k, Decodes factory msg sandesh_name header_offset k →
    k.isRequest = true

/-- What keeps the server up. -/
def ServerSafe (sserver : Bool) : Prop :=
  sserver = true → header.control = true
    ∧ ∃ k, Decodes factory msg sandesh_name header_offset k

/-- The run comes back with a boolean. -/
def Returns (x : Except Crash (Bool × Effects)) : Prop :=
  ∃ ret e, x = .ok (ret, e)

-- ============================================================ decoding

/-- The three outcomes of create-and-read. -/
theorem createAndRead_cases :
    (createAndRead factory msg sandesh_name header_offset = none
        ∧ factory.CreateInstance sandesh_name = none)
      ∨ (∃ o, createAndRead factory msg sandesh_name header_offset
            = some (true, o)
          ∧ ∀ k, ¬ Decodes factory msg sandesh_name header_offset k)
      ∨ ∃ o, createAndRead factory msg sandesh_name header_offset
            = some (false, o)
          ∧ Decodes factory msg sandesh_name header_offset o.kind := by
  unfold createAndRead
  cases hname : factory.CreateInstance sandesh_name with
  | none => exact .inl ⟨rfl, rfl⟩
  | some k =>
      cases hread : factory.readFails sandesh_name k
          (msg.drop header_offset) with
      | true =>
          refine .inr (.inl ⟨factory.object sandesh_name k
            (msg.drop header_offset), by simp only [hread], ?_⟩)
          intro k' ⟨hname', hread'⟩
          obtain rfl := Option.some.inj (hname.symm.trans hname')
          rw [hread] at hread'
          cases hread'
      | false =>
          exact .inr (.inr ⟨factory.object sandesh_name k
            (msg.drop header_offset), by simp only [hread], hname, hread⟩)

theorem decodes_unique {k k' : Kind}
    (h : Decodes factory msg sandesh_name header_offset k)
    (h' : Decodes factory msg sandesh_name header_offset k') : k = k' :=
  Option.some.inj (h.1.symm.trans h'.1)

/-- Under the hint, `DecodeCtrlSandesh` returns an object exactly when
the message decodes, and a null pointer otherwise. -/
theorem decodeCtrlSandesh_cases (hc : header.control = true) :
    (DecodeCtrlSandesh factory msg header sandesh_name header_offset
          = .ok none
        ∧ ¬ ∃ k, Decodes factory msg sandesh_name header_offset k)
      ∨ ∃ o, DecodeCtrlSandesh factory msg header sandesh_name header_offset
            = .ok (some o)
          ∧ Decodes factory msg sandesh_name header_offset o.kind := by
  unfold DecodeCtrlSandesh
  rw [if_pos hc]
  rcases createAndRead_cases factory msg sandesh_name header_offset with
    ⟨hcr, hnone⟩ | ⟨o, hcr, hfails⟩ | ⟨o, hcr, hok⟩
  · refine .inl ⟨by rw [hcr], ?_⟩
    intro ⟨k, hname, _⟩
    rw [hnone] at hname
    cases hname
  · refine .inl ⟨by rw [hcr]; rfl, ?_⟩
    intro ⟨k, hk⟩
    exact hfails k hk
  · exact .inr ⟨o, by rw [hcr]; rfl, hok⟩

-- ========================================================== the client

/-- Whatever the kind, a decoded control message is survived. -/
theorem receiveCtrlMsg_object {o : Object} {e : Effects}
    (h : DecodeCtrlSandesh factory msg header sandesh_name header_offset
      = .ok (some o)) :
    Returns (ReceiveCtrlMsg factory logs msg header sandesh_name
      header_offset e) := by
  unfold ReceiveCtrlMsg
  rw [h]
  obtain ⟨name, k, fields⟩ := o
  cases k with
  | SandeshCtrlServerToClient =>
      cases hs : SandeshCtrlServerToClient.success fields with
      | true => exact ⟨true, _, by
          simp [bind, Except.bind, castServerToClient, deref, hs]; rfl⟩
      | false => exact ⟨false, e, by
          simp [bind, Except.bind, castServerToClient, deref, hs]; rfl⟩
  | SandeshCtrlClientToServer =>
      exact ⟨false, e, by cases logs .ERROR <;> rfl⟩
  | request => exact ⟨false, e, by cases logs .ERROR <;> rfl⟩
  | other => exact ⟨false, e, by cases logs .ERROR <;> rfl⟩

/-- A null pointer is called through, with or without logging. -/
theorem receiveCtrlMsg_null {e : Effects}
    (h : DecodeCtrlSandesh factory msg header sandesh_name header_offset
      = .ok none) :
    ReceiveCtrlMsg factory logs msg header sandesh_name header_offset e
      = .error .null := by
  unfold ReceiveCtrlMsg
  rw [h]
  cases logs .ERROR <;> rfl

theorem receiveMsg_control (hc : header.control = true) (e : Effects) :
    Returns (ReceiveMsg factory logs msg header sandesh_name header_offset e)
      ↔ Returns (ReceiveCtrlMsg factory logs msg header sandesh_name
          header_offset e) := by
  unfold ReceiveMsg
  rw [if_pos hc]
  cases hctrl : ReceiveCtrlMsg factory logs msg header sandesh_name
      header_offset e with
  | error c =>
      refine iff_of_false ?_ ?_
      · intro ⟨_, _, h⟩
        cases h
      · intro ⟨_, _, h⟩
        cases h
  | ok r => exact iff_of_true ⟨r.1, _, rfl⟩ ⟨r.1, r.2, rfl⟩

theorem client_returns_iff (e : Effects) :
    Returns (ReceiveMsg factory logs msg header sandesh_name header_offset e)
      ↔ ClientSafe factory msg header sandesh_name header_offset := by
  unfold ClientSafe
  by_cases hc : header.control = true
  · rw [if_pos hc, receiveMsg_control factory logs msg header sandesh_name
      header_offset hc]
    rcases decodeCtrlSandesh_cases factory msg header sandesh_name
      header_offset hc with ⟨hnull, hnot⟩ | ⟨o, hok, hdec⟩
    · refine iff_of_false ?_ hnot
      intro ⟨_, _, h⟩
      rw [receiveCtrlMsg_null factory logs msg header sandesh_name
        header_offset hnull] at h
      cases h
    · exact iff_of_true (receiveCtrlMsg_object factory logs msg header
        sandesh_name header_offset hok) ⟨o.kind, hdec⟩
  · unfold ReceiveMsg
    rw [if_neg hc, if_neg hc]
    rcases createAndRead_cases factory msg sandesh_name header_offset with
      ⟨hcr, hnone⟩ | ⟨o, hcr, hfails⟩ | ⟨o, hcr, hok⟩
    · rw [hcr]
      refine iff_of_true ⟨true, _, rfl⟩ ?_
      intro k ⟨hname, _⟩
      rw [hnone] at hname
      cases hname
    · rw [hcr]
      refine iff_of_true ⟨false, _, rfl⟩ ?_
      intro k hk
      exact absurd hk (hfails k)
    · rw [hcr]
      cases hr : o.kind.isRequest with
      | true =>
          refine iff_of_true ⟨true, _, by simp [hr]; rfl⟩ ?_
          intro k hk
          rw [← decodes_unique factory msg sandesh_name header_offset hok hk]
          exact hr
      | false =>
          refine iff_of_false ?_ ?_
          · intro ⟨_, _, h⟩
            simp only [hr] at h
            cases h
          · intro h
            rw [h o.kind hok] at hr
            cases hr

-- ========================================================== the server

theorem receiveSandeshCtrlMsg_object (o : Object) (e : Effects) :
    Returns (ReceiveSandeshCtrlMsg logs (some o) e) := by
  obtain ⟨name, k, fields⟩ := o
  cases k with
  | SandeshCtrlClientToServer => exact ⟨true, _, rfl⟩
  | SandeshCtrlServerToClient =>
      exact ⟨false, e, by cases hl : logs .DEBUG <;>
        simp [ReceiveSandeshCtrlMsg, hl] <;> rfl⟩
  | request =>
      exact ⟨false, e, by cases hl : logs .DEBUG <;>
        simp [ReceiveSandeshCtrlMsg, hl] <;> rfl⟩
  | other =>
      exact ⟨false, e, by cases hl : logs .DEBUG <;>
        simp [ReceiveSandeshCtrlMsg, hl] <;> rfl⟩

theorem server_returns_iff (sserver : Bool) (e : Effects) :
    Returns (ProcessSandeshCtrlMessage factory logs msg header sandesh_name
        header_offset sserver e)
      ↔ ServerSafe factory msg header sandesh_name header_offset sserver := by
  unfold ProcessSandeshCtrlMessage ServerSafe
  cases sserver with
  | false =>
      refine iff_of_true ⟨false, e, rfl⟩ ?_
      intro h
      cases h
  | true =>
      by_cases hc : header.control = true
      · rcases decodeCtrlSandesh_cases factory msg header sandesh_name
          header_offset hc with ⟨hnull, hnot⟩ | ⟨o, hok, hdec⟩
        · rw [hnull]
          refine iff_of_false ?_ (fun h => hnot (h rfl).2)
          intro ⟨_, _, h⟩
          cases hl : logs .DEBUG with
          | true =>
              simp [bind, Except.bind, ReceiveSandeshCtrlMsg, hl, deref] at h
          | false =>
              simp [bind, Except.bind, ReceiveSandeshCtrlMsg, hl, deref, pure,
                Except.pure] at h
        · rw [hok]
          obtain ⟨ret, e', hret⟩ := receiveSandeshCtrlMsg_object logs o e
          refine iff_of_true ⟨ret, e', ?_⟩ (fun _ => ⟨hc, o.kind, hdec⟩)
          simp [bind, Except.bind, hret, deref, pure, Except.pure]
      · refine iff_of_false ?_ (fun h => hc (h rfl).1)
        intro ⟨_, _, h⟩
        simp [DecodeCtrlSandesh, hc, bind, Except.bind] at h

-- ============================================================== theorem

/-- Exactly which messages the client and the server survive. -/
theorem no_remote_crash_iff (sserver : Bool) (e : Effects) :
    (Returns (ReceiveMsg factory logs msg header sandesh_name header_offset e)
        ↔ ClientSafe factory msg header sandesh_name header_offset)
      ∧ (Returns (ProcessSandeshCtrlMessage factory logs msg header
            sandesh_name header_offset sserver e)
        ↔ ServerSafe factory msg header sandesh_name header_offset
            sserver) :=
  ⟨client_returns_iff factory logs msg header sandesh_name header_offset e,
    server_returns_iff factory logs msg header sandesh_name header_offset
      sserver e⟩

/-- One registered class, which is not a request. -/
def oneClass : Factory where
  CreateInstance := fun name => if name = lit "Uve" then some .other else none
  Read := fun _ k _ =>
    match k with
    | .SandeshCtrlServerToClient => (0, ⟨[], true⟩)
    | .SandeshCtrlClientToServer => (0, ())
    | .request => (0, ())
    | .other => (0, ())

/-- An unregistered control message stops the client and the server, also
with logging off, and a message without the hint that names a class which
is not a request stops the client. -/
theorem remote_crash :
    ReceiveMsg oneClass (fun _ => false) [] { SandeshHeader.init with
          Hints := SANDESH_CONTROL_HINT } (lit "Unknown") 0
          ⟨[], [], some [], 0⟩ = .error .null
      ∧ ProcessSandeshCtrlMessage oneClass (fun _ => false) []
          { SandeshHeader.init with Hints := SANDESH_CONTROL_HINT }
          (lit "Unknown") 0 true ⟨[], [], some [], 0⟩ = .error .null
      ∧ ReceiveMsg oneClass (fun _ => false) [] SandeshHeader.init
          (lit "Uve") 0 ⟨[], [], some [], 0⟩ = .error .assertRequest :=
  ⟨rfl, rfl, rfl⟩

end Sandesh.Ctrl
