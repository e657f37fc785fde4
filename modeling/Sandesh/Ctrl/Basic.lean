/-
Received messages on their way into the process: control messages and
requests on the client (library/cpp/sandesh_client.cc), control messages
on the server (sandesh_connection.cc, sandesh_server.cc), and
`SandeshSession::DecodeCtrlSandesh`, which both use.

# Pointers

`SandeshBaseFactory::CreateInstance` and `DecodeCtrlSandesh` return a
null pointer for "no such sandesh" and "does not decode". A pointer is an
`Option` here and every member call through one goes through `deref`,
which stops the run on a null. Asserts stop it too. A log statement
evaluates its arguments only when its level is enabled, so the calls made
there are conditional on `logs`.

# What is left open

Which classes are registered, and what a class's generated `Read` makes
of the bytes of a body, are the fields of a `Factory`. The four kinds are
those the casts of the code can tell apart: both control messages are
declared `request sandesh` and so derive from `SandeshRequest`.
-/
import Sandesh.Header.Basic

namespace Sandesh.Ctrl

open Lib Header

-- ============================================================= objects

/-- What the `dynamic_cast`s of this code distinguish. -/
inductive Kind
  | SandeshCtrlServerToClient
  | SandeshCtrlClientToServer
  /-- another `SandeshRequest` -/
  | request
  /-- not a `SandeshRequest` -/
  | other
deriving DecidableEq

/-- What a server says of a type of UVEs: the last sequence number it has
seen. -/
structure UVETypeInfo where
  type_name : Bytes
  seq_num : BitVec 32
deriving DecidableEq

/-- The fields of the control message a client reads. -/
structure SandeshCtrlServerToClient where
  type_info : List UVETypeInfo
  success : Bool
deriving DecidableEq

/-- The decoded fields that are looked at, by kind. -/
def Kind.Fields : Kind → Type
  | .SandeshCtrlServerToClient => Ctrl.SandeshCtrlServerToClient
  | _ => Unit

/-- `dynamic_cast<SandeshRequest *>` succeeds. -/
def Kind.isRequest : Kind → Bool
  | .other => false
  | _ => true

/-- A `Sandesh` object after a `Read`. -/
structure Object where
  Name : Bytes
  kind : Kind
  fields : kind.Fields

/-- The registered classes: `CreateInstance` by name, and what `Read` of
an instance returns and leaves in the fields. -/
structure Factory where
  CreateInstance : Bytes → Option Kind
  Read : Bytes → (k : Kind) → Bytes → BitVec 32 × k.Fields

/-- `xfer < 0`. -/
def Factory.readFails (f : Factory) (name : Bytes) (k : Kind)
    (body : Bytes) : Bool :=
  (f.Read name k body).1.slt 0

/-- The object after `Read`. -/
def Factory.object (f : Factory) (name : Bytes) (k : Kind) (body : Bytes) :
    Object where
  Name := name
  kind := k
  fields := (f.Read name k body).2

-- ============================================================= effects

/-- Why a message was not taken. -/
inductive SandeshRxDropReason
  | QueueLevel
  | NoQueue
  | ControlMsgFailed
  | CreateFailed
  | DecodingFailed
deriving DecidableEq

/-- One update of the receive statistics. -/
inductive RxStat
  | UpdateRxMsgStats (msg_name : Bytes) (bytes : Nat)
  | UpdateRxMsgFailStats (msg_name : Bytes) (bytes : Nat)
      (dreason : SandeshRxDropReason)
deriving DecidableEq

/-- What receiving changes in the process. -/
structure Effects where
  stats : List RxStat
  /-- the maps `SyncAllMaps` was called with, first entry of a key first -/
  synced : List (List (Bytes × BitVec 32))
  /-- names on `Sandesh::recv_queue()`, `none` when there is no queue -/
  recv_queue : Option (List Bytes)
  /-- `SandeshCtrlServerToClient::Request` calls -/
  replies : Nat
deriving DecidableEq

/-- Why a run stops. -/
inductive Crash
  /-- `Name()` or `Release()` through a null `Sandesh *` -/
  | null
  /-- `assert(header.get_Hints() & SANDESH_CONTROL_HINT)` -/
  | assertControlHint
  /-- `assert(sr)` -/
  | assertRequest
deriving DecidableEq

/-- A member call through a pointer. -/
def deref : Option Object → Except Crash Object
  | some o => .ok o
  | none => .error .null

/-- The levels that are logged with. -/
inductive LogLevel
  | ERROR
  | DEBUG
deriving DecidableEq

-- ============================================================ decoding

section Receive

variable (factory : Factory) (logs : LogLevel → Bool)
variable (msg : Bytes) (header : SandeshHeader) (sandesh_name : Bytes)
  (header_offset : Nat)

/-- `CreateInstance` and `Read` on the bytes from `header_offset` on: did
`Read` fail, and the object. -/
def createAndRead : Option (Bool × Object) :=
  match factory.CreateInstance sandesh_name with
  | none => none
  | some k =>
      let body := msg.drop header_offset
      some (factory.readFails sandesh_name k body,
        factory.object sandesh_name k body)

/-- `SandeshSession::DecodeCtrlSandesh`. -/
def DecodeCtrlSandesh : Except Crash (Option Object) :=
  if header.control then
    match createAndRead factory msg sandesh_name header_offset with
    | none => .ok none
    | some (fails, sandesh) => .ok (if fails then none else some sandesh)
  else .error .assertControlHint

/-- `dynamic_cast<const SandeshCtrlServerToClient *>`. -/
def castServerToClient : Option Object → Option SandeshCtrlServerToClient
  | some ⟨_, .SandeshCtrlServerToClient, fields⟩ => some fields
  | _ => none

/-- `sMap.insert` of every type, which keeps the first entry of a key. -/
def syncMap (vu : List UVETypeInfo) : List (Bytes × BitVec 32) :=
  vu.foldl (fun sMap v =>
    if sMap.any (fun x => x.1 == v.type_name) then sMap
    else sMap ++ [(v.type_name, v.seq_num)]) []

/-- `SandeshClient::ReceiveCtrlMsg`. -/
def ReceiveCtrlMsg (e : Effects) : Except Crash (Bool × Effects) := do
  let sandesh ← DecodeCtrlSandesh factory msg header sandesh_name
    header_offset
  match castServerToClient sandesh with
  | none =>
      -- "Received Ctrl Message with wrong type" << sandesh->Name()
      if logs .ERROR then
        let _ ← deref sandesh
      let _ ← deref sandesh
      pure (false, e)
  | some snh =>
      let _ ← deref sandesh
      if snh.success then
        pure (true, { e with synced := e.synced ++ [syncMap snh.type_info] })
      else pure (false, e)

/-- `SandeshRequest::Enqueue(Sandesh::recv_queue())`. -/
def Enqueue (sr : Object) (e : Effects) : Effects :=
  match e.recv_queue with
  | none => { e with
      stats := e.stats ++ [.UpdateRxMsgFailStats sr.Name 0 .NoQueue] }
  | some q => { e with recv_queue := some (q ++ [sr.Name]) }

/-- `SandeshClient::ReceiveMsg`. -/
def ReceiveMsg (e : Effects) : Except Crash (Bool × Effects) := do
  if header.control then
    let (success, e) ← ReceiveCtrlMsg factory logs msg header sandesh_name
      header_offset e
    let stat := if success then RxStat.UpdateRxMsgStats sandesh_name msg.length
      else .UpdateRxMsgFailStats sandesh_name msg.length .ControlMsgFailed
    pure (success, { e with stats := e.stats ++ [stat] })
  else
    match createAndRead factory msg sandesh_name header_offset with
    | none =>
        pure (true, { e with stats := e.stats
          ++ [.UpdateRxMsgFailStats sandesh_name msg.length .CreateFailed] })
    | some (fails, sandesh) =>
        if fails then
          pure (false, { e with stats := e.stats
            ++ [.UpdateRxMsgFailStats sandesh_name msg.length
              .DecodingFailed] })
        else
          let e := { e with stats := e.stats
            ++ [.UpdateRxMsgStats sandesh_name msg.length] }
          if sandesh.kind.isRequest then pure (true, Enqueue sandesh e)
          else throw .assertRequest

/-- `SandeshServer::ReceiveSandeshCtrlMsg`. -/
def ReceiveSandeshCtrlMsg (sandesh : Option Object) (e : Effects) :
    Except Crash (Bool × Effects) := do
  match sandesh with
  | some ⟨_, .SandeshCtrlClientToServer, _⟩ =>
      pure (true, { e with replies := e.replies + 1 })
  | _ =>
      -- "Received Ctrl Message with wrong type" << sandesh->Name()
      if logs .DEBUG then
        let _ ← deref sandesh
      pure (false, e)

/-- `SandeshServerConnection::ProcessSandeshCtrlMessage`; `sserver` says
that `server()` is a `SandeshServer`. -/
def ProcessSandeshCtrlMessage (sserver : Bool) (e : Effects) :
    Except Crash (Bool × Effects) := do
  if sserver then
    let ctrl_snh ← DecodeCtrlSandesh factory msg header sandesh_name
      header_offset
    let ret ← ReceiveSandeshCtrlMsg logs ctrl_snh e
    let _ ← deref ctrl_snh
    pure ret
  else pure (false, e)

end Receive

end Sandesh.Ctrl
