/-
The caches of all UVE types, and who asks them to send
(library/cpp/sandesh_uve.cc): the generated `Send`, the syncs of the client
(`SyncAllMaps`), and introspect (`SyncIntrospect` and
`SandeshUVECacheReq::HandleRequest`).

Every message leaves through `SandeshUVE::Dispatch` (library/cpp/sandesh.cc),
which answers over http what has the context of an http request and gives
everything else to the client.

`map_` is filled when the program starts and does not change; it is the
parameter `types`. A message is dispatched for the name of its type.
-/
import Sandesh.Uve.Generated
import Sandesh.Uve.Group

namespace Sandesh.Uve

open Lib

variable {V σ : Type}

-- ============================================================ dispatch

/-- The context of an http request: it starts with `http%` or `https%`. -/
def isHttp (context : Bytes) : Bool :=
  (lit "http%").isPrefixOf context || (lit "https%").isPrefixOf context

/-- The ways that a message may go. -/
inductive Way
  | http
  | client
  deriving DecidableEq

/-- `SandeshUVE::Dispatch`: which way a message goes. -/
def Message.Dispatch (m : Message V) : Way :=
  if isHttp m.context then .http else .client

-- =========================================================== the caches

/-- The caches of each type, its `lseqnum_`, and the `periodic_count` of
`SyncAllMaps`. -/
structure TypeMaps (V σ : Type) where
  group : Bytes → Group (Attrs V σ)
  lseqnum_ : Bytes → UInt32
  periodic_count : UInt64

/-- The types of a program by their names. -/
abbrev Types (V σ : Type) := Map Bytes (UveType V σ)

/-- When the program starts. -/
def TypeMaps.new (types : Types V σ) : TypeMaps V σ where
  group tname := ⟨⟨∅, ((types.lookup tname).map UveType.DSConf).getD ∅⟩, ∅⟩
  lseqnum_ _ := 0
  periodic_count := 0

/-- A message and the type it is of. -/
abbrev Dispatched (V : Type) := Bytes × Message V

-- ======================================================= sync of a type

/-- The statistics objects of an entry after it was sent. -/
def settleEntry (t : UveType V σ) (c : SyncCall) (e : UVEMapEntry (Attrs V σ)) :
    UVEMapEntry (Attrs V σ) :=
  if c.wants e.seqno then
    let dsobj := (t.LoadUVE c.st c.cycle e.data).2.dsobj
    { e with data := { e.data with rest := { e.data.rest with dsobj := dsobj } } }
  else e

/-- The cache after the objects of statistics have been settled by a sync.
-/
def settleMap (t : UveType V σ) (names tables : Order Bytes) (c : SyncCall)
    (m : PerTypeMap (Attrs V σ)) : PerTypeMap (Attrs V σ) :=
  let settle : UveTableMap (Attrs V σ) → UveTableMap (Attrs V σ) := fun ts =>
    (Map.walk (M := Unit) tables (fun _ e => ⟨some (settleEntry t c e), [], false⟩)
      ts).map
  { m with cmap_ :=
      (Map.walk (M := Unit) names (fun _ ts => ⟨some (settle ts), [], false⟩)
        m.cmap_).map }

/-- The same for every map of the group. -/
def settleGroup (t : UveType V σ) (o : Orders) (c : SyncCall)
    (g : Group (Attrs V σ)) : Group (Attrs V σ) :=
  (g.cells o.proxies).foldl (fun g cell =>
    g.put t.sandesh cell
      (settleMap t (o.names cell) (o.tables cell) c (g.get t.sandesh cell))) g

/-- What a sync leaves, and the messages it makes. -/
structure SyncResult (V σ : Type) where
  group : Group (Attrs V σ)
  messages : List (Message V)
  count : UInt32

/-- `SyncUVE` of the group of a type, with the messages it makes. -/
def UveType.SyncUVE (t : UveType V σ) (o : Orders) (c : SyncCall)
    (g : Group (Attrs V σ)) : Option (SyncResult V σ) :=
  let r := g.SyncUVE t.TM t.sandesh o c
  if r.stuck then none
  else some ⟨settleGroup t o c r.group, r.sent.filterMap t.Send, r.count⟩

-- =========================================================== the calls

/-- `SandeshClientSM::kTickInterval`. -/
def kTickInterval : Int := 30000

/-- The calls on the table of types. -/
inductive TypeCall (V σ : Type)
  | Send (tname : Bytes) (call : SendCall (Attrs V σ))
  | SyncAllMaps (names : Order Bytes) (o : Bytes → Orders)
      (inpMap : Map Bytes UInt32) (periodic : Bool)
  | SyncIntrospect (o : Orders) (tname table key : Bytes)
  | HandleRequest (o : Orders) (tname : Bytes) (key : Option Bytes)
      (context : Bytes)

section Calls

variable (types : Types V σ)

/-- The maps of one type change. -/
def TypeMaps.setGroup (s : TypeMaps V σ) (tname : Bytes) (g : Group (Attrs V σ)) :
    TypeMaps V σ :=
  { s with group := Function.update s.group tname g }

/-- A `Send` of the type. -/
def TypeMaps.Send (s : TypeMaps V σ) (tname : Bytes) (call : SendCall (Attrs V σ)) :
    Option (TypeMaps V σ × List (Dispatched V)) := do
  let t ← types.lookup tname
  let msg_seqno := s.lseqnum_ tname + 1
  let u := call.update msg_seqno
  let (send, cdata, g) ←
    (s.group tname).UpdateUVE t.TM t.sandesh t.proxy u call.partition
  let s := { s.setGroup tname g with
    lseqnum_ := Function.update s.lseqnum_ tname msg_seqno }
  return (s, if send then [(tname, t.update_message u cdata)] else [])

/-- The cycle of a periodic sync, if the type is due. -/
def UveType.cycle (t : UveType V σ) (periodic_count : UInt64) : Option UInt32 :=
  let target_count := UInt64.ofInt ((t.P * 1000).tdiv kTickInterval)
  if target_count = 0 ∨ periodic_count % target_count ≠ 0 then none
  else some (periodic_count / target_count).toUInt32

/-- A turn of the loop of `SyncAllMaps`. -/
def TypeMaps.syncTurn (o : Bytes → Orders) (inpMap : Map Bytes UInt32)
    (periodic : Bool) (x : TypeMaps V σ × List (Dispatched V)) (tname : Bytes) :
    Option (TypeMaps V σ × List (Dispatched V)) :=
  match types.lookup tname with
  | none => some x
  | some t =>
      let sync (stype : SendType) (cycle : UInt32) := do
        let seqno := (inpMap.lookup tname).getD 0
        let r ← t.SyncUVE (o tname) ⟨[], stype, seqno, cycle, []⟩ (x.1.group tname)
        return (x.1.setGroup tname r.group,
          x.2 ++ r.messages.map fun m => (tname, m))
      if periodic then
        match t.cycle x.1.periodic_count with
        | none => some x
        -- `assert(inpMap.size() == 0)`
        | some cycle => if inpMap.keys = ∅ then sync .ST_PERIODIC cycle else none
      else sync .ST_SYNC 0

/-- `SyncAllMaps`: one type after another. -/
def TypeMaps.SyncAllMaps (s : TypeMaps V σ) (names : Order Bytes)
    (o : Bytes → Orders) (inpMap : Map Bytes UInt32) (periodic : Bool) :
    Option (TypeMaps V σ × List (Dispatched V)) :=
  let s := if periodic then { s with periodic_count := s.periodic_count + 1 } else s
  (names.list types.keys).foldlM (syncTurn types o inpMap periodic) (s, [])

/-- `SendUVE` of the group of a type, with the messages it makes. -/
def UveType.SendUVE (t : UveType V σ) (o : Orders) (table name ctx : Bytes)
    (g : Group (Attrs V σ)) : List (Message V) × Bool :=
  let r := g.SendUVE t.sandesh o table name ctx
  (r.1.filterMap t.Send, r.2)

/-- There is no type map to call for a name that is not registered. -/
def TypeMaps.SyncIntrospect (s : TypeMaps V σ) (o : Orders) (tname table key : Bytes) :
    Option (List (Dispatched V)) := do
  let t ← types.lookup tname
  let r := t.SendUVE o table key [] (s.group tname)
  return r.1.map fun m => (tname, m)

/-- The `SandeshUVECacheResp`. -/
structure CacheResp where
  returned : UInt32
  period : Option Int
  deriving DecidableEq

/-- `SandeshUVECacheReq::HandleRequest`. -/
def TypeMaps.HandleRequest (s : TypeMaps V σ) (o : Orders) (tname : Bytes)
    (key : Option Bytes) (context : Bytes) :
    Option (TypeMaps V σ × List (Dispatched V) × CacheResp) :=
  match types.lookup tname with
  | none => some (s, [], ⟨0, none⟩)
  | some t =>
      match key with
      | some key =>
          let r := t.SendUVE o [] key context (s.group tname)
          -- `returned` is the `bool`
          some (s, r.1.map fun m => (tname, m), ⟨if r.2 then 1 else 0, some t.P⟩)
      | none => do
          let r ← t.SyncUVE o ⟨[], .ST_INTROSPECT, 0, 0, context⟩ (s.group tname)
          return (s.setGroup tname r.group, r.messages.map fun m => (tname, m),
            ⟨r.count, some t.P⟩)

/-- One call, and the messages it dispatches. -/
def TypeMaps.exec (s : TypeMaps V σ) :
    TypeCall V σ → Option (TypeMaps V σ × List (Dispatched V))
  | .Send tname call => s.Send types tname call
  | .SyncAllMaps names o inpMap periodic => s.SyncAllMaps types names o inpMap periodic
  | .SyncIntrospect o tname table key =>
      (s.SyncIntrospect types o tname table key).map fun out => (s, out)
  | .HandleRequest o tname key context =>
      (s.HandleRequest types o tname key context).map fun r => (r.1, r.2.1)

/-- Calls one after the other. -/
def typeMaps : Machine (TypeMaps V σ) (TypeCall V σ) where
  step s call := (s.exec types call).map Prod.fst

end Calls

end Sandesh.Uve
