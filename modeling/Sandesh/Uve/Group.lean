/-
All caches of one UVE type: `SandeshUVEPerTypeMapGroup<T, U, P, TM>`
(library/cpp/sandesh_uve.h).

The generator's own UVEs are in the native map. UVEs that it sends for
others are kept apart by proxy, with 30 maps for each; `GetGMap` makes the
maps of a proxy when they are first asked for. A call on the group goes
through the native map and then through the maps of each proxy in turn.

`ptr_map` is visited in the order of its keys, which is a parameter like
the order of the hash maps.
-/
import Mathlib.Data.List.FinRange
import Sandesh.Lib.Prog
import Sandesh.Uve.Basic

namespace Sandesh.Uve

open Lib

variable {β : Type}

/-- `SandeshUVETypeMaps::kProxyPartitions`. -/
abbrev kProxyPartitions : Nat := 30

/-- Which of the maps. -/
inductive Cell
  | native
  | proxy (proxy : Bytes) (partition : Fin kProxyPartitions)
  deriving DecidableEq

/-- The maps of a type: one for its own UVEs, and those of each proxy by
their partitions. -/
structure Group (β : Type) where
  native_map_ : PerTypeMap β
  group_map_ : Map Bytes (Fin kProxyPartitions → PerTypeMap β)

/-- The orders in which a call visits the keys of the maps. -/
structure Orders where
  proxies : Order Bytes
  names : Cell → Order Bytes
  tables : Cell → Order Bytes

namespace Group

/-- No proxies yet. -/
def new (T : UveSandesh β) : Group β := ⟨.new T, ∅⟩

/-- `GetGMap(proxy)`. -/
def GetGMap (T : UveSandesh β) (g : Group β) (proxy : Bytes) :
    Fin kProxyPartitions → PerTypeMap β :=
  (g.group_map_.lookup proxy).getD fun _ => .new T

/-- The map of a cell. -/
def get (T : UveSandesh β) (g : Group β) : Cell → PerTypeMap β
  | .native => g.native_map_
  | .proxy proxy partition => g.GetGMap T proxy partition

/-- Another map in a cell. -/
def put (T : UveSandesh β) (g : Group β) : Cell → PerTypeMap β → Group β
  | .native, m => { g with native_map_ := m }
  | .proxy proxy partition, m =>
      { g with
        group_map_ := g.group_map_.insert proxy
          (Function.update (g.GetGMap T proxy) partition m) }

/-- The maps that a call on the group goes through. -/
def cells (proxies : Order Bytes) (g : Group β) : List Cell :=
  .native :: (proxies.list g.group_map_.keys).flatMap fun proxy =>
    (List.finRange kProxyPartitions).map fun partition => .proxy proxy partition

end Group

-- ============================================================= updates

/-- The map that a partition means. There is none for a number that is not
-1 and not below 30. -/
def cellOf (proxy : Bytes) ( partition : Int) : Option Cell :=
  if partition = -1 then some .native
  else if h : 0 ≤ partition ∧ partition < kProxyPartitions then
    some (.proxy proxy ⟨partition.toNat, by omega⟩)
  else none

/-- `UpdateUVE` of the group; `proxy` is `SandeshStructProxyTrait<U>::get`. -/
def Group.UpdateUVE (TM : Nat) (T : UveSandesh β) (proxy : UveData β → Bytes)
    (u : Update β) ( partition : Int) (g : Group β) :
    Option (Bool × UveData β × Group β) := do
  let cell ← cellOf (proxy u.data) partition
  let r ← Uve.UpdateUVE TM T u (g.get T cell)
  return (r.send, r.data, g.put T cell r.map)

-- ================================================================ sync

/-- What a sync leaves, and what it has sent. -/
structure GroupSynced (β : Type) where
  group : Group β
  sent : List (Sent β)
  count : UInt32
  stuck : Bool

section Sync

variable (TM : Nat) (T : UveSandesh β) (o : Orders) (c : SyncCall)

/-- `SyncUVE` of one map after the other. -/
def syncCells : List Cell → Group β → GroupSynced β
  | [], g => ⟨g, [], 0, false⟩
  | cell :: cells, g =>
      let r := SyncUVE TM (o.names cell) (o.tables cell) c (g.get T cell)
      let g := g.put T cell r.map
      if r.stuck then ⟨g, r.sent, r.count, true⟩
      else
        let rest := syncCells cells g
        ⟨rest.group, r.sent ++ rest.sent, r.count + rest.count, rest.stuck⟩

/-- `SyncUVE` of the group: one cell after another. -/
def Group.SyncUVE (g : Group β) : GroupSynced β :=
  syncCells TM T o c (g.cells o.proxies) g

end Sync

-- ================================================================ send

/-- `SendUVE` of one map: the calls of `T::Send`, and whether there are
any. -/
def SendUVE (tables : Order Bytes) (table name ctx : Bytes) (m : PerTypeMap β) :
    List (Sent β) × Bool :=
  match m.cmap_.lookup name with
  | none => ([], false)
  | some second =>
      let sent := (tables.list second.keys).filterMap fun uve_entry =>
        if table ≠ [] ∧ uve_entry ≠ table then none
        else (second.lookup uve_entry).map fun e =>
          ⟨name, uve_entry, e.data, e.level,
            if ctx = [] then .ST_INTROSPECT else .ST_SYNC, e.seqno, 0, ctx⟩
      (sent, !sent.isEmpty)

/-- `SendUVE` of the group, and whether any cell had something to send. -/
def Group.SendUVE (T : UveSandesh β) (o : Orders) (table name ctx : Bytes)
    (g : Group β) : List (Sent β) × Bool :=
  let parts := (g.cells o.proxies).map fun cell =>
    Uve.SendUVE (o.tables cell) table name ctx (g.get T cell)
  (parts.flatMap Prod.fst, parts.any Prod.snd)

end Sandesh.Uve

/-
Threads that send UVEs of one type: the generated `Send`
(`generate_sandesh_uve_creator` in
compiler/generate/t_cpp_generator.cc) over the group of caches.

A call draws its number from `lseqnum_`, merges its data into the cache
under the entry's accessor, and dispatches the message if the cache says
so. Each of the three is atomic; between them the other threads go on.
-/

namespace Sandesh.Uve

open Lib

variable {τ β : Type} [DecidableEq τ]

/-- The arguments of `Send`. -/
structure SendCall (β : Type) where
  data : UveData β
  Xlevel : SandeshLevel
  table : Bytes
  mono_usec : UInt64
  partition : Int
  /-- What `ClockMonotonicUsec` would answer. -/
  clock : UInt64

/-- `if (!table.empty()) cdata.table_ = table;` -/
def SendCall.cdata (c : SendCall β) : UveData β :=
  { c.data with table_ := if c.table = [] then c.data.table_ else c.table }

/-- The arguments of `UpdateUVE`. -/
def SendCall.update (c : SendCall β) (msg_seqno : UInt32) : Update β :=
  ⟨c.cdata, msg_seqno, c.mono_usec, c.Xlevel, c.clock⟩

/-- Where a thread is in `Send`. -/
inductive Phase (β : Type)
  | idle
  | numbered (msg_seqno : UInt32) (call : SendCall β)
  | merged (msg_seqno : UInt32) (cdata : UveData β) (level : SandeshLevel)

/-- The static members of a UVE type, and where each thread is in its
`Send`. -/
structure Senders (τ β : Type) where
  lseqnum_ : UInt32
  uvemap : Group β
  phase : τ → Phase β
  /-- The messages dispatched. -/
  dispatched : List (UInt32 × UveData β × SandeshLevel)

/-- Nothing sent, no thread in `Send`. -/
def Senders.new (T : UveSandesh β) : Senders τ β := ⟨0, .new T, fun _ => .idle, []⟩

/-- The steps of a `Send`, and a sync between them. -/
inductive SendStep (τ β : Type)
  /-- `lseqnum_.fetch_and_increment() + 1` -/
  | number (t : τ) (call : SendCall β)
  | merge (t : τ)
  | dispatch (t : τ)

/-- `proxy` is `SandeshStructProxyTrait<U>::get`. -/
def sendStep (TM : Nat) (T : UveSandesh β) (proxy : UveData β → Bytes)
    (s : Senders τ β) : SendStep τ β → Option (Senders τ β)
  | .number t call =>
      match s.phase t with
      | .idle => some { s with
          lseqnum_ := s.lseqnum_ + 1
          phase := Function.update s.phase t (.numbered (s.lseqnum_ + 1) call) }
      | _ => none
  | .merge t =>
      match s.phase t with
      | .numbered msg_seqno call =>
          (s.uvemap.UpdateUVE TM T proxy (call.update msg_seqno)
            call.partition).map fun (send, cdata, uvemap) =>
              { s with
                uvemap := uvemap
                phase := Function.update s.phase t
                  (if send then .merged msg_seqno cdata call.Xlevel else .idle) }
      | _ => none
  | .dispatch t =>
      match s.phase t with
      | .merged msg_seqno cdata level => some { s with
          phase := Function.update s.phase t .idle
          dispatched := s.dispatched ++ [(msg_seqno, cdata, level)] }
      | _ => none

/-- Any number of threads in any order. -/
def senders (TM : Nat) (T : UveSandesh β) (proxy : UveData β → Bytes) :
    Machine (Senders τ β) (SendStep τ β) where
  step := sendStep TM T proxy

end Sandesh.Uve

/-
The two loops of `SandeshUVEPerTypeMapImpl::SyncUVE`, turn by turn
(library/cpp/sandesh_uve.h).

`Uve.SyncUVE` says what a call does and whether it is stuck. Here it is
the program itself: an outer `while` with the iterator `git` over the
names and an inner one with `uit` over the tables of a name, each of
which may go on for ever. An iterator is the list of what is still in
front of it. A turn is `.inl` with the variables it leaves, or `.inr` when
the condition of the loop fails.
-/

namespace Sandesh.Uve.Loops

open Lib

variable {β : Type}

-- ====================================================== the inner loop

/-- The variables of the inner loop; `second` is `a->second`. -/
structure TableIter (β : Type) where
  uit : List (Bytes × UVEMapEntry β)
  second : UveTableMap β
  sent : List (Sent β)
  count : UInt32

/-- The entries from `a->second.begin()` on. -/
def entries (tables : Order Bytes) (second : UveTableMap β) :
    List (Bytes × UVEMapEntry β) :=
  (tables.list second.keys).filterMap fun table =>
    (second.lookup table).map fun e => (table, e)

/-- One turn of the inner loop of `SyncUVE`, as the source has it. -/
def tableTurn (TM : Nat) (c : SyncCall) (name : Bytes) (i : TableIter β) :
    TableIter β ⊕ TableIter β :=
  match i.uit with
  | [] => .inr i
  | (first, e) :: uit =>
      -- `continue`, with `uit` where it was
      if c.table ≠ [] ∧ first ≠ c.table then .inl i
      else if c.wants e.seqno then
        .inl {
          uit := uit
          second := Map.set i.second first (aged TM c e)
          sent := i.sent ++ [c.message name first e]
          count := i.count + 1 }
      else .inl { i with uit := uit }

/-- The inner loop. -/
def tableLoop (TM : Nat) (c : SyncCall) (name : Bytes) :
    TableIter β → Comp (TableIter β) :=
  Comp.loop fun i => .pure (tableTurn TM c name i)

-- ====================================================== the outer loop

/-- The variables of the outer loop. -/
structure NameIter (β : Type) where
  git : List Bytes
  cmap_ : Map Bytes (UveTableMap β)
  sent : List (Sent β)
  count : UInt32

/-- One turn of the outer loop. -/
def nameTurn (TM : Nat) (tables : Order Bytes) (c : SyncCall) (i : NameIter β) :
    Comp (NameIter β ⊕ NameIter β) :=
  match i.git with
  | [] => .pure (.inr i)
  | name :: git =>
      match i.cmap_.lookup name with
      -- `if (!cmap_.find(a, git->first)) continue;`
      | none => .pure (.inl i)
      | some second =>
          (tableLoop TM c name ⟨entries tables second, second, i.sent, i.count⟩).bind
            fun j => .pure (.inl ⟨git, Map.set i.cmap_ name (kept j.second), j.sent,
              j.count⟩)

/-- The outer loop. Where it has no end there is no result. -/
def nameLoop (TM : Nat) (tables : Order Bytes) (c : SyncCall) :
    NameIter β → Comp (NameIter β) :=
  Comp.loop (nameTurn TM tables c)

-- =========================================================== the calls

/-- `SandeshUVEPerTypeMapImpl::SyncUVE`. -/
def SyncUVE (TM : Nat) (names tables : Order Bytes) (c : SyncCall)
    (m : PerTypeMap β) : Comp (PerTypeMap β × List (Sent β) × UInt32) :=
  (nameLoop TM tables c ⟨names.list m.cmap_.keys, m.cmap_, [], 0⟩).bind
    fun i => .pure ({ m with cmap_ := i.cmap_ }, i.sent, i.count)

/-- The `for` loops of the group's `SyncUVE`. -/
def syncCells (TM : Nat) (T : UveSandesh β) (o : Orders) (c : SyncCall) :
    List Cell → Group β → Comp (Group β × List (Sent β) × UInt32)
  | [], g => .pure (g, [], 0)
  | cell :: cells, g =>
      (SyncUVE TM (o.names cell) (o.tables cell) c (g.get T cell)).bind fun r =>
        (syncCells TM T o c cells (g.put T cell r.1)).bind fun rest =>
          .pure (rest.1, r.2.1 ++ rest.2.1, r.2.2 + rest.2.2)

/-- `SandeshUVEPerTypeMapGroup::SyncUVE`. -/
def groupSyncUVE (TM : Nat) (T : UveSandesh β) (o : Orders) (c : SyncCall)
    (g : Group β) : Comp (Group β × List (Sent β) × UInt32) :=
  syncCells TM T o c (g.cells o.proxies) g

end Sandesh.Uve.Loops
