/-
The generator's cache of UVEs, one per UVE type:
`SandeshUVEPerTypeMapImpl<T, U, P, TM>` (library/cpp/sandesh_uve.h).

# The cache

`cmap_` maps a UVE's name to the tables it is in, and a table to a
`UVEMapEntry`. `UpdateUVE` makes sure that the name has a table map before
it looks for the table, merges the update into the entry, and takes the
entry out again if the update says that the UVE is deleted. `SyncUVE`
sends what the collector has not seen; a periodic sync of a type with a
timeout also ages the entries, with the `deleted` flag of the cached data
as the mark.

# What is generated

`U` is a generated struct of which the cache reads three members; the
other attributes, their `__isset` flags and the derived statistics are
`rest`. `T` is the generated sandesh. Its `_InitDerivedStats` sets up the
statistics of a new entry and its `UpdateUVE` copies what is set in the
update into the entry; of the update itself it only clears flags and
fills in results (`generate_sandesh_updater` in
compiler/generate/t_cpp_generator.cc). `T::Send` does not touch the cache:
its calls are logged, with the entry each is for.

# What stops a call

`assert(!table.empty())` ends the process. In `SyncUVE` an entry of
another table than the one asked for is passed over by a `continue` that
does not move the iterator, so the call stays there for ever: such a call
is `stuck`, with what it did before. The locks only order the calls.
-/
import Sandesh.Lib.Machine
import Sandesh.Lib.Pass
import Sandesh.Lib.Text

namespace Sandesh.Uve

open Lib

-- ================================================================ data

/-- The levels of messages. -/
inductive SandeshLevel
  | SYS_UVE
  | SYS_EMERG
  | SYS_ALERT
  | SYS_CRIT
  | SYS_ERR
  | SYS_WARN
  | SYS_NOTICE
  | SYS_INFO
  | SYS_DEBUG
  | UT_EMERG
  | UT_ALERT
  | UT_CRIT
  | UT_ERR
  | UT_WARN
  | UT_NOTICE
  | UT_INFO
  | UT_DEBUG
  | INVALID
deriving DecidableEq

/-- `SandeshUVE::SendType`. -/
inductive SendType
  | ST_SYNC
  | ST_INTROSPECT
  | ST_PERIODIC
deriving DecidableEq

/-- The UVE type `U`. -/
structure UveData (β : Type) where
  table_ : Bytes
  name : Bytes
  deleted : Bool
  rest : β

/-- What `T::UpdateUVE` returns and leaves in its two arguments. -/
structure Merged (β : Type) where
  send : Bool
  data : β
  tdata : UveData β

/-- The sandesh type `T`. -/
structure UveSandesh (β : Type) where
  /-- The other members of a `U(table)`. -/
  fresh : β
  DSConf : Map Bytes Bytes
  InitDerivedStats : UveData β → Map Bytes Bytes → β
  UpdateUVE : UveData β → UveData β → UInt64 → SandeshLevel → Merged β

variable {β : Type}

/-- What the cache keeps of a UVE. -/
structure UVEMapEntry (β : Type) where
  data : UveData β
  seqno : UInt32
  level : SandeshLevel

/-- The UVEs of a table by their names. -/
abbrev UveTableMap (β : Type) := Map Bytes (UVEMapEntry β)

/-- The cache of a type. -/
structure PerTypeMap (β : Type) where
  cmap_ : Map Bytes (UveTableMap β)
  dsconf_ : Map Bytes Bytes

/-- `SandeshUVEPerTypeMapImpl()`. -/
def PerTypeMap.new (T : UveSandesh β) : PerTypeMap β := ⟨∅, T.DSConf⟩

/-- The entry of a name in a table. -/
def PerTypeMap.find (m : PerTypeMap β) (name table : Bytes) :
    Option (UVEMapEntry β) :=
  (m.cmap_.lookup name).bind fun tables => tables.lookup table

/-- `if (a->second.empty()) cmap_.erase(a);` -/
def kept (tables : UveTableMap β) : Option (UveTableMap β) :=
  if tables.keys = ∅ then none else some tables

/-- No name is there without a table. -/
def PerTypeMap.NoEmpty (m : PerTypeMap β) : Prop :=
  ∀ name tables, m.cmap_.lookup name = some tables → tables.keys ≠ ∅

-- ============================================================= updates

/-- A call of `Send` for a UVE. -/
structure Update (β : Type) where
  data : UveData β
  seqnum : UInt32
  mono_usec : UInt64
  level : SandeshLevel
  /-- What `ClockMonotonicUsec` would answer. -/
  clock : UInt64

/-- What the cache makes of it. -/
structure Updated (β : Type) where
  send : Bool
  data : UveData β
  map : PerTypeMap β

/-- `mono_usec`, once it is set. -/
def Update.time (u : Update β) : UInt64 :=
  if u.mono_usec = 0 then u.clock else u.mono_usec

/-- The entry `T::UpdateUVE` is given: a new one, or the one that is there. -/
def entryFor (TM : Nat) (T : UveSandesh β) (u : Update β)
    (dsconf : Map Bytes Bytes) : Option (UVEMapEntry β) → UVEMapEntry β
  | none =>
      let data : UveData β := ⟨u.data.table_, [], false, T.fresh⟩
      ⟨{ data with rest := T.InitDerivedStats data dsconf }, u.seqnum, u.level⟩
  | some e =>
      let data := if TM ≠ 0 then { e.data with deleted := false } else e.data
      { e with data := data, seqno := u.seqnum }

/-- `UpdateUVE`: the entry is merged or made, and what is to be sent is
returned. -/
def UpdateUVE (TM : Nat) (T : UveSandesh β) (u : Update β)
    (m : PerTypeMap β) : Option (Updated β) :=
  let table := u.data.table_
  if table = [] then none
  else
    let s := u.data.name
    let tables := (m.cmap_.lookup s).getD ∅
    let ume := entryFor TM T u m.dsconf_ (tables.lookup table)
    let r := T.UpdateUVE u.data ume.data u.time u.level
    let tables := tables.insert table { ume with data := r.tdata }
    let cmap :=
      if u.data.deleted then Map.set m.cmap_ s (kept (tables.erase table))
      else m.cmap_.insert s tables
    some ⟨r.send, { u.data with rest := r.data }, { m with cmap_ := cmap }⟩

-- ================================================================ sync

/-- A call of `SyncUVE`. -/
structure SyncCall where
  table : Bytes
  st : SendType
  seqno : UInt32
  cycle : UInt32
  ctx : Bytes

/-- A call of `T::Send`, and the entry it is for. -/
structure Sent (β : Type) where
  name : Bytes
  table : Bytes
  data : UveData β
  level : SandeshLevel
  st : SendType
  seqno : UInt32
  cycle : UInt32
  ctx : Bytes

/-- What a sync leaves, and what it has sent. -/
structure Synced (β : Type) where
  map : PerTypeMap β
  sent : List (Sent β)
  count : UInt32
  stuck : Bool

/-- The entry is newer than what the collector has, or it has nothing. -/
def SyncCall.wants (c : SyncCall) (seqno : UInt32) : Prop :=
  c.seqno < seqno ∨ c.seqno = 0

instance (c : SyncCall) (seqno : UInt32) : Decidable (c.wants seqno) :=
  inferInstanceAs (Decidable (_ ∨ _))

/-- The periodic syncs that age the entries. -/
def SyncCall.expires (TM : Nat) (c : SyncCall) : Prop :=
  TM ≠ 0 ∧ c.st = .ST_PERIODIC ∧ c.cycle.toNat % TM = 0

instance (TM : Nat) (c : SyncCall) : Decidable (c.expires TM) :=
  inferInstanceAs (Decidable (_ ∧ _ ∧ _))

/-- `T::Send` for one entry. -/
def SyncCall.message (c : SyncCall) (name table : Bytes)
    (e : UVEMapEntry β) : Sent β :=
  ⟨name, table, e.data, e.level, c.st, e.seqno, c.cycle, c.ctx⟩

/-- An entry after it was sent: two rounds without an update erase it. -/
def aged (TM : Nat) (c : SyncCall) (e : UVEMapEntry β) :
    Option (UVEMapEntry β) :=
  if c.expires TM then
    if e.data.deleted then none
    else some { e with data := { e.data with deleted := true } }
  else some e

/-- One turn of the inner loop. -/
def syncEntry (TM : Nat) (c : SyncCall) (name table : Bytes)
    (e : UVEMapEntry β) : Turn (UVEMapEntry β) (Sent β) :=
  if c.table ≠ [] ∧ table ≠ c.table then ⟨some e, [], true⟩
  else if c.wants e.seqno then
    ⟨aged TM c e, [c.message name table e], false⟩
  else ⟨some e, [], false⟩

/-- One turn of the outer loop. -/
def syncName (TM : Nat) (order : Order Bytes) (c : SyncCall) (name : Bytes)
    (tables : UveTableMap β) : Turn (UveTableMap β) (Sent β) :=
  let r := Map.walk order (syncEntry TM c name) tables
  ⟨if r.stuck then some r.map else kept r.map, r.sent, r.stuck⟩

/-- `names` is the order of the hash map, `tables` that of the table
maps. -/
def SyncUVE (TM : Nat) (names tables : Order Bytes) (c : SyncCall)
    (m : PerTypeMap β) : Synced β :=
  let r := Map.walk names (syncName TM tables c) m.cmap_
  -- `count++` comes with every `T::Send`
  ⟨{ m with cmap_ := r.map }, r.sent, r.sent.foldl (fun n _ => n + 1) 0,
    r.stuck⟩

-- ================================================================ runs

/-- An update or a sync. -/
inductive Act (β : Type)
  | update (u : Update β)
  | sync (names tables : Order Bytes) (c : SyncCall)

/-- Calls on one cache, one after the other. -/
def cache (TM : Nat) (T : UveSandesh β) : Machine (PerTypeMap β) (Act β) where
  step m
    | .update u => (UpdateUVE TM T u m).map fun r => r.map
    | .sync names tables c =>
        let r := SyncUVE TM names tables c m
        if r.stuck then none else some r.map

end Sandesh.Uve
