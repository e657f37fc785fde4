/-
The Python generator's cache of UVEs, `SandeshUVEPerTypeMap`
(library/python/pysandesh/sandesh_uve.py).

`_uve_map` maps a table to the names in it, and a name to a
`UVEMapEntry`. Unlike in C++ a deleted UVE stays: its entry is marked by
the `deleted` attribute of its data, so that the deletion is sent again
to a collector that has not seen it. `deleted` has three values, and all
tests are `is True` or `is not True`.

The type of the UVE is a parameter: how its `update_uve` merges an update
into the cached data, and whether it is a `SandeshDynamicUVE`, in which
case `update_uve` is also applied to a new entry. The kind that the
compiler generates follows at the end. Objects are values: `copy.deepcopy` is the
identity, and `update_uve`, which changes its argument and returns it, is
a function to the changed one. Which table or name a dict yields first is
left open.
-/
import Sandesh.Lib.Pass
import Sandesh.Lib.Text

namespace Sandesh.Py.Uve

open Lib

/-- The data of a UVE; `rest` are its other attributes. -/
structure UveData (β : Type) where
  name : Bytes
  _table : Option Bytes
  deleted : Option Bool
  rest : β

/-- What `update_uve` leaves in the cached data and in the update. -/
structure Merged (β : Type) where
  tdata : UveData β
  data : UveData β

/-- A generated class, as far as the cache uses it. -/
structure UveType (β : Type) where
  isDynamic : Bool
  update_uve : UveData β → UveData β → Merged β

/-- A UVE that is sent. -/
structure UveSandesh (β : Type) where
  data : UveData β
  seqnum : Nat

/-- What the cache keeps of it. -/
structure UVEMapEntry (β : Type) where
  data : UveData β
  seqno : Nat
  update_count : Nat

variable {β : Type}

/-- The cache, by table and name. -/
abbrev UveMap (β : Type) := Map Bytes (Map Bytes (UVEMapEntry β))

/-- The entry of a name in a table. -/
def find (m : UveMap β) (table name : Bytes) : Option (UVEMapEntry β) :=
  (m.lookup table).bind fun names => names.lookup name

-- ============================================================= updates

/-- The entry of a UVE that was not there, or was deleted. -/
def newEntry (T : UveType β) (u : UveSandesh β) : UVEMapEntry β :=
  ⟨if T.isDynamic then (T.update_uve u.data u.data).tdata else u.data,
    u.seqnum, 0⟩

/-- What becomes of the entry of the UVE. -/
def updated (T : UveType β) (u : UveSandesh β) :
    Option (UVEMapEntry β) → UVEMapEntry β
  | none => newEntry T u
  | some uve_entry =>
      if uve_entry.data.deleted = some true then
        if u.data.deleted ≠ some true then newEntry T u
        -- `Duplicate uve delete`
        else uve_entry
      else
        ⟨(T.update_uve u.data uve_entry.data).tdata, u.seqnum,
          uve_entry.update_count + 1⟩

/-- `update_uve`: whether to send, and the cache behind it. -/
def update_uve (T : UveType β) (m : UveMap β) (u : UveSandesh β) :
    Bool × UveMap β :=
  match u.data._table with
  | none => (false, m)
  | some uve_table =>
      if uve_table = [] then (false, m)
      else
        let names := (m.lookup uve_table).getD ∅
        let uve_entry := updated T u (names.lookup u.data.name)
        (true, m.insert uve_table (names.insert u.data.name uve_entry))

-- ================================================================ sync

/-- A message handed to `send(True, seqno, ctx, more)`, and the entry it
is for. -/
structure Sent (β : Type) where
  table : Bytes
  name : Bytes
  data : UveData β
  seqno : Nat
  ctx : Bytes
  more : Bool

/-- A call of `sync_uve`. -/
structure SyncCall where
  table : Option Bytes
  seqno : Nat
  ctx : Bytes
  more : Bool

/-- One turn of the inner loop. -/
def syncName (c : SyncCall) (uve_table uve_name : Bytes)
    (e : UVEMapEntry β) : Turn (UVEMapEntry β) (Sent β) :=
  ⟨some e,
    if c.seqno = 0 ∨ c.seqno < e.seqno then
      [⟨uve_table, uve_name, e.data, e.seqno, c.ctx, c.more⟩]
    else [],
    false⟩

/-- One turn of the outer loop. -/
def syncTable (names : Order Bytes) (c : SyncCall) (uve_table : Bytes)
    (uve_map : Map Bytes (UVEMapEntry β)) :
    Turn (Map Bytes (UVEMapEntry β)) (Sent β) :=
  if c.table ≠ none ∧ c.table ≠ some uve_table then ⟨some uve_map, [], false⟩
  else ⟨some uve_map, (Map.walk names (syncName c uve_table) uve_map).sent, false⟩

/-- The messages `sync_uve` sends and the count it returns. -/
def sync_uve (tables names : Order Bytes) (c : SyncCall) (m : UveMap β) :
    List (Sent β) × Nat :=
  let sent := (Map.walk tables (syncTable names c) m).sent
  (sent, sent.foldl (fun count _ => count + 1) 0)

-- =================================================== the kinds of UVEs

/-- A generated UVE copies every attribute that is not `None`
(compiler/generate/t_py_generator.cc). -/
def generated (α : Type) : UveType (List (Option α)) where
  isDynamic := false
  update_uve data tdata :=
    ⟨{ tdata with
        name := data.name
        deleted := data.deleted <|> tdata.deleted
        rest := List.zipWith (fun new old => new <|> old) data.rest tdata.rest },
      data⟩

end Sandesh.Py.Uve
