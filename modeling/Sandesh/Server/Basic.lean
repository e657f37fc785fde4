/-
The connections of a server and their indices
(library/cpp/sandesh_server.cc, with `SandeshServerConnection::Destroy` of
sandesh_connection.cc).

Every incoming session is given an index by `AllocSession`, before the
server knows whom it is from. `AcceptSession` hands the index to a new
connection if there is none for the remote endpoint, and the connection
gives it back when it is destroyed. `conn_bmap_` has a bit for each index,
set while the index is free; it ends with an index in use.

# What stays outside

A connection takes its session over and lets it go in its state machine,
some time after it was accepted; here that is two actions of their own.
Endpoints are of any type. An index is a natural number: a bitmap with
2^31 bits, from where on one does not fit in an `int`, is out of reach.
The two functions on the bitmap are those of `Bitmap` below, which has the
conversions and the bounds of the bitset too, as far as the indices fit
(`Bitmap.alloc_eq`, `Bitmap.free_eq`).
-/
import Sandesh.Lib.Machine
import Sandesh.Lib.Pass
import Sandesh.Lib.Wire

namespace Sandesh.Server

open Lib

/-- `SandeshServerConnection`, as far as the server looks at it. -/
structure SandeshConnection where
  /-- the index of the session that the connection was made for -/
  task_instance_ : Nat
  /-- whether `session_` is not `NULL` -/
  session_ : Bool
deriving DecidableEq

/-- The connections by their endpoints, and the bitmap. -/
structure SandeshServer (Endpoint : Type) where
  connection_ : Map Endpoint SandeshConnection
  conn_bmap_ : List Bool

/-- The first bit that is set, or a new one at the end, which is reset. -/
def AllocConnectionIndex (conn_bmap_ : List Bool) : Nat × List Bool :=
  match conn_bmap_.findIdx? id with
  | some bit => (bit, conn_bmap_.set bit false)
  | none =>
      let bit := conn_bmap_.length
      (bit, (conn_bmap_ ++ [true]).set bit false)

/-- The loop of `FreeConnectionIndex`: bits that are set at the end are
dropped. -/
def shrink (conn_bmap_ : List Bool) : Nat → List Bool
  | 0 => []
  | i + 1 =>
      if conn_bmap_[i]? = some true then shrink conn_bmap_ i
      else if i + 1 ≠ conn_bmap_.length then conn_bmap_.take (i + 1)
      else conn_bmap_

/-- The bit is set again. -/
def FreeConnectionIndex (conn_bmap_ : List Bool) (bit : Nat) : List Bool :=
  let conn_bmap_ := conn_bmap_.set bit true
  shrink conn_bmap_ conn_bmap_.length

namespace SandeshServer

variable {Endpoint : Type} [DecidableEq Endpoint] (s : SandeshServer Endpoint)

/-- A server without connections: the bitmap is empty. -/
def new : SandeshServer Endpoint := ⟨∅, []⟩

/-- `AllocSession`: the instance of the session. -/
def AllocSession : Nat × SandeshServer Endpoint :=
  let (bit, conn_bmap_) := AllocConnectionIndex s.conn_bmap_
  (bit, { s with conn_bmap_ := conn_bmap_ })

/-- `AcceptSession`, with its result. `SandeshConnection::AcceptSession`
only puts an event on the queue of the state machine. -/
def AcceptSession (remote : Endpoint) (session_instance : Nat) :
    SandeshServer Endpoint × Bool :=
  match s.connection_.lookup remote with
  | none =>
      ({ s with connection_ := s.connection_.insert remote ⟨session_instance, false⟩ }, true)
  | some connection => (s, !connection.session_)

/-- `SandeshServerConnection::Destroy`. Its test `index != -1` holds of
every index that fits in an `int`: the connection has the one of a session,
which `AllocSession` has given out. -/
def Destroy (endpoint : Endpoint) (connection : SandeshConnection) :
    SandeshServer Endpoint where
  connection_ := s.connection_.erase endpoint
  conn_bmap_ := FreeConnectionIndex s.conn_bmap_ connection.task_instance_

end SandeshServer

/-- What happens to a server. -/
inductive Action (Endpoint : Type)
  /-- a TCP session comes in: `AllocSession`, then `AcceptSession` -/
  | incoming (remote : Endpoint)
  /-- the state machine of a connection sets its session -/
  | opened (remote : Endpoint)
  /-- the session of a connection ends -/
  | ended (remote : Endpoint)
  /-- the lifetime manager destroys a connection -/
  | destroy (remote : Endpoint)

variable {Endpoint : Type} [DecidableEq Endpoint]

/-- The session of a connection that there is. -/
def setSession (s : SandeshServer Endpoint) (remote : Endpoint) (session_ : Bool) :
    Option (SandeshServer Endpoint) :=
  (s.connection_.lookup remote).map fun connection =>
    { s with connection_ := s.connection_.insert remote { connection with session_ } }

/-- Only what there is a connection for can happen to a connection. -/
def machine : Machine (SandeshServer Endpoint) (Action Endpoint) where
  step s
    | .incoming remote =>
        let (session_instance, s) := s.AllocSession
        some (s.AcceptSession remote session_instance).1
    | .opened remote => setSession s remote true
    | .ended remote => setSession s remote false
    | .destroy remote => (s.connection_.lookup remote).map (s.Destroy remote)

end Sandesh.Server

/-
`AllocConnectionIndex` and `FreeConnectionIndex` on a
`boost::dynamic_bitset<>` (library/cpp/sandesh_server.cc), with every
access to a bit and every conversion of an index.

A bit that is set means that its index is free. An access outside of the
bitmap is undefined (an assertion in the bitset): it has no result here.
Positions are of type `size_t`, an index that is handed out or given back
is an `int`.

`Basic` has the same two functions on natural numbers, for where the
indices go; here is what they do with the bitmap itself.
-/

namespace Sandesh.Server.Bitmap

open Lib

-- ================================================ boost::dynamic_bitset

/-- `find_first`; `none` is `npos`. -/
def find_first (bmap : List Bool) : Option Nat :=
  bmap.findIdx? id

/-- `resize(num_bits, value)`. -/
def resize (bmap : List Bool) (num_bits : Nat) (value : Bool) : List Bool :=
  bmap.take num_bits ++ List.replicate (num_bits - bmap.length) value

/-- `set(pos)`. -/
def set (bmap : List Bool) (pos : Nat) : Option (List Bool) :=
  if pos < bmap.length then some (bmap.set pos true) else none

/-- `reset(pos)`. -/
def reset (bmap : List Bool) (pos : Nat) : Option (List Bool) :=
  if pos < bmap.length then some (bmap.set pos false) else none

-- ========================================================= the functions

/-- The index as an `int`, and the bitmap. -/
def AllocConnectionIndex (conn_bmap_ : List Bool) : Option (Int × List Bool) :=
  let (bit, conn_bmap_) := match find_first conn_bmap_ with
    | some bit => (bit, conn_bmap_)
    | none =>
        let bit := conn_bmap_.length
        (bit, resize conn_bmap_ (bit + 1) true)
  (reset conn_bmap_ bit).map fun conn_bmap_ => (i32 bit, conn_bmap_)

/-- The loop of `FreeConnectionIndex` from `i` on; at 0 `clear` is called. -/
def trim (conn_bmap_ : List Bool) : Nat → Option (List Bool)
  | 0 => some []
  | i + 1 =>
      conn_bmap_[i]?.bind fun bit =>
        if bit ≠ true then
          if i + 1 ≠ conn_bmap_.length then some (resize conn_bmap_ (i + 1) false)
          else some conn_bmap_
        else trim conn_bmap_ i

/-- The bit at `id`, converted to a position, is set again. -/
def FreeConnectionIndex (conn_bmap_ : List Bool) (id : Int) :
    Option (List Bool) :=
  (set conn_bmap_ (u64 id)).bind fun conn_bmap_ =>
    trim conn_bmap_ conn_bmap_.length

-- ============================================================== the calls

/-- The bitmap, and the indices that were handed out and not given back. -/
structure Indices where
  conn_bmap_ : List Bool
  live : List Int

/-- On a fresh server. -/
def Indices.new : Indices := ⟨[], []⟩

/-- The two calls of the server. -/
inductive Call
  | alloc
  | free (id : Int)

/-- A call has no successor where it leaves the bitmap. -/
def calls : Machine Indices Call where
  step s
    | .alloc => (AllocConnectionIndex s.conn_bmap_).map fun r =>
        ⟨r.2, r.1 :: s.live⟩
    | .free id => (FreeConnectionIndex s.conn_bmap_ id).map fun conn_bmap_ =>
        ⟨conn_bmap_, s.live.erase id⟩

end Sandesh.Server.Bitmap

/-
Finding the connection of an endpoint (library/cpp/sandesh_server.cc).

`connection_` is a `ptr_map` from endpoints to connections, and a
connection knows its own endpoint. `FindConnection` does not look the
endpoint up: it goes through the map with `find_if` and the predicate
`Compare`. The order of the map is a parameter.

The session of a connection comes and goes in its state machine, an action
of its own here; `AcceptSession` looks at it.
-/

namespace Sandesh.Server.Lookup

open Lib

/-- A connection that knows its endpoint. -/
structure SandeshConnection (Endpoint : Type) where
  endpoint_ : Endpoint
  task_instance_ : Int
  /-- whether `session_` is not `NULL` -/
  session_ : Bool
deriving DecidableEq

/-- `SandeshServer::connection_`. -/
abbrev ConnectionMap (Endpoint : Type) := Map Endpoint (SandeshConnection Endpoint)

variable {Endpoint : Type} [DecidableEq Endpoint]

/-- `peer_addr == p.second->endpoint() ? false : true`. -/
def Compare (peer_addr : Endpoint) (p : SandeshConnection Endpoint) : Bool :=
  if peer_addr = p.endpoint_ then false else true

/-- The connections as one meets them from `begin()` to `end()`. -/
def entries (order : Order Endpoint) (connection_ : ConnectionMap Endpoint) :
    List (SandeshConnection Endpoint) :=
  (order.list connection_.keys).filterMap connection_.lookup

/-- `none` is `NULL`. -/
def FindConnection (order : Order Endpoint) (connection_ : ConnectionMap Endpoint)
    (peer_addr : Endpoint) : Option (SandeshConnection Endpoint) :=
  (entries order connection_).find? (Compare peer_addr)

/-- `AcceptSession` of a session from `remote`, with its result. -/
def AcceptSession (connection_ : ConnectionMap Endpoint) (remote : Endpoint)
    (session_instance : Int) : ConnectionMap Endpoint × Bool :=
  match connection_.lookup remote with
  | none => (connection_.insert remote ⟨remote, session_instance, false⟩, true)
  | some connection => (connection_, !connection.session_)

/-- The entry of the connection's endpoint goes. -/
def RemoveConnection (connection_ : ConnectionMap Endpoint)
    (connection : SandeshConnection Endpoint) : ConnectionMap Endpoint :=
  connection_.erase connection.endpoint_

/-- `connection_->set_session`, in the state machine of a connection. -/
def set_session (connection_ : ConnectionMap Endpoint) (remote : Endpoint)
    (session_ : Bool) : Option (ConnectionMap Endpoint) :=
  (connection_.lookup remote).map fun connection =>
    connection_.insert remote { connection with session_ }

/-- What happens to the map. -/
inductive Action (Endpoint : Type)
  | AcceptSession (remote : Endpoint) (session_instance : Int)
  | RemoveConnection (connection : SandeshConnection Endpoint)
  | set_session (remote : Endpoint) (session_ : Bool)

/-- The map step by step. -/
def machine : Machine (ConnectionMap Endpoint) (Action Endpoint) where
  step m
    | .AcceptSession remote session_instance =>
        some (AcceptSession m remote session_instance).1
    | .RemoveConnection connection => some (RemoveConnection m connection)
    | .set_session remote session_ => set_session m remote session_

end Sandesh.Server.Lookup
