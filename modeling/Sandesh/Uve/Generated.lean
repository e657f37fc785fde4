/-
The code that is generated for a UVE type: `UpdateUVE`, `LoadUVE` and
`Send` of the sandesh `T` (`generate_sandesh_updater` and
`generate_sandesh_uve_creator` in compiler/generate/t_cpp_generator.cc).

# The struct

A UVE struct has a `name`, an optional `deleted`, and members of its own,
which are the `fields` here. A field that is not optional is always
written. An optional field is written if its `__isset` flag is up; it may
be annotated `hidden`, and it may be a statistic (`stats` or `mstats`)
that is derived from another field, its raw attribute.

The cache reads `name`, `deleted` and `table_` (`UveData`); the fields are
its `rest` (`Attrs`). Of `deleted` the cache keeps the value; the flag is
kept here, as the update has it.

# The statistics

A statistic is computed by an object of one of the templates in
derived_stats.h, which the generated code updates, asks for its result and
flushes; these objects are a parameter (`DerivedStats`). A struct holds
them by shared pointers: `LoadUVE` works on a copy of a cached struct and
on the very objects of the cache.

`rawmap` is visited in the order of the names. Each statistic has its own
object and its own member, so the fields' order is as good.
-/
import Sandesh.Uve.Group

namespace Sandesh.Uve

open Lib

-- ===================================================== the definition

/-- `t_field::e_req`. -/
inductive Req
  | T_REQUIRED
  | T_OPTIONAL
  | T_OPT_IN_REQ_OUT
  deriving DecidableEq

/-- How a field is kept and sent. -/
inductive CacheAttribute
  | MANDATORY
  | INLINE
  | HIDDEN
  | PERIODIC
  | HIDDEN_PER
  deriving DecidableEq

/-- A `stats` or `mstats` annotation: the raw attribute, and the number
before a `-`. -/
structure StatsOf where
  rawattr : Bytes
  period : Option Nat

/-- A field of a UVE, as far as the generated `UpdateUVE` looks at it. -/
structure Field where
  name : Bytes
  req : Req
  hidden : Bool
  stats : Option StatsOf

/-- A UVE's definition, with its annotations. -/
structure UveStruct where
  /-- There is a `period` annotation. -/
  periodic : Bool
  fields : List Field
  nodup : (fields.map Field.name).Nodup
  own : ∀ f ∈ fields, f.name ≠ lit "name" ∧ f.name ≠ lit "deleted"
  /-- `Mandatory fields cannot have DerivedStats, or be of hidden/periodic
  type`. -/
  mandatory : ∀ f ∈ fields, f.req ≠ .T_OPTIONAL → f.hidden = false ∧ f.stats = none
  /-- `assert(!rawtype.empty())` -/
  raw : ∀ f ∈ fields, ∀ s, f.stats = some s → s.rawattr ∈ fields.map Field.name
  /-- `DS attributes in non-periodic structs must have period 0`. -/
  period : ∀ f ∈ fields, ∀ s, f.stats = some s → periodic = false →
    s.period.getD 0 = 0

/-- `cache_attr_info`, for a field that is not a statistic. -/
def Field.cache_attr_info (f : Field) : CacheAttribute :=
  if f.req ≠ .T_OPTIONAL then .MANDATORY
  else if f.hidden then .HIDDEN
  else .INLINE

/-- `period_` of `derived_stats_info`. -/
def UveStruct.period_ (d : UveStruct) (s : StatsOf) : Nat :=
  s.period.getD (if d.periodic then 1 else 0)

/-- `cat_` of `derived_stats_info`. -/
def UveStruct.cat_ (d : UveStruct) (f : Field) (s : StatsOf) : CacheAttribute :=
  if d.periodic then
    if f.hidden then if d.period_ s ≠ 0 then .HIDDEN_PER else .HIDDEN
    else if d.period_ s ≠ 0 then .PERIODIC
    else .INLINE
  else if f.hidden then .HIDDEN
  else .INLINE

/-- `rawmap`: the statistics of a raw attribute. -/
def UveStruct.rawmap (d : UveStruct) (snm : Bytes) : List (Field × StatsOf) :=
  d.fields.filterMap fun f =>
    (f.stats.filter fun s => s.rawattr = snm).map fun s => (f, s)

-- ========================================================== attributes

/-- The fields of a struct. -/
structure Attrs (V σ : Type) where
  value : Bytes → V
  isset : Bytes → Bool
  isset_deleted : Bool
  dsobj : Bytes → Option σ

/-- The statistics object of an attribute. -/
structure DerivedStats (V σ : Type) where
  make : Bytes → σ
  Update : V → UInt64 → σ → σ
  IsResult : σ → Bool
  /-- What becomes of `res` and of `isset`. -/
  FillResult : σ → Bool → V → V × Bool
  Flush : σ → σ

/-- A UVE type, with what the generated code calls. -/
structure UveType (V σ : Type) where
  struct : UveStruct
  P : Int
  TM : Nat
  /-- The values of a new struct. -/
  zero : Bytes → V
  stats : Bytes → DerivedStats V σ
  DSConf : Map Bytes Bytes
  /-- `SandeshStructProxyTrait<U>::get` -/
  proxy : UveData (Attrs V σ) → Bytes

variable {V σ : Type}

namespace Attrs

/-- `set_x(val)`. -/
def set (f : Field) (val : V) (a : Attrs V σ) : Attrs V σ :=
  { a with
    value := Function.update a.value f.name val
    isset := if f.req = .T_OPTIONAL then Function.update a.isset f.name true
      else a.isset }

/-- `__isset.x = false` -/
def unset (snm : Bytes) (a : Attrs V σ) : Attrs V σ :=
  { a with isset := Function.update a.isset snm false }

/-- `__dsobj_x->FillResult(x, __isset.x, force)` -/
def fill (D : DerivedStats V σ) (obj : σ) (force : Bool) (snm : Bytes)
    (a : Attrs V σ) : Attrs V σ :=
  let res := D.FillResult obj force (a.value snm)
  { a with
    value := Function.update a.value snm res.1
    isset := Function.update a.isset snm res.2 }

/-- The object of a statistic is replaced. -/
def setObj (snm : Bytes) (obj : σ) (a : Attrs V σ) : Attrs V σ :=
  { a with dsobj := Function.update a.dsobj snm (some obj) }

end Attrs

namespace UveType

variable (t : UveType V σ)

-- =========================================================== UpdateUVE

/-- The two structs and `send`. -/
structure Updating (V σ : Type) where
  send : Bool
  data : Attrs V σ
  tdata : Attrs V σ

/-- Update one statistic of a raw attribute. A cached struct has all its
objects. -/
def updateStat (mono_usec : UInt64) (raw : V) (x : Updating V σ)
    (ds : Field × StatsOf) : Updating V σ :=
  match x.tdata.dsobj ds.1.name with
  | none => x
  | some obj =>
      let D := t.stats ds.1.name
      let obj := D.Update raw mono_usec obj
      let x := { x with tdata := x.tdata.setObj ds.1.name obj }
      if t.struct.cat_ ds.1 ds.2 = .INLINE then
        let data := x.data.fill D obj false ds.1.name
        { x with data := data, send := x.send || data.isset ds.1.name }
      else x

/-- Copy one attribute into the cached struct. -/
def copyAttr (mono_usec : UInt64) (f : Field) (x : Updating V σ) : Updating V σ :=
  let raw := x.data.value f.name
  (t.struct.rawmap f.name).foldl (t.updateStat mono_usec raw)
    { x with tdata := x.tdata.set f raw }

/-- One field of an update. -/
def updateField (mono_usec : UInt64) (x : Updating V σ) (f : Field) :
    Updating V σ :=
  -- only those attributes that are not statistics
  if f.stats.isSome then x
  else if f.req = .T_OPTIONAL then
    if x.data.isset f.name then
      t.copyAttr mono_usec f
        (if f.cache_attr_info ≠ .INLINE then { x with data := x.data.unset f.name }
          else { x with send := true })
    else x
  else
    t.copyAttr mono_usec f
      (if f.name = lit "proxy" then x else { x with send := true })

/-- The generated `UpdateUVE`: field by field. -/
def UpdateUVE (data tdata : UveData (Attrs V σ)) (mono_usec : UInt64)
    (_level : SandeshLevel) : Merged (Attrs V σ) :=
  let deleted := data.rest.isset_deleted
  let x := t.struct.fields.foldl (t.updateField mono_usec)
    ⟨deleted, data.rest,
      { tdata.rest with isset_deleted := tdata.rest.isset_deleted || deleted }⟩
  { send := x.send || !t.struct.periodic
    data := x.data
    tdata :=
      { tdata with
        name := data.name
        deleted := if deleted then data.deleted else tdata.deleted
        rest := x.tdata } }

/-- The sandesh type of a definition. -/
def sandesh : UveSandesh (Attrs V σ) where
  fresh := ⟨t.zero, fun _ => false, false, fun _ => none⟩
  DSConf := t.DSConf
  InitDerivedStats data dsconf :=
    { data.rest with
      dsobj := fun snm =>
        if ∃ f ∈ t.struct.fields, f.name = snm ∧ f.stats.isSome then
          some ((t.stats snm).make ((dsconf.lookup snm).getD []))
        else none }
  UpdateUVE := t.UpdateUVE

-- ============================================================= LoadUVE

/-- What is made up for a message. -/
structure Loading (V σ : Type) where
  is_periodic_attr : Bool
  data : Attrs V σ

/-- A statistic that has a result. -/
def loadStat (stype : SendType) (cycle : UInt32) (f : Field) (s : StatsOf)
    (obj : σ) (x : Loading V σ) : Loading V σ :=
  let D := t.stats f.name
  let due := cycle.toNat % t.struct.period_ s = 0
  let off := { x with data := x.data.unset f.name }
  let shown := { x with data := x.data.fill D obj true f.name }
  match t.struct.cat_ f s with
  | .MANDATORY => x
  | .HIDDEN => if stype ≠ .ST_INTROSPECT then off else shown
  | .HIDDEN_PER =>
      match stype with
      | .ST_PERIODIC =>
          if due then { off with data := off.data.setObj f.name (D.Flush obj) }
          else off
      | .ST_SYNC => off
      | .ST_INTROSPECT => shown
  | .INLINE => if stype = .ST_PERIODIC then off else shown
  | .PERIODIC =>
      let x :=
        match stype with
        | .ST_PERIODIC =>
            if due then
              let obj := D.Flush obj
              { x with data := (x.data.setObj f.name obj).fill D obj true f.name }
            else off
        | .ST_SYNC => off
        | .ST_INTROSPECT => shown
      { x with is_periodic_attr := x.is_periodic_attr || x.data.isset f.name }

/-- One field of it. -/
def loadField (stype : SendType) (cycle : UInt32) (x : Loading V σ) (f : Field) :
    Loading V σ :=
  match f.stats with
  | none =>
      match f.cache_attr_info with
      | .HIDDEN =>
          if stype ≠ .ST_INTROSPECT then { x with data := x.data.unset f.name } else x
      | .INLINE =>
          if stype = .ST_PERIODIC then { x with data := x.data.unset f.name } else x
      | _ => x
  | some s =>
      match x.data.dsobj f.name with
      | none => x
      | some obj =>
          if (t.stats f.name).IsResult obj then t.loadStat stype cycle f s obj x
          else x

/-- The answer, and the attributes as they are then. -/
def LoadUVE (stype : SendType) (cycle : UInt32) (data : UveData (Attrs V σ)) :
    Bool × Attrs V σ :=
  let x := t.struct.fields.foldl (t.loadField stype cycle) ⟨false, data.rest⟩
  (if stype = .ST_PERIODIC then x.is_periodic_attr || data.deleted else true, x.data)

end UveType

-- ================================================================ Send

/-- A message, with each field as it is written. -/
structure Message (V : Type) where
  name : Bytes
  table_ : Bytes
  deleted : Bool
  attrs : List (Bytes × Option V)
  level : SandeshLevel
  seqno : UInt32
  context : Bytes
  more : Bool
  /-- `SANDESH_SYNC_HINT` -/
  sync : Bool

/-- What is written for a field. -/
def Attrs.written (a : Attrs V σ) (f : Field) : Option V :=
  if f.req ≠ .T_OPTIONAL ∨ a.isset f.name = true then some (a.value f.name) else none

/-- The fields that the message has. -/
def UveStruct.attrs (d : UveStruct) (a : Attrs V σ) : List (Bytes × Option V) :=
  d.fields.map fun f => (f.name, a.written f)

/-- The message of a cached struct. -/
def UveType.cached_message (t : UveType V σ) (x : Sent (Attrs V σ)) : Message V where
  name := x.data.name
  table_ := x.data.table_
  deleted := x.data.deleted
  attrs := t.struct.attrs (t.LoadUVE x.st x.cycle x.data).2
  level := x.level
  seqno := x.seqno
  context := x.ctx
  more := x.ctx ≠ []
  sync := x.st = .ST_SYNC

/-- `T::Send` of a cached struct: the message that is dispatched. -/
def UveType.Send (t : UveType V σ) (x : Sent (Attrs V σ)) : Option (Message V) :=
  if (t.LoadUVE x.st x.cycle x.data).1 then some (t.cached_message x) else none

/-- What `Send` of an update dispatches if `UpdateUVE` says so: the struct
as it was left. -/
def UveType.update_message (t : UveType V σ) (u : Update (Attrs V σ))
    (data : UveData (Attrs V σ)) : Message V where
  name := data.name
  table_ := data.table_
  deleted := data.deleted
  attrs := t.struct.attrs data.rest
  level := u.level
  seqno := u.seqnum
  context := []
  more := false
  sync := false

end Sandesh.Uve
