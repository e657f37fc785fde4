/-
The rate limit of system logs in the Python library:
`SandeshAsync.is_rate_limit_pass` and
`SandeshSystem.set_sandesh_send_rate_limit`
(library/python/pysandesh/sandesh_base.py), with `util.deque`.

Each generated class of a system log has a `rate_limit_buffer`, a deque of
the seconds in which a message passed, and a switch that lets the first of
several drops in a row be logged. All of them share one limit. A call
first resizes the deque of its class to the limit; if it is then full, its
oldest element alone decides.

`int(time.time())` is an argument of the call.
-/
import Mathlib.Logic.Function.Basic
import Sandesh.Lib.Machine

namespace Sandesh.Py.RateLimit

open Lib

/-- `util.deque`: never longer than its `maxlen`. -/
structure Deque (α : Type) where
  items : List α
  maxlen : Nat
  fits : items.length ≤ maxlen

namespace Deque

variable {α : Type}

/-- `deque(iterable, maxlen)`: the last `maxlen` elements. -/
def new (iterable : List α) (maxlen : Nat) : Deque α where
  items := iterable.drop (iterable.length - maxlen)
  maxlen := maxlen
  fits := by
    rw [List.length_drop]
    omega

/-- At the end; the oldest element goes if there is no room. -/
def append (d : Deque α) (x : α) : Deque α :=
  new (d.items ++ [x]) d.maxlen

end Deque

/-- The attributes of a generated class. -/
structure MessageClass where
  __name__ : String
  rate_limit_buffer : Deque Int
  do_rate_limit_drop_log : Bool

namespace MessageClass

/-- As generated: `_DEFAULT_SEND_RATELIMIT` is read when the class is
made. -/
def new (name : String) (send_ratelimit : Nat) : MessageClass :=
  ⟨name, .new [] send_ratelimit, true⟩

/-- The buffer with the size of the limit. -/
def resize (c : MessageClass) (send_rate_limit : Nat) : MessageClass :=
  if c.rate_limit_buffer.maxlen ≠ send_rate_limit then
    { c with
      rate_limit_buffer := .new c.rate_limit_buffer.items send_rate_limit }
  else c

/-- Whether the message passes, the class after the call, and what was
logged. -/
structure Result where
  passed : Bool
  cls : MessageClass
  /-- What is logged as an error -/
  error : List String

/-- The message is dropped; the first drop in a row is logged. -/
def drop (c : MessageClass) : Result :=
  if c.do_rate_limit_drop_log then
    ⟨false, { c with do_rate_limit_drop_log := false },
      ["SANDESH: Ratelimit Drop (" ++ toString c.rate_limit_buffer.maxlen
        ++ " messages/sec): for " ++ c.__name__]⟩
  else ⟨false, c, []⟩

/-- The oldest of a full deque decides: a message of the same second is
dropped. -/
def is_rate_limit_pass (c : MessageClass) (send_rate_limit : Nat)
    (cur_time : Int) : Result :=
  let c := c.resize send_rate_limit
  let b := c.rate_limit_buffer
  if b.maxlen = 0 then ⟨false, c, []⟩
  else if b.items.length = b.maxlen ∧ b.items.head? = some cur_time then c.drop
  else
    ⟨true,
      { c with
        do_rate_limit_drop_log := true
        rate_limit_buffer := b.append cur_time }, []⟩

end MessageClass

-- ========================================================== the process

/-- The limit, and the classes of system logs. -/
structure Process (κ : Type) where
  _DEFAULT_SEND_RATELIMIT : Nat
  classes : κ → MessageClass

/-- The limit is set, or a message of a class asks. -/
inductive Call (κ : Type)
  | set_sandesh_send_rate_limit (val : Int)
  | is_rate_limit_pass (cls : κ) (cur_time : Int)

variable {κ : Type} [DecidableEq κ]

namespace Process

/-- A negative limit is ignored. -/
def set_sandesh_send_rate_limit (p : Process κ) (val : Int) : Process κ :=
  if val ≥ 0 then { p with _DEFAULT_SEND_RATELIMIT := val.toNat } else p

/-- What the call on a class returns. -/
def result (p : Process κ) (cls : κ) (cur_time : Int) : MessageClass.Result :=
  (p.classes cls).is_rate_limit_pass p._DEFAULT_SEND_RATELIMIT cur_time

/-- The process after a call. -/
def after (p : Process κ) : Call κ → Process κ
  | .set_sandesh_send_rate_limit val => p.set_sandesh_send_rate_limit val
  | .is_rate_limit_pass cls cur_time =>
      { p with
        classes := Function.update p.classes cls (p.result cls cur_time).cls }

/-- The part of `send` that is for system logs: with a limit of zero it
returns before `is_rate_limit_pass` is called. -/
def send (p : Process κ) (cls : κ) (cur_time : Int) :
    Option MessageClass.Result × Process κ :=
  if p._DEFAULT_SEND_RATELIMIT = 0 then (none, p)
  else (some (p.result cls cur_time), p.after (.is_rate_limit_pass cls cur_time))

end Process

/-- Calls on any classes and changes of the limit, in any order. -/
def calls : Machine (Process κ) (Call κ) where
  step p a := some (p.after a)

end Sandesh.Py.RateLimit
