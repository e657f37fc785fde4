/-
The rate limit of system logs in generated C++ code: `IsRatelimitPass` and
what `Send` makes of it (compiler/generate/t_cpp_generator.cc), with
`Sandesh::set_send_rate_limit` and `IsSendingSystemLogsDisabled`
(library/cpp/sandesh.cc).

Each generated class of a system log has a `boost::circular_buffer` of the
seconds in which a message passed, and a switch that lets the first of
several drops in a row be logged. All of them share one limit. A call first
resizes the buffer of its class to the limit, with zeros in front where it
grows; if it is then full, its oldest element alone decides. Under a limit
of zero `Send` does not get as far as that: system logs are disabled, and
nothing of the class changes.

A call holds `rate_limit_mutex_`, so calls on a class come one after
another. `time(0)` is an argument of the call.
-/
import Mathlib.Logic.Function.Basic
import Sandesh.Lib.CircularBuffer

namespace Sandesh.Sender

open Lib

/-- The static members of a generated class. -/
structure Limiter where
  rate_limit_buffer_ : CircularBuffer Int
  do_rate_limit_drop_log_ : Bool

/-- A message finds its kind disabled, or passes the limiter, or is dropped
by it, which may be logged. -/
inductive Verdict
  | disabled
  | passed
  | dropped (logged : Bool)
deriving DecidableEq

/-- `sandesh_send_ratelimit_ == 0`. -/
def IsSendingSystemLogsDisabled (sandesh_send_ratelimit_ : Nat) : Bool :=
  sandesh_send_ratelimit_ == 0

namespace Limiter

/-- `get_send_rate_limit()` when the members are initialized. -/
def new (send_rate_limit : Nat) : Limiter := ⟨.empty send_rate_limit, true⟩

/-- The buffer with the size of the limit. -/
def resize (l : Limiter) (send_rate_limit : Nat) : Limiter :=
  if l.rate_limit_buffer_.capacity ≠ send_rate_limit then
    { l with
      rate_limit_buffer_ :=
        (l.rate_limit_buffer_.rresize send_rate_limit 0).set_capacity send_rate_limit }
  else l

/-- The oldest of a full buffer decides: a message of the same second is
dropped. -/
def IsRatelimitPass (l : Limiter) (send_rate_limit : Nat) (current_time : Int) :
    Bool × Limiter :=
  if send_rate_limit = 0 then (false, l)
  else
    let l := l.resize send_rate_limit
    let b := l.rate_limit_buffer_
    if b.capacity = b.items.length ∧ b.items.head? = some current_time then (false, l)
    else (true, ⟨b.push_back current_time, true⟩)

/-- The part of `Send` from `IsSendingSystemLogsDisabled()` to the end of
what `IsRatelimitPass` decides. -/
def attempt (l : Limiter) (send_rate_limit : Nat) (current_time : Int) : Verdict × Limiter :=
  if IsSendingSystemLogsDisabled send_rate_limit then (.disabled, l)
  else
    let (passed, l) := l.IsRatelimitPass send_rate_limit current_time
    if passed then (.passed, l)
    else if l.do_rate_limit_drop_log_ then
      (.dropped true, { l with do_rate_limit_drop_log_ := false })
    else (.dropped false, l)

end Limiter

-- ========================================================== the process

/-- The limit, and the classes of system logs. -/
structure Limiters (κ : Type) where
  sandesh_send_ratelimit_ : Nat
  limiters : κ → Limiter

/-- The limit is set, or a message of a class is sent. -/
inductive Call (κ : Type)
  | set_send_rate_limit (rate_limit : Int)
  | Send (cls : κ) (current_time : Int)

/-- A negative limit is ignored. -/
def newLimit (sandesh_send_ratelimit_ : Nat) (rate_limit : Int) : Nat :=
  if rate_limit ≥ 0 then rate_limit.toNat else sandesh_send_ratelimit_

variable {κ : Type} [DecidableEq κ]

/-- What counts of a class: how many passed in the current second, and
whether the next drop is logged. -/
structure Tally where
  window : Window
  log : Bool

/-- A limiter that counts what it has seen this second, of which it
remembers no more than its limit, and logs the first drop of a row. A limit
of zero stops it from counting. -/
def Tally.attempt (c : Tally) (limit : Nat) (t : Int) : Verdict × Tally :=
  if limit = 0 then (.disabled, c)
  else
    let (passed, window) := c.window.call limit t
    (if passed then .passed else .dropped c.log, ⟨window, passed⟩)

/-- What becomes of the messages if they are only counted. -/
def tallies : Nat → (κ → Tally) → List (Call κ) → List Verdict
  | _, _, [] => []
  | limit, c, .set_send_rate_limit rate_limit :: cs =>
      tallies (newLimit limit rate_limit) c cs
  | limit, c, .Send cls t :: cs =>
      let r := (c cls).attempt limit t
      r.1 :: tallies limit (Function.update c cls r.2) cs

end Sandesh.Sender
