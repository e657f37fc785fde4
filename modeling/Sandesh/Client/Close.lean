/-
Closing the session of a client at a request from outside
(library/cpp/sandesh_client.cc, `CloseSMSession`, and
library/python/pysandesh/sandesh_client.py, `close_sm_session`).

A peer that asks for a close again and again is held off: the time of the
last close and an interval are recorded, and a request within the interval
is ignored. The decision is one function in both languages, up to the
arithmetic: C++ computes the interval as an `int` and the times as
`uint64_t`, Python computes with unbounded integers. `Arith` says what a
result may be, so that an operation that would overflow ends the run with
`Trap.overflow` instead of giving a value, and one whose assert fails with
`Trap.assert`.

The two languages look for the session at different points. Python
returns before it decides anything; C++ decides first, records, and then
finds nothing to close.
-/
import Mathlib.Algebra.Group.Nat.Defs
import Sandesh.Lib.Backoff

namespace Sandesh.Client

open Lib

/-- What ends the program: an assertion, or an overflow in C++. -/
inductive Trap
  | assert
  | overflow
deriving DecidableEq

/-- The values that fit in a signed and in an unsigned variable. -/
structure Arith where
  int : Nat → Except Trap Nat
  uint64 : Nat → Except Trap Nat

/-- 32-bit `int` and `uint64_t`. -/
def Arith.machine : Arith where
  int n := if n < 2 ^ 31 then .ok n else .error .overflow
  uint64 n := if n < 2 ^ 64 then .ok n else .error .overflow

/-- Python's numbers. -/
def Arith.unbounded : Arith := ⟨.ok, .ok⟩

/-- The first interval, and the longest one below. -/
def kInitialSMSessionCloseIntervalMSec : Nat := 10 * 1000
def kMaxSMSessionCloseIntervalMSec : Nat := 60 * 1000

/-- Whether to close, and the interval to record if so. -/
def doClose (A : Arith) (now_usec last_close_usec last_close_interval_usec : Nat) :
    Except Trap (Bool × Nat) := do
  -- if this is the first time, we will accept the next close only after the
  -- initial close interval time
  if last_close_interval_usec = 0 ∨ last_close_usec = 0 then
    return (true, kInitialSMSessionCloseIntervalMSec)
  if now_usec < last_close_usec then throw .assert
  let time_since_close_usec := now_usec - last_close_usec
  if time_since_close_usec ≤ last_close_interval_usec then
    return (false, 0)
  let twice ← A.uint64 (2 * last_close_interval_usec)
  if last_close_interval_usec < time_since_close_usec
      ∧ time_since_close_usec ≤ twice then
    let close_interval_msec ← A.int (min (twice / 1000) kMaxSMSessionCloseIntervalMSec)
    return (true, close_interval_msec)
  let four ← A.uint64 (4 * last_close_interval_usec)
  if twice ≤ time_since_close_usec ∧ time_since_close_usec ≤ four then
    let close_interval_msec ← A.int (last_close_interval_usec / 1000)
    return (true, close_interval_msec)
  return (true, kInitialSMSessionCloseIntervalMSec)

/-- The C++ function. -/
def DoCloseSMSession := doClose .machine
/-- The Python function. -/
def do_close_sm_session := doClose .unbounded

/-- The two fields that the requests read and write. -/
structure SandeshClient where
  session_close_interval_msec : Nat
  session_close_time_usec : Nat
deriving DecidableEq

/-- No request yet. -/
def SandeshClient.new : SandeshClient := ⟨0, 0⟩

/-- A request: the time, and whether there is a session. -/
structure Request where
  now_usec : Nat
  session : Bool
deriving DecidableEq

/-- What a call decided (the local `close`) and what it returned. -/
structure Answer where
  close : Bool
  result : Bool
deriving DecidableEq

/-- A method that answers a request. -/
abbrev Method : Type := SandeshClient → Request → Except Trap (SandeshClient × Answer)

/-- `SandeshClient::CloseSMSession`; `CloseSMSessionInternal` returns
whether there is a session. -/
def CloseSMSession : Method := fun c r => do
  let interval_usec ← Arith.machine.int (c.session_close_interval_msec * 1000)
  let (close, close_interval_msec) ←
    DoCloseSMSession r.now_usec c.session_close_time_usec interval_usec
  if close then
    return (⟨close_interval_msec, r.now_usec⟩, ⟨true, r.session⟩)
  return (c, ⟨false, false⟩)

/-- `SandeshClient.close_sm_session`. -/
def close_sm_session : Method := fun c r => do
  if !r.session then return (c, ⟨false, false⟩)
  let (close, close_interval_msec) ←
    do_close_sm_session r.now_usec c.session_close_time_usec
      (c.session_close_interval_msec * 1000)
  if close then
    return (⟨close_interval_msec, r.now_usec⟩, ⟨true, true⟩)
  return (c, ⟨false, false⟩)

/-- One call of a run: the request, the answer and the client after it. -/
structure Called where
  request : Request
  answer : Answer
  client : SandeshClient
deriving DecidableEq

/-- The call as a request to back off from. -/
def Called.asked (d : Called) : Asked :=
  ⟨d.request.now_usec, d.answer.close, d.client.session_close_interval_msec⟩

/-- One call after another. -/
def calls (method : Method) : SandeshClient → List Request → Except Trap (List Called)
  | _, [] => .ok []
  | c, r :: rs => do
      let (c', answer) ← method c r
      let done ← calls method c' rs
      return ⟨r, answer, c'⟩ :: done

end Sandesh.Client
