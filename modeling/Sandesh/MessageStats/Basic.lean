/-
Statistics about the messages sent and received, by message type and in
aggregate (library/cpp/sandesh_statistics.cc and
library/python/pysandesh/sandesh_stats.py).

# Counters

`SandeshMessageStats` (common/sandesh_uve.sandesh) has a number of messages
and a number of bytes for each of 22 counters: `messages_sent` and
`bytes_sent` are the fields `messages sent` and `bytes sent`, and so on. A
record is a function of its fields. C++ computes in `uint64_t`. Python
starts with `None` everywhere and computes in unbounded integers; adding to
`None` is a `TypeError`.

# Reasons

Each language goes from a drop reason to a counter in its own order. What
no branch takes fails an assertion: `none` in C++, an exception in Python.
-/
import Mathlib.Data.BitVec
import Sandesh.Lib.Tally
import Sandesh.Lib.Wire

namespace Sandesh.MessageStats

open Lib

/-- `uint64_t`. -/
abbrev U64 := BitVec 64

/-- Why a message was not sent. -/
inductive SandeshTxDropReason
  | MinDropReason
  | NoDrop
  | RatelimitDrop
  | ValidationFailed
  | QueueLevel
  | NoClient
  | NoSession
  | NoQueue
  | ClientSendFailed
  | HeaderWriteFailed
  | WriteFailed
  | SessionNotConnected
  | WrongClientSMState
  | SendingDisabled
  | SendingToSyslog
  | MaxDropReason
deriving DecidableEq

/-- Why a message was not taken. -/
inductive SandeshRxDropReason
  | MinDropReason
  | NoDrop
  | QueueLevel
  | NoQueue
  | ControlMsgFailed
  | CreateFailed
  | DecodingFailed
  | MaxDropReason
deriving DecidableEq

/-- What is counted. -/
inductive Counter
  | sent
  | received
  | sent_dropped
  | received_dropped
  | sent_dropped_no_queue
  | sent_dropped_no_client
  | sent_dropped_no_session
  | sent_dropped_queue_level
  | sent_dropped_client_send_failed
  | sent_dropped_session_not_connected
  | sent_dropped_header_write_failed
  | sent_dropped_write_failed
  | sent_dropped_wrong_client_sm_state
  | sent_dropped_validation_failed
  | sent_dropped_rate_limited
  | sent_dropped_sending_disabled
  | sent_dropped_sending_to_syslog
  | received_dropped_no_queue
  | received_dropped_queue_level
  | received_dropped_create_failed
  | received_dropped_control_msg_failed
  | received_dropped_decoding_failed
deriving DecidableEq

/-- Every counter counts messages and bytes. -/
inductive Field
  | messages (counter : Counter)
  | bytes (counter : Counter)
deriving DecidableEq

/-- One record of counters. -/
abbrev SandeshMessageStats (α : Type) : Type := Field → α

/-- The statistics of each message type, and the aggregate. -/
structure SandeshMessageStatistics (α : Type) where
  type_stats : Map Bytes (SandeshMessageStats α)
  agg_stats : SandeshMessageStats α

-- ================================================================= C++

namespace Cpp

/-- One more message of this many bytes. -/
def count (smstats : SandeshMessageStats U64) (c : Counter) (bytes : U64) :
    SandeshMessageStats U64 :=
  let smstats := Function.update smstats (.messages c) (smstats (.messages c) + 1)
  Function.update smstats (.bytes c) (smstats (.bytes c) + bytes)

/-- The `switch` over `send_dreason`. -/
def sendDropped : SandeshTxDropReason → Option Counter
  | .ValidationFailed => some .sent_dropped_validation_failed
  | .RatelimitDrop => some .sent_dropped_rate_limited
  | .QueueLevel => some .sent_dropped_queue_level
  | .NoClient => some .sent_dropped_no_client
  | .NoSession => some .sent_dropped_no_session
  | .NoQueue => some .sent_dropped_no_queue
  | .ClientSendFailed => some .sent_dropped_client_send_failed
  | .WrongClientSMState => some .sent_dropped_wrong_client_sm_state
  | .WriteFailed => some .sent_dropped_write_failed
  | .HeaderWriteFailed => some .sent_dropped_header_write_failed
  | .SessionNotConnected => some .sent_dropped_session_not_connected
  | .SendingDisabled => some .sent_dropped_sending_disabled
  | .SendingToSyslog => some .sent_dropped_sending_to_syslog
  | _ => none

/-- The `switch` over `recv_dreason`. -/
def recvDropped : SandeshRxDropReason → Option Counter
  | .QueueLevel => some .received_dropped_queue_level
  | .NoQueue => some .received_dropped_no_queue
  | .DecodingFailed => some .received_dropped_decoding_failed
  | .ControlMsgFailed => some .received_dropped_control_msg_failed
  | .CreateFailed => some .received_dropped_create_failed
  | _ => none

/-- The counter of the reason; a reason without a branch fails the
assertion. -/
def UpdateDetailStatsDrops (smstats : SandeshMessageStats U64) (sent : Bool)
    (bytes : U64) (send_dreason : SandeshTxDropReason)
    (recv_dreason : SandeshRxDropReason) : Option (SandeshMessageStats U64) :=
  if sent then do
    let c ← sendDropped send_dreason
    return count (count smstats c bytes) .sent_dropped bytes
  else do
    let c ← recvDropped recv_dreason
    return count (count smstats c bytes) .received_dropped bytes

/-- The record of the type and the aggregate are counted alike. -/
def UpdateInternal (s : SandeshMessageStatistics U64) (msg_name : Bytes) (bytes : U64)
    (is_tx dropped : Bool) (send_dreason : SandeshTxDropReason)
    (recv_dreason : SandeshRxDropReason) : Option (SandeshMessageStatistics U64) := do
  -- a type that is not in the map yet gets a record of zeros
  let detail := (s.type_stats.lookup msg_name).getD 0
  if dropped then
    let detail ← UpdateDetailStatsDrops detail is_tx bytes send_dreason recv_dreason
    let agg ← UpdateDetailStatsDrops s.agg_stats is_tx bytes send_dreason recv_dreason
    return ⟨s.type_stats.insert msg_name detail, agg⟩
  else
    let c := if is_tx then Counter.sent else .received
    return ⟨s.type_stats.insert msg_name (count detail c bytes),
      count s.agg_stats c bytes⟩

/-- The four calls differ in their flags. -/
def UpdateSend (s : SandeshMessageStatistics U64) (msg_name : Bytes) (bytes : U64) :=
  UpdateInternal s msg_name bytes true false .NoDrop .NoDrop

/-- A message that was to be sent. -/
def UpdateSendFailed (s : SandeshMessageStatistics U64) (msg_name : Bytes)
    (bytes : U64) (dreason : SandeshTxDropReason) :=
  UpdateInternal s msg_name bytes true true dreason .NoDrop

/-- A message that came. -/
def UpdateRecv (s : SandeshMessageStatistics U64) (msg_name : Bytes) (bytes : U64) :=
  UpdateInternal s msg_name bytes false false .NoDrop .NoDrop

/-- A message that came and was dropped. -/
def UpdateRecvFailed (s : SandeshMessageStatistics U64) (msg_name : Bytes)
    (bytes : U64) (dreason : SandeshRxDropReason) :=
  UpdateInternal s msg_name bytes false true .NoDrop dreason

/-- Nothing counted yet. -/
def new : SandeshMessageStatistics U64 := ⟨∅, 0⟩

end Cpp

-- ============================================================== Python

namespace Py

/-- An integer, or `None`. -/
abbrev Value : Type := Option Int

/-- The exceptions that an update may leave by. -/
inductive PyExc
  | TypeError
  | AssertionError
deriving DecidableEq

/-- `v + n`. -/
def add (v : Value) (n : Int) : Except PyExc Value :=
  match v with
  | none => .error .TypeError
  | some m => .ok (some (m + n))

/-- What `if v:` tests. -/
def truthy (v : Value) : Bool := v.any (· ≠ 0)

/-- `+= 1` and `+= nbytes`. -/
def increment (msg_stats : SandeshMessageStats Value) (c : Counter) (nbytes : Int) :
    Except PyExc (SandeshMessageStats Value) := do
  let m ← add (msg_stats (.messages c)) 1
  let b ← add (msg_stats (.bytes c)) nbytes
  return Function.update (Function.update msg_stats (.messages c) m) (.bytes c) b

/-- `= 1` and `= nbytes`. -/
def start (msg_stats : SandeshMessageStats Value) (c : Counter) (nbytes : Int) :
    SandeshMessageStats Value :=
  Function.update (Function.update msg_stats (.messages c) (some 1)) (.bytes c) nbytes

/-- The first time or an increment, by the number of messages. -/
def count (msg_stats : SandeshMessageStats Value) (c : Counter) (nbytes : Int) :
    Except PyExc (SandeshMessageStats Value) :=
  if truthy (msg_stats (.messages c)) then increment msg_stats c nbytes
  else .ok (start msg_stats c nbytes)

/-- The first time or an increment, by what is raised. The sum of the
messages is computed first, and neither value is kept after a
`TypeError`. -/
def countTried (msg_stats : SandeshMessageStats Value) (c : Counter) (nbytes : Int) :
    Except PyExc (SandeshMessageStats Value) :=
  match increment msg_stats c nbytes with
  | .error .TypeError => .ok (start msg_stats c nbytes)
  | r => r

/-- The branches over the drop reason of a message sent. -/
def txDropped : SandeshTxDropReason → Except PyExc Counter
  | .ValidationFailed => .ok .sent_dropped_validation_failed
  | .QueueLevel => .ok .sent_dropped_queue_level
  | .NoClient => .ok .sent_dropped_no_client
  | .NoSession => .ok .sent_dropped_no_session
  | .NoQueue => .ok .sent_dropped_no_queue
  | .ClientSendFailed => .ok .sent_dropped_client_send_failed
  | .HeaderWriteFailed => .ok .sent_dropped_header_write_failed
  | .WriteFailed => .ok .sent_dropped_write_failed
  | .SessionNotConnected => .ok .sent_dropped_session_not_connected
  | .WrongClientSMState => .ok .sent_dropped_wrong_client_sm_state
  | .RatelimitDrop => .ok .sent_dropped_rate_limited
  | .SendingDisabled => .ok .sent_dropped_sending_disabled
  | .SendingToSyslog => .ok .sent_dropped_sending_to_syslog
  | _ => .error .AssertionError

/-- The branches over the drop reason of a message received. -/
def rxDropped : SandeshRxDropReason → Except PyExc Counter
  | .QueueLevel => .ok .received_dropped_queue_level
  | .NoQueue => .ok .received_dropped_no_queue
  | .ControlMsgFailed => .ok .received_dropped_control_msg_failed
  | .CreateFailed => .ok .received_dropped_create_failed
  | .DecodingFailed => .ok .received_dropped_decoding_failed
  | _ => .error .AssertionError

/-- A drop counts twice: in all, and by its reason. -/
def update_tx_stats_internal (msg_stats : SandeshMessageStats Value) (nbytes : Int)
    (drop_reason : SandeshTxDropReason) : Except PyExc (SandeshMessageStats Value) :=
  if drop_reason = .NoDrop then countTried msg_stats .sent nbytes
  else do
    let msg_stats ← count msg_stats .sent_dropped nbytes
    let c ← txDropped drop_reason
    count msg_stats c nbytes

/-- The same for what came. -/
def update_rx_stats_internal (msg_stats : SandeshMessageStats Value) (nbytes : Int)
    (drop_reason : SandeshRxDropReason) : Except PyExc (SandeshMessageStats Value) :=
  if drop_reason = .NoDrop then count msg_stats .received nbytes
  else do
    let msg_stats ← count msg_stats .received_dropped nbytes
    let c ← rxDropped drop_reason
    count msg_stats c nbytes

/-- `SandeshMessageStats()`. -/
def unset : SandeshMessageStats Value := fun _ => none

/-- One record and the aggregate, each by the function given. -/
def updateBoth (s : SandeshMessageStatistics Value) (message_type : Bytes)
    (f : SandeshMessageStats Value → Except PyExc (SandeshMessageStats Value)) :
    Except PyExc (SandeshMessageStatistics Value) := do
  let message_stats ← f ((s.type_stats.lookup message_type).getD unset)
  let agg ← f s.agg_stats
  return ⟨s.type_stats.insert message_type message_stats, agg⟩

/-- `update_tx_stats`, with the value it returns. -/
def update_tx_stats (s : SandeshMessageStatistics Value) (message_type : Bytes)
    (nbytes : Int) (drop_reason : SandeshTxDropReason) :
    Except PyExc (SandeshMessageStatistics Value × Bool) :=
  -- strictly between the smallest and the largest member
  if drop_reason = .MinDropReason ∨ drop_reason = .MaxDropReason then .ok (s, false)
  else do
    let s ← updateBoth s message_type
      fun msg_stats => update_tx_stats_internal msg_stats nbytes drop_reason
    return (s, true)

/-- `update_rx_stats`, with the value it returns. -/
def update_rx_stats (s : SandeshMessageStatistics Value) (message_type : Bytes)
    (nbytes : Int) (drop_reason : SandeshRxDropReason) :
    Except PyExc (SandeshMessageStatistics Value × Bool) :=
  if drop_reason = .MinDropReason ∨ drop_reason = .MaxDropReason then .ok (s, false)
  else do
    let s ← updateBoth s message_type
      fun msg_stats => update_rx_stats_internal msg_stats nbytes drop_reason
    return (s, true)

/-- The attributes of the aggregate are `None` at first. -/
def new : SandeshMessageStatistics Value := ⟨∅, unset⟩

end Py

-- ============================================================= updates

/-- A reason that is a drop. -/
def SandeshTxDropReason.Drops (r : SandeshTxDropReason) : Prop :=
  r ≠ .MinDropReason ∧ r ≠ .NoDrop ∧ r ≠ .MaxDropReason

/-- The reasons that a caller gives. -/
def SandeshRxDropReason.Drops (r : SandeshRxDropReason) : Prop :=
  r ≠ .MinDropReason ∧ r ≠ .NoDrop ∧ r ≠ .MaxDropReason

/-- What is reported of a message, in either language. -/
inductive What
  | send
  | recv
  | sendFailed (reason : SandeshTxDropReason) (drops : reason.Drops)
  | recvFailed (reason : SandeshRxDropReason) (drops : reason.Drops)

/-- A call, in either language. -/
structure Update where
  what : What
  msg_name : Bytes
  bytes : U64

/-- The call in C++. -/
def Cpp.update (s : SandeshMessageStatistics U64) (u : Update) :
    Option (SandeshMessageStatistics U64) :=
  match u.what with
  | .send => UpdateSend s u.msg_name u.bytes
  | .recv => UpdateRecv s u.msg_name u.bytes
  | .sendFailed reason _ => UpdateSendFailed s u.msg_name u.bytes reason
  | .recvFailed reason _ => UpdateRecvFailed s u.msg_name u.bytes reason

/-- The call in Python. -/
def Py.update (s : SandeshMessageStatistics Value) (u : Update) :
    Except PyExc (SandeshMessageStatistics Value) :=
  Prod.fst <$> match u.what with
    | .send => update_tx_stats s u.msg_name u.bytes.toNat .NoDrop
    | .recv => update_rx_stats s u.msg_name u.bytes.toNat .NoDrop
    | .sendFailed reason _ => update_tx_stats s u.msg_name u.bytes.toNat reason
    | .recvFailed reason _ => update_rx_stats s u.msg_name u.bytes.toNat reason

end Sandesh.MessageStats
