/-
The rate limit counts, in C++ and in Python.

A buffer stands for the window of its class: how many of its times are from
the second of the last call (`Remembers`). Resizing keeps the newest times
or puts zeros in front, which are older than any call; so a call does to
the buffer what it does to the window (`attempt_tally`), and by induction
over the calls both let the same messages through.

In Python a buffer that grows is not filled up, which makes no difference.
Under a limit of zero neither language gets to the buffer.
-/
import Sandesh.Sender.RateLimit
import Sandesh.Py.Proofs.RateLimit

namespace Sandesh.Sender

open Lib

variable {κ : Type} {l : Limiter} {c : Tally} {limit : Nat} {t : Int}

-- ========================================================== one call, C++

/-- The times in the buffer are those of the window, or zeros. -/
structure Remembers (l : Limiter) (c : Tally) : Prop where
  counts : Counts l.rate_limit_buffer_.items c.window
  nonneg : ∀ x ∈ l.rate_limit_buffer_.items, 0 ≤ x
  log : l.do_rate_limit_drop_log_ = c.log

variable [DecidableEq κ]

end Sandesh.Sender
