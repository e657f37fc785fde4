/-
Answering introspect requests over HTTP (library/cpp/sandesh_http.cc).

A request comes with the context of the HTTP session it arrived on, and
every response to it names that context. `SandeshHttp::Response` writes
the response to a buffer and `HttpSendXML` sends it. A response that says
`more` is one of several that make up a single HTTP response: the first
opens a chunked body and a list element, the last closes both. What tells
a first from a later one is the client context of the session, which is
the name of the list while a list is open and empty otherwise.

`strncpy` copies the name of the response to `resp_name`, and the tags of
the list are printed to `buffer_str`; a copy that does not fit, or a
buffer in which the name has no end, has no result (`none`).

# What stays outside

The HTTP sessions (http/http_session.h) are outside the repository.
`HttpServer` is what is relied on: `set_client_context` answers whether
there is such a session, and what it sets is found again; `SendSession`
adds to what is sent on one session; neither touches another session. A
buffer counts its bytes in 32 bits, and its length is printed as they are.
-/
import Sandesh.Lib.Http
import Sandesh.Lib.Machine

namespace Sandesh.Http

open Lib

-- ============================================================= sessions

/-- A client's session, and what it is being sent. -/
structure HttpSession where
  client_context : Bytes
  /-- everything sent on it -/
  sent : Bytes
deriving DecidableEq

/-- The table of the sessions, as a parameter. -/
structure HttpServer where
  Sessions : Type
  none_ : Sessions
  /-- a connection is accepted under a context, or closed -/
  accept : Sessions → Bytes → Sessions
  close : Sessions → Bytes → Sessions
  set_client_context : Sessions → Bytes → Bytes → Bool × Sessions
  SendSession : Sessions → Bytes → Bytes → Sessions
  /-- the session of a context -/
  find : Sessions → Bytes → Option HttpSession
  find_none : ∀ d, find none_ d = none
  find_accept : ∀ s c d,
    find (accept s c) d = if d = c then some ⟨[], []⟩ else find s d
  find_close : ∀ s c d, find (close s c) d = if d = c then none else find s d
  set_answer : ∀ s c x, (set_client_context s c x).1 = (find s c).isSome
  find_set : ∀ s c x d, find (set_client_context s c x).2 d =
    if d = c then (find s c).map fun h => { h with client_context := x } else find s d
  find_send : ∀ s c buf d, find (SendSession s c buf) d =
    if d = c then (find s c).map fun h => { h with sent := h.sent ++ buf } else find s d

namespace HttpServer

attribute [simp] find_none find_accept find_close set_answer find_set find_send

/-- The sessions as a function. -/
def table : HttpServer where
  Sessions := Bytes → Option HttpSession
  none_ _ := none
  accept s c d := if d = c then some ⟨[], []⟩ else s d
  close s c d := if d = c then none else s d
  set_client_context s c x := ((s c).isSome, fun d =>
    if d = c then (s c).map fun h => { h with client_context := x } else s d)
  SendSession s c buf d :=
    if d = c then (s c).map fun h => { h with sent := h.sent ++ buf } else s d
  find s := s
  find_none _ := rfl
  find_accept _ _ _ := rfl
  find_close _ _ _ := rfl
  set_answer _ _ _ := rfl
  find_set _ _ _ _ := rfl
  find_send _ _ _ _ := rfl

variable (S : HttpServer)

/-- Empty where there is no session. -/
def get_client_context (s : S.Sessions) (context : Bytes) : Bytes :=
  ((S.find s context).map HttpSession.client_context).getD []

end HttpServer

-- ========================================================== HttpSendXML

/-- `strcspn(buf, " ")`, if the buffer has such a place. -/
def strcspn (buf : Bytes) : Option Nat :=
  let loc := (buf.takeWhile fun c => c ≠ 32 ∧ c ≠ nul).length
  if loc < buf.length then some loc else none

-- `char resp_name[40]`
/-- `char resp_name[40]`. -/
def resp_name_size : Nat := 40

/-- The copy of the name, without the bracket in front of it. -/
def resp_name (buf : Bytes) : Option Bytes :=
  match strcspn buf with
  | none => none
  | some loc =>
      if 1 ≤ loc ∧ loc - 1 < resp_name_size then some ((buf.drop 1).take (loc - 1))
      else none

-- `char buffer_str[100]`
/-- `char buffer_str[100]`. -/
def buffer_str_size : Nat := 100

/-- `sprintf(buffer_str, ..)`. -/
def print (text : Bytes) : Option Bytes :=
  if text.length < buffer_str_size then some text else none

/-- The head of a single document, but for the length. -/
def xsl_response : Bytes := lit "HTTP/1.1 200 OK\r\nContent-Type: text/xml\r\n"

/-- The head of a list. -/
def chunk_response : Bytes :=
  lit "HTTP/1.1 200 OK\r\nContent-Type: text/xml\r\nTransfer-Encoding: chunked\r\n\r\n"

/-- What stands in front of every document. -/
def stylesheet : Bytes :=
  lit "<?xml-stylesheet type=\"text/xsl\" href=\"/universal_parse.xsl\"?>"

/-- The tag that a list begins with. -/
def listOpen (client_ctx : Bytes) : Bytes :=
  lit "<__" ++ (client_ctx ++ lit "_list type=\"slist\">\r\n")

/-- The tag that it ends with. -/
def listClose (client_ctx : Bytes) : Bytes :=
  lit "</__" ++ (client_ctx ++ lit "_list>\r\n")

variable (S : HttpServer) (context : Bytes)

/-- Several calls of `SendSession` in a row. -/
def sendAll (s : S.Sessions) (bufs : List Bytes) : S.Sessions :=
  bufs.foldl (fun s buf => S.SendSession s context buf) s

/-- The first and last part of a response. -/
def sendOnly (s : S.Sessions) (buf : Bytes) : Option S.Sessions := do
  let buffer_str ← print stylesheet
  let total_len := buf.length
  let length_str := lit "Content-Length: " ++ (decimal (total_len + buffer_str.length)
    ++ lit "\r\n\r\n")
  pure (sendAll S context s [xsl_response, length_str, buffer_str, buf])

/-- The first part of several. -/
def sendFirst (s : S.Sessions) (client_ctx buf : Bytes) : Option S.Sessions := do
  let style ← print stylesheet
  let list ← print (listOpen client_ctx)
  let hdr_len := style.length + (list.length - 2)
  pure (sendAll S context s [chunk_response, Http.hex hdr_len ++ lit "\r\n", style, list,
    Http.hex buf.length ++ lit "\r\n", buf, lit "\r\n"])

/-- The last part of several. -/
def sendLast (s : S.Sessions) (client_ctx buf : Bytes) : Option S.Sessions := do
  let buffer_str ← print (listClose client_ctx)
  pure (sendAll S context s [Http.hex buf.length ++ lit "\r\n", buf, lit "\r\n",
    Http.hex (buffer_str.length - 2) ++ lit "\r\n", buffer_str, lit "0\r\n\r\n"])

/-- A part in the middle. -/
def sendMiddle (s : S.Sessions) (buf : Bytes) : S.Sessions :=
  sendAll S context s [Http.hex buf.length ++ lit "\r\n", buf, lit "\r\n"]

/-- Update context for other users. -/
def release (s : S.Sessions) (more : Bool) : S.Sessions :=
  if more then s else (S.set_client_context s context []).2

/-- `HttpSendXML`; `none` is a text that does not fit into its buffer. -/
def HttpSendXML (s : S.Sessions) (buf : Bytes) (more : Bool) : Option S.Sessions := do
  let name ← resp_name buf
  let client_ctx := S.get_client_context s context
  if client_ctx ≠ [] then
    -- `HXMLIncomplete`
    let s ← if more then some (sendMiddle S context s buf)
      else sendLast S context s client_ctx buf
    pure (release S context s more)
  else
    -- `HXMLNew`
    let (there, s) := S.set_client_context s context name
    -- if the session is gone, we can stop processing
    if ¬ there then pure s
    else
      let s ← if more then sendFirst S context s name buf
        else sendOnly S context s buf
      pure (release S context s more)

-- ================================================================ runs

/-- What happens to the server. -/
inductive Action
  | accept (context : Bytes)
  | close (context : Bytes)
  /-- `SandeshHttp::Response`, with what `Write` puts in the buffer and
  `get_more` -/
  | Response (context buf : Bytes) (more : Bool)
deriving DecidableEq

/-- What each does. -/
def step (s : S.Sessions) : Action → Option S.Sessions
  | .accept context => some (S.accept s context)
  | .close context => some (S.close s context)
  | .Response context buf more => HttpSendXML S context s buf more

/-- A server step by step. -/
def machine : Machine S.Sessions Action where
  step := step S

end Sandesh.Http
