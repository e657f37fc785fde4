/-
What an HTTP client makes of the responses.

`Progress` says what a session has been asked to send: the documents that
are complete and the list that is open. Every path of `HttpSendXML` adds
to the wire of its session what the progress of that session adds to its
layout, and leaves the other sessions alone (`response_follows`); the
layout reads as the documents (`Doc.reads`), each in one HTTP response,
however the responses of different requests are mixed.
-/
import Sandesh.Http.Basic

namespace Sandesh.Http

open Lib

-- ============================================================ documents

/-- A whole response: one part, or a list of parts. -/
inductive Doc
  | one (buf : Bytes)
  | list (name : Bytes) (parts : List Bytes)
deriving DecidableEq

/-- The tags of a list, without the end of the line. -/
def openTag (name : Bytes) : Bytes := lit "<__" ++ (name ++ lit "_list type=\"slist\">")

/-- What the last chunk of a list is. -/
def closeTag (name : Bytes) : Bytes := lit "</__" ++ (name ++ lit "_list>")

/-- The lines that every response begins with. -/
def okLines : List Bytes := [lit "HTTP/1.1 200 OK", lit "Content-Type: text/xml"]

namespace Doc

/-- The document that is sent, with the stylesheet in front. -/
def text : Doc → Bytes
  | one buf => stylesheet ++ buf
  | list name parts => stylesheet ++ openTag name ++ (parts.flatten ++ closeTag name)

/-- A single document has its length in the head, a list says that it comes
in chunks. -/
def lines : Doc → List Bytes
  | one buf => okLines ++ [Http.contentLength ++ decimal (stylesheet ++ buf).length]
  | list _ _ => okLines ++ [Http.transferChunked]

/-- What a client reads. -/
def response (d : Doc) : Http.Response := ⟨d.lines, d.text⟩

/-- The chunks of a list whose last part has not been sent. -/
def chunks (name : Bytes) (parts : List Bytes) : List Bytes :=
  (stylesheet ++ openTag name) :: parts

/-- A response as bytes. -/
def wire : Doc → Bytes
  | one buf => Http.head (one buf).lines ++ (stylesheet ++ buf)
  | list name parts => Http.head (list name parts).lines
      ++ ((chunks name parts ++ [closeTag name]).flatMap Http.chunk ++ Http.lastChunk)

/-- No part is empty: an empty chunk would end the body. -/
def Ok : Doc → Prop
  | one _ => True
  | list _ parts => ∀ q ∈ parts, q ≠ []

end Doc

/-- The lines of the head are lines, and are recognized. -/
theorem isLine_ok : ∀ line ∈ okLines, Http.IsLine line := by decide

theorem isLine_chunked : ∀ line ∈ okLines ++ [Http.transferChunked], Http.IsLine line := by
  decide

theorem mem_chunked : Http.transferChunked ∈ okLines ++ [Http.transferChunked] :=
  List.mem_append_right _ List.mem_cons_self

theorem isLine_length (n : Nat) : Http.IsLine (Http.contentLength ++ decimal n) := by
  refine ⟨by simp [Http.contentLength, lit], ?_⟩
  intro h
  rcases List.mem_append.mp h with hlabel | hdigit
  · exact absurd hlabel (by decide)
  · have hcr : isDigit 13 = false := by decide
    rw [isDigit_of_mem_decimal hdigit] at hcr
    cases hcr

/-- The length is found in the head. -/
theorem lengthOf_one (n : Nat) :
    Http.lengthOf (okLines ++ [Http.contentLength ++ decimal n]) = some n := by
  have hok : okLines.find? (fun line => Http.contentLength.isPrefixOf line) = none := by
    decide
  have hlast : Http.contentLength.isPrefixOf (Http.contentLength ++ decimal n) = true := by
    simp
  rw [Http.lengthOf, List.find?_append, hok, Option.none_or, List.find?_cons, hlast]
  simp [decVal_decimal]

/-- A head with a length does not say that it is chunked. -/
theorem not_chunked (n : Nat) :
    Http.transferChunked ∉ okLines ++ [Http.contentLength ++ decimal n] := by
  intro h
  rcases List.mem_append.mp h with hok | hlength
  · exact absurd hok (by decide)
  · have hhead := congrArg List.head? (List.mem_singleton.mp hlength)
    have hleft : Http.transferChunked.head? = some 84 := by decide
    have hright : (Http.contentLength ++ decimal n).head? = some 67 := by
      rw [List.head?_append]
      rfl
    rw [hleft, hright] at hhead
    exact absurd hhead (by decide)

/-- The layout of a document reads as the document. -/
theorem Doc.reads {d : Doc} (h : d.Ok) : Http.Reads d.wire d.response := by
  have hne : ∀ lines : List Bytes, ∀ rest : Bytes, Http.head lines ++ rest ≠ [] := by
    intro lines rest hnil
    have hlen := Http.head_length lines
    rw [(List.append_eq_nil_iff.mp hnil).1] at hlen
    cases hlen
  cases d with
  | one buf =>
      refine ⟨hne _ _, fun rest => ?_⟩
      rw [Doc.wire, List.append_assoc]
      refine Http.readResponse_sized ?_ (not_chunked _) (lengthOf_one _) rest
      intro line hline
      rcases List.mem_append.mp hline with hok | hlength
      · exact isLine_ok line hok
      · rw [List.mem_singleton.mp hlength]
        exact isLine_length _
  | list name parts =>
      refine ⟨hne _ _, fun rest => ?_⟩
      have hparts : ∀ q ∈ chunks name parts ++ [closeTag name], q ≠ [] := by
        intro q hq
        rcases List.mem_append.mp hq with hchunk | hclose
        · rcases List.mem_cons.mp hchunk with rfl | hpart
          · simp [stylesheet, lit]
          · exact h q hpart
        · rw [List.mem_singleton.mp hclose]
          simp [closeTag, lit]
      have htext : (chunks name parts ++ [closeTag name]).flatten
          = (Doc.list name parts).text := by
        simp [chunks, Doc.text]
      rw [Doc.wire, List.append_assoc, List.append_assoc, Doc.response, ← htext]
      exact Http.readResponse_chunked isLine_chunked mem_chunked hparts rest

-- ============================================================= progress

/-- What has been sent to a client: whole documents, and the list that is
open. -/
structure Progress where
  finished : List Doc
  /-- the list that is open: its name and the parts it has -/
  current : Option (Bytes × List Bytes)
deriving DecidableEq

namespace Progress

/-- Nothing yet. -/
def new : Progress := ⟨[], none⟩

variable (p : Progress)

/-- One message more. -/
def respond (name buf : Bytes) (more : Bool) : Progress :=
  match p.current, more with
  | none, false => { p with finished := p.finished ++ [.one buf] }
  | none, true => { p with current := some (name, [buf]) }
  | some (open_, parts), true => { p with current := some (open_, parts ++ [buf]) }
  | some (open_, parts), false =>
      { finished := p.finished ++ [.list open_ (parts ++ [buf])], current := none }

/-- The client context of the session. -/
def context : Bytes := (p.current.map Prod.fst).getD []

/-- What has been sent of the list that is open. -/
def partial_ : Bytes :=
  match p.current with
  | none => []
  | some (name, parts) => Http.head (Doc.list name parts).lines
      ++ (Doc.chunks name parts).flatMap Http.chunk

/-- Everything that has been sent. -/
def wire : Bytes := (p.finished.map Doc.wire).flatten ++ p.partial_

/-- Names fit and parts are not empty. -/
structure Ok : Prop where
  finished : ∀ d ∈ p.finished, d.Ok
  current : ∀ name parts, p.current = some (name, parts) →
    name ≠ [] ∧ name.length < resp_name_size ∧ ∀ q ∈ parts, q ≠ []

end Progress

/-- A buffer that begins with a tag, `<name ..`. -/
structure Tagged (buf : Bytes) (name : Bytes) : Prop where
  begins : ∃ rest, buf = 60 :: (name ++ 32 :: rest)
  named : name ≠ []
  plain : ∀ c ∈ name, c ≠ 32 ∧ c ≠ nul

/-- One with a name that there is room for. -/
structure Document (buf : Bytes) (name : Bytes) : Prop extends Tagged buf name where
  short : name.length < resp_name_size

/-- The name is copied if it fits. -/
theorem resp_name_tagged {buf name : Bytes} (h : Tagged buf name) :
    resp_name buf = if name.length < resp_name_size then some name else none := by
  obtain ⟨rest, rfl⟩ := h.begins
  have htake : (60 :: (name ++ 32 :: rest)).takeWhile (fun c => c ≠ 32 ∧ c ≠ nul)
      = 60 :: name := by
    have hname : ∀ c ∈ name, decide (c ≠ 32 ∧ c ≠ nul) = true := by
      intro c hc
      exact decide_eq_true (h.plain c hc)
    rw [List.takeWhile_cons_of_pos (by decide), List.takeWhile_append_of_pos hname,
      List.takeWhile_cons_of_neg (by decide), List.append_nil]
  have hloc : strcspn (60 :: (name ++ 32 :: rest)) = some (name.length + 1) := by
    rw [strcspn, htake]
    simp
  have hone : 1 ≤ name.length + 1 := Nat.le_add_left 1 name.length
  rw [resp_name, hloc]
  simp [hone]

/-- The name is found in the text of a document. -/
theorem resp_name_document {buf name : Bytes} (h : Document buf name) :
    resp_name buf = some name := by
  rw [resp_name_tagged h.toTagged, if_pos h.short]

-- =========================================================== the layout

/-- Printing the tags of a list stays inside `buffer_str`. -/
theorem print_tags {name : Bytes} (h : name.length < resp_name_size) :
    print stylesheet = some stylesheet ∧ print (listOpen name) = some (listOpen name)
      ∧ print (listClose name) = some (listClose name) := by
  have hopen : (lit "<__").length = 3 ∧ (lit "_list type=\"slist\">\r\n").length = 21 := by
    decide
  have hclose : (lit "</__").length = 4 ∧ (lit "_list>\r\n").length = 8 := by decide
  rw [resp_name_size] at h
  refine ⟨by decide, ?_, ?_⟩
  · rw [print, if_pos]
    rw [listOpen, List.length_append, List.length_append, hopen.1, hopen.2, buffer_str_size]
    omega
  · rw [print, if_pos]
    rw [listClose, List.length_append, List.length_append, hclose.1, hclose.2,
      buffer_str_size]
    omega

/-- The tags of a list come with a line end. -/
theorem listOpen_eq (name : Bytes) : listOpen name = openTag name ++ Http.crlf := by
  have hlit : lit "_list type=\"slist\">\r\n" = lit "_list type=\"slist\">" ++ Http.crlf :=
    rfl
  rw [listOpen, openTag, hlit, List.append_assoc, List.append_assoc]

theorem listClose_eq (name : Bytes) : listClose name = closeTag name ++ Http.crlf := by
  have hlit : lit "_list>\r\n" = lit "_list>" ++ Http.crlf := rfl
  rw [listClose, closeTag, hlit, List.append_assoc, List.append_assoc]

theorem lit_crlf : lit "\r\n" = Http.crlf := rfl

/-- The writes of each of the four branches, put together, are what the
reader expects. -/
theorem only_wire (buf : Bytes) :
    [xsl_response, lit "Content-Length: " ++ (decimal (buf.length + stylesheet.length)
        ++ lit "\r\n\r\n"), stylesheet, buf].flatten = (Doc.one buf).wire := by
  have hxsl : xsl_response = okLines.flatMap (· ++ Http.crlf) := by decide
  have hend : lit "\r\n\r\n" = Http.crlf ++ Http.crlf := rfl
  have hlabel : lit "Content-Length: " = Http.contentLength := rfl
  rw [hxsl, hend, hlabel, Nat.add_comm, ← List.length_append]
  simp [Doc.wire, Doc.lines, Http.head]

theorem first_wire (name buf : Bytes) :
    [chunk_response, Http.hex (stylesheet.length + ((listOpen name).length - 2))
        ++ lit "\r\n", stylesheet, listOpen name, Http.hex buf.length ++ lit "\r\n", buf,
        lit "\r\n"].flatten
      = Http.head (Doc.list name [buf]).lines
        ++ (Doc.chunks name [buf]).flatMap Http.chunk := by
  have hhead : chunk_response = Http.head (Doc.list name [buf]).lines := by
    show chunk_response = Http.head (okLines ++ [Http.transferChunked])
    decide
  have hlen : stylesheet.length + ((listOpen name).length - 2)
      = (stylesheet ++ openTag name).length := by
    have hcrlf : Http.crlf.length = 2 := rfl
    rw [listOpen_eq, List.length_append, List.length_append, hcrlf, Nat.add_sub_cancel]
  rw [hlen, hhead, listOpen_eq, lit_crlf]
  simp [Doc.chunks, Http.chunk]

theorem middle_wire (buf : Bytes) :
    [Http.hex buf.length ++ lit "\r\n", buf, lit "\r\n"].flatten = Http.chunk buf := by
  rw [lit_crlf]
  simp [Http.chunk]

theorem last_wire (name buf : Bytes) :
    [Http.hex buf.length ++ lit "\r\n", buf, lit "\r\n",
        Http.hex ((listClose name).length - 2) ++ lit "\r\n", listClose name,
        lit "0\r\n\r\n"].flatten
      = [buf, closeTag name].flatMap Http.chunk ++ Http.lastChunk := by
  have hlast : lit "0\r\n\r\n" = Http.lastChunk := rfl
  have hlen : (listClose name).length - 2 = (closeTag name).length := by
    have hcrlf : Http.crlf.length = 2 := rfl
    rw [listClose_eq, List.length_append, hcrlf, Nat.add_sub_cancel]
  rw [hlen, listClose_eq, hlast, lit_crlf]
  simp [Http.chunk]

-- ============================================================= one call

section Call

variable (S : HttpServer) {s : S.Sessions} {context : Bytes}

/-- Several sends in a row are one. -/
theorem find_sendAll (bufs : List Bytes) (d : Bytes) :
    ∀ s : S.Sessions, S.find (sendAll S context s bufs) d
      = if d = context then (S.find s context).map fun h =>
          { h with sent := h.sent ++ bufs.flatten }
        else S.find s d := by
  induction bufs with
  | nil =>
      intro s
      by_cases hd : d = context
      · rw [if_pos hd, hd]
        simp [sendAll]
      · rw [if_neg hd]
        rfl
  | cons buf bufs ih =>
      intro s
      have hstep : sendAll S context s (buf :: bufs)
          = sendAll S context (S.SendSession s context buf) bufs := rfl
      rw [hstep, ih]
      by_cases hd : d = context
      · rw [if_pos hd, if_pos hd]
        simp [Function.comp_def]
      · rw [if_neg hd, if_neg hd, S.find_send, if_neg hd]

/-- Releasing a context changes what is kept for its client only. -/
theorem find_release (more : Bool) (d : Bytes) :
    S.find (release S context s more) d
      = if d = context then (S.find s context).map fun h =>
          { h with client_context := if more then h.client_context else [] }
        else S.find s d := by
  cases more with
  | true =>
      by_cases hd : d = context
      · rw [if_pos hd, hd]
        simp [release]
      · rw [if_neg hd]
        rfl
  | false =>
      rw [release, if_neg Bool.false_ne_true, S.find_set]
      simp

/-- A session is where its progress says. -/
def Agrees (p : Progress) (h : HttpSession) : Prop :=
  h.client_context = p.context ∧ h.sent = p.wire

variable {buf name : Bytes} (more : Bool)

/-- `HttpSendXML` where there is no session. -/
theorem sendXML_gone (hdoc : Document buf name) (hfind : S.find s context = none) :
    ∃ s', HttpSendXML S context s buf more = some s'
      ∧ ∀ d, S.find s' d = S.find s d := by
  have hctx : S.get_client_context s context = [] := by
    rw [HttpServer.get_client_context, hfind]
    rfl
  refine ⟨(S.set_client_context s context name).2, ?_, ?_⟩
  · simp [HttpSendXML, resp_name_document hdoc, hctx, hfind]
  · intro d
    rw [S.find_set]
    by_cases hd : d = context
    · rw [if_pos hd, hd, hfind]
      rfl
    · rw [if_neg hd]

/-- `HttpSendXML` where there is one. -/
theorem sendXML_follows {p : Progress} {h : HttpSession} (hdoc : Document buf name)
    (hp : p.Ok) (hfind : S.find s context = some h) (hagrees : Agrees p h) :
    ∃ s' h', HttpSendXML S context s buf more = some s'
      ∧ S.find s' context = some h' ∧ Agrees (p.respond name buf more) h'
      ∧ ∀ d, d ≠ context → S.find s' d = S.find s d := by
  obtain ⟨hcontext, hsent⟩ := hagrees
  have hctx : S.get_client_context s context = p.context := by
    rw [HttpServer.get_client_context, hfind, ← hcontext]
    rfl
  have hother : ∀ {t : S.Sessions} {bufs : List Bytes} {more : Bool} (d : Bytes),
      d ≠ context →
      S.find (release S context (sendAll S context t bufs) more) d = S.find t d := by
    intro t bufs more d hd
    rw [find_release, if_neg hd, find_sendAll, if_neg hd]
  cases hcur : p.current with
  | none =>
      have hnil : p.context = [] := by
        rw [Progress.context, hcur]
        rfl
      have hwire : h.sent = (p.finished.map Doc.wire).flatten := by
        rw [hsent, Progress.wire, Progress.partial_, hcur, List.append_nil]
      have hset : S.find (S.set_client_context s context name).2 context
          = some { h with client_context := name } := by
        rw [S.find_set, if_pos rfl, hfind]
        rfl
      have hkeep : ∀ d, d ≠ context →
          S.find (S.set_client_context s context name).2 d = S.find s d := by
        intro d hd
        rw [S.find_set, if_neg hd]
      obtain ⟨hstyle, hopen, -⟩ := print_tags hdoc.short
      cases more with
      | false =>
          refine ⟨release S context (sendAll S context
            (S.set_client_context s context name).2 [xsl_response,
              lit "Content-Length: " ++ (decimal (buf.length + stylesheet.length)
                ++ lit "\r\n\r\n"), stylesheet, buf]) false,
            ⟨[], h.sent ++ (Doc.one buf).wire⟩, ?_, ?_, ⟨?_, ?_⟩, ?_⟩
          · simp [HttpSendXML, resp_name_document hdoc, hctx, hnil, hfind, sendOnly, hstyle]
          · rw [find_release, if_pos rfl, find_sendAll, if_pos rfl, hset, only_wire]
            rfl
          · simp [Progress.respond, Progress.context, hcur]
          · simp [Progress.respond, Progress.wire, Progress.partial_, hcur, hwire]
          · intro d hd
            rw [hother d hd, hkeep d hd]
      | true =>
          refine ⟨release S context (sendAll S context
            (S.set_client_context s context name).2 [chunk_response,
              Http.hex (stylesheet.length + ((listOpen name).length - 2)) ++ lit "\r\n",
              stylesheet, listOpen name, Http.hex buf.length ++ lit "\r\n", buf,
              lit "\r\n"]) true,
            ⟨name, h.sent ++ (Http.head (Doc.list name [buf]).lines
              ++ (Doc.chunks name [buf]).flatMap Http.chunk)⟩, ?_, ?_, ⟨?_, ?_⟩, ?_⟩
          · simp [HttpSendXML, resp_name_document hdoc, hctx, hnil, hfind, sendFirst,
              hstyle, hopen]
          · rw [find_release, if_pos rfl, find_sendAll, if_pos rfl, hset, first_wire]
            rfl
          · simp [Progress.respond, Progress.context, hcur]
          · simp [Progress.respond, Progress.wire, Progress.partial_, hcur, hwire]
          · intro d hd
            rw [hother d hd, hkeep d hd]
  | some x =>
      obtain ⟨open_, parts⟩ := x
      obtain ⟨hne, hshort, -⟩ := hp.current open_ parts hcur
      have hopen : p.context = open_ := by
        rw [Progress.context, hcur]
        rfl
      have hwire : h.sent = (p.finished.map Doc.wire).flatten
          ++ (Http.head (Doc.list open_ parts).lines
            ++ (Doc.chunks open_ parts).flatMap Http.chunk) := by
        rw [hsent, Progress.wire, Progress.partial_, hcur]
      obtain ⟨-, -, hclose⟩ := print_tags hshort
      cases more with
      | false =>
          refine ⟨release S context (sendAll S context s
            [Http.hex buf.length ++ lit "\r\n", buf, lit "\r\n",
              Http.hex ((listClose open_).length - 2) ++ lit "\r\n", listClose open_,
              lit "0\r\n\r\n"]) false,
            ⟨[], h.sent ++ ([buf, closeTag open_].flatMap Http.chunk ++ Http.lastChunk)⟩,
            ?_, ?_, ⟨?_, ?_⟩, fun d hd => hother d hd⟩
          · simp [HttpSendXML, resp_name_document hdoc, hctx, hopen, hne, sendLast, hclose]
          · rw [find_release, if_pos rfl, find_sendAll, if_pos rfl, hfind, last_wire]
            rfl
          · simp [Progress.respond, Progress.context, hcur]
          · simp [Progress.respond, Progress.wire, Progress.partial_, hcur, hwire, Doc.wire,
              Doc.chunks, Doc.lines]
      | true =>
          refine ⟨release S context (sendAll S context s
            [Http.hex buf.length ++ lit "\r\n", buf, lit "\r\n"]) true,
            ⟨open_, h.sent ++ Http.chunk buf⟩, ?_, ?_, ⟨?_, ?_⟩,
            fun d hd => hother d hd⟩
          · simp [HttpSendXML, resp_name_document hdoc, hctx, hopen, hne, sendMiddle]
          · rw [find_release, if_pos rfl, find_sendAll, if_pos rfl, hfind, middle_wire]
            simp [hcontext, hopen]
          · simp [Progress.respond, Progress.context, hcur]
          · simp [Progress.respond, Progress.wire, Progress.partial_, hcur, hwire,
              Doc.chunks, Doc.lines]

end Call

-- ================================================================ runs

/-- The progress of every session, with an action. -/
def upd (S : HttpServer) (p : Bytes → Progress) (s : S.Sessions) :
    Action → Bytes → Progress
  | .accept context, d => if d = context then .new else p d
  | .close _, d => p d
  | .Response context buf more, d =>
      if d = context ∧ (S.find s context).isSome then
        (p d).respond ((resp_name buf).getD []) buf more
      else p d

/-- What a response is asked to send. -/
def Action.Sends : Action → Prop
  | .Response _ buf _ => ∃ name, Tagged buf name
  | _ => True

/-- The name in it fits into `resp_name`. -/
def Action.Fits : Action → Prop
  | .Response _ buf _ => ∀ name, Tagged buf name → name.length < resp_name_size
  | _ => True

/-- A document keeps the progress well formed. -/
theorem ok_respond {p : Progress} {buf name : Bytes} (hp : p.Ok)
    (hdoc : Document buf name) (more : Bool) : (p.respond name buf more).Ok := by
  have hbuf : buf ≠ [] := by
    obtain ⟨rest, rfl⟩ := hdoc.begins
    exact List.cons_ne_nil _ _
  unfold Progress.respond
  cases hcur : p.current with
  | none =>
      cases more with
      | false =>
          refine ⟨?_, by simp⟩
          intro d hd
          rcases List.mem_append.mp hd with hold | hone
          · exact hp.finished d hold
          · rw [List.mem_singleton.mp hone]
            trivial
      | true =>
          refine ⟨hp.finished, ?_⟩
          intro open_ parts heq
          cases heq
          refine ⟨hdoc.named, hdoc.short, ?_⟩
          intro q hq
          rwa [List.mem_singleton.mp hq]
  | some x =>
      obtain ⟨open_, parts⟩ := x
      obtain ⟨hne, hshort, hparts⟩ := hp.current open_ parts hcur
      have hall : ∀ q ∈ parts ++ [buf], q ≠ [] := by
        intro q hq
        rcases List.mem_append.mp hq with hold | hnew
        · exact hparts q hold
        · rwa [List.mem_singleton.mp hnew]
      cases more with
      | false =>
          refine ⟨?_, by simp⟩
          intro d hd
          rcases List.mem_append.mp hd with hold | hlist
          · exact hp.finished d hold
          · rw [List.mem_singleton.mp hlist]
            exact hall
      | true =>
          refine ⟨hp.finished, ?_⟩
          intro open' parts' heq
          cases heq
          exact ⟨hne, hshort, hall⟩

/-- Every session is where its progress says. -/
structure Follows (S : HttpServer) (x : S.Sessions × (Bytes → Progress)) : Prop where
  agrees : ∀ d h, S.find x.1 d = some h → Agrees (x.2 d) h
  ok : ∀ d, (x.2 d).Ok

/-- One action. -/
theorem step_follows {S : HttpServer} {x : S.Sessions × (Bytes → Progress)} {a : Action}
    (h : Follows S x) (ha : a.Sends) (hfits : a.Fits) :
    ∃ y, ((machine S).watch (upd S)).step x a = some y ∧ Follows S y := by
  obtain ⟨s, p⟩ := x
  cases a with
  | accept context =>
      refine ⟨(S.accept s context, upd S p s (.accept context)), rfl, ?_, ?_⟩
      · intro d hs hfind
        rw [S.find_accept] at hfind
        by_cases hd : d = context
        · rw [if_pos hd] at hfind
          obtain rfl := Option.some.inj hfind
          show Agrees (if d = context then _ else _) _
          rw [if_pos hd]
          exact ⟨rfl, rfl⟩
        · rw [if_neg hd] at hfind
          show Agrees (if d = context then _ else _) _
          rw [if_neg hd]
          exact h.agrees d hs hfind
      · intro d
        show Progress.Ok (if d = context then _ else _)
        split
        · exact ⟨by simp [Progress.new], by simp [Progress.new]⟩
        · exact h.ok d
  | close context =>
      refine ⟨(S.close s context, upd S p s (.close context)), rfl, ?_, h.ok⟩
      intro d hs hfind
      rw [S.find_close] at hfind
      by_cases hd : d = context
      · rw [if_pos hd] at hfind
        cases hfind
      · rw [if_neg hd] at hfind
        exact h.agrees d hs hfind
  | Response context buf more =>
      obtain ⟨name, htagged⟩ := ha
      have hdoc : Document buf name := ⟨htagged, hfits name htagged⟩
      have hname : (resp_name buf).getD [] = name := by
        rw [resp_name_document hdoc]
        rfl
      cases hfind : S.find s context with
      | none =>
          obtain ⟨s', hsend, hsame⟩ := sendXML_gone S more hdoc hfind
          have hupd : upd S p s (.Response context buf more) = p := by
            funext d
            rw [upd, hfind]
            exact if_neg fun hd => Bool.false_ne_true hd.2
          refine ⟨(s', upd S p s (.Response context buf more)), ?_, ?_, ?_⟩
          · exact Machine.watch_step.mpr ⟨hsend, rfl⟩
          · intro d hs hd
            rw [hupd]
            exact h.agrees d hs ((hsame d).symm.trans hd)
          · rw [hupd]
            exact h.ok
      | some hs =>
          obtain ⟨s', hs', hsend, hfind', hagrees, hother⟩ :=
            sendXML_follows S more hdoc (h.ok context) hfind (h.agrees context hs hfind)
          have hupd : ∀ d, upd S p s (.Response context buf more) d
              = if d = context then (p context).respond name buf more else p d := by
            intro d
            rw [upd, hfind, hname]
            by_cases hd : d = context
            · rw [if_pos ⟨hd, rfl⟩, if_pos hd, hd]
            · rw [if_neg fun hand => hd hand.1, if_neg hd]
          refine ⟨(s', upd S p s (.Response context buf more)), ?_, ?_, ?_⟩
          · exact Machine.watch_step.mpr ⟨hsend, rfl⟩
          · intro d hs₁ hd₁
            show Agrees (upd S p s (.Response context buf more) d) hs₁
            rw [hupd]
            by_cases hd : d = context
            · rw [if_pos hd]
              rw [hd, hfind'] at hd₁
              obtain rfl := Option.some.inj hd₁
              exact hagrees
            · rw [if_neg hd]
              exact h.agrees d hs₁ ((hother d hd).symm.trans hd₁)
          · intro d
            show (upd S p s (.Response context buf more) d).Ok
            rw [hupd]
            split
            · exact ok_respond (h.ok context) hdoc more
            · exact h.ok d

/-- A name that does not fit is copied past the end. -/
theorem step_overrun {S : HttpServer} {x : S.Sessions × (Bytes → Progress)} {a : Action}
    (hfits : ¬ a.Fits) : ((machine S).watch (upd S)).step x a = none := by
  cases a with
  | accept context => exact absurd trivial hfits
  | close context => exact absurd trivial hfits
  | Response context buf more =>
      obtain ⟨name, hlong⟩ := not_forall.mp hfits
      obtain ⟨htagged, hlong⟩ := Classical.not_imp.mp hlong
      have hnone : HttpSendXML S context x.1 buf more = none := by
        rw [HttpSendXML, resp_name_tagged htagged, if_neg hlong]
        rfl
      show (HttpSendXML S context x.1 buf more).map _ = none
      rw [hnone]
      rfl

/-- Any number of actions: they all happen if every name fits. -/
theorem run_follows {S : HttpServer} (as : List Action) (hsends : ∀ a ∈ as, a.Sends)
    {x : S.Sessions × (Bytes → Progress)} (h : Follows S x) :
    ((∃ y, ((machine S).watch (upd S)).run x as = some y) ↔ ∀ a ∈ as, a.Fits)
      ∧ ∀ y, ((machine S).watch (upd S)).run x as = some y → Follows S y := by
  induction as generalizing x with
  | nil =>
      refine ⟨⟨fun _ a ha => absurd ha List.not_mem_nil, fun _ => ⟨x, rfl⟩⟩, fun y hy => ?_⟩
      obtain rfl : x = y := Option.some.inj hy
      exact h
  | cons a as ih =>
      obtain ⟨ha, hsends⟩ := List.forall_mem_cons.mp hsends
      rw [List.forall_mem_cons, Machine.run]
      by_cases hfits : a.Fits
      · obtain ⟨y, hstep, hy⟩ := step_follows h ha hfits
        rw [hstep]
        obtain ⟨hiff, hall⟩ := ih hsends hy
        exact ⟨hiff.trans (and_iff_right hfits).symm, hall⟩
      · rw [step_overrun hfits]
        refine ⟨⟨fun hex => ?_, fun hall => absurd hall.1 hfits⟩, fun y hy => ?_⟩
        · obtain ⟨y, hy⟩ := hex
          cases hy
        · cases hy

/-- Whatever the order in which requests on any number of sessions are
answered: no copy leaves its buffer exactly if the names of the documents
are short; and then, on every session on which no list is open, an HTTP
client reads exactly the documents it was to be sent, each in a response of
its own: the parts of a list in one chunked body inside the tags of the
list, anything else with its length. -/
theorem responses_read (S : HttpServer) (as : List Action) (h : ∀ a ∈ as, a.Sends) :
    ((∃ x, ((machine S).watch (upd S)).run (S.none_, fun _ => .new) as = some x)
        ↔ ∀ a ∈ as, a.Fits)
      ∧ ∀ s p, ((machine S).watch (upd S)).run (S.none_, fun _ => .new) as = some (s, p) →
        ∀ d hs, S.find s d = some hs → (p d).current = none →
        Http.readResponses (p d).finished.length hs.sent
          = some ((p d).finished.map Doc.response) := by
  have hstart : Follows S (S.none_, fun _ => .new) := by
    refine ⟨?_, fun _ => ⟨by simp [Progress.new], by simp [Progress.new]⟩⟩
    intro d hs hfind
    rw [S.find_none] at hfind
    cases hfind
  obtain ⟨hiff, hall⟩ := run_follows as h hstart
  refine ⟨hiff, fun s p hrun d hs hfind hnone => ?_⟩
  have hfollows := hall (s, p) hrun
  obtain ⟨-, hsent⟩ := hfollows.agrees d hs hfind
  have hwire : hs.sent = ((p d).finished.map Doc.wire).flatten := by
    have hsent' : hs.sent = (p d).wire := hsent
    rw [hsent', Progress.wire, Progress.partial_, hnone, List.append_nil]
  rw [hwire]
  refine Http.readResponses_flatten ?_ (Nat.le_of_eq (List.length_map _))
  rw [List.forall₂_map_left_iff, List.forall₂_map_right_iff, List.forall₂_same]
  intro doc hdoc
  exact Doc.reads ((hfollows.ok d).finished doc hdoc)

/-- A list on one session, with the response to another request between
its parts. -/
def mixed : List Action :=
  [.accept (lit "a"), .accept (lit "b"), .Response (lit "a") (lit "<P 1/>") true,
    .Response (lit "b") (lit "<Q 2/>") false, .Response (lit "a") (lit "<P 3/>") false]

/-- A list to one client, and a document to another in between. -/
theorem responses_read_mixed :
    ∃ s p, ((machine .table).watch (upd .table)).run
        (HttpServer.table.none_, fun _ => .new) mixed = some (s, p)
      ∧ ∀ d hs, HttpServer.table.find s d = some hs → (p d).current = none →
        Http.readResponses (p d).finished.length hs.sent
          = some ((p d).finished.map Doc.response) := by
  have hp : ∀ tail, Tagged (lit "<P " ++ tail) (lit "P") := fun tail =>
    ⟨⟨tail, rfl⟩, by decide, by decide⟩
  have hq : ∀ tail, Tagged (lit "<Q " ++ tail) (lit "Q") := fun tail =>
    ⟨⟨tail, rfl⟩, by decide, by decide⟩
  have hsends : ∀ a ∈ mixed, a.Sends := by
    intro a ha
    simp only [mixed, List.mem_cons, List.not_mem_nil, or_false] at ha
    rcases ha with rfl | rfl | rfl | rfl | rfl
    · trivial
    · trivial
    · exact ⟨_, hp (lit "1/>")⟩
    · exact ⟨_, hq (lit "2/>")⟩
    · exact ⟨_, hp (lit "3/>")⟩
  have hfits : ∃ x, ((machine .table).watch (upd .table)).run
      (HttpServer.table.none_, fun _ => .new) mixed = some x := ⟨_, rfl⟩
  obtain ⟨⟨s, p⟩, hrun⟩ := hfits
  exact ⟨s, p, hrun, (responses_read .table mixed hsends).2 s p hrun⟩

end Sandesh.Http
