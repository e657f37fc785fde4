/-
Messages arriving at the collector:
`SandeshStateMachine::OnSandeshMessage`
(library/cpp/sandesh_state_machine.cc), and the message builder that
parses them into a document (library/cpp/sandesh_message_builder.cc).

# Two parsers

The builder gets the header out of a document that pugixml has loaded;
for a control message `ExtractMsgHeader` then reads it again, from the same
bytes, and the two results have to be equal.

# pugixml

The library is a parameter. What is assumed of it is what it documents for
`parse_default & ~parse_escapes` (`Pugixml.Documented`): the nodes of a
well formed document are found, entity references stay as they are, line
ends become `\n`, and a text of nothing but blanks is not kept. The
document may have several top-level elements.
-/
import Sandesh.Ctrl.Basic
import Sandesh.Header.Basic

namespace Sandesh.Collector

open Lib Xml Header
open Ctrl (RxStat)

-- ============================================================== pugixml

/-- What pugixml has in a tree: elements and texts. -/
inductive XmlNode
  | element (name : Bytes) (attributes : List (Bytes × Bytes))
      (children : List XmlNode)
  | pcdata (value : Bytes)
  | cdata (value : Bytes)

namespace XmlNode

/-- `name()`, empty for a text. -/
def name : XmlNode → Bytes
  | element name _ _ => name
  | _ => []

/-- `last_attribute()`, its name and value empty if there is none. -/
def last_attribute : XmlNode → Bytes × Bytes
  | element _ attributes _ => attributes.getLastD ([], [])
  | _ => ([], [])

/-- Those of an element. -/
def children : XmlNode → List XmlNode
  | element _ _ children => children
  | _ => []

/-- The value of a text. -/
def text? : XmlNode → Option Bytes
  | element _ _ _ => none
  | pcdata value => some value
  | cdata value => some value

/-- `child_value()`: the first text among the children. -/
def child_value (node : XmlNode) : Bytes :=
  (node.children.findSome? text?).getD []

/-- What counts as a blank. -/
def isBlank (c : UInt8) : Bool := (lit "\t\n\r ").contains c

/-- `parse_eol`, with a `\r` just gone by or not: `\r` and `\r\n` both
become `\n`. -/
def eolFrom : Bool → Bytes → Bytes
  | _, [] => []
  | cr, c :: s =>
      if c = 13 then 10 :: eolFrom true s
      else if cr ∧ c = 10 then eolFrom false s
      else c :: eolFrom false s

/-- Line ends as pugixml normalizes them. -/
def eol : Bytes → Bytes := eolFrom false

mutual

/-- A node as it is written. -/
def text : XmlNode → Bytes
  | element name attributes children =>
      lit "<" ++ name
        ++ attributes.flatMap (fun a =>
          lit " " ++ TXMLWriter.formXMLAttr a.1 a.2)
        ++ lit ">" ++ texts children ++ lit "</" ++ name ++ lit ">"
  | pcdata value => value
  | cdata value => lit "<![CDATA[" ++ value ++ lit "]]>"

/-- The texts of several nodes. -/
def texts : List XmlNode → Bytes
  | [] => []
  | node :: nodes => text node ++ texts nodes

end

mutual

/-- A node as it is loaded, if it is. -/
def loaded : XmlNode → Option XmlNode
  | element name attributes children =>
      some (element name attributes (loadeds children))
  | pcdata value =>
      if value.all isBlank then none else some (pcdata (eol value))
  | cdata value => some (cdata (eol value))

/-- Several nodes as they are loaded. -/
def loadeds : List XmlNode → List XmlNode
  | [] => []
  | node :: nodes => (loaded node).toList ++ loadeds nodes

end

end XmlNode

open XmlNode

/-- The library, as a parameter. -/
structure Pugixml where
  /-- `load_buffer` with `parse_default & ~parse_escapes`: the top-level
  nodes, or an error -/
  load_buffer : Bytes → Option (List XmlNode)
  /-- `as_int` of an attribute value -/
  as_int : Bytes → Int

/-- What pugixml documents, for one document. -/
structure Pugixml.Documented (P : Pugixml) (doc : List XmlNode) : Prop where
  load : P.load_buffer (texts doc) = some (loadeds doc)
  as_int : ∀ n < 2 ^ 31, P.as_int (decimal n) = n

-- ============================================================= builder

/-- Why a run stops. -/
inductive Crash
  /-- `assert(strcmp(node.last_attribute().name(), "identifier") == 0)` -/
  | assertIdentifier
  /-- `ExtractMsgHeader` does not come back by a return -/
  | extract (a : Abort)

/-- `strtoul` into an `int`, and `endp[0] == '\0'`. -/
def ParseInteger (node : XmlNode) : Option (BitVec 32) :=
  if (strtoulEnd node.child_value).headD nul = nul then
    some (BitVec.ofNat 32 (strtoul node.child_value))
  else none

/-- The same into a `uint64_t`. -/
def ParseUnsignedLong (node : XmlNode) : Option (BitVec 64) :=
  if (strtoulEnd node.child_value).headD nul = nul then
    some (BitVec.ofNat 64 (strtoul node.child_value))
  else none

/-- `switch (identifier)`; `none` is a `return false`. -/
def ParseIdentifier (identifier : Int) (node : XmlNode)
    (header : SandeshHeader) : Option SandeshHeader :=
  match identifier with
  | 1 => some { header with Namespace := node.child_value }
  | 2 => (ParseUnsignedLong node).map fun v => { header with Timestamp := v }
  | 3 => some { header with Module := node.child_value }
  | 4 => some { header with Source := node.child_value }
  | 5 => some { header with Context := node.child_value }
  | 6 => (ParseInteger node).map fun v => { header with SequenceNum := v }
  | 7 => (ParseInteger node).map fun v => { header with VersionSig := v }
  | 8 => (ParseInteger node).map fun v => { header with Type_ := v }
  | 9 => (ParseInteger node).map fun v => { header with Hints := v }
  | 10 => (ParseInteger node).map fun v => { header with Level := v }
  | 11 => some { header with Category := node.child_value }
  | 12 => some { header with NodeType := node.child_value }
  | 13 => some { header with InstanceId := node.child_value }
  | 14 => some { header with IPAddress := some node.child_value }
  | 15 => (ParseInteger node).map fun v => { header with Pid := some v }
  -- "Unknown identifier"
  | _ => some header

section Parse

variable (P : Pugixml)

/-- One turn of the loop of `ParseHeader`. -/
def ParseField (header : SandeshHeader) (node : XmlNode) :
    Except Crash (Option SandeshHeader) :=
  if node.last_attribute.1 ≠ lit "identifier" then .error .assertIdentifier
  else .ok (ParseIdentifier (P.as_int node.last_attribute.2) node header)

/-- `SandeshXMLMessage::ParseHeader`, over the children of the root. -/
def ParseHeader : List XmlNode → SandeshHeader →
    Except Crash (Option SandeshHeader)
  | [], header => .ok (some header)
  | node :: nodes, header => do
      match ← ParseField P header node with
      | none => .ok none
      | some header => ParseHeader nodes header

/-- The members of a message that anything looks at. -/
structure SandeshXMLMessage where
  header_ : SandeshHeader
  message_type_ : Bytes
deriving DecidableEq

/-- `SandeshXMLMessage::Parse`, and with it
`SandeshXMLMessageBuilder::Create`: `none` is no message. A node that is
not there has no children and no name. -/
def Create (xml_msg : Bytes) : Except Crash (Option SandeshXMLMessage) := do
  match P.load_buffer xml_msg with
  | none => .ok none
  | some nodes =>
      let header_node := nodes.headD (.pcdata [])
      match ← ParseHeader P header_node.children SandeshHeader.init with
      | none => .ok none
      | some header =>
          let message_node := nodes.tail.headD (.pcdata [])
          if message_node.name = [] then .ok none
          else .ok (some ⟨header, message_node.name⟩)

end Parse

-- ======================================================= state machine

-- SandeshType
/-- The types of messages that the drop looks at. -/
def SYSTEM : BitVec 32 := 1
def OBJECT : BitVec 32 := 7
def FLOW : BitVec 32 := 8
def SESSION : BitVec 32 := 12

/-- `DoDropSandeshMessage`, with `Sandesh::IsFlowCollectionDisabled()`. -/
def DoDropSandeshMessage (flowDisabled : Bool) (header : SandeshHeader)
    (drop_level : BitVec 32) : Bool :=
  let stype := header.Type_
  if (stype = SYSTEM ∨ stype = OBJECT ∨ stype = FLOW ∨ stype = SESSION)
      ∧ drop_level.sle header.Level then true
  else flowDisabled && (stype == FLOW || stype == SESSION)

/-- The ways through `OnSandeshMessage`. -/
inductive Outcome
  | DecodingFailed
  | QueueLevel (message_type : Bytes)
  /-- "Extract FAILED" -/
  | extractFailed (message_type : Bytes)
  /-- "Header or message type MISMATCH" -/
  | mismatch (message_type : Bytes)
  /-- `Enqueue(EvSandeshCtrlMessageRecv(..))` -/
  | ctrl (m : MsgHeader)
  /-- `Enqueue(EvSandeshMessageRecv(xmessage))` -/
  | message (xmessage : SandeshXMLMessage)
deriving DecidableEq

/-- What is returned. -/
def Outcome.ret : Outcome → Bool
  | .DecodingFailed | .extractFailed _ | .mismatch _ => false
  | .QueueLevel _ | .ctrl _ | .message _ => true

/-- The update of the receive statistics. -/
def Outcome.stat (size : Nat) : Outcome → RxStat
  | .DecodingFailed => .UpdateRxMsgFailStats [] size .DecodingFailed
  | .QueueLevel t => .UpdateRxMsgFailStats t size .QueueLevel
  | .extractFailed t | .mismatch t =>
      .UpdateRxMsgFailStats t size .ControlMsgFailed
  | .ctrl m => .UpdateRxMsgStats m.msg_type size
  | .message x => .UpdateRxMsgStats x.message_type_ size

/-- The surroundings of a call: the two libraries, the drop level and the
flow collection flag, and what the bytes held by a fresh reader are. -/
structure Setting where
  pugixml : Pugixml
  world : World
  message_drop_level_ : BitVec 32
  flowDisabled : Bool
  data_ : UInt8
  data2_ : UInt8 × UInt8

/-- The control half of `OnSandeshMessage`, once `ExtractMsgHeader` has
come back. -/
def onExtracted (xmessage : SandeshXMLMessage) :
    Except Abort MsgHeader → Except Crash Outcome
  | .error (.fault .failed) => .ok (.extractFailed xmessage.message_type_)
  | .error a => .error (.extract a)
  | .ok ctrl =>
      if xmessage.header_ ≠ ctrl.header
          ∨ xmessage.message_type_ ≠ ctrl.msg_type then
        .ok (.mismatch xmessage.message_type_)
      else .ok (.ctrl ctrl)

/-- `SandeshStateMachine::OnSandeshMessage`. -/
def OnSandeshMessage (S : Setting) (msg : Bytes) :
    Comp (Except Crash Outcome) :=
  match Create S.pugixml msg with
  | .error e => Comp.pure (.error e)
  | .ok none => Comp.pure (.ok .DecodingFailed)
  | .ok (some xmessage) =>
      if DoDropSandeshMessage S.flowDisabled xmessage.header_
          S.message_drop_level_ then
        Comp.pure (.ok (.QueueLevel xmessage.message_type_))
      else if xmessage.header_.control then
        (ExtractMsgHeader S.world Reads.code
            (LookaheadReader.new msg S.data_ S.data2_)).bind fun res =>
          Comp.pure (onExtracted xmessage res.1)
      else Comp.pure (.ok (.message xmessage))

end Sandesh.Collector
