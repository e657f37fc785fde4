/-
Which documents fail the assertion of the header parser.

`ParseHeader` looks at the children of the first node one by one and stops
at the first whose value is not the number it should be. Each child it
gets to must have `identifier` as its last attribute: the assertion says
so, and nothing before it has checked. So the parser comes back exactly
when all of them do, whatever the library makes of the bytes.
-/
import Sandesh.Collector.Proofs.Agree

namespace Sandesh.Collector

open Lib Xml Header XmlNode

variable (P : Pugixml)

/-- The last attribute is the one the parser asserts. -/
def Identified (node : XmlNode) : Prop := node.last_attribute.1 = lit "identifier"

/-- The value of the node is read: it is a number, or no number is
expected. -/
def IsRead (node : XmlNode) : Prop :=
  (ParseIdentifier (P.as_int node.last_attribute.2) node SandeshHeader.init).isSome

/-- The children up to the first that is not read, that one included, are
identified. -/
def Reaches : List XmlNode → Prop
  | [] => True
  | node :: nodes => Identified node ∧ (IsRead P node → Reaches nodes)

/-- The children of the first node of the document. -/
def headerChildren (nodes : List XmlNode) : List XmlNode :=
  (nodes.headD (.pcdata [])).children

/-- The parser returns, and it returns false if a child of the first node
is not identified. -/
def Survives (xml_msg : Bytes) : Prop :=
  ∃ r, Create P xml_msg = .ok r
    ∧ ∀ nodes, P.load_buffer xml_msg = some nodes →
        (∃ node ∈ headerChildren nodes, ¬ Identified node) → r = none

variable {P}

/-- Whether a value is read does not depend on the header so far. -/
theorem parseIdentifier_isSome (identifier : Int) (node : XmlNode)
    (header header' : SandeshHeader) :
    (ParseIdentifier identifier node header).isSome
      = (ParseIdentifier identifier node header').isSome := by
  unfold ParseIdentifier
  split <;> simp only [Option.isSome_some, Option.isSome_map]

/-- One turn of the loop. -/
theorem parseField_cases (header : SandeshHeader) (node : XmlNode) :
    (¬ Identified node ∧ ParseField P header node = .error .assertIdentifier)
      ∨ (Identified node ∧ ¬ IsRead P node ∧ ParseField P header node = .ok none)
      ∨ ∃ header', Identified node ∧ IsRead P node
          ∧ ParseField P header node = .ok (some header') := by
  by_cases hid : Identified node
  · have hfield : ParseField P header node
        = .ok (ParseIdentifier (P.as_int node.last_attribute.2) node header) :=
      if_neg (not_not.mpr hid)
    have hread := parseIdentifier_isSome (P.as_int node.last_attribute.2) node header
      SandeshHeader.init
    rw [hfield]
    cases hvalue : ParseIdentifier (P.as_int node.last_attribute.2) node header with
    | none =>
        refine .inr (.inl ⟨hid, ?_, rfl⟩)
        rw [IsRead, ← hread, hvalue]
        exact Bool.false_ne_true
    | some header' =>
        refine .inr (.inr ⟨header', hid, ?_, rfl⟩)
        rw [IsRead, ← hread, hvalue]
        rfl
  · exact .inl ⟨hid, if_pos hid⟩

/-- The whole loop. -/
theorem parseHeader_returns_iff :
    ∀ (nodes : List XmlNode) (header : SandeshHeader),
      (∃ r, ParseHeader P nodes header = .ok r) ↔ Reaches P nodes
  | [], header => ⟨fun _ => trivial, fun _ => ⟨some header, rfl⟩⟩
  | node :: nodes, header => by
      rw [ParseHeader, Reaches]
      rcases parseField_cases (P := P) header node with
        ⟨hid, hfield⟩ | ⟨hid, hread, hfield⟩ | ⟨header', hid, hread, hfield⟩
      · rw [hfield]
        constructor
        · intro h
          obtain ⟨r, hr⟩ := h
          cases hr
        · intro h
          exact absurd h.1 hid
      · rw [hfield]
        exact ⟨fun _ => ⟨hid, fun h => absurd h hread⟩, fun _ => ⟨none, rfl⟩⟩
      · rw [hfield]
        show (∃ r, ParseHeader P nodes header' = .ok r) ↔ _
        rw [parseHeader_returns_iff nodes header']
        exact ⟨fun h => ⟨hid, fun _ => h⟩, fun h => h.2 hread⟩

/-- A child that is not identified is not got to. -/
theorem parseHeader_false :
    ∀ (nodes : List XmlNode) (header : SandeshHeader), Reaches P nodes →
      (∃ node ∈ nodes, ¬ Identified node) → ParseHeader P nodes header = .ok none
  | [], _, _, hbad => by
      obtain ⟨node, hmem, -⟩ := hbad
      cases hmem
  | node :: nodes, header, hreaches, hbad => by
      rw [ParseHeader]
      rcases parseField_cases (P := P) header node with
        ⟨hid, -⟩ | ⟨-, -, hfield⟩ | ⟨header', hid, hread, hfield⟩
      · exact absurd hreaches.1 hid
      · rw [hfield]
        rfl
      · rw [hfield]
        refine parseHeader_false nodes header' (hreaches.2 hread) ?_
        obtain ⟨bad, hmem, hbad⟩ := hbad
        rcases List.mem_cons.mp hmem with rfl | hmem
        · exact absurd hid hbad
        · exact ⟨bad, hmem, hbad⟩

/-- What the parser makes of a header that it has read. -/
def typed (nodes : List XmlNode) (header : SandeshHeader) : Option SandeshXMLMessage :=
  let message_node := nodes.tail.headD (.pcdata [])
  if message_node.name = [] then none else some ⟨header, message_node.name⟩

/-- The parser after the document has been loaded. -/
theorem create_loaded {xml_msg : Bytes} {nodes : List XmlNode}
    (hload : P.load_buffer xml_msg = some nodes) :
    Create P xml_msg = (ParseHeader P (headerChildren nodes) SandeshHeader.init).map
      (·.bind (typed nodes)) := by
  unfold Create headerChildren
  simp only [hload]
  cases ParseHeader P (nodes.headD (.pcdata [])).children SandeshHeader.init with
  | error e => rfl
  | ok parsed =>
      cases parsed with
      | none => rfl
      | some header =>
          show (if _ then _ else _) = Except.ok (if _ then _ else _)
          split <;> rfl

/-- **Where the header parser comes back.** Whatever the library makes of
the bytes, the parser returns, and false if a child of the first node is
not identified, exactly when it gets to no such child. -/
theorem parse_survives_iff (P : Pugixml) (xml_msg : Bytes) :
    Survives P xml_msg
      ↔ ∀ nodes, P.load_buffer xml_msg = some nodes → Reaches P (headerChildren nodes) := by
  cases hload : P.load_buffer xml_msg with
  | none =>
      have hcreate : Create P xml_msg = .ok none := by
        rw [Create, hload]
      refine ⟨fun _ => nofun, fun _ => ⟨none, hcreate, fun _ _ _ => rfl⟩⟩
  | some nodes =>
      have hcreate := create_loaded hload
      constructor
      · intro h nodes' heq
        injection heq with heq
        subst heq
        obtain ⟨r, hr, -⟩ := h
        rw [← parseHeader_returns_iff _ SandeshHeader.init]
        rw [hcreate] at hr
        cases hparse : ParseHeader P (headerChildren nodes) SandeshHeader.init with
        | ok r' => exact ⟨r', rfl⟩
        | error e =>
            rw [hparse] at hr
            cases hr
      · intro h
        have hreaches := h nodes rfl
        obtain ⟨parsed, hparse⟩ :=
          (parseHeader_returns_iff _ SandeshHeader.init).mpr hreaches
        refine ⟨parsed.bind (typed nodes), by rw [hcreate, hparse]; rfl, ?_⟩
        intro nodes' heq hbad
        rw [hload] at heq
        injection heq with heq
        subst heq
        rw [parseHeader_false _ _ hreaches hbad] at hparse
        injection hparse with hparse
        rw [← hparse]
        rfl

/-- `<a><b></b></a>`. -/
def bareDocument : List XmlNode := [.element (lit "a") [] [.element (lit "b") [] []]]

/-- A child without attributes stops the collector. -/
theorem parse_asserts :
    Create (.ofDocument bareDocument) (texts bareDocument)
      = .error .assertIdentifier := by
  rw [create_loaded (documented_ofDocument bareDocument).load]
  rfl

end Sandesh.Collector
