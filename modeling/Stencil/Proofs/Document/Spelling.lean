import Stencil.Document.Decode
import Stencil.Proofs.Document.Fields
import Stencil.Proofs.Graph.Every

/-!
# How documents spell graphs

A graph that a document can spell has no widgets and no roots, and no element of it has two
attributes of one name.  Text is spelled as a string, and any other node by the number of its
type and the members that its type uses, as an object in which the members come in any order or
as an array of them.  A member that is not used may be left out or null.  Contents are an array
or, if they are one text, a string, and they are left out if there are none; a section is turned
around by its type or by a modifier.

* `Compiled.isWritable` — whether a graph and its partials can be spelled.
* `Compiled.spelledBy` — whether a value spells them.
* `Compiled.spell` — a value that does.
* `Compiled.spelledBy_spell` — it does, so all that can be spelled is.
-/

namespace Stencil

/-! ## Graphs that can be spelled -/

/-- Whether a node is of a kind that documents have. -/
def Node.isWritable : Node → Bool
  | .element el => !el.isRoot && Document.allDistinct (el.attributes.map Attribute.name)
  | .widget _ => false
  | _ => true

/-- Whether all nodes of a graph, also those in attributes, are of kinds that documents have. -/
def Graph.isWritable (graph : Graph) : Bool :=
  Graph.every Node.isWritable Node.isWritable graph

/-- Whether a graph and its partials, each under a name of its own, can be spelled. -/
def Compiled.isWritable (compiled : Compiled) : Bool :=
  Graph.isWritable compiled.graph && compiled.partials.all (Graph.isWritable ·.2) &&
    Document.allDistinct (compiled.partials.map Prod.fst)

namespace Document

/-! ## Members -/

/-- Whether a member is left out or null. -/
def isLeftOut : Option Json → Bool
  | none | some .null => true
  | some _ => false

/-- Whether a member is a text. -/
def isText (text : String) : Option Json → Bool
  | some (.string found) => found == text
  | _ => false

/-- Whether a member is a text that need not be there. -/
def isTextIfAny : Option String → Option Json → Bool
  | none, member => isLeftOut member
  | some text, member => isText text member

/-- Whether a member is a number. -/
def isNumber (number : Nat) : Option Json → Bool
  | some (.number (.integer found)) => found == number
  | _ => false

/-- Whether nodes are one text. -/
def isOneText (text : String) : List Node → Bool
  | [.text found] => found == text
  | _ => false

/-- Whether a value spells nodes: an array of what spells them, or a string if they are one
text. -/
def isFragment (nodes : List Node) (areItems : List Json → Bool) : Json → Bool
  | .array items => areItems items
  | .string text => isOneText text nodes
  | _ => false

/-- Whether a member spells nodes, where none need no member. -/
def isContents (nodes : List Node) (areItems : List Json → Bool) : Option Json → Bool
  | none | some .null => nodes.isEmpty
  | some value => isFragment nodes areItems value

/-- Whether a member spells attributes, where none need no member. -/
def isAttributes (attributes : List Attribute) (areMembers : List (String × Json) → Bool) :
    Option Json → Bool
  | none | some .null => attributes.isEmpty
  | some (.object members) => areMembers members
  | some _ => false

/-- What is asked of the members of a node besides its type, by key. -/
structure Demands where
  e : Option Json → Bool := isLeftOut
  a : Option Json → Bool := isLeftOut
  f : Option Json → Bool := isLeftOut
  r : Option Json → Bool := isLeftOut
  c : Option Json → Bool := isLeftOut
  i : Option Json → Bool := isLeftOut
  n : Option Json → Bool := isLeftOut

/-- Whether members are as demanded. -/
def Demands.areMetBy (demands : Demands) (members : List (String × Json)) : Bool :=
  demands.e (Keyed.get? "e" members) && demands.a (Keyed.get? "a" members) &&
    demands.f (Keyed.get? "f" members) && demands.r (Keyed.get? "r" members) &&
    demands.c (Keyed.get? "c" members) && demands.i (Keyed.get? "i" members) &&
    demands.n (Keyed.get? "n" members)

/-- Whether a value is a node of a type, with members as demanded. -/
def isNode (number : Nat) (demands : Demands) (value : Json) : Bool :=
  match nodeMembers? value with
  | some members => isNumber number (Keyed.get? "t" members) && demands.areMetBy members
  | none => false

end Document

/-! ## Nodes -/

open Document

mutual
/-- Whether a value spells a node. -/
def Node.spelledBy : Node → Json → Bool
  | .text text, value => isText text (some value)
  | .interpolator path, value => isNode 2 { r := isText path.text } value
  | .triple path, value => isNode 3 { r := isText path.text } value
  | .reference path, value => isNode 30 { r := isText path.text } value
  | .sectionBlock path children, value =>
      isNode 4 { r := isText path.text, f := isContents children (Graph.spelledBy children) } value
  | .unlessBlock path children, value =>
      isNode 5 { r := isText path.text, f := isContents children (Graph.spelledBy children) }
          value ||
        isNode 4 { r := isText path.text, f := isContents children (Graph.spelledBy children),
                   n := isNumber unlessModifier } value
  | .element ⟨tag, attributes, children, _⟩, value =>
      isNode 7 { e := isText tag, a := isAttributes attributes (Attribute.allSpelledBy attributes),
                 f := isContents children (Graph.spelledBy children) } value
  | .partialRef name fallback, value =>
      isNode 8 { r := isText name, f := isContents fallback (Graph.spelledBy fallback) } value
  | .comment text, value =>
      isNode 9 { c := isText text } value || (text == "" && isNode 9 {} value)
  | .closingTag id tag, value => isNode 14 { e := isText tag, i := isTextIfAny id } value
  | .widget _, _ => false
/-- Whether values spell nodes one by one. -/
def Graph.spelledBy : List Node → List Json → Bool
  | [], [] => true
  | node :: rest, value :: values => node.spelledBy value && Graph.spelledBy rest values
  | _, _ => false
/-- Whether members spell attributes one by one. -/
def Attribute.allSpelledBy : List Attribute → List (String × Json) → Bool
  | [], [] => true
  | ⟨name, contents⟩ :: rest, (key, value) :: members =>
      key == name && contents.spelledBy value && Attribute.allSpelledBy rest members
  | _, _ => false
/-- Whether a value spells the value of an attribute. -/
def AttributeValue.spelledBy : AttributeValue → Json → Bool
  | .empty, .null => true
  | .literal text, .string found => found == text
  | .mixed parts, .array items => Graph.spelledBy parts items
  | _, _ => false
end

/-- A node of a type with some more members. -/
def Document.node (number : Nat) (members : List (String × Json)) : Json :=
  .object (("t", .number (.integer number)) :: members)

mutual
/-- A value that spells a node, with every member that its type uses. -/
def Node.spell : Node → Json
  | .text text => .string text
  | .interpolator path => node 2 [("r", .string path.text)]
  | .triple path => node 3 [("r", .string path.text)]
  | .reference path => node 30 [("r", .string path.text)]
  | .sectionBlock path children =>
      node 4 [("r", .string path.text), ("f", .array (Graph.spell children))]
  | .unlessBlock path children =>
      node 5 [("r", .string path.text), ("f", .array (Graph.spell children))]
  | .element ⟨tag, attributes, children, _⟩ =>
      node 7 [("e", .string tag), ("a", .object (Attribute.spellAll attributes)),
        ("f", .array (Graph.spell children))]
  | .partialRef name fallback =>
      node 8 [("r", .string name), ("f", .array (Graph.spell fallback))]
  | .comment text => node 9 [("c", .string text)]
  | .closingTag none tag => node 14 [("e", .string tag)]
  | .closingTag (some id) tag => node 14 [("e", .string tag), ("i", .string id)]
  | .widget _ => .null
/-- Values that spell nodes one by one. -/
def Graph.spell : List Node → List Json
  | [] => []
  | node :: rest => node.spell :: Graph.spell rest
/-- Members that spell attributes one by one. -/
def Attribute.spellAll : List Attribute → List (String × Json)
  | [] => []
  | ⟨name, value⟩ :: rest => (name, value.spell) :: Attribute.spellAll rest
/-- A value that spells the value of an attribute. -/
def AttributeValue.spell : AttributeValue → Json
  | .empty => .null
  | .literal text => .string text
  | .mixed parts => .array (Graph.spell parts)
end

/-! ## Documents -/

namespace Document

/-- Whether members spell partials one by one, each an array or a string. -/
def arePartials : List (String × Graph) → List (String × Json) → Bool
  | [], [] => true
  | (name, graph) :: rest, (key, value) :: members =>
      key == name && isFragment graph (Graph.spelledBy graph) value && arePartials rest members
  | _, _ => false

/-- Whether a member spells the partials of an envelope, where none need no member. -/
def arePartialsIfAny (partials : List (String × Graph)) : Option Json → Bool
  | none => partials.isEmpty
  | some (.object members) => arePartials partials members
  | some _ => false

/-- Whether a value is an envelope around a graph and partials. -/
def isEnvelope (graph : Graph) (partials : List (String × Graph)) : Json → Bool
  | .object members =>
      distinctKeys envelopeKeys members && ((Keyed.get? "v" members).map isVersion).getD false &&
        ((Keyed.get? "t" members).bind Json.items?).elim false (Graph.spelledBy graph) &&
        arePartialsIfAny partials (Keyed.get? "p" members)
  | _ => false

/-- Whether a value is an array that spells a graph, or spells its only node. -/
def isBare (graph : Graph) (value : Json) : Bool :=
  value.items?.elim false (Graph.spelledBy graph) ||
    match graph with
    | [node] => node.spelledBy value
    | _ => false

end Document

/-- Whether a value spells a graph with its partials: an envelope, or if there are no partials,
an array or a single node. -/
def Compiled.spelledBy (compiled : Compiled) (value : Json) : Bool :=
  isEnvelope compiled.graph compiled.partials value ||
    (compiled.partials.isEmpty && isBare compiled.graph value)

/-- A value that spells a graph with its partials: an array if there are none, or else an
envelope. -/
def Compiled.spell (compiled : Compiled) : Json :=
  if compiled.partials.isEmpty then .array (Graph.spell compiled.graph)
  else .object [("v", .number (.integer 1)), ("t", .array (Graph.spell compiled.graph)),
    ("p", .object (compiled.partials.map fun entry => (entry.1, .array (Graph.spell entry.2))))]

/-! ## What is written is a spelling -/

namespace Document

/-- An object whose members are as demanded is a node. -/
theorem isNode_node {number : Nat} {demands : Demands} {members : List (String × Json)}
    (hkeys : distinctKeys nodeKeys (("t", Json.number (.integer number)) :: members) = true)
    (hmet : demands.areMetBy (("t", Json.number (.integer number)) :: members) = true) :
    isNode number demands (node number members) = true := by
  simp [isNode, node, nodeMembers?, hkeys, hmet, Keyed.get?, isNumber]

theorem isNode_block {number : Nat} {reference : String} {children : List Node}
    (hchildren : Graph.spelledBy children (Graph.spell children) = true) :
    isNode number { r := isText reference, f := isContents children (Graph.spelledBy children) }
      (node number [("r", .string reference), ("f", .array (Graph.spell children))]) = true :=
  isNode_node rfl
    (by simp [Demands.areMetBy, Keyed.get?, isLeftOut, isText, isContents, isFragment, hchildren])

end Document

mutual
theorem Node.spelledBy_spell :
    ∀ node : Node, node.every Node.isWritable Node.isWritable = true →
      node.spelledBy node.spell = true
  | .text text, _ => by simp [Node.spelledBy, Node.spell, isText]
  | .interpolator path, _ | .triple path, _ | .reference path, _ => by
    rw [Node.spelledBy, Node.spell]
    exact isNode_node rfl (by simp [Demands.areMetBy, Keyed.get?, isLeftOut, isText])
  | .sectionBlock path children, h => by
    rw [Node.every, Bool.and_eq_true] at h
    rw [Node.spelledBy, Node.spell]
    exact isNode_block (Graph.spelledBy_spell children h.2)
  | .unlessBlock path children, h => by
    rw [Node.every, Bool.and_eq_true] at h
    rw [Node.spelledBy, Node.spell, Bool.or_eq_true]
    exact .inl (isNode_block (Graph.spelledBy_spell children h.2))
  | .partialRef name fallback, h => by
    rw [Node.every, Bool.and_eq_true] at h
    rw [Node.spelledBy, Node.spell]
    exact isNode_block (Graph.spelledBy_spell fallback h.2)
  | .element ⟨tag, attributes, children, isRoot⟩, h => by
    rw [Node.every, Element.every, Bool.and_eq_true, Bool.and_eq_true] at h
    have hattributes := Attribute.allSpelledBy_spellAll attributes h.2.1
    have hchildren := Graph.spelledBy_spell children h.2.2
    rw [Node.spelledBy, Node.spell]
    exact isNode_node rfl
      (by simp [Demands.areMetBy, Keyed.get?, isLeftOut, isText, isAttributes, isContents,
        isFragment, hattributes, hchildren])
  | .comment text, _ => by
    rw [Node.spelledBy, Node.spell, Bool.or_eq_true]
    exact .inl (isNode_node rfl (by simp [Demands.areMetBy, Keyed.get?, isLeftOut, isText]))
  | .closingTag none tag, _ | .closingTag (some id) tag, _ => by
    rw [Node.spelledBy, Node.spell]
    exact isNode_node rfl
      (by simp [Demands.areMetBy, Keyed.get?, isLeftOut, isText, isTextIfAny])
  | .widget _, h => by simp [Node.every, Node.isWritable] at h
theorem Graph.spelledBy_spell :
    ∀ graph : List Node, Graph.every Node.isWritable Node.isWritable graph = true →
      Graph.spelledBy graph (Graph.spell graph) = true
  | [], _ => rfl
  | node :: rest, h => by
    rw [Graph.every, Bool.and_eq_true] at h
    rw [Graph.spell, Graph.spelledBy, Node.spelledBy_spell node h.1,
      Graph.spelledBy_spell rest h.2, Bool.and_self]
theorem Attribute.allSpelledBy_spellAll :
    ∀ attributes : List Attribute, Attribute.everyAll Node.isWritable attributes = true →
      Attribute.allSpelledBy attributes (Attribute.spellAll attributes) = true
  | [], _ => rfl
  | ⟨name, value⟩ :: rest, h => by
    rw [Attribute.everyAll, Bool.and_eq_true] at h
    simp [Attribute.allSpelledBy, Attribute.spellAll, AttributeValue.spelledBy_spell value h.1,
      Attribute.allSpelledBy_spellAll rest h.2]
theorem AttributeValue.spelledBy_spell :
    ∀ value : AttributeValue, value.every Node.isWritable = true →
      value.spelledBy value.spell = true
  | .empty, _ => rfl
  | .literal text, _ => by simp [AttributeValue.spelledBy, AttributeValue.spell]
  | .mixed parts, h => by
    rw [AttributeValue.every] at h
    rw [AttributeValue.spell, AttributeValue.spelledBy, Graph.spelledBy_spell parts h]
end

theorem Document.arePartials_spell {partials : List (String × Graph)}
    (h : partials.all (Graph.isWritable ·.2) = true) :
    arePartials partials
      (partials.map fun entry => (entry.1, .array (Graph.spell entry.2))) = true := by
  induction partials with
  | nil => rfl
  | cons entry rest ih =>
    obtain ⟨name, graph⟩ := entry
    rw [List.all_cons, Bool.and_eq_true] at h
    have hgraph := Graph.spelledBy_spell graph h.1
    simp [arePartials, isFragment, hgraph, ih h.2]

/-- Every graph that can be spelled is, with its partials, by what is written for them. -/
theorem Compiled.spelledBy_spell {compiled : Compiled} (h : compiled.isWritable = true) :
    compiled.spelledBy compiled.spell = true := by
  obtain ⟨graph, partials⟩ := compiled
  simp only [Compiled.isWritable, Bool.and_eq_true] at h
  have hgraph := Graph.spelledBy_spell graph h.1.1
  by_cases hempty : partials.isEmpty = true
  · simp [Compiled.spell, Compiled.spelledBy, hempty, isBare, Json.items?, hgraph]
  · have hpartials := arePartials_spell h.1.2
    have hkeys : ∀ version items members : Json, distinctKeys envelopeKeys
        [("v", version), ("t", items), ("p", members)] = true := fun _ _ _ => rfl
    simp [Compiled.spell, Compiled.spelledBy, hempty, isEnvelope, hkeys, Keyed.get?, isVersion,
      Json.items?, arePartialsIfAny, hgraph, hpartials]

end Stencil
