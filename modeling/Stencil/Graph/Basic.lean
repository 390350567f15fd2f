import Stencil.Config.Basic
import Stencil.Path

/-!
# Template graphs

A graph is a list of nodes: text, elements, bound values, blocks, partials,
comments, closing tags, and widgets, which stand where a child component shows
itself.

* `Node`, `Graph` — nodes and lists of them.
* `Binding`, `Partials` — graphs under names, each with partials of its own.
* `Element.staticClass?` — the part of an element's class that is known before
  rendering.
-/

namespace Stencil

/-! ## What nodes refer to -/

/-- A component of a host. -/
structure ComponentId where
  number : Nat
  deriving DecidableEq, Repr

/-- Which of the shared registries a template resolves partials in. -/
inductive RegistryName where
  /-- The registry a host hands to its templates. -/
  | injected
  /-- The registry of the whole process. -/
  | processWide
  deriving DecidableEq, Repr

/-- What shows a child in place of its widget.  Two wrappers of one name differ if their
serial numbers do. -/
structure Wrapper where
  name : String
  serial : Nat
  deriving DecidableEq, Repr

/-! ## Nodes -/

mutual
/-- A node of a template graph. -/
inductive Node where
  /-- Text as it stands. -/
  | text (text : String)
  /-- An element with its attributes and children. -/
  | element (element : Element)
  /-- A bound value, shown as text. -/
  | interpolator (path : Path)
  /-- A bound value, shown as markup. -/
  | triple (path : Path)
  /-- A bare reference to a bound value, shown as text. -/
  | reference (path : Path)
  /-- A block that is shown if its value is true, or for each item of it. -/
  | sectionBlock (path : Path) (children : List Node)
  /-- A block that is shown if the value would show nothing in a section. -/
  | unlessBlock (path : Path) (children : List Node)
  /-- A named partial, with what to show if no partial has the name. -/
  | partialRef (name : String) (fallback : List Node)
  /-- A comment. -/
  | comment (text : String)
  /-- A closing tag of its own, maybe with the address of the frame it closes. -/
  | closingTag (id : Option String) (tag : String)
  /-- The place of a child component. -/
  | widget (widget : Widget)

/-- An element. -/
structure Element where
  tag : String
  attributes : List Attribute
  children : List Node
  /-- Whether the element is a root of a view; roots never become widgets. -/
  isRoot : Bool

/-- An attribute of an element. -/
structure Attribute where
  name : String
  value : AttributeValue

/-- The value of an attribute. -/
inductive AttributeValue where
  /-- No value. -/
  | empty
  /-- Literal text. -/
  | literal (text : String)
  /-- Text and bound values. -/
  | mixed (parts : List Node)

/-- The place of a child component, with the element it has taken and the surroundings of
that element. -/
structure Widget where
  wrapper : Wrapper
  child : ComponentId
  /-- The element that stood here. -/
  replaced : Element
  /-- The partials in scope at the element. -/
  partials : List Binding
  registry : RegistryName
  config : Config

/-- A named partial: a graph, and the partials that are in scope in it. -/
structure Binding where
  name : String
  graph : List Node
  partials : List Binding
end

instance : Inhabited Node := ⟨.text ""⟩
instance : Inhabited Binding := ⟨⟨"", [], []⟩⟩

/-- A graph is a list of top-level nodes. -/
abbrev Graph := List Node

/-- Partials in the order their names were first bound. -/
abbrev Partials := List Binding

/-! ## Elements -/

namespace AttributeValue

/-- The text of a node that is text. -/
def literalPart? : Node → Option String
  | .text text => some text
  | _ => none

/-- The literal parts of a value, with a blank between them. -/
def staticText : AttributeValue → String
  | .empty => ""
  | .literal text => text
  | .mixed parts => " ".intercalate (parts.filterMap literalPart?)

end AttributeValue

namespace Element

/-- An element without attributes. -/
def ofChildren (tag : String) (children : Graph) : Element :=
  ⟨tag, [], children, false⟩

/-- The element with one more attribute, behind those it has. -/
def withAttribute (element : Element) (name : String) (value : AttributeValue) : Element :=
  { element with attributes := element.attributes ++ [⟨name, value⟩] }

/-- The element with a class, behind the attributes it has. -/
def withClass (element : Element) (classes : String) : Element :=
  element.withAttribute "class" (.literal classes)

/-- The value of the first attribute with a name. -/
def attribute? (element : Element) (name : String) : Option AttributeValue :=
  (element.attributes.find? (·.name == name)).map Attribute.value

/-- The literal text of the class attribute, if there is one. -/
def staticClass? (element : Element) : Option String :=
  (element.attribute? "class").map AttributeValue.staticText

/-- The element marked as a root. -/
def asRoot (element : Element) : Element := { element with isRoot := true }

end Element

/-- The element that a node is. -/
def Node.element? : Node → Option Element
  | .element found => some found
  | _ => none

end Stencil
