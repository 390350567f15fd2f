import Stencil.Text.Words
import Stencil.Template.Basic
import Stencil.Warning

/-!
# Attachment

Attaching puts the children of a component into a graph.  An element whose static
class holds the selector of a child becomes a widget for that child; partials are
replaced by their bodies, so that elements in them are found too.  Attributes and
widgets are left as they are.

A partial that is being expanded already is left out, so no name is expanded within
itself, and the number of names that are bound anywhere bounds how deep expansion
nests.

* `Attachment.childFor?` — the child an element makes place for.
* `Attachment.attach` — a graph with the children put in.
-/

namespace Stencil

/-- What a graph is attached with. -/
structure Attachment where
  wrapper : Wrapper
  /-- The children under their selectors, in the order of registration. -/
  children : List (String × ComponentId)
  registryName : RegistryName
  registry : Partials
  config : Config

namespace Attachment

/-! ## Matching classes -/

/-- The words of a class with one blank in front of, between and behind them. -/
def paddedClass (text : String) : List Char :=
  [' '] ++ [' '].intercalate (Text.words text.toList) ++ [' ']

/-- A selector with a blank in front and behind. -/
def paddedSelector (selector : String) : List Char :=
  [' '] ++ selector.toList ++ [' ']

/-- Whether a class holds a selector as a whole. -/
def selects (text selector : String) : Bool :=
  Text.occursIn (paddedSelector selector) (paddedClass text)

/-- The child under the selector, among those that a class holds, that was registered last. -/
def childOfClass? (attachment : Attachment) (text : String) : Option ComponentId :=
  (attachment.children.reverse.find? fun entry => selects text entry.1).map Prod.snd

/-- The child that an element makes place for; roots stay. -/
def childFor? (attachment : Attachment) (element : Element) : Option ComponentId :=
  if element.isRoot then none
  else element.staticClass?.bind attachment.childOfClass?

/-- The widget for a child in the place of an element. -/
def widgetFor (attachment : Attachment) (partials : Partials) (child : ComponentId)
    (element : Element) : Widget :=
  ⟨attachment.wrapper, child, element, partials, attachment.registryName, attachment.config⟩

end Attachment

/-! ## Walking through graphs -/

/-- The warning about a partial that includes itself. -/
def cycleWarning (expanding : List String) (name : String) : Warning :=
  ⟨.partialCycle, "partial cycle: " ++ " -> ".intercalate expanding ++ " -> " ++ name⟩

/-- Nothing, with a warning. -/
def Logged.warn (warning : Warning) : Logged Unit := ⟨(), ⟨[warning], false⟩⟩

/-- Where in the expansion of partials a graph stands. -/
structure Expansion where
  /-- The partials in scope. -/
  partials : Partials
  /-- The names that are being expanded, outermost first. -/
  expanding : List String
  /-- How to attach the body of a partial, with the names that are then being expanded. -/
  expand : List String → PartialBody → Logged Graph

mutual
/-- The nodes that a node becomes. -/
def Node.attach (attachment : Attachment) (expansion : Expansion) : Node → Logged Graph
  | .element ⟨tag, attributes, children, isRoot⟩ =>
      match attachment.childFor? ⟨tag, attributes, children, isRoot⟩ with
      | some child =>
          pure [.widget (attachment.widgetFor expansion.partials child
            ⟨tag, attributes, children, isRoot⟩)]
      | none => do
          let children ← Graph.attach attachment expansion children
          return [.element ⟨tag, attributes, children, isRoot⟩]
  | .sectionBlock path children => do
      let children ← Graph.attach attachment expansion children
      return [.sectionBlock path children]
  | .unlessBlock path children => do
      let children ← Graph.attach attachment expansion children
      return [.unlessBlock path children]
  | .partialRef name fallback =>
      if expansion.expanding.contains name then do
        Logged.warn (cycleWarning expansion.expanding name)
        return []
      else
        match resolve name expansion.partials attachment.registry with
        | some body => expansion.expand (expansion.expanding ++ [name]) body
        | none => do
            Logged.warn (unresolvedWarning name)
            Graph.attach attachment expansion fallback
  | node => pure [node]
/-- The nodes that nodes become. -/
def Graph.attach (attachment : Attachment) (expansion : Expansion) : List Node → Logged Graph
  | [] => pure []
  | node :: rest => do
      let nodes ← node.attach attachment expansion
      let rest ← Graph.attach attachment expansion rest
      return nodes ++ rest
end

/-- The body of a partial with the children put in.  `left` more names may be expanded
within those that are being expanded. -/
def PartialBody.attach (attachment : Attachment) :
    (left : Nat) → List String → PartialBody → Logged Graph
  | 0, expanding, body =>
      Graph.attach attachment ⟨body.partials, expanding, fun _ _ => pure []⟩ body.graph
  | left + 1, expanding, body =>
      Graph.attach attachment ⟨body.partials, expanding, PartialBody.attach attachment left⟩
        body.graph

mutual
/-- The names that a binding binds, also within its own partials. -/
def Binding.boundNames : Binding → List String
  | ⟨name, _, partials⟩ => name :: Partials.boundNames partials
/-- The names that partials bind, also within their own partials. -/
def Partials.boundNames : List Binding → List String
  | [] => []
  | binding :: rest => binding.boundNames ++ Partials.boundNames rest
end

namespace Attachment

/-- A bound on the names that can be expanded within one another. -/
def nameBound (attachment : Attachment) (partials : Partials) : Nat :=
  (Partials.boundNames attachment.registry).length + (Partials.boundNames partials).length

/-- A graph, with its partials, with the children put in. -/
def attach (attachment : Attachment) (body : PartialBody) : Logged Graph :=
  body.attach attachment (attachment.nameBound body.partials) []

end Attachment

end Stencil
