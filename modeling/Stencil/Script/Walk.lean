import Stencil.Graph.Partials
import Stencil.Scopes
import Stencil.Script.Basic

/-!
# From graphs to scripts

Interpreting a graph turns it into a script: values are looked up, blocks are
entered or left out or repeated, and partials are replaced by their bodies.  A walk
carries the data scopes along, entering some and leaving them again.

Partials are expanded from the outside in, each body in its own partials, to a
depth that the configuration limits.  The recursion is on the depth that is left
and, within one body, on the graph.

* `Walk` — what a part of a graph turns into, given the scopes it starts in.
* `interpret` — the script of a graph.
-/

namespace Stencil

/-! ## Walks -/

/-- What a part of a graph turns into, and the scopes it leaves behind. -/
abbrev Walk := Scopes → Script × Scopes

namespace Walk

/-- Nothing. -/
def skip : Walk := fun scopes => ([], scopes)

/-- A single step. -/
def emit (step : Directive) : Walk := fun scopes => ([step], scopes)

/-- One walk after the other. -/
def seq (first second : Walk) : Walk := fun scopes =>
  let (before, scopes) := first scopes
  let (after, scopes) := second scopes
  (before ++ after, scopes)

/-- A walk within a frame. -/
def inFrame (kind : FrameKind) (name : String) (body : Walk) : Walk := fun scopes =>
  let (steps, scopes) := body scopes
  ([.frame kind name steps], scopes)

/-- A walk within one more scope. -/
def inScope (value : Json) (index : Option Nat) (body : Walk) : Walk := fun scopes =>
  let (steps, scopes) := body (scopes.push value index)
  (steps, scopes.pop)

/-- A walk for each item, within the item as a scope; positions count from `index`. -/
def eachFrom (body : Walk) : Nat → List Json → Walk
  | _, [] => skip
  | index, item :: rest => seq (inScope item (some index) body) (eachFrom body (index + 1) rest)

/-- A walk that depends on the scopes it starts in. -/
def depending (choose : Scopes → Walk) : Walk := fun scopes => choose scopes scopes

/-- A text that depends on the scopes. -/
def emitText (toPiece : String → Piece Widget) (path : Path) : Walk :=
  depending fun scopes => emit (.leaf (toPiece (scopes.text path)))

/-- The contents of a section: left out, once, or for each item. -/
def sectionContents (path : Path) (body : Walk) : Walk :=
  depending fun scopes =>
    match scopes.blockValue path with
    | .skip => skip
    | .once => body
    | .scoped value => inScope value none body
    | .iterate items => eachFrom body 0 items

/-- The contents of an inverted section: once if a section would leave them out. -/
def unlessContents (path : Path) (body : Walk) : Walk :=
  depending fun scopes =>
    match scopes.blockValue path with
    | .skip => body
    | _ => skip

end Walk

/-! ## Interpreting graphs -/

/-- The warning about partials nested too deep. -/
def nestingWarning (name : String) (limit : Nat) : Warning :=
  ⟨.partialCycle, "partial '" ++ name ++ "' exceeds the nesting limit of " ++ toString limit⟩

/-- What the graphs of one body are interpreted with. -/
structure Surroundings where
  /-- How to find a partial. -/
  resolve : String → Option PartialBody
  /-- How to walk through the body of a partial; none if partials are nested too deep. -/
  expand : Option (PartialBody → Walk)
  /-- How deep partials may be nested. -/
  limit : Nat

/-- A partial: its body within a frame, or what stands in its place. -/
def Surroundings.partialWalk (around : Surroundings) (name : String) (fallback : Walk) : Walk :=
  match around.expand with
  | none => .emit (.warning (nestingWarning name around.limit))
  | some expand =>
      match around.resolve name with
      | some body => .inFrame .ofPartial name (expand body)
      | none => .seq (.emit (.warning (unresolvedWarning name))) fallback

mutual
/-- The walk through a node. -/
def Node.walk (around : Surroundings) : Node → Walk
  | .text s => .emit (.leaf (.text s))
  | .element el => el.walk around
  | .interpolator path => .emitText .text path
  | .reference path => .emitText .text path
  | .triple path => .emitText .raw path
  | .sectionBlock path children =>
      .inFrame .ofSection path.text (.sectionContents path (Graph.walk around children))
  | .unlessBlock path children =>
      .inFrame .ofSection path.text (.unlessContents path (Graph.walk around children))
  | .partialRef name fallback => around.partialWalk name (Graph.walk around fallback)
  | .comment s => .emit (.leaf (.comment s))
  | .closingTag id tag => .emit (.closingTag id tag)
  | .widget w => .emit (.leaf (.widget w))
/-- The walk through an element: its attributes and its children. -/
def Element.walk (around : Surroundings) : Element → Walk
  | ⟨tag, attributes, children, _⟩ =>
      .inFrame .ofElement tag
        (.seq (Attribute.walkAll around attributes) (Graph.walk around children))
/-- The walk through attributes. -/
def Attribute.walkAll (around : Surroundings) : List Attribute → Walk
  | [] => .skip
  | attr :: rest => .seq (attr.walk around) (Attribute.walkAll around rest)
/-- The walk through an attribute. -/
def Attribute.walk (around : Surroundings) : Attribute → Walk
  | ⟨name, value⟩ => .inFrame .ofAttribute name (value.walk around)
/-- The walk through the value of an attribute. -/
def AttributeValue.walk (around : Surroundings) : AttributeValue → Walk
  | .empty => .skip
  | .literal s => .emit (.leaf (.text s))
  | .mixed parts => Graph.walk around parts
/-- The walk through a graph. -/
def Graph.walk (around : Surroundings) : List Node → Walk
  | [] => .skip
  | node :: rest => .seq (node.walk around) (Graph.walk around rest)
end

/-- The walk through the body of a partial, with `left` levels of partials to go. -/
def PartialBody.walk (registry : Partials) (limit : Nat) : (left : Nat) → PartialBody → Walk
  | 0, body => Graph.walk ⟨(Stencil.resolve · body.partials registry), none, limit⟩ body.graph
  | left + 1, body =>
      Graph.walk
        ⟨(Stencil.resolve · body.partials registry), some (PartialBody.walk registry limit left),
          limit⟩
        body.graph

/-- The script of a graph with its partials, and the scopes at its end. -/
def interpret (config : Config) (registry : Partials) (body : PartialBody) (data : Json) :
    Script × Scopes :=
  body.walk registry config.maxPartialDepth config.maxPartialDepth (.ofData data)

end Stencil
