import Stencil.Document.Shape
import Stencil.Graph.Partials
import Stencil.Json.Reader

/-!
# From documents to graphs

Each node of a document is turned into a node of a graph, in order.  A node whose
type is unknown, or that lacks the field its type needs, is an error; the first
such node is reported.  A node is checked before its contents, attributes before
children, and the items of an envelope before its partials.

* `Compiled` — a graph and the partials that came with it.
* `Document.parse` — the graph of a JSON text.
* `Document.ofValue` — the graph of a JSON value.
-/

namespace Stencil

/-- A graph and the partials that came with it. -/
structure Compiled where
  graph : Graph
  partials : List (String × Graph)

namespace Document

/-! ## Types of nodes -/

/-- A type of node. -/
inductive NodeType where
  | interpolator
  | triple
  | sectionBlock
  | unlessBlock
  | element
  | partialRef
  | comment
  | closingTag
  | reference
  deriving DecidableEq, Repr

namespace NodeType

/-- The type that a number stands for. -/
def ofNumber? : Nat → Option NodeType
  | 2 => some .interpolator
  | 3 => some .triple
  | 4 => some .sectionBlock
  | 5 => some .unlessBlock
  | 7 => some .element
  | 8 => some .partialRef
  | 9 => some .comment
  | 14 => some .closingTag
  | 30 => some .reference
  | _ => none

/-- What a type is called in messages. -/
def name : NodeType → String
  | .interpolator => "interpolator"
  | .triple => "triple"
  | .sectionBlock => "section"
  | .unlessBlock => "section"
  | .element => "element"
  | .partialRef => "partial"
  | .comment => "comment"
  | .closingTag => "closing tag"
  | .reference => "reference"

/-- The key of the field that a type needs. -/
def neededKey : NodeType → String
  | .element => "e"
  | .closingTag => "e"
  | _ => "r"

end NodeType

/-- The modifier that turns a section around. -/
def unlessModifier : Nat := 51

/-! ## Errors -/

/-- Why a document of the right shape has no graph. -/
inductive DecodeError where
  /-- A node of a type that does not exist. -/
  | unknownType (number : Nat)
  /-- A node without the field its type needs. -/
  | missingField (type : NodeType)
  deriving DecidableEq, Repr

/-- The text of an error. -/
def DecodeError.message : DecodeError → String
  | .unknownType number => "unknown node type tag: " ++ toString number
  | .missingField type =>
      type.name ++ " node is missing required field '" ++ type.neededKey ++ "'"

/-- Why a text has no graph. -/
inductive ParseError where
  /-- The text is not JSON. -/
  | json (fault : Json.Fault)
  /-- The value has not the shape of a document. -/
  | shape
  /-- A node is not well formed. -/
  | decode (error : DecodeError)
  deriving DecidableEq, Repr

/-- The text of an error. -/
def ParseError.message : ParseError → String
  | .json .malformed => "invalid graph JSON: malformed text"
  | .json .unfinished => "invalid graph JSON: unfinished text"
  | .shape => "invalid graph JSON: not a document"
  | .decode error => error.message

/-! ## Decoding -/

/-- The field that a type needs. -/
def require (type : NodeType) (field : Option String) : Except DecodeError String :=
  match field with
  | some text => .ok text
  | none => .error (.missingField type)

mutual
/-- The node that an item stands for. -/
def decodeItem : Item → Except DecodeError Node
  | .text text => .ok (.text text)
  | .node ⟨number, tag, attributes, contents, reference, comment, id, modifier⟩ =>
      match NodeType.ofNumber? number with
      | none => .error (.unknownType number)
      | some .element => do
          let tag ← require .element tag
          let attributes ← decodeAttributes attributes
          let children ← decodeFragment contents
          return .element ⟨tag, attributes, children, false⟩
      | some .interpolator => do return .interpolator ⟨← require .interpolator reference⟩
      | some .triple => do return .triple ⟨← require .triple reference⟩
      | some .reference => do return .reference ⟨← require .reference reference⟩
      | some .sectionBlock => do
          let path ← require .sectionBlock reference
          let children ← decodeFragment contents
          if modifier = some unlessModifier then return .unlessBlock ⟨path⟩ children
          else return .sectionBlock ⟨path⟩ children
      | some .unlessBlock => do
          let path ← require .unlessBlock reference
          let children ← decodeFragment contents
          return .unlessBlock ⟨path⟩ children
      | some .partialRef => do
          let name ← require .partialRef reference
          let fallback ← decodeFragment contents
          return .partialRef name fallback
      | some .comment => return .comment (comment.getD "")
      | some .closingTag => do return .closingTag id (← require .closingTag tag)

/-- The nodes that items stand for. -/
def decodeItems : List Item → Except DecodeError (List Node)
  | [] => .ok []
  | item :: rest => do
      let node ← decodeItem item
      let nodes ← decodeItems rest
      return node :: nodes

/-- The nodes of a fragment. -/
def decodeFragment : Fragment → Except DecodeError (List Node)
  | .absent => .ok []
  | .text text => .ok [.text text]
  | .items items => decodeItems items

/-- The attributes of an element. -/
def decodeAttributes : List (String × Fragment) → Except DecodeError (List Attribute)
  | [] => .ok []
  | (name, .absent) :: rest => do
      return ⟨name, .empty⟩ :: (← decodeAttributes rest)
  | (name, .text text) :: rest => do
      return ⟨name, .literal text⟩ :: (← decodeAttributes rest)
  | (name, .items items) :: rest => do
      let parts ← decodeItems items
      return ⟨name, .mixed parts⟩ :: (← decodeAttributes rest)
end

/-- The graphs of partials. -/
def decodePartials : List (String × Fragment) → Except DecodeError (List (String × Graph))
  | [] => .ok []
  | (name, fragment) :: rest => do
      let graph ← decodeFragment fragment
      let graphs ← decodePartials rest
      return (name, graph) :: graphs

/-- The graph and the partials of a document. -/
def Shape.decode : Shape → Except DecodeError Compiled
  | .envelope items partials => do
      let graph ← decodeItems items
      let partials ← decodePartials partials
      return ⟨graph, partials⟩
  | .many items => do return ⟨← decodeItems items, []⟩
  | .one item => do return ⟨[← decodeItem item], []⟩

/-! ## Documents as values and as texts -/

/-- The shape of a value. -/
def shapeOf (value : Json) : Except ParseError Shape :=
  match ofJson? value with
  | some shape => .ok shape
  | none => .error .shape

/-- The graph of a value. -/
def ofValue (value : Json) : Except ParseError Compiled := do
  let shape ← shapeOf value
  shape.decode.mapError .decode

/-- The graph of a text.  The text must be JSON up to the end of its first value; then the
shape of that value counts, then anything behind it, and then its nodes. -/
def parse (text : String) : Except ParseError Compiled := do
  let (value, more) ← (Json.readFirst Json.textDepth text).mapError .json
  let shape ← shapeOf value
  if more then .error (.json .malformed)
  else shape.decode.mapError .decode

end Document

end Stencil
