import Stencil.Json.Basic
import Stencil.Piece.Basic

/-!
# Pieces as JSON

The view of a tree that is shown to people and tools: an object for each piece,
with its type, and children only where it has some.

* `Piece.json`, `Tree.json` — the view of pieces and trees.
-/

namespace Stencil

/-- What a widget is called in the view of a tree. -/
structure WidgetLabel where
  wrapper : String
  component : String
  deriving DecidableEq, Repr

/-- The value of an attribute in the view: true if it has none. -/
def OutputAttribute.json (attr : OutputAttribute) : Json :=
  match attr.value with
  | some value => .string value
  | none => .bool true

/-- The attributes of an element in the view; the last of several with one name. -/
def OutputAttribute.jsonAll (attributes : List OutputAttribute) : Json :=
  .ofMembers (attributes.map fun attr => (attr.name, attr.json))

namespace Piece

variable {ω : Type}

/-- The view of text, markup or a comment. -/
def leafJson (type key text : String) : Json :=
  .ofMembers [("type", .string type), (key, .string text)]

/-- The part of the view that tells what a block comes from. -/
def kindMembers : BlockKind → List (String × Json)
  | .ofSection => [("type", .string "section")]
  | .ofPartial name => [("type", .string "partial"), ("name", .string name)]

/-- The part of the view that tells what an element is. -/
def elementMembers (tag : String) (attributes : List OutputAttribute) : List (String × Json) :=
  [("type", .string "element"), ("tagName", .string tag),
    ("attributes", OutputAttribute.jsonAll attributes)]

mutual
/-- The view of a piece. -/
def json (label : ω → WidgetLabel) : Piece ω → Json
  | .text s => leafJson "text" "text" s
  | .raw s => leafJson "raw" "html" s
  | .comment s => leafJson "comment" "text" s
  | .element tag attributes none => .ofMembers (elementMembers tag attributes)
  | .element tag attributes (some children) =>
      .ofMembers (elementMembers tag attributes ++
        [("children", .array (jsonAll label children))])
  | .attr a =>
      .ofMembers [("type", .string "attribute"), ("name", .string a.name),
        ("value", (a.value.map Json.string).getD .null)]
  | .block kind none => .ofMembers (kindMembers kind)
  | .block kind (some children) =>
      .ofMembers (kindMembers kind ++ [("children", .array (jsonAll label children))])
  | .widget w =>
      .ofMembers [("type", .string "widget"),
        ("constructor", .string (label w).wrapper),
        ("component", .string (label w).component)]
/-- The views of pieces. -/
def jsonAll (label : ω → WidgetLabel) : List (Piece ω) → List Json
  | [] => []
  | piece :: rest => piece.json label :: jsonAll label rest
end

end Piece

/-- The view of a tree: that of its piece, or an array. -/
def Tree.json {ω : Type} (label : ω → WidgetLabel) : Tree ω → Json
  | .single piece => piece.json label
  | .many pieces => .array (Piece.jsonAll label pieces)

end Stencil
