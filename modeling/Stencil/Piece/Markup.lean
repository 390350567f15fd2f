import Stencil.Piece.Basic
import Stencil.Text.Escape

/-!
# Markup

Pieces written as markup.  Text and attribute values are escaped, markup and
comments are written as they are, and blocks leave only their contents.

* `Piece.markup` — the markup of a piece.
-/

namespace Stencil

/-- An attribute in a start tag, with the blank in front of it. -/
def attributeMarkup (name : String) (value : Option String) : String :=
  match value with
  | none => " " ++ name
  | some value => " " ++ name ++ "=\"" ++ Text.escapeAttribute value ++ "\""

/-- A start tag with its attributes already written. -/
def startTag (tag attributes : String) : String := "<" ++ tag ++ attributes ++ ">"

/-- An end tag. -/
def endTag (tag : String) : String := "</" ++ tag ++ ">"

/-- A comment. -/
def commentMarkup (text : String) : String := "<!--" ++ text ++ "-->"

/-- The attributes of a start tag. -/
def OutputAttribute.markupAll (attributes : List OutputAttribute) : String :=
  String.join (attributes.map fun attr => attributeMarkup attr.name attr.value)

namespace Piece

variable {ω : Type}

mutual
/-- The markup of a piece, with the markup that stands for its widgets. -/
def markup (voids : List String) (hole : ω → String) : Piece ω → String
  | .text s => Text.escapeText s
  | .raw s => s
  | .comment s => commentMarkup s
  | .element tag attributes none =>
      startTag tag (OutputAttribute.markupAll attributes) ++
        (if isVoidTag voids tag then "" else endTag tag)
  | .element tag attributes (some children) =>
      startTag tag (OutputAttribute.markupAll attributes) ++ markupAll voids hole children ++
        endTag tag
  | .attr _ => ""
  | .block _ none => ""
  | .block _ (some children) => markupAll voids hole children
  | .widget w => hole w
/-- The markup of pieces, one after the other. -/
def markupAll (voids : List String) (hole : ω → String) : List (Piece ω) → String
  | [] => ""
  | piece :: rest => piece.markup voids hole ++ markupAll voids hole rest
end

end Piece

end Stencil
