import Stencil.Piece.Join
import Stencil.Piece.Markup

/-!
# Fragments

A fragment is output as a host inserts it into a page: elements, text, comments,
and markup that is inserted as it is.  Text that stands side by side is one node.

* `Dom.Node.html`, `Fragment.html` — a fragment written as markup.
* `Fragment.unwrapContainer` — the contents of a single top-level element.
-/

namespace Stencil

/-- A node of a fragment. -/
inductive Dom.Node where
  | element (tag : String) (attributes : List (String × Option String))
      (children : List Dom.Node)
  | text (text : String)
  | comment (text : String)
  /-- Markup that is inserted as it is. -/
  | markup (markup : String)
  deriving Repr, Inhabited

namespace Dom.Node

/-- Two texts side by side are one. -/
def join? : Dom.Node → Dom.Node → Option Dom.Node
  | .text a, .text b => some (.text (a ++ b))
  | _, _ => none

/-- The value of the first attribute of an element with a name; nothing for any other node.
The inner option is empty where there is no such attribute or it has no value. -/
def attribute? (name : String) : Dom.Node → Option (Option String)
  | .element _ attributes _ => some ((attributes.find? (·.1 == name)).bind Prod.snd)
  | _ => none

/-- The attributes of a start tag. -/
def attributesHtml (attributes : List (String × Option String)) : String :=
  String.join (attributes.map fun attr => attributeMarkup attr.1 attr.2)

mutual
/-- A node written as markup. -/
def html (voids : List String) : Dom.Node → String
  | .text s => Text.escapeText s
  | .markup s => s
  | .comment s => commentMarkup s
  | .element tag attributes children =>
      startTag tag (attributesHtml attributes) ++
        (if children.isEmpty && isVoidTag voids tag then ""
          else htmlAll voids children ++ endTag tag)
/-- Nodes written as markup, one after the other. -/
def htmlAll (voids : List String) : List Dom.Node → String
  | [] => ""
  | node :: rest => node.html voids ++ htmlAll voids rest
end

end Dom.Node

/-- A fragment: its top-level nodes. -/
structure Fragment where
  nodes : List Dom.Node
  deriving Repr

namespace Fragment

/-- The contents of a fragment that is a single element; any other fragment itself. -/
def unwrapContainer (fragment : Fragment) : Fragment :=
  match fragment.nodes with
  | [.element _ _ children] => ⟨children⟩
  | nodes => ⟨nodes⟩

/-- A fragment written as markup, with given void elements. -/
def htmlWith (voids : List String) (fragment : Fragment) : String :=
  Dom.Node.htmlAll voids fragment.nodes

/-- A fragment written as markup, with the void elements of HTML. -/
def html (fragment : Fragment) : String := fragment.htmlWith htmlVoidElements

end Fragment

end Stencil
