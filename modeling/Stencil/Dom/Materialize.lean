import Stencil.Dom.Basic

/-!
# From pieces to fragments

Each piece becomes nodes of a fragment.  Blocks are opened, so their contents
stand among the nodes around them, and text is joined across the borders of
blocks and widgets.

* `Piece.materialize` — the nodes of a piece, put behind those that are there.
* `Dom.ofPieces` — the nodes of pieces.
-/

namespace Stencil

namespace Piece

mutual
/-- Put the nodes of a piece behind a list of nodes, last node first.  Its widgets stand for
the nodes they are shown as. -/
def materialize (before : List Dom.Node) : Piece (List Dom.Node) → List Dom.Node
  | .text s => pushJoined Dom.Node.join? before (.text s)
  | .raw s => .markup s :: before
  | .comment s => .comment s :: before
  | .element tag attributes none =>
      .element tag (attributes.map fun a => (a.name, a.value)) [] :: before
  | .element tag attributes (some children) =>
      .element tag (attributes.map fun a => (a.name, a.value))
        (materializeAll [] children).reverse :: before
  | .attr _ => before
  | .block _ none => before
  | .block _ (some children) => materializeAll before children
  | .widget nodes => pushAllJoined Dom.Node.join? before nodes
/-- Put the nodes of pieces behind a list of nodes, last node first. -/
def materializeAll (before : List Dom.Node) : List (Piece (List Dom.Node)) → List Dom.Node
  | [] => before
  | piece :: rest => materializeAll (materialize before piece) rest
end

end Piece

/-- The nodes of pieces, in order. -/
def Dom.ofPieces (pieces : List (Piece (List Dom.Node))) : List Dom.Node :=
  (Piece.materializeAll [] pieces).reverse

end Stencil
