import Stencil.Assembly.Basic
import Stencil.Dom.Materialize
import Stencil.Piece.Markup

/-!
# The three outputs

An assembly is encoded as markup, as a tree, or as a fragment.

* `Encoding.markup` — frames become markup as soon as they are closed.  Blocks wait for
  their parent, so that an attribute still reads their text.
* `Encoding.tree` — pieces stay as they are.
* `Encoding.fragment` — pieces stay as they are until the end.
-/

namespace Stencil

namespace Encoding

/-- A piece as markup, with the markup that its widgets render to. -/
def writeLeaf (voids : List String) (render : Widget → Logged String) (piece : Piece Widget) :
    Logged (Piece Empty) := do
  let filled ← piece.fill render
  return .raw (filled.markup voids id)

/-- A piece as it comes in: text, markup and attributes stay, and all else is written. -/
def markupLeaf (voids : List String) (render : Widget → Logged String) :
    Piece Widget → Logged (Piece Empty)
  | .text s => pure (.text s)
  | .raw s => pure (.raw s)
  | .attr a => pure (.attr a)
  | piece => writeLeaf voids render piece

/-- The markup of a piece without widgets. -/
def writePiece (voids : List String) (piece : Piece Empty) : String :=
  piece.markup voids Empty.elim

/-- The piece of a closed frame: attributes and blocks stay, and all else is written. -/
def markupClosed (voids : List String) : Piece Empty → Piece Empty
  | .attr a => .attr a
  | .block kind children => .block kind children
  | piece => .raw (writePiece voids piece)

/-- Output as markup. -/
def markup (voids : List String) (render : Widget → Logged String) : Encoding Empty String where
  leaf := markupLeaf voids render
  closed := markupClosed voids
  finish := fun pieces => pure (Piece.markupAll voids Empty.elim pieces)

/-- Output as a tree. -/
def tree : Encoding Widget (Tree Widget) where
  leaf := pure
  closed := id
  finish := fun pieces => pure (.ofPieces pieces)

/-- Output as a fragment. -/
def fragment (render : Widget → Logged (List Dom.Node)) : Encoding Widget Fragment where
  leaf := pure
  closed := id
  finish := fun pieces => do
    let filled ← Piece.fillAll render pieces
    return ⟨Dom.ofPieces filled⟩

end Encoding

end Stencil
