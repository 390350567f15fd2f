import Stencil.Graph.Basic
import Stencil.Piece.Join
import Stencil.Warning

/-!
# Pieces of output

What a rendering is made of before it is written: text, markup, comments,
elements, and the blocks that sections and partials leave behind.  Pieces may
hold widgets; `Piece ω` is a piece whose widgets are given as values of `ω`.

* `Piece.join?` — texts, and likewise markups, that stand side by side are one.
* `Piece.fill` — widgets replaced one after the other, in document order.
* `Piece.textContent` — the text and markup within a piece.
-/

namespace Stencil

/-- An attribute with its value, if it has one. -/
structure OutputAttribute where
  name : String
  value : Option String
  deriving DecidableEq, Repr

/-- What a block comes from. -/
inductive BlockKind where
  | ofSection
  | ofPartial (name : String)
  deriving DecidableEq, Repr

/-- A piece of output. -/
inductive Piece (ω : Type) where
  /-- Text that is not escaped yet. -/
  | text (text : String)
  /-- Markup that is complete. -/
  | raw (markup : String)
  | comment (text : String)
  /-- An element; `none` where it has no children at all. -/
  | element (tag : String) (attributes : List OutputAttribute)
      (children : Option (List (Piece ω)))
  /-- An attribute on its way to its element. -/
  | attr (attr : OutputAttribute)
  /-- The contents of a section or a partial. -/
  | block (kind : BlockKind) (children : Option (List (Piece ω)))
  | widget (widget : ω)

instance {ω : Type} : Inhabited (Piece ω) := ⟨.text ""⟩

/-- A list as children: `none` if it is empty. -/
def childrenOf {α : Type} (pieces : List α) : Option (List α) :=
  if pieces.isEmpty then none else some pieces

@[simp] theorem childrenOf_nil {α : Type} : childrenOf ([] : List α) = none := rfl

@[simp] theorem childrenOf_cons {α : Type} (piece : α) (rest : List α) :
    childrenOf (piece :: rest) = some (piece :: rest) := rfl

namespace Piece

variable {ω ψ : Type}

/-- Whether a piece is text. -/
def isText : Piece ω → Bool
  | .text _ => true
  | _ => false

/-- Two texts side by side are one text, and two markups one markup. -/
def join? : Piece ω → Piece ω → Option (Piece ω)
  | .text a, .text b => some (.text (a ++ b))
  | .raw a, .raw b => some (.raw (a ++ b))
  | _, _ => none

/-! ## Text content -/

mutual
/-- The text and markup within a piece, elements and blocks opened. -/
def textContent : Piece ω → String
  | .text s => s
  | .raw s => s
  | .element _ _ (some children) => textContents children
  | .block _ (some children) => textContents children
  | _ => ""
/-- The text content of pieces, one after the other. -/
def textContents : List (Piece ω) → String
  | [] => ""
  | piece :: rest => piece.textContent ++ textContents rest
end

/-! ## Widgets -/

mutual
/-- A piece with each widget replaced, in document order. -/
def fill (replace : ω → Logged ψ) : Piece ω → Logged (Piece ψ)
  | .text s => pure (.text s)
  | .raw s => pure (.raw s)
  | .comment s => pure (.comment s)
  | .element tag attributes none => pure (.element tag attributes none)
  | .element tag attributes (some children) => do
      let children ← fillAll replace children
      return .element tag attributes (some children)
  | .attr a => pure (.attr a)
  | .block kind none => pure (.block kind none)
  | .block kind (some children) => do
      let children ← fillAll replace children
      return .block kind (some children)
  | .widget w => do return .widget (← replace w)
/-- Pieces with each widget replaced, in document order. -/
def fillAll (replace : ω → Logged ψ) : List (Piece ω) → Logged (List (Piece ψ))
  | [] => pure []
  | piece :: rest => do
      let piece ← fill replace piece
      let rest ← fillAll replace rest
      return piece :: rest
end

/-! ## Comparison -/

mutual
/-- Whether two pieces are the same, with a comparison of widgets. -/
def same (sameWidget : ω → ω → Bool) : Piece ω → Piece ω → Bool
  | .text a, .text b => a == b
  | .raw a, .raw b => a == b
  | .comment a, .comment b => a == b
  | .element a as none, .element b bs none => a == b && as == bs
  | .element a as (some xs), .element b bs (some ys) =>
      a == b && as == bs && sameAll sameWidget xs ys
  | .attr a, .attr b => a == b
  | .block a none, .block b none => a == b
  | .block a (some xs), .block b (some ys) => a == b && sameAll sameWidget xs ys
  | .widget a, .widget b => sameWidget a b
  | _, _ => false
/-- Whether two lists of pieces are the same. -/
def sameAll (sameWidget : ω → ω → Bool) : List (Piece ω) → List (Piece ω) → Bool
  | [], [] => true
  | x :: xs, y :: ys => same sameWidget x y && sameAll sameWidget xs ys
  | _, _ => false
end

end Piece

/-- The output of a rendering as a tree: exactly one piece, or any other number. -/
inductive Tree (ω : Type) where
  | single (piece : Piece ω)
  | many (pieces : List (Piece ω))

namespace Tree

variable {ω : Type}

/-- The tree of top-level pieces. -/
def ofPieces : List (Piece ω) → Tree ω
  | [piece] => .single piece
  | pieces => .many pieces

/-- The top-level pieces of a tree. -/
def pieces : Tree ω → List (Piece ω)
  | .single piece => [piece]
  | .many pieces => pieces

@[simp] theorem pieces_ofPieces (list : List (Piece ω)) : (ofPieces list).pieces = list := by
  unfold ofPieces; split <;> rfl

/-- Whether two trees are the same, with a comparison of widgets. -/
def same (sameWidget : ω → ω → Bool) : Tree ω → Tree ω → Bool
  | .single a, .single b => a.same sameWidget b
  | .many as, .many bs => Piece.sameAll sameWidget as bs
  | _, _ => false

end Tree

end Stencil
