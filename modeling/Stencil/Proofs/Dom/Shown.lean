import Stencil.Dom.Materialize
import Stencil.Proofs.Piece.Reading

/-!
# What pieces are shown as

The markup of a fragment can be read off the pieces it is made from.  Of the contents of
an element it matters what markup they come out as, and whether there is any node among
them, since a void element without contents has no end tag.

* `Piece.shown` — the markup of pieces within a fragment, and whether they make no node.
* `Piece.reading_shown` — it depends neither on cuts in text nor on blocks.
* `Fragment.htmlWith_ofPieces` — it is the markup of the fragment.
-/

namespace Stencil

/-- What nodes are shown as: their markup, and whether there is none of them. -/
structure Shown where
  html : String
  isNothing : Bool
  deriving DecidableEq, Repr

namespace Shown

/-- No nodes. -/
def nothing : Shown := ⟨"", true⟩

/-- Nodes after one another. -/
def append (a b : Shown) : Shown := ⟨a.html ++ b.html, a.isNothing && b.isNothing⟩

theorem append_assoc (a b c : Shown) : append (append a b) c = append a (append b c) := by
  simp [append, String.append_assoc, Bool.and_assoc]

theorem nothing_append (a : Shown) : append nothing a = a := by simp [append, nothing]

theorem append_nothing (a : Shown) : append a nothing = a := by simp [append, nothing]

end Shown

/-! ## Nodes -/

namespace Dom.Node

/-- What nodes are shown as. -/
def shownAll (voids : List String) (nodes : List Dom.Node) : Shown :=
  ⟨htmlAll voids nodes, nodes.isEmpty⟩

theorem shownAll_eq_total (voids : List String) (nodes : List Dom.Node) :
    shownAll voids nodes =
      total Shown.append .nothing (fun node => ⟨node.html voids, false⟩) nodes := by
  induction nodes with
  | nil => rfl
  | cons node rest ih =>
    rw [total, ← ih]
    rfl

theorem additive_html (voids : List String) :
    Additive join? Shown.append .nothing fun node => ⟨node.html voids, false⟩ where
  assoc := Shown.append_assoc
  unit_op := Shown.nothing_append
  op_unit := Shown.append_nothing
  joined := by
    intro last new joined hjoin
    unfold join? at hjoin
    split at hjoin
    · cases hjoin
      simp [html, Shown.append, Text.escapeText_append]
    · cases hjoin

/-- One more node behind others. -/
theorem shownAll_concat (voids : List String) (node : Dom.Node) (before : List Dom.Node) :
    shownAll voids (node :: before).reverse =
      Shown.append (shownAll voids before.reverse) ⟨node.html voids, false⟩ := by
  rw [List.reverse_cons, shownAll_eq_total, shownAll_eq_total,
    (additive_html voids).total_append, (additive_html voids).total_singleton]

/-- One more node behind others, joined to the last of them if it can be. -/
theorem shownAll_pushJoined (voids : List String) (node : Dom.Node) (before : List Dom.Node) :
    shownAll voids (pushJoined join? before node).reverse =
      Shown.append (shownAll voids before.reverse) ⟨node.html voids, false⟩ := by
  rw [shownAll_eq_total, shownAll_eq_total, (additive_html voids).total_pushJoined]

theorem shownAll_pushAllJoined (voids : List String) (nodes before : List Dom.Node) :
    shownAll voids (pushAllJoined join? before nodes).reverse =
      Shown.append (shownAll voids before.reverse) (shownAll voids nodes) := by
  rw [shownAll_eq_total, shownAll_eq_total, shownAll_eq_total,
    (additive_html voids).total_pushAllJoined]

end Dom.Node

/-! ## Pieces -/

/-- The markup of an element with given contents. -/
def elementHtml (voids : List String) (tag : String) (attributes : List OutputAttribute)
    (inner : Shown) : String :=
  startTag tag (OutputAttribute.markupAll attributes) ++
    (if inner.isNothing && isVoidTag voids tag then "" else inner.html ++ endTag tag)

theorem Dom.Node.html_element (voids : List String) (tag : String)
    (attributes : List OutputAttribute) (children : List Dom.Node) :
    (Dom.Node.element tag (attributes.map fun a => (a.name, a.value)) children).html voids =
      elementHtml voids tag attributes (shownAll voids children) := by
  rw [html, attributesHtml, List.map_map]
  rfl

namespace Piece

variable {ω : Type}

mutual
/-- What a piece is shown as, with the nodes that stand for its widgets. -/
def shown (voids : List String) (nodes : ω → List Dom.Node) : Piece ω → Shown
  | .text s => ⟨Text.escapeText s, false⟩
  | .raw s => ⟨s, false⟩
  | .comment s => ⟨commentMarkup s, false⟩
  | .element tag attributes none => ⟨elementHtml voids tag attributes .nothing, false⟩
  | .element tag attributes (some children) =>
      ⟨elementHtml voids tag attributes (shownAll voids nodes children), false⟩
  | .attr _ => .nothing
  | .block _ none => .nothing
  | .block _ (some children) => shownAll voids nodes children
  | .widget w => Dom.Node.shownAll voids (nodes w)
/-- What pieces are shown as. -/
def shownAll (voids : List String) (nodes : ω → List Dom.Node) : List (Piece ω) → Shown
  | [] => .nothing
  | piece :: rest => Shown.append (piece.shown voids nodes) (shownAll voids nodes rest)
end

variable {voids : List String} {nodes nodes' : ω → List Dom.Node}

theorem shownAll_eq_total (pieces : List (Piece ω)) :
    shownAll voids nodes pieces = total Shown.append .nothing (shown voids nodes) pieces := by
  induction pieces with
  | nil => rfl
  | cons piece rest ih => rw [shownAll, total, ih]

theorem shown_element (tag : String) (attributes : List OutputAttribute)
    (children : List (Piece ω)) :
    (Piece.element tag attributes (childrenOf children)).shown voids nodes =
      ⟨elementHtml voids tag attributes (shownAll voids nodes children), false⟩ := by
  cases children with
  | nil => rfl
  | cons first rest => rw [childrenOf_cons, shown]

theorem shown_block (kind : BlockKind) (children : List (Piece ω)) :
    (Piece.block kind (childrenOf children)).shown voids nodes = shownAll voids nodes children := by
  cases children with
  | nil => rfl
  | cons first rest => rw [childrenOf_cons, shown]

/-- What pieces are shown as is a reading of them. -/
theorem reading_shown (voids : List String) (nodes : ω → List Dom.Node) :
    Reading Shown.append .nothing (shown voids nodes) where
  toAdditive := additive Shown.append_assoc Shown.nothing_append Shown.append_nothing
    (fun a b => by simp [shown, Shown.append, Text.escapeText_append])
    (fun a b => by simp [shown, Shown.append])
  attr := fun _ => rfl
  block := fun kind children => by rw [shown_block, shownAll_eq_total]
  element := fun tag attributes children children' h => by
    rw [shown_element, shown_element, shownAll_eq_total, shownAll_eq_total, h]

mutual
theorem shown_congr :
    ∀ (piece : Piece ω) (_ : ∀ w ∈ piece.widgets, nodes w = nodes' w),
      piece.shown voids nodes = piece.shown voids nodes'
  | .element tag attributes (some children), h => by
    rw [shown, shown, shownAll_congr children h]
  | .block kind (some children), h => by rw [shown, shown, shownAll_congr children h]
  | .widget w, h => by rw [shown, shown, h w (by simp [widgets])]
  | .text _, _ | .raw _, _ | .comment _, _ | .attr _, _ => rfl
  | .element _ _ none, _ | .block _ none, _ => rfl
/-- Only the widgets in pieces matter to what the pieces are shown as. -/
theorem shownAll_congr :
    ∀ (pieces : List (Piece ω)) (_ : ∀ w ∈ widgetsAll pieces, nodes w = nodes' w),
      shownAll voids nodes pieces = shownAll voids nodes' pieces
  | [], _ => rfl
  | piece :: rest, h => by
    rw [shownAll, shownAll, shown_congr piece fun w hw => h w (List.mem_append_left _ hw),
      shownAll_congr rest fun w hw => h w (List.mem_append_right _ hw)]
end

mutual
theorem shown_fill (render : ω → Logged (List Dom.Node)) :
    ∀ piece : Piece ω,
      (piece.fill render).value.shown voids id =
        piece.shown voids fun w => (render w).value
  | .element tag attributes (some children) => by
    rw [fill, Logged.value_bind, Logged.value_pure, shown, shown, shownAll_fill render children]
  | .block kind (some children) => by
    rw [fill, Logged.value_bind, Logged.value_pure, shown, shown, shownAll_fill render children]
  | .widget w => rfl
  | .text _ | .raw _ | .comment _ | .attr _ => rfl
  | .element _ _ none | .block _ none => rfl
/-- Pieces are shown the same before and after they are filled. -/
theorem shownAll_fill (render : ω → Logged (List Dom.Node)) :
    ∀ pieces : List (Piece ω),
      shownAll voids id (fillAll render pieces).value =
        shownAll voids (fun w => (render w).value) pieces
  | [] => rfl
  | piece :: rest => by
    rw [fillAll, Logged.value_bind, Logged.value_bind, Logged.value_pure, shownAll, shownAll,
      shown_fill render piece, shownAll_fill render rest]
end

/-! ## Fragments -/

mutual
theorem shownAll_materialize (voids : List String) :
    ∀ (piece : Piece (List Dom.Node)) (before : List Dom.Node),
      Dom.Node.shownAll voids (piece.materialize before).reverse =
        Shown.append (Dom.Node.shownAll voids before.reverse) (piece.shown voids id)
  | .text s, before => Dom.Node.shownAll_pushJoined voids (.text s) before
  | .raw s, before => Dom.Node.shownAll_concat voids (.markup s) before
  | .comment s, before => Dom.Node.shownAll_concat voids (.comment s) before
  | .element tag attributes none, before => by
    rw [materialize, Dom.Node.shownAll_concat, Dom.Node.html_element]
    rfl
  | .element tag attributes (some children), before => by
    have hchildren := shownAll_materializeAll voids children []
    have hnothing : Dom.Node.shownAll voids ([] : List Dom.Node).reverse = .nothing := rfl
    rw [hnothing, Shown.nothing_append] at hchildren
    rw [materialize, Dom.Node.shownAll_concat, Dom.Node.html_element, hchildren, shown]
  | .attr _, before => (Shown.append_nothing _).symm
  | .block _ none, before => (Shown.append_nothing _).symm
  | .block _ (some children), before => shownAll_materializeAll voids children before
  | .widget inner, before => Dom.Node.shownAll_pushAllJoined voids inner before
theorem shownAll_materializeAll (voids : List String) :
    ∀ (pieces : List (Piece (List Dom.Node))) (before : List Dom.Node),
      Dom.Node.shownAll voids (materializeAll before pieces).reverse =
        Shown.append (Dom.Node.shownAll voids before.reverse) (shownAll voids id pieces)
  | [], before => (Shown.append_nothing _).symm
  | piece :: rest, before => by
    rw [materializeAll, shownAll_materializeAll voids rest, shownAll_materialize voids piece,
      shownAll, Shown.append_assoc]
end

/-- The nodes of pieces are shown as the pieces are. -/
theorem shownAll_ofPieces (voids : List String) (pieces : List (Piece (List Dom.Node))) :
    Dom.Node.shownAll voids (Dom.ofPieces pieces) = shownAll voids id pieces := by
  rw [Dom.ofPieces, shownAll_materializeAll]
  exact Shown.nothing_append _

end Piece

/-- The markup of a fragment is what the pieces it is made from are shown as. -/
theorem Fragment.htmlWith_ofPieces (voids : List String)
    (render : Widget → Logged (List Dom.Node)) (pieces : List (Piece Widget)) :
    (Fragment.mk (Dom.ofPieces (Piece.fillAll render pieces).value)).htmlWith voids =
      (Piece.shownAll voids (fun w => (render w).value) pieces).html := by
  rw [← Piece.shownAll_fill, ← Piece.shownAll_ofPieces]
  rfl

end Stencil
