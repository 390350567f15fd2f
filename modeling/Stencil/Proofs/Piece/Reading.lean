import Stencil.Proofs.Assembly.Contents
import Stencil.Proofs.Piece.Join

/-!
# Readings of pieces

Some of what can be told of pieces depends neither on how their texts are cut up nor on
the blocks around them: the markup that they come out as, for one, and the widgets among
them.  Such a reading of an element depends on that of its children, and an attribute on
its way to an element adds nothing to it.

* `Piece.Reading` — a measure that looks through blocks.
* `Piece.Reading.total_joined` — it is the same for pieces as they come and as they are kept.
* `Piece.widgets`, `Piece.reading_widgets` — the widgets in pieces.
* `Piece.fillAll_congr` — only the widgets in pieces matter to filling them.
-/

namespace Stencil.Piece

variable {ω ψ β : Type}

/-! ## Readings -/

/-- A measure of pieces that sees neither cuts in text nor the borders of blocks. -/
structure Reading (op : β → β → β) (unit : β) (measure : Piece ω → β) : Prop
    extends Additive join? op unit measure where
  attr : ∀ attr, measure (.attr attr) = unit
  block : ∀ kind children,
    measure (.block kind (childrenOf children)) = total op unit measure children
  element : ∀ tag attributes children children',
    total op unit measure children = total op unit measure children' →
      measure (.element tag attributes (childrenOf children)) =
        measure (.element tag attributes (childrenOf children'))

namespace Reading

variable {op : β → β → β} {unit : β} {measure : Piece ω → β}

/-- Attributes on their way to an element add nothing. -/
theorem total_children (h : Reading op unit measure) (pieces : List (Piece ω)) :
    total op unit measure (children pieces) = total op unit measure pieces := by
  induction pieces with
  | nil => rfl
  | cons piece rest ih =>
    cases piece with
    | attr attr =>
      have hskip : children (.attr attr :: rest) = children rest := rfl
      rw [hskip, ih, total, h.attr, h.unit_op]
    | _ =>
      have hkeep : ∀ piece : Piece ω, piece.attribute? = none →
          children (piece :: rest) = piece :: children rest := by
        intro piece hpiece
        rw [children, List.filter_cons, hpiece]
        rfl
      rw [hkeep _ rfl, total, total, ih]

/-- Pieces are read the same as they come and as they are kept. -/
theorem total_joined (h : Reading op unit measure) (pieces : List (Piece ω)) :
    total op unit measure (joined pieces) = total op unit measure pieces := by
  rw [joined, h.toAdditive.total_joinNeighbours, h.total_children]

end Reading

/-! ## The widgets in pieces -/

mutual
/-- The widgets in a piece, in document order. -/
def widgets : Piece ω → List ω
  | .element _ _ (some children) => widgetsAll children
  | .block _ (some children) => widgetsAll children
  | .widget w => [w]
  | _ => []
/-- The widgets in pieces, in document order. -/
def widgetsAll : List (Piece ω) → List ω
  | [] => []
  | piece :: rest => piece.widgets ++ widgetsAll rest
end

theorem widgetsAll_eq_total (pieces : List (Piece ω)) :
    widgetsAll pieces = total (· ++ ·) [] widgets pieces := by
  induction pieces with
  | nil => rfl
  | cons piece rest ih => rw [widgetsAll, total, ih]

theorem widgets_element (tag : String) (attributes : List OutputAttribute)
    (children : List (Piece ω)) :
    (Piece.element tag attributes (childrenOf children)).widgets = widgetsAll children := by
  cases children with
  | nil => rfl
  | cons first rest => rw [childrenOf_cons, widgets]

theorem widgets_block (kind : BlockKind) (children : List (Piece ω)) :
    (Piece.block kind (childrenOf children)).widgets = widgetsAll children := by
  cases children with
  | nil => rfl
  | cons first rest => rw [childrenOf_cons, widgets]

/-- The widgets in pieces are a reading of them. -/
theorem reading_widgets : Reading (ω := ω) (· ++ ·) [] widgets where
  toAdditive := additive (fun _ _ _ => List.append_assoc _ _ _) (fun _ => List.nil_append _)
    (fun _ => List.append_nil _) (fun _ _ => rfl) (fun _ _ => rfl)
  attr := fun _ => rfl
  block := fun kind children => by rw [widgets_block, widgetsAll_eq_total]
  element := fun tag attributes children children' h => by
    rw [widgets_element, widgets_element, widgetsAll_eq_total, widgetsAll_eq_total, h]

/-! ## Filling -/

mutual
theorem fill_congr {replace replace' : ω → Logged ψ} :
    ∀ (piece : Piece ω) (_ : ∀ w ∈ piece.widgets, replace w = replace' w),
      piece.fill replace = piece.fill replace'
  | .element tag attributes (some children), h => by
    rw [fill, fill, fillAll_congr children h]
  | .block kind (some children), h => by
    rw [fill, fill, fillAll_congr children h]
  | .widget w, h => by
    rw [fill, fill, h w (by simp [widgets])]
  | .text _, _ | .raw _, _ | .comment _, _ | .attr _, _ => rfl
  | .element _ _ none, _ | .block _ none, _ => rfl
/-- Only the widgets in pieces matter to filling them. -/
theorem fillAll_congr {replace replace' : ω → Logged ψ} :
    ∀ (pieces : List (Piece ω)) (_ : ∀ w ∈ widgetsAll pieces, replace w = replace' w),
      fillAll replace pieces = fillAll replace' pieces
  | [], _ => rfl
  | piece :: rest, h => by
    rw [fillAll, fillAll,
      fill_congr piece fun w hw => h w (List.mem_append_left _ hw),
      fillAll_congr rest fun w hw => h w (List.mem_append_right _ hw)]
end

mutual
theorem widgets_fill (replace : ω → Logged ψ) :
    ∀ piece : Piece ω,
      (piece.fill replace).value.widgets = piece.widgets.map fun w => (replace w).value
  | .element tag attributes (some children) => by
    rw [fill, Logged.value_bind, Logged.value_pure, widgets, widgets]
    exact widgets_fillAll replace children
  | .block kind (some children) => by
    rw [fill, Logged.value_bind, Logged.value_pure, widgets, widgets]
    exact widgets_fillAll replace children
  | .widget w => by
    rw [fill, Logged.value_bind, Logged.value_pure, widgets, widgets, List.map_singleton]
  | .text _ | .raw _ | .comment _ | .attr _ => rfl
  | .element _ _ none | .block _ none => rfl
/-- Filling pieces replaces each widget in them. -/
theorem widgets_fillAll (replace : ω → Logged ψ) :
    ∀ pieces : List (Piece ω),
      widgetsAll (fillAll replace pieces).value =
        (widgetsAll pieces).map fun w => (replace w).value
  | [] => rfl
  | piece :: rest => by
    rw [fillAll, Logged.value_bind, Logged.value_bind, Logged.value_pure, widgetsAll, widgetsAll,
      List.map_append, widgets_fill replace piece, widgets_fillAll replace rest]
end

mutual
theorem endless_fill (replace : ω → Logged ψ) :
    ∀ piece : Piece ω,
      (piece.fill replace).log.endless = piece.widgets.any fun w => (replace w).log.endless
  | .element tag attributes (some children) => by
    rw [fill, Logged.log_bind, Logged.log_pure, Log.append_empty, widgets]
    exact endless_fillAll replace children
  | .block kind (some children) => by
    rw [fill, Logged.log_bind, Logged.log_pure, Log.append_empty, widgets]
    exact endless_fillAll replace children
  | .widget w => by
    rw [fill, Logged.log_bind, Logged.log_pure, Log.append_empty, widgets]
    simp
  | .text _ | .raw _ | .comment _ | .attr _ => rfl
  | .element _ _ none | .block _ none => rfl
/-- Filling pieces ends just if it does for each widget in them. -/
theorem endless_fillAll (replace : ω → Logged ψ) :
    ∀ pieces : List (Piece ω),
      (fillAll replace pieces).log.endless =
        (widgetsAll pieces).any fun w => (replace w).log.endless
  | [] => rfl
  | piece :: rest => by
    rw [fillAll, Logged.log_bind, Logged.log_bind, Logged.log_pure, Log.append_empty, widgetsAll,
      List.any_append, ← endless_fill replace piece, ← endless_fillAll replace rest]
    rfl
end

end Stencil.Piece
