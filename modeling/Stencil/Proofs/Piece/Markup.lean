import Stencil.Piece.Markup
import Stencil.Proofs.Piece.Join

/-!
# What markup shows of pieces

Markup is written piece by piece, and text is escaped character by character.  So it
makes no difference whether neighbours are joined before they are written, and of the
children of an element only their markup counts, and whether there are any.

* `Piece.additive_markup` — markup is the same before and after joining.
* `Piece.fill_of_widgetFree` — a piece without widgets needs no rendering of any.
-/

namespace Stencil.Piece

variable {ω ψ : Type}

theorem markupAll_eq_total (voids : List String) (hole : ω → String) (pieces : List (Piece ω)) :
    markupAll voids hole pieces = total (· ++ ·) "" (markup voids hole) pieces := by
  induction pieces with
  | nil => rfl
  | cons piece rest ih => rw [markupAll, total, ih]

/-- Pieces have the same markup before and after they are joined. -/
theorem additive_markup (voids : List String) (hole : ω → String) :
    Additive join? (· ++ ·) "" (markup voids hole) :=
  additive (fun _ _ _ => String.append_assoc) (fun _ => String.empty_append)
    (fun _ => String.append_empty) (fun a b => Text.escapeText_append a b) (fun _ _ => rfl)

/-- The markup of an element shows of its children only their markup, and whether there
are any. -/
theorem markup_element_congr (voids : List String) {hole : ω → String} {hole' : ψ → String}
    (tag : String) (attributes : List OutputAttribute) {children : List (Piece ω)}
    {children' : List (Piece ψ)} (hnil : children = [] ↔ children' = [])
    (hmarkup : markupAll voids hole children = markupAll voids hole' children') :
    (Piece.element tag attributes (childrenOf children)).markup voids hole =
      (Piece.element tag attributes (childrenOf children')).markup voids hole' := by
  cases children with
  | nil =>
    have hnil' : children' = [] := hnil.mp rfl
    rw [hnil']
    rfl
  | cons first rest =>
    cases children' with
    | nil => exact absurd (hnil.mpr rfl) (List.cons_ne_nil _ _)
    | cons first' rest' =>
      rw [childrenOf_cons, childrenOf_cons, markup, markup, hmarkup]

/-- The markup of a block is that of its children. -/
theorem markup_block (voids : List String) (hole : ω → String) (kind : BlockKind)
    (children : List (Piece ω)) :
    (Piece.block kind (childrenOf children)).markup voids hole =
      markupAll voids hole children := by
  cases children with
  | nil => rfl
  | cons first rest => rw [childrenOf_cons, markup]

/-- The text of a block is that of its children. -/
theorem textContent_block (kind : BlockKind) (children : List (Piece ω)) :
    (Piece.block kind (childrenOf children)).textContent = textContents children := by
  cases children with
  | nil => rfl
  | cons first rest => rw [childrenOf_cons, textContent]

/-! ## Pieces without widgets -/

mutual
/-- Whether there is no widget in a piece. -/
def widgetFree : Piece ω → Bool
  | .element _ _ (some children) => widgetFreeAll children
  | .block _ (some children) => widgetFreeAll children
  | .widget _ => false
  | _ => true
/-- Whether there is no widget in any of some pieces. -/
def widgetFreeAll : List (Piece ω) → Bool
  | [] => true
  | piece :: rest => piece.widgetFree && widgetFreeAll rest
end

mutual
/-- A piece without widgets needs no rendering of any, and is written as it is. -/
theorem fill_of_widgetFree (voids : List String) (hole : ω → String) (hole' : ψ → String)
    (replace : ω → Logged ψ) : ∀ (piece : Piece ω) (_ : piece.widgetFree = true),
      (piece.fill replace).log = .empty ∧
        (piece.fill replace).value.markup voids hole' = piece.markup voids hole
  | .text _, _ => ⟨rfl, rfl⟩
  | .raw _, _ => ⟨rfl, rfl⟩
  | .comment _, _ => ⟨rfl, rfl⟩
  | .element _ _ none, _ => ⟨rfl, rfl⟩
  | .element tag attributes (some children), hfree => by
    obtain ⟨hlog, hmarkup⟩ := fillAll_of_widgetFree voids hole hole' replace children hfree
    refine ⟨?_, ?_⟩
    · rw [fill, Logged.log_bind, hlog]
      rfl
    · rw [fill, Logged.value_bind, Logged.value_pure, markup, markup, hmarkup]
  | .attr _, _ => ⟨rfl, rfl⟩
  | .block _ none, _ => ⟨rfl, rfl⟩
  | .block kind (some children), hfree => by
    obtain ⟨hlog, hmarkup⟩ := fillAll_of_widgetFree voids hole hole' replace children hfree
    refine ⟨?_, ?_⟩
    · rw [fill, Logged.log_bind, hlog]
      rfl
    · rw [fill, Logged.value_bind, Logged.value_pure, markup, markup, hmarkup]
  | .widget _, hfree => by cases hfree
theorem fillAll_of_widgetFree (voids : List String) (hole : ω → String) (hole' : ψ → String)
    (replace : ω → Logged ψ) : ∀ (pieces : List (Piece ω)) (_ : widgetFreeAll pieces = true),
      (fillAll replace pieces).log = .empty ∧
        markupAll voids hole' (fillAll replace pieces).value = markupAll voids hole pieces
  | [], _ => ⟨rfl, rfl⟩
  | piece :: rest, hfree => by
    rw [widgetFreeAll, Bool.and_eq_true] at hfree
    obtain ⟨hlog, hmarkup⟩ := fill_of_widgetFree voids hole hole' replace piece hfree.1
    obtain ⟨hlogs, hmarkups⟩ := fillAll_of_widgetFree voids hole hole' replace rest hfree.2
    refine ⟨?_, ?_⟩
    · rw [fillAll, Logged.log_bind, Logged.log_bind, hlog, hlogs]
      rfl
    · rw [fillAll, Logged.value_bind, Logged.value_bind, Logged.value_pure, markupAll, markupAll,
        hmarkup, hmarkups]
end

end Stencil.Piece
