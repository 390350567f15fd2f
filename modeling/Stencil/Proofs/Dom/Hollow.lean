import Stencil.Proofs.Dom.Shown
import Stencil.Proofs.Piece.Markup
import Stencil.Script.Basic

/-!
# Void elements that hold pieces and show nothing

Pieces can be written as markup, or made into a fragment that is written as markup.  On void
elements the two writers differ: the first gives an end tag to those that hold any piece, and
the second to those that hold any node.  A void element that holds pieces of which none makes a
node, such as the empty block of a section, is *hollow*, and only the first writer ends it.

* `Piece.hollows` — how many hollow elements there are in a piece.
* `Piece.markupAll_eq_shown_of_hollows`, `Piece.length_shownAll_le` — without hollow elements
  the two writers agree, and each hollow element makes the markup longer.
* `Fragment.markup_eq_htmlWith_iff` — the two writers agree on pieces just if none is hollow.
* `Fragment.markup_hollowRule` — a rule within which there is an empty section.
-/

namespace Stencil

namespace Piece

variable {ω : Type}

/-! ## Hollow elements -/

mutual
/-- Whether a piece makes no node. -/
def isBlank : Piece ω → Bool
  | .attr _ => true
  | .block _ none => true
  | .block _ (some children) => areBlank children
  | _ => false
/-- Whether no piece makes a node. -/
def areBlank : List (Piece ω) → Bool
  | [] => true
  | piece :: rest => piece.isBlank && areBlank rest
end

mutual
/-- The number of hollow elements in a piece: void elements that hold pieces of which none
makes a node. -/
def hollows (voids : List String) : Piece ω → Nat
  | .element tag _ (some children) =>
      (if isVoidTag voids tag && areBlank children then 1 else 0) + hollowsAll voids children
  | .block _ (some children) => hollowsAll voids children
  | _ => 0
/-- The number of hollow elements in pieces. -/
def hollowsAll (voids : List String) : List (Piece ω) → Nat
  | [] => 0
  | piece :: rest => piece.hollows voids + hollowsAll voids rest
end

variable {voids : List String} {nodes : ω → List Dom.Node}

mutual
theorem isNothing_shown :
    ∀ (piece : Piece ω) (_ : piece.widgetFree = true),
      (piece.shown voids nodes).isNothing = piece.isBlank
  | .text _, _ | .raw _, _ | .comment _, _ | .attr _, _ => rfl
  | .element _ _ none, _ | .element _ _ (some _), _ | .block _ none, _ => rfl
  | .block _ (some children), hfree => by
    rw [shown, isBlank]
    exact isNothing_shownAll children hfree
  | .widget _, hfree => by simp [widgetFree] at hfree
/-- Pieces show nothing just if none of them makes a node. -/
theorem isNothing_shownAll :
    ∀ (pieces : List (Piece ω)) (_ : widgetFreeAll pieces = true),
      (shownAll voids nodes pieces).isNothing = areBlank pieces
  | [], _ => rfl
  | piece :: rest, hfree => by
    rw [widgetFreeAll, Bool.and_eq_true] at hfree
    rw [shownAll, areBlank, Shown.append, isNothing_shown piece hfree.1,
      isNothing_shownAll rest hfree.2]
end

/-! ## Without hollow elements -/

mutual
theorem markup_eq_shown_of_hollows (hole : ω → String) (nodes : ω → List Dom.Node) :
    ∀ (piece : Piece ω) (_ : piece.widgetFree = true) (_ : piece.hollows voids = 0),
      piece.markup voids hole = (piece.shown voids nodes).html
  | .text _, _, _ | .raw _, _, _ | .comment _, _, _ | .attr _, _, _ => rfl
  | .block _ none, _, _ => rfl
  | .element tag attributes none, _, _ => by
    simp [markup, shown, elementHtml, Shown.nothing]
  | .element tag attributes (some children), hfree, hnone => by
    rw [hollows, Nat.add_eq_zero_iff] at hnone
    have hfilled : (isVoidTag voids tag && areBlank children) = false := by
      cases hhollow : isVoidTag voids tag && areBlank children with
      | false => rfl
      | true => simp [hhollow] at hnone
    have hchildren := markupAll_eq_shown_of_hollows hole nodes children hfree hnone.2
    rw [markup, shown, elementHtml, isNothing_shownAll children hfree, Bool.and_comm, hfilled,
      hchildren, String.append_assoc]
    rfl
  | .block _ (some children), hfree, hnone => by
    rw [markup, shown]
    exact markupAll_eq_shown_of_hollows hole nodes children hfree hnone
  | .widget _, hfree, _ => by simp [widgetFree] at hfree
/-- Pieces without hollow elements are written the same as markup and as a fragment. -/
theorem markupAll_eq_shown_of_hollows (hole : ω → String) (nodes : ω → List Dom.Node) :
    ∀ (pieces : List (Piece ω)) (_ : widgetFreeAll pieces = true)
      (_ : hollowsAll voids pieces = 0),
      markupAll voids hole pieces = (shownAll voids nodes pieces).html
  | [], _, _ => rfl
  | piece :: rest, hfree, hnone => by
    rw [widgetFreeAll, Bool.and_eq_true] at hfree
    rw [hollowsAll, Nat.add_eq_zero_iff] at hnone
    rw [markupAll, shownAll, Shown.append,
      markup_eq_shown_of_hollows hole nodes piece hfree.1 hnone.1,
      markupAll_eq_shown_of_hollows hole nodes rest hfree.2 hnone.2]
end

/-! ## With hollow elements -/

mutual
theorem length_shown_le (hole : ω → String) (nodes : ω → List Dom.Node) :
    ∀ (piece : Piece ω) (_ : piece.widgetFree = true),
      (piece.shown voids nodes).html.length + piece.hollows voids ≤
        (piece.markup voids hole).length
  | .text _, _ | .raw _, _ | .comment _, _ | .attr _, _ | .block _ none, _ => by
    simp [markup, shown, hollows, Shown.nothing]
  | .element tag attributes none, _ => by
    simp [markup, shown, elementHtml, Shown.nothing, hollows]
  | .element tag attributes (some children), hfree => by
    have hchildren := length_shownAll_le hole nodes children hfree
    have hend : 1 ≤ (endTag tag).length := by
      rw [endTag, String.length_append]
      exact Nat.le_add_left 1 _
    rw [markup, shown, elementHtml, isNothing_shownAll children hfree, Bool.and_comm, hollows]
    -- Only the second writer leaves out the end tag of a hollow element.
    by_cases hhollow : (isVoidTag voids tag && areBlank children) = true
    · simp only [hhollow, if_true, String.length_append, String.length_empty]
      omega
    · simp only [hhollow, if_false, String.length_append, Bool.false_eq_true]
      omega
  | .block _ (some children), hfree => by
    rw [markup, shown, hollows]
    exact length_shownAll_le hole nodes children hfree
  | .widget _, hfree => by simp [widgetFree] at hfree
/-- Each hollow element makes the markup of pieces longer than that of their fragment. -/
theorem length_shownAll_le (hole : ω → String) (nodes : ω → List Dom.Node) :
    ∀ (pieces : List (Piece ω)) (_ : widgetFreeAll pieces = true),
      (shownAll voids nodes pieces).html.length + hollowsAll voids pieces ≤
        (markupAll voids hole pieces).length
  | [], _ => by simp [markupAll, shownAll, hollowsAll, Shown.nothing]
  | piece :: rest, hfree => by
    rw [widgetFreeAll, Bool.and_eq_true] at hfree
    have hpiece := length_shown_le hole nodes piece hfree.1
    have hrest := length_shownAll_le hole nodes rest hfree.2
    simp only [markupAll, shownAll, Shown.append, hollowsAll, String.length_append]
    omega
end

end Piece

/-! ## The two writers -/

namespace Fragment

/-- Pieces without widgets are written the same as markup and as the fragment made of them just
if there is no hollow element among them. -/
theorem markup_eq_htmlWith_iff (voids : List String) (hole : Widget → String)
    (render : Widget → Logged (List Dom.Node)) (pieces : List (Piece Widget))
    (hfree : Piece.widgetFreeAll pieces = true) :
    Piece.markupAll voids hole pieces =
        (Fragment.mk (Dom.ofPieces (Piece.fillAll render pieces).value)).htmlWith voids ↔
      Piece.hollowsAll voids pieces = 0 := by
  rw [htmlWith_ofPieces]
  constructor
  · intro hsame
    have hlength : _ + Piece.hollowsAll voids pieces ≤ _ :=
      Piece.length_shownAll_le hole (fun w => (render w).value) pieces hfree
    rw [hsame] at hlength
    omega
  · intro hnone
    exact Piece.markupAll_eq_shown_of_hollows hole _ pieces hfree hnone

/-- A rule without contents, one that holds text, and an empty block between them. -/
def plainRules : List (Piece Widget) :=
  [.element "hr" [⟨"id", some "x\""⟩] none, .block (.ofPartial "rows") none,
    .element "HR" [] (some [.block .ofSection none, .text "<"])]

theorem markup_plainRules :
    Piece.widgetFreeAll plainRules = true ∧
      Piece.markupAll htmlVoidElements (fun _ => "") plainRules =
        "<hr id=\"x&quot;\"><HR>&lt;</HR>" ∧
      Piece.markupAll htmlVoidElements (fun _ => "") plainRules =
        (Fragment.mk (Dom.ofPieces
          (Piece.fillAll (fun _ => pure []) plainRules).value)).htmlWith htmlVoidElements := by
  have hnone : Piece.hollowsAll htmlVoidElements plainRules = 0 := by decide +kernel
  have hsame := (markup_eq_htmlWith_iff htmlVoidElements (fun _ => "") (fun _ => pure [])
    plainRules rfl).mpr hnone
  exact ⟨rfl, by decide +kernel, hsame⟩

/-- A rule within which there is a section that shows nothing. -/
def hollowRule : List (Piece Widget) := [.element "hr" [] (some [.block .ofSection none])]

/-- The tree of an empty section within a rule is hollow: its markup has an end tag, and that of
the fragment made of it has none. -/
theorem markup_hollowRule :
    ((Script.run (Assembly.sink .tree) [.frame .ofElement "hr" [.frame .ofSection "rows" []]]
        (.start "")).output .tree).1.pieces = hollowRule ∧
      Piece.widgetFreeAll hollowRule = true ∧
      Piece.markupAll htmlVoidElements (fun _ => "") hollowRule = "<hr></hr>" ∧
      (Fragment.mk (Dom.ofPieces
        (Piece.fillAll (fun _ => pure []) hollowRule).value)).htmlWith htmlVoidElements =
          "<hr>" := by
  refine ⟨rfl, rfl, ?_, ?_⟩
  · decide +kernel
  · decide +kernel

end Fragment

end Stencil
