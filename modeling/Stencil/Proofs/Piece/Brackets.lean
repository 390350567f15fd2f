import Mathlib.Data.List.Forall2
import Stencil.Proofs.Piece.Markup
import Stencil.Proofs.Text.Escape

/-!
# The brackets of markup

Tags and comments are told apart from text by angle brackets.  Text and attribute values are
escaped, so all brackets of markup come from the tags and comments of pieces, and from pieces
that are markup already.  The brackets of an element do not depend on what its attributes and
texts say.

* `Text.brackets` — the angle brackets of a text, in order.
* `Piece.brackets`, `Piece.additive_brackets` — those of the markup of pieces.
* `Piece.SameBrackets`, `Piece.AllSameBrackets` — pieces with the same brackets.
-/

namespace Stencil

/-! ## Texts -/

namespace Text

/-- The characters of a text that begin and end tags and comments. -/
def brackets (text : String) : List Char :=
  text.toList.filter fun c => c == '<' || c == '>'

@[simp] theorem brackets_append (first second : String) :
    brackets (first ++ second) = brackets first ++ brackets second := by
  simp [brackets]

/-- Where both brackets are written as entities, there are none left. -/
theorem brackets_eq_nil {entities : List Entity} {text : List Char} {written : String}
    (hwritten : written.toList = text.flatMap (writeChar entities))
    (hknown : entities ⊆ Entity.ofAttribute) (hless : '<' ∈ entities.map Entity.char)
    (hgreater : '>' ∈ entities.map Entity.char) : brackets written = [] := by
  rw [brackets, hwritten, List.filter_eq_nil_iff]
  intro c hc hbracket
  have hcases : c = '<' ∨ c = '>' := by simpa using hbracket
  rcases hcases with rfl | rfl
  · exact notMem_flatMap_writeChar hknown hless (by decide) text hc
  · exact notMem_flatMap_writeChar hknown hgreater (by decide) text hc

/-- Escaped text has no brackets. -/
@[simp] theorem brackets_escapeText (text : String) : brackets (escapeText text) = [] :=
  brackets_eq_nil (toList_escapeText_eq text) Entity.ofText_subset (by decide) (by decide)

/-- Escaped attribute values have no brackets. -/
@[simp] theorem brackets_escapeAttribute (text : String) :
    brackets (escapeAttribute text) = [] :=
  brackets_eq_nil (toList_escapeAttribute_eq text) (List.Subset.refl _) (by decide) (by decide)

end Text

/-! ## Attributes -/

/-- Two attributes of one name, both with a value or both without. -/
structure OutputAttribute.SameBrackets (attr attr' : OutputAttribute) : Prop where
  name : attr.name = attr'.name
  value : attr.value.isSome = attr'.value.isSome

/-- In a start tag, attributes show brackets only in their names. -/
theorem OutputAttribute.brackets_markupAll {attributes attributes' : List OutputAttribute}
    (h : List.Forall₂ SameBrackets attributes attributes') :
    Text.brackets (markupAll attributes) = Text.brackets (markupAll attributes') := by
  induction h with
  | nil => rfl
  | @cons attr attr' rest rest' hattr _ ih =>
    have hfirst : Text.brackets (attributeMarkup attr.name attr.value) =
        Text.brackets (attributeMarkup attr'.name attr'.value) := by
      have hvalue := hattr.value
      rw [hattr.name]
      cases hone : attr.value <;> cases hother : attr'.value <;> simp_all [attributeMarkup]
    simp only [markupAll, List.map_cons, String.join_cons, Text.brackets_append, hfirst] at ih ⊢
    rw [ih]

/-! ## Pieces -/

namespace Piece

variable {voids : List String}

/-- The brackets of the markup of a piece. -/
def brackets (voids : List String) (piece : Piece Empty) : List Char :=
  Text.brackets (piece.markup voids Empty.elim)

/-- The brackets of pieces are the same before and after they are joined. -/
theorem additive_brackets (voids : List String) : Additive join? (· ++ ·) [] (brackets voids) :=
  additive (fun _ _ _ => List.append_assoc _ _ _) (fun _ => List.nil_append _)
    (fun _ => List.append_nil _) (fun _ _ => by simp [brackets, markup])
    (fun _ _ => by simp [brackets, markup])

theorem brackets_markupAll (voids : List String) (pieces : List (Piece Empty)) :
    Text.brackets (markupAll voids Empty.elim pieces) =
      total (· ++ ·) [] (brackets voids) pieces := by
  induction pieces with
  | nil => rfl
  | cons piece rest ih => rw [markupAll, Text.brackets_append, ih, total, brackets]

/-- Two lists of pieces that have the same brackets, and are both empty or neither. -/
structure AllSameBrackets (voids : List String) (pieces pieces' : List (Piece Empty)) :
    Prop where
  nil : pieces = [] ↔ pieces' = []
  brackets : Text.brackets (markupAll voids Empty.elim pieces) =
    Text.brackets (markupAll voids Empty.elim pieces')

/-- Two pieces that go to the same place and have the same brackets. -/
inductive SameBrackets (voids : List String) : Piece Empty → Piece Empty → Prop
  | attr {attr attr' : OutputAttribute} : attr.SameBrackets attr' →
      SameBrackets voids (.attr attr) (.attr attr')
  | child {piece piece' : Piece Empty} (hpiece : ∀ attr, piece ≠ .attr attr)
      (hpiece' : ∀ attr, piece' ≠ .attr attr)
      (hbrackets : piece.brackets voids = piece'.brackets voids) : SameBrackets voids piece piece'

theorem SameBrackets.refl (piece : Piece Empty) : SameBrackets voids piece piece := by
  cases piece with
  | attr attr => exact .attr ⟨rfl, rfl⟩
  | _ => exact .child (by simp) (by simp) rfl

theorem SameBrackets.text (s s' : String) : SameBrackets voids (.text s) (.text s') :=
  .child (by simp) (by simp) (by simp [brackets, markup])

section Children

variable {children children' : List (Piece Empty)}

theorem AllSameBrackets.push (h : AllSameBrackets voids children.reverse children'.reverse)
    {piece piece' : Piece Empty} (hpiece : piece.brackets voids = piece'.brackets voids) :
    AllSameBrackets voids (pushJoined join? children piece).reverse
      (pushJoined join? children' piece').reverse where
  nil := by
    rw [List.reverse_eq_nil_iff, List.reverse_eq_nil_iff]
    exact iff_of_false (pushJoined_ne_nil join? _ _) (pushJoined_ne_nil join? _ _)
  brackets := by
    have hbefore := h.brackets
    rw [brackets_markupAll, brackets_markupAll] at hbefore ⊢
    rw [(additive_brackets voids).total_pushJoined, (additive_brackets voids).total_pushJoined,
      hbefore, hpiece]

/-- The brackets of an element depend on its tag, the names of its attributes, the brackets of
its children, and whether there are any. -/
theorem brackets_element (h : AllSameBrackets voids children children')
    {attributes attributes' : List OutputAttribute}
    (hattributes : List.Forall₂ OutputAttribute.SameBrackets attributes attributes')
    (tag : String) :
    (Piece.element tag attributes (childrenOf children)).brackets voids =
      (Piece.element tag attributes' (childrenOf children')).brackets voids := by
  have hstart : Text.brackets (startTag tag (OutputAttribute.markupAll attributes)) =
      Text.brackets (startTag tag (OutputAttribute.markupAll attributes')) := by
    simp only [startTag, Text.brackets_append, OutputAttribute.brackets_markupAll hattributes]
  have hbrackets := h.brackets
  cases children with
  | nil =>
    rw [h.nil.mp rfl, childrenOf_nil, brackets, brackets, markup, markup, Text.brackets_append,
      Text.brackets_append, hstart]
  | cons first rest =>
    cases children' with
    | nil => exact absurd (h.nil.mpr rfl) (List.cons_ne_nil _ _)
    | cons first' rest' =>
      rw [childrenOf_cons, childrenOf_cons, brackets, brackets, markup, markup]
      simp only [Text.brackets_append, hstart, hbrackets]

/-- The brackets of a block are those of its children. -/
theorem brackets_block (h : AllSameBrackets voids children children') (kind : BlockKind) :
    (Piece.block kind (childrenOf children)).brackets voids =
      (Piece.block kind (childrenOf children')).brackets voids := by
  rw [brackets, brackets, markup_block, markup_block, h.brackets]

end Children

end Piece

end Stencil
