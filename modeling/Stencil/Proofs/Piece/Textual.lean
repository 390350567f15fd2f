import Stencil.Assembly.Encodings
import Stencil.Proofs.Assembly.Contents
import Stencil.Proofs.Piece.Markup

/-!
# Pieces of which markup has no more than their text

The value of an attribute is the text of the pieces put into it.  In a tree these are the pieces
themselves, so an element counts for the text in it, and a comment for nothing.  Markup writes
elements and comments as soon as they are complete, and so they count for all their markup.

* `Piece.isTextual` — there is no element, comment or widget in the piece, blocks opened.
* `Piece.ReadAlike` — pieces of a tree, and the same pieces as they are written.
* `Piece.ReadAlike.frame` — this is kept when a frame is closed.
* `Piece.ReadAlike.attributeValue` — the values are the same just if all is textual.
-/

namespace Stencil

theorem Text.length_le_escapeText (s : String) : s.length ≤ (escapeText s).length := by
  rw [← String.length_toList, ← String.length_toList, toList_escapeText]
  induction s.toList with
  | nil => simp
  | cons c rest ih =>
    have hchar : 1 ≤ (escapeTextChar c).length := by
      unfold escapeTextChar
      split <;> simp
    simp only [List.flatMap_cons, List.length_append, List.length_cons]
    omega

namespace Piece

variable {ω : Type}

/-! ## Text and markup -/

mutual
theorem length_textContent_le (voids : List String) (hole : ω → String) :
    ∀ piece : Piece ω, piece.textContent.length ≤ (piece.markup voids hole).length
  | .text s => Text.length_le_escapeText s
  | .raw _ => by simp [textContent, markup]
  | .comment _ | .attr _ | .widget _ | .block _ none | .element _ _ none => by
    simp [textContent]
  | .element tag attributes (some children) => by
    have hchildren := length_textContents_le voids hole children
    simp only [textContent, markup, String.length_append]
    omega
  | .block kind (some children) => by
    rw [textContent, markup]
    exact length_textContents_le voids hole children
/-- Markup is at least as long as the text in it. -/
theorem length_textContents_le (voids : List String) (hole : ω → String) :
    ∀ pieces : List (Piece ω),
      (textContents pieces).length ≤ (markupAll voids hole pieces).length
  | [] => by simp [textContents]
  | piece :: rest => by
    have hpiece := length_textContent_le voids hole piece
    have hrest := length_textContents_le voids hole rest
    simp only [textContents, markupAll, String.length_append]
    omega
end

/-- The markup of an element is its start tag, the markup of its children, and maybe an end
tag. -/
theorem length_markup_element (voids : List String) (hole : ω → String) (tag : String)
    (attributes : List OutputAttribute) (pieces : List (Piece ω)) :
    (markupAll voids hole pieces).length <
      ((Piece.element tag attributes (childrenOf pieces)).markup voids hole).length := by
  have hstart : 0 < (startTag tag (OutputAttribute.markupAll attributes)).length := by
    rw [startTag, String.length_append]
    exact Nat.succ_pos _
  cases pieces with
  | nil =>
    simp only [childrenOf_nil, markup, markupAll, String.length_append, String.length_empty]
    omega
  | cons first rest =>
    simp only [childrenOf_cons, markup, String.length_append]
    omega

/-- The text of an element is that of its children. -/
theorem textContent_element (tag : String) (attributes : List OutputAttribute)
    (pieces : List (Piece ω)) :
    (Piece.element tag attributes (childrenOf pieces)).textContent = textContents pieces := by
  cases pieces with
  | nil => rfl
  | cons first rest => rw [childrenOf_cons, textContent]

theorem textContents_append (first second : List (Piece ω)) :
    textContents (first ++ second) = textContents first ++ textContents second := by
  simp only [textContents_eq_total, additive_textContent.total_append]

/-- Attributes on their way have no text. -/
theorem textContents_children (pieces : List (Piece ω)) :
    textContents (children pieces) = textContents pieces := by
  induction pieces with
  | nil => rfl
  | cons piece rest ih =>
    cases piece with
    | attr a =>
      have htext : textContents (.attr a :: rest) = "" ++ textContents rest := rfl
      rw [htext, String.empty_append]
      exact ih
    | _ => exact congrArg (_ ++ ·) ih

theorem textContents_joined (pieces : List (Piece ω)) :
    textContents (joined pieces) = textContents pieces := by
  rw [joined, ← merged, textContents_merged, textContents_children]

theorem joined_eq_nil (pieces : List (Piece ω)) : joined pieces = [] ↔ children pieces = [] :=
  merged_eq_nil (children pieces)

/-- An attribute has the text of its pieces for a value if there are any. -/
theorem attributeValue_joined {pieces : List (Piece ω)} (h : children pieces ≠ []) :
    Frame.attributeValue (joined pieces) = some (textContents pieces) := by
  have hchildren : childrenOf (joined pieces) = some (joined pieces) := by
    simp [childrenOf, joined_eq_nil, h]
  rw [Frame.attributeValue, hchildren, Option.map_some, textContents_joined]

theorem attributeValue_joined_of_nil {pieces : List (Piece ω)} (h : children pieces = []) :
    Frame.attributeValue (joined pieces) = none := by
  rw [(joined_eq_nil pieces).mpr h]
  rfl

/-! ## Textual pieces -/

mutual
/-- Whether a piece is made of text and markup, or of blocks that hold nothing else. -/
def isTextual : Piece ω → Bool
  | .text _ | .raw _ | .attr _ | .block _ none => true
  | .block _ (some children) => areTextual children
  | _ => false
/-- Whether all pieces are made of text and markup, or of blocks that hold nothing else. -/
def areTextual : List (Piece ω) → Bool
  | [] => true
  | piece :: rest => piece.isTextual && areTextual rest
end

theorem areTextual_eq_total (pieces : List (Piece ω)) :
    areTextual pieces = total (· && ·) true isTextual pieces := by
  induction pieces with
  | nil => rfl
  | cons piece rest ih => rw [areTextual, total, ih]

theorem additive_isTextual : Additive (join? (ω := ω)) (· && ·) true isTextual :=
  additive Bool.and_assoc Bool.true_and Bool.and_true (fun _ _ => rfl) (fun _ _ => rfl)

theorem areTextual_append (first second : List (Piece ω)) :
    areTextual (first ++ second) = (areTextual first && areTextual second) := by
  simp only [areTextual_eq_total, additive_isTextual.total_append]

theorem areTextual_joined (pieces : List (Piece ω)) :
    areTextual (joined pieces) = areTextual pieces := by
  have hchildren : areTextual (children pieces) = areTextual pieces := by
    induction pieces with
    | nil => rfl
    | cons piece rest ih =>
      cases piece with
      | attr _ => exact ih
      | _ => exact congrArg (Bool.and _) ih
  rw [← hchildren, areTextual_eq_total, areTextual_eq_total, joined,
    additive_isTextual.total_joinNeighbours]

theorem isTextual_block (kind : BlockKind) (pieces : List (Piece ω)) :
    (Piece.block kind (childrenOf pieces)).isTextual = areTextual pieces := by
  cases pieces with
  | nil => rfl
  | cons first rest => rw [childrenOf_cons, isTextual]

/-! ## Pieces that are read alike -/

/-- Pieces of a tree and pieces of markup, of which some are there in both or in neither.  The
two have the same text if those of the tree are textual, and otherwise that of the markup is
longer. -/
structure ReadAlike (grown : List (Piece Widget)) (written : List (Piece Empty)) : Prop where
  nil : children grown = [] ↔ children written = []
  same : areTextual grown = true → textContents written = textContents grown
  longer : areTextual grown = false →
    (textContents grown).length < (textContents written).length

namespace ReadAlike

variable {grown grown' : List (Piece Widget)} {written written' : List (Piece Empty)}

theorem nothing : ReadAlike [] [] where
  nil := iff_of_true rfl rfl
  same := fun _ => rfl
  longer := fun h => by cases h

theorem length_le (h : ReadAlike grown written) :
    (textContents grown).length ≤ (textContents written).length := by
  cases htextual : areTextual grown with
  | false => exact Nat.le_of_lt (h.longer htextual)
  | true => exact Nat.le_of_eq (congrArg String.length (h.same htextual).symm)

theorem textContents_eq_iff (h : ReadAlike grown written) :
    textContents written = textContents grown ↔ areTextual grown = true := by
  refine ⟨fun hsame => ?_, h.same⟩
  cases htextual : areTextual grown with
  | true => rfl
  | false =>
    have hlonger := h.longer htextual
    rw [hsame] at hlonger
    omega

theorem append (h : ReadAlike grown written) (h' : ReadAlike grown' written') :
    ReadAlike (grown ++ grown') (written ++ written') where
  nil := by
    simp only [children, List.filter_append, List.append_eq_nil_iff]
    exact and_congr h.nil h'.nil
  same := by
    intro htextual
    rw [areTextual_append, Bool.and_eq_true] at htextual
    rw [textContents_append, textContents_append, h.same htextual.1, h'.same htextual.2]
  longer := by
    intro htextual
    rw [areTextual_append, Bool.and_eq_false_iff] at htextual
    have hfirst := h.length_le
    have hsecond := h'.length_le
    simp only [textContents_append, String.length_append]
    rcases htextual with hnot | hnot
    · have hlonger := h.longer hnot
      omega
    · have hlonger := h'.longer hnot
      omega

/-- What an element is written as is longer than the text in it. -/
theorem element (h : ReadAlike grown written) (voids : List String) (tag : String)
    (attributes attributes' : List OutputAttribute) :
    ReadAlike [.element tag attributes (childrenOf (joined grown))]
      [.raw (Encoding.writePiece voids
        (.element tag attributes' (childrenOf (joined written))))] where
  nil := by simp [children, attribute?]
  same := fun htextual => by cases htextual
  longer := by
    intro _
    have hlength := h.length_le
    have htext := length_textContents_le voids Empty.elim (joined written)
    have hmarkup := length_markup_element voids Empty.elim tag attributes' (joined written)
    rw [textContents_joined] at htext
    simp only [textContents, textContent_element, textContents_joined, String.append_empty]
    simp only [textContent, Encoding.writePiece]
    omega

theorem block (h : ReadAlike grown written) (kind : BlockKind) :
    ReadAlike [.block kind (childrenOf (joined grown))]
      [.block kind (childrenOf (joined written))] where
  nil := by simp [children, attribute?]
  same := by
    intro htextual
    rw [areTextual, areTextual, Bool.and_true, isTextual_block, areTextual_joined] at htextual
    simp only [textContents, textContent_block, textContents_joined, h.same htextual]
  longer := by
    intro htextual
    rw [areTextual, areTextual, Bool.and_true, isTextual_block, areTextual_joined] at htextual
    simpa only [textContents, textContent_block, textContents_joined, String.append_empty]
      using h.longer htextual

/-- Frames that were filled with pieces that are read alike become such pieces. -/
theorem frame (h : ReadAlike grown written) (voids : List String) (kind : FrameKind)
    (name : String) :
    ReadAlike [ofFrame kind name grown] [Encoding.markupClosed voids (ofFrame kind name written)] := by
  cases kind with
  | ofElement => exact h.element voids name _ _
  | ofAttribute =>
    refine ⟨?_, fun _ => rfl, fun htextual => by cases htextual⟩
    simp [children, attribute?, ofFrame, Encoding.markupClosed]
  | ofSection => exact h.block .ofSection
  | ofPartial => exact h.block (.ofPartial name)

/-- The values of the attributes that are made of the pieces: some is there in both or in
neither, and they are the same just if the pieces are textual. -/
theorem attributeValue (h : ReadAlike grown written) :
    (Frame.attributeValue (joined written) = none ↔
        Frame.attributeValue (joined grown) = none) ∧
      (Frame.attributeValue (joined written) = Frame.attributeValue (joined grown) ↔
        areTextual grown = true) := by
  by_cases hnone : children grown = []
  · have hwritten := h.nil.mp hnone
    have htexts : textContents written = textContents grown := by
      rw [← textContents_children written, ← textContents_children grown, hnone, hwritten]
      rfl
    rw [attributeValue_joined_of_nil hnone, attributeValue_joined_of_nil hwritten]
    exact ⟨Iff.rfl, iff_of_true rfl (h.textContents_eq_iff.mp htexts)⟩
  · rw [attributeValue_joined hnone, attributeValue_joined fun hwritten => hnone (h.nil.mpr hwritten),
      Option.some.injEq]
    exact ⟨by simp, h.textContents_eq_iff⟩

end ReadAlike

end Piece

end Stencil
