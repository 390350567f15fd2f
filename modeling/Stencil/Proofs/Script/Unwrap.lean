import Stencil.Proofs.Piece.Reading
import Stencil.Proofs.Render.Direct

/-!
# Scripts without the frames of partials

A partial leaves a block behind that is not to be seen in what comes out.  So it makes no
difference to a reading of the pieces whether the steps of its body are done within a
frame or among the steps around it, and warnings make none either.

* `Script.Unwraps` — the same steps, with partials opened up and warnings left out.
* `Script.Unwraps.total_pieces` — such scripts read the same.
-/

namespace Stencil

/-- The second script does what the first one does, with the steps of partials among those
around them and without warnings.  Attributes are the same in both, and there are no closing
tags. -/
inductive Script.Unwraps : Script → Script → Prop
  | nil : Unwraps [] []
  | leaf {rest rest' : Script} (piece : Piece Widget) (hrest : Unwraps rest rest') :
      Unwraps (.leaf piece :: rest) (.leaf piece :: rest')
  | attr {rest rest' body : Script} (name : String) (htags : Script.tagFree body = true)
      (hrest : Unwraps rest rest') :
      Unwraps (.frame .ofAttribute name body :: rest) (.frame .ofAttribute name body :: rest')
  | element {body body' rest rest' : Script} (tag : String) (hbody : Unwraps body body')
      (hrest : Unwraps rest rest') :
      Unwraps (.frame .ofElement tag body :: rest) (.frame .ofElement tag body' :: rest')
  | sectionBlock {body body' rest rest' : Script} (name : String) (hbody : Unwraps body body')
      (hrest : Unwraps rest rest') :
      Unwraps (.frame .ofSection name body :: rest) (.frame .ofSection name body' :: rest')
  | partialBlock {body body' rest rest' : Script} (name : String) (hbody : Unwraps body body')
      (hsettled : Piece.Settled (Script.pieces body)) (hrest : Unwraps rest rest') :
      Unwraps (.frame .ofPartial name body :: rest) (body' ++ rest')
  | warning {rest rest' : Script} (warning : Warning) (hrest : Unwraps rest rest') :
      Unwraps (.warning warning :: rest) rest'

namespace Script.Unwraps

variable {first first' second second' script script' : Script}

theorem append (hfirst : Unwraps first first') (hsecond : Unwraps second second') :
    Unwraps (first ++ second) (first' ++ second') := by
  induction hfirst with
  | nil => exact hsecond
  | leaf piece _ ih => exact .leaf piece ih
  | attr name htags _ ih => exact .attr name htags ih
  | element tag hbody _ _ ih => exact .element tag hbody ih
  | sectionBlock name hbody _ _ ih => exact .sectionBlock name hbody ih
  | partialBlock name hbody hsettled _ _ ih =>
    rw [List.append_assoc]
    exact .partialBlock name hbody hsettled ih
  | warning w _ ih => exact .warning w ih

theorem flatMap {α : Type} (items : List α) {steps steps' : α → Script}
    (h : ∀ item ∈ items, Unwraps (steps item) (steps' item)) :
    Unwraps (items.flatMap steps) (items.flatMap steps') := by
  induction items with
  | nil => exact .nil
  | cons item rest ih =>
    rw [List.flatMap_cons, List.flatMap_cons]
    exact (h item List.mem_cons_self).append
      (ih fun other hother => h other (List.mem_cons_of_mem _ hother))

/-- Unwrapping leaves the attributes on their way to an element as they are. -/
theorem attributes_pieces (h : Unwraps script script') :
    Piece.attributes (pieces script) = Piece.attributes (pieces script') := by
  induction h with
  | nil => rfl
  | leaf piece _ ih => rw [pieces, pieces, Piece.attributes_append, Piece.attributes_append, ih]
  | attr name htags _ ih =>
    rw [pieces, pieces, Piece.attributes_append, Piece.attributes_append, ih]
  | element tag _ _ _ ih =>
    rw [pieces, pieces, Piece.attributes_append, Piece.attributes_append, ih]
    rfl
  | sectionBlock name _ _ _ ih =>
    rw [pieces, pieces, Piece.attributes_append, Piece.attributes_append, ih]
    rfl
  | partialBlock name _ hsettled _ ihbody ih =>
    rw [pieces, pieces_append, Piece.attributes_append, Piece.attributes_append, ih, ← ihbody,
      hsettled.attributes_eq]
    rfl
  | warning w _ ih => exact ih

/-- Unwrapped scripts read the same. -/
theorem total_pieces {β : Type} {op : β → β → β} {unit : β} {measure : Piece Widget → β}
    (reading : Piece.Reading op unit measure) (h : Unwraps script script') :
    total op unit measure (pieces script) = total op unit measure (pieces script') := by
  have hcons : ∀ (step : Directive) (rest : Script),
      total op unit measure (pieces (step :: rest)) =
        op (total op unit measure step.pieces) (total op unit measure (pieces rest)) := by
    intro step rest
    rw [pieces, reading.toAdditive.total_append]
  have hframe : ∀ (kind : FrameKind) (name : String) (body : Script),
      total op unit measure (Directive.pieces (.frame kind name body)) =
        measure (Piece.ofFrame kind name (pieces body)) := by
    intro kind name body
    rw [Directive.pieces, reading.toAdditive.total_singleton]
  induction h with
  | nil => rfl
  | leaf piece _ ih => rw [hcons, hcons, ih]
  | attr name htags _ ih => rw [hcons, hcons, ih]
  | element tag hbody _ ihbody ih =>
    rw [hcons, hcons, ih, hframe, hframe, Piece.ofFrame, Piece.ofFrame, hbody.attributes_pieces]
    refine congrArg (op · _) (reading.element _ _ _ _ ?_)
    rw [reading.total_joined, reading.total_joined, ihbody]
  | sectionBlock name _ _ ihbody ih =>
    rw [hcons, hcons, ih, hframe, hframe, Piece.ofFrame, Piece.ofFrame, reading.block,
      reading.block, reading.total_joined, reading.total_joined, ihbody]
  | partialBlock name _ _ _ ihbody ih =>
    rw [hcons, ih, hframe, Piece.ofFrame, reading.block, reading.total_joined, ihbody,
      pieces_append, reading.toAdditive.total_append]
  | warning w _ ih => rw [hcons, ← ih, Directive.pieces, total, reading.unit_op]

/-- There are no closing tags in either script. -/
theorem tagFree (h : Unwraps script script') :
    Script.tagFree script = true ∧ Script.tagFree script' = true := by
  induction h with
  | nil => exact ⟨rfl, rfl⟩
  | leaf piece _ ih => exact ih
  | attr name htags _ ih =>
    obtain ⟨hrest, hrest'⟩ := ih
    rw [Script.tagFree, Script.tagFree, Directive.tagFree, htags, hrest, hrest']
    exact ⟨rfl, rfl⟩
  | element tag _ _ ihbody ih | sectionBlock name _ _ ihbody ih =>
    obtain ⟨hrest, hrest'⟩ := ih
    obtain ⟨hbody, hbody'⟩ := ihbody
    rw [Script.tagFree, Script.tagFree, Directive.tagFree, Directive.tagFree, hbody, hbody', hrest,
      hrest']
    exact ⟨rfl, rfl⟩
  | partialBlock name _ _ _ ihbody ih =>
    obtain ⟨hrest, hrest'⟩ := ih
    obtain ⟨hbody, hbody'⟩ := ihbody
    rw [Script.tagFree, Directive.tagFree, tagFree_append, hbody, hbody', hrest, hrest']
    exact ⟨rfl, rfl⟩
  | warning w _ ih => exact ih

end Script.Unwraps

end Stencil
