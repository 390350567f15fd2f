import Stencil.Proofs.Assembly.Kept
import Stencil.Proofs.Piece.Reading

/-!
# The widgets in an assembly

However its frames are closed, an assembly only ever moves pieces about and joins them.
The widgets in what comes out are therefore among those that have been put in, even where
closing tags cross one another.

* `Piece.ShowOnly` — all widgets in some pieces are among given ones.
* `Assembly.showOnly_output` — the output shows only widgets that the script puts in.
-/

namespace Stencil

/-! ## Pieces that show certain widgets only -/

namespace Piece

/-- All widgets in some pieces are among given ones. -/
def ShowOnly (allowed : List Widget) (pieces : List (Piece Widget)) : Prop :=
  ∀ piece ∈ pieces, piece.widgets ⊆ allowed

variable {allowed : List Widget} {pieces : List (Piece Widget)} {piece : Piece Widget}

theorem mem_widgetsAll {w : Widget} {pieces : List (Piece Widget)} :
    w ∈ widgetsAll pieces ↔ ∃ piece ∈ pieces, w ∈ piece.widgets := by
  induction pieces with
  | nil => simp [widgetsAll]
  | cons piece rest ih => simp [widgetsAll, ih]

theorem showOnly_iff : ShowOnly allowed pieces ↔ widgetsAll pieces ⊆ allowed := by
  constructor
  · intro h w hw
    obtain ⟨piece, hpiece, hmem⟩ := mem_widgetsAll.mp hw
    exact h piece hpiece hmem
  · intro h piece hpiece w hw
    exact h (mem_widgetsAll.mpr ⟨piece, hpiece, hw⟩)

namespace ShowOnly

theorem nil : ShowOnly allowed [] := fun _ hmem => absurd hmem List.not_mem_nil

theorem append {first second : List (Piece Widget)} (hfirst : ShowOnly allowed first)
    (hsecond : ShowOnly allowed second) : ShowOnly allowed (first ++ second) := by
  intro piece hmem
  rcases List.mem_append.mp hmem with h | h
  · exact hfirst piece h
  · exact hsecond piece h

theorem reverse (h : ShowOnly allowed pieces) : ShowOnly allowed pieces.reverse :=
  fun piece hmem => h piece (List.mem_reverse.mp hmem)

/-- Joining a piece to the last of others brings in no widgets but its own. -/
theorem pushJoined (h : ShowOnly allowed pieces) (hpiece : piece.widgets ⊆ allowed) :
    ShowOnly allowed (pushJoined join? pieces piece) := by
  have htotal := reading_widgets.toAdditive.total_pushJoined pieces piece
  rw [← widgetsAll_eq_total, ← widgetsAll_eq_total] at htotal
  have hall : widgetsAll (Stencil.pushJoined join? pieces piece).reverse ⊆ allowed := by
    rw [htotal]
    exact List.append_subset.mpr ⟨showOnly_iff.mp h.reverse, hpiece⟩
  have hreverse := (showOnly_iff.mpr hall).reverse
  rwa [List.reverse_reverse] at hreverse

end ShowOnly

end Piece

/-! ## What is held shows certain widgets only -/

variable {α : Type} {allowed : List Widget}

theorem Frame.widgets_piece {frame : Frame Widget}
    (h : Piece.ShowOnly allowed frame.children) : frame.piece.widgets ⊆ allowed := by
  have hchildren := Piece.showOnly_iff.mp h.reverse
  obtain ⟨kind, name, address, attributes, children, nextIndex⟩ := frame
  cases kind with
  | ofElement =>
    simp only [piece, Piece.widgets_element]
    exact hchildren
  | ofAttribute => exact List.nil_subset _
  | ofSection | ofPartial =>
    simp only [piece, Piece.widgets_block]
    exact hchildren

/-- Lists that show certain widgets only keep doing so, if only such are put in. -/
theorem Piece.gathers_showOnly (allowed : List Widget) :
    Piece.Gathers (·.widgets ⊆ allowed) (ShowOnly allowed) where
  nil := .nil
  push := fun hpieces hpiece _ => hpieces.pushJoined hpiece
  frame := Frame.widgets_piece

/-- What comes out shows only widgets that the script puts in, however it closes its frames. -/
theorem Assembly.showOnly_output {encoding : Encoding Widget α} (keeps : encoding.Keeps)
    {script : Script} (hscript : Piece.ShowOnly allowed (Script.leaves script))
    (startId : String) :
    Piece.ShowOnly allowed
      ((Script.run (Assembly.sink encoding) script (.start startId)).closeAll
        encoding).results.reverse :=
  ((Piece.gathers_showOnly allowed).results keeps hscript startId).reverse

end Stencil
