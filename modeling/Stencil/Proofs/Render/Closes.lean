import Stencil.Host.Render
import Stencil.Proofs.Assembly.Contents
import Stencil.Proofs.Script.Orderly

/-!
# Own closes in a rendering

Each frame of a rendering is closed by its own request in the end, whatever closing tags
stand in the graph.  That close is for the frame itself, or it does nothing because the
frame was closed before, with one exception: a closing tag with the address of a frame
that was closed before is taken for the close of that frame, and then the own close of
the frame is taken for the end of something else.

* `Close.IsProper.isQuiet` — what a proper close leaves alone.
* `Host.render_eq_chronicle` — a rendering and its chronicle come from one run.
* `Host.opened_once` — no two frames of a rendering have the same address.
* `Host.isProper_iff` — exactly which closes of a rendering are proper.
-/

namespace Stencil

variable {ω α : Type}

/-! ## What a proper close leaves alone -/

/-- Closing the innermost frame raises no warning but that about attributes. -/
theorem Assembly.ofKind_pop (encoding : Encoding ω α) (assembly : Assembly ω)
    {kind : WarningKind} (hkind : kind ≠ .misplacedAttribute) :
    Warning.ofKind kind (assembly.pop encoding).log.warnings =
      Warning.ofKind kind assembly.log.warnings := by
  have htest : ∀ message, ((Warning.mk .misplacedAttribute message).kind == kind) = false :=
    fun _ => beq_false_of_ne hkind.symm
  exact filter_warnings_pop htest encoding assembly

/-- A close that raises no warning about closes, and either changes nothing of what is there
or turns its own frame into a piece; the frames around it stay open. -/
structure Close.IsQuiet (encoding : Encoding ω α) (close : Close ω) : Prop where
  mismatches : Warning.ofKind .tagMismatch close.after.log.warnings =
    Warning.ofKind .tagMismatch close.before.log.warnings
  strays : Warning.ofKind .strayClose close.after.log.warnings =
    Warning.ofKind .strayClose close.before.log.warnings
  contents : close.after.contents = close.before.contents ∨
    ∃ frame outer, close.before.stack = frame :: outer ∧ frame.closing = close.request ∧
      close.after.contents =
        (Contents.mk (outer.map Frame.unnumbered) close.before.results).place
          (encoding.closed frame.piece)

theorem Close.IsProper.isQuiet {encoding : Encoding ω α} {close : Close ω}
    (h : close.IsProper encoding) : close.IsQuiet encoding := by
  cases h with
  | @own frame outer hstack hown hafter =>
    refine ⟨?_, ?_, .inr ⟨frame, outer, hstack, hown, ?_⟩⟩
    · rw [hafter, Assembly.ofKind_pop encoding _ (by decide)]
    · rw [hafter, Assembly.ofKind_pop encoding _ (by decide)]
    · rw [hafter]
      exact Assembly.contents_pop encoding hstack
  | late hlate hafter =>
    have hlog : close.after.log = close.before.log := by
      rw [hafter, Assembly.forget]
      split <;> rfl
    refine ⟨?_, ?_, .inl ?_⟩
    · rw [hlog]
    · rw [hlog]
    · rw [hafter, Assembly.contents_forget]

namespace Host

variable (host : Host) (encoding : Encoding ω α) (template : Template) (graph : Graph)
  (data : Json)

/-- The chronicle of a rendering. -/
def chronicle : Chronicle ω :=
  Script.run (Chronicle.sink encoding) (host.scriptOf template graph data)
    (.start template.config.startId)

/-- A rendering makes its output from the assembly of its chronicle. -/
theorem render_eq_chronicle :
    host.render encoding template graph data =
      ⟨((host.chronicle encoding template graph data).assembly.output encoding).1,
        ((host.chronicle encoding template graph data).assembly.output encoding).2.log⟩ := by
  rw [chronicle, Script.assembly_run]
  rfl

theorem orderly_chronicle :
    ∃ path, (host.chronicle encoding template graph data).Orderly encoding path := by
  obtain ⟨path, horderly, -⟩ := Script.orderly_run (host.scriptOf template graph data) _ _
    (Chronicle.orderly_start encoding template.config.startId)
  exact ⟨path, horderly⟩

/-- No two frames of a rendering have the same address. -/
theorem opened_once :
    ((host.chronicle encoding template graph data).opened.map Closing.address).Nodup := by
  obtain ⟨path, horderly⟩ := host.orderly_chronicle encoding template graph data
  exact horderly.once

/-- The own close of a frame is proper just if no closing tag before it had the address of
the frame after that had been closed.  A proper close leaves all else alone, and any other
is taken for the end of something else. -/
theorem isProper_iff {close : Close ω} {earlier : List (Close ω)}
    (hclose : close :: earlier <:+ (host.chronicle encoding template graph data).closes)
    (hown : close.request.explicit = false) :
    (close.IsProper encoding ↔ ¬ ∃ tag ∈ earlier, tag.Takes close.request.address) ∧
      (close.IsProper encoding → close.IsQuiet encoding) ∧
      (¬ close.IsProper encoding → close.Misfires encoding) := by
  obtain ⟨path, horderly⟩ := host.orderly_chronicle encoding template graph data
  rcases horderly.settled close earlier hclose hown with ⟨hproper, hfree⟩ | ⟨hmisfires, htaken⟩
  · exact ⟨iff_of_true hproper hfree, fun _ => hproper.isQuiet, fun hnot => absurd hproper hnot⟩
  · have hnot := hmisfires.not_isProper
    exact ⟨iff_of_false hnot (not_not_intro htaken), fun hproper => absurd hproper hnot,
      fun _ => hmisfires⟩

/-- Tags that close an element from within another one, and then that other one again. -/
def crossedTags : Template :=
  .ofGraph
    [.element ⟨"section", [],
      [.element ⟨"div", [],
        [.element ⟨"span", [],
          [.closingTag (some "0.0") "div", .closingTag (some "0.0.0") "span"], false⟩], false⟩,
        .text "tail"], false⟩]
    [] .injected {}

/-- The closes of these tags and frames, last one first. -/
def crossedCloses : List (Close Widget) :=
  (empty.chronicle .tree crossedTags crossedTags.graph .null).closes

theorem isProper_crossedTags :
    (crossedCloses.head (by decide +kernel)).request.explicit = false ∧
      ((crossedCloses.head (by decide +kernel)).IsProper .tree ↔
        ¬ ∃ tag ∈ crossedCloses.tail,
          tag.Takes (crossedCloses.head (by decide +kernel)).request.address) := by
  have hown : (crossedCloses.head (by decide +kernel)).request.explicit = false := by
    decide +kernel
  have hclose : crossedCloses.head (by decide +kernel) :: crossedCloses.tail <:+
      (empty.chronicle .tree crossedTags crossedTags.graph .null).closes := by
    rw [List.cons_head_tail]
    exact List.suffix_refl _
  exact ⟨hown, (isProper_iff empty .tree crossedTags crossedTags.graph .null hclose hown).1⟩

/-- The own close of the `span` comes after a closing tag was taken for it, and closes the
`section` around, with warnings. -/
theorem misfire_crossedTags :
    ∃ close ∈ crossedCloses, close.request = ⟨some "0.0.0", .ofElement, "span", false⟩ ∧
      close.before.openAddresses = ["0"] ∧ close.after.openAddresses = [] ∧
      (Warning.ofKind .tagMismatch close.before.log.warnings).length = 1 ∧
      (Warning.ofKind .tagMismatch close.after.log.warnings).length = 2 ∧
      (Warning.ofKind .strayClose close.after.log.warnings).length = 1 := by
  have hfound : crossedCloses.any (fun close =>
      decide (close.request = ⟨some "0.0.0", .ofElement, "span", false⟩ ∧
        close.before.openAddresses = ["0"] ∧ close.after.openAddresses = [] ∧
        (Warning.ofKind .tagMismatch close.before.log.warnings).length = 1 ∧
        (Warning.ofKind .tagMismatch close.after.log.warnings).length = 2 ∧
        (Warning.ofKind .strayClose close.after.log.warnings).length = 1)) = true := by
    decide +kernel
  obtain ⟨close, hmem, hclose⟩ := List.any_eq_true.mp hfound
  exact ⟨close, hmem, of_decide_eq_true hclose⟩

end Host

end Stencil
