import Stencil.Proofs.Render.Nesting

/-!
# Markup of widgets within widgets

Markup is written as pieces come in, and so are the widgets among them, also those that end up
in the value of an attribute.  What a widget is written as depends on nothing but what the
widgets are written as that its own script puts in.

* `Host.render_congr` — renderings that encode the pieces of a script in the same way.
* `Host.layered_widgetMarkup` — widgets are written layer by layer.
-/

namespace Stencil

variable {ω α : Type}

/-! ## Encodings of the same pieces -/

/-- Closing frames depends on how closed frames are encoded, not on single pieces. -/
theorem Assembly.closeFrame_congr {encoding encoding' : Encoding ω α}
    (hclosed : encoding.closed = encoding'.closed) (assembly : Assembly ω) (request : Closing) :
    assembly.closeFrame encoding request = assembly.closeFrame encoding' request := by
  obtain ⟨leaf, closed, finish⟩ := encoding
  obtain ⟨leaf', closed', finish'⟩ := encoding'
  obtain rfl : closed = closed' := hclosed
  rfl

theorem Assembly.closeAll_congr {encoding encoding' : Encoding ω α}
    (hclosed : encoding.closed = encoding'.closed) (assembly : Assembly ω) :
    assembly.closeAll encoding = assembly.closeAll encoding' := by
  obtain ⟨leaf, closed, finish⟩ := encoding
  obtain ⟨leaf', closed', finish'⟩ := encoding'
  obtain rfl : closed = closed' := hclosed
  rfl

section Congr

variable {encoding encoding' : Encoding ω α}

mutual
theorem Directive.run_congr (hclosed : encoding.closed = encoding'.closed) :
    ∀ (step : Directive) (_ : ∀ piece ∈ step.leaves, encoding.leaf piece = encoding'.leaf piece)
      (assembly : Assembly ω),
      step.run (Assembly.sink encoding) assembly = step.run (Assembly.sink encoding') assembly
  | .frame kind name body, hleaves, assembly => by
    have hbody := Script.run_congr hclosed body hleaves (assembly.openFrame kind name).2
    have hclose := Assembly.closeFrame_congr hclosed
      (Script.run (Assembly.sink encoding) body (assembly.openFrame kind name).2)
      (assembly.openFrame kind name).1
    exact hclose.trans (congrArg (Assembly.closeFrame encoding' · _) hbody)
  | .leaf piece, hleaves, assembly => by
    have hleaf := hleaves piece List.mem_cons_self
    show assembly.put encoding piece = assembly.put encoding' piece
    rw [Assembly.put, Assembly.put, hleaf]
  | .closingTag _ _, _, assembly => Assembly.closeFrame_congr hclosed assembly _
  | .warning _, _, _ => rfl
/-- A script does the same with two encodings that agree on the pieces it puts in. -/
theorem Script.run_congr (hclosed : encoding.closed = encoding'.closed) :
    ∀ (script : Script)
      (_ : ∀ piece ∈ Script.leaves script, encoding.leaf piece = encoding'.leaf piece)
      (assembly : Assembly ω),
      Script.run (Assembly.sink encoding) script assembly =
        Script.run (Assembly.sink encoding') script assembly
  | [], _, _ => rfl
  | step :: rest, hleaves, assembly => by
    obtain ⟨hstep, hrest⟩ := List.forall_mem_append.mp hleaves
    rw [Script.run, Script.run, Directive.run_congr hclosed step hstep,
      Script.run_congr hclosed rest hrest]
end

/-- So does a rendering. -/
theorem Host.render_congr (host : Host) {template : Template} {graph : Graph} {data : Json}
    (hclosed : encoding.closed = encoding'.closed) (hfinish : encoding.finish = encoding'.finish)
    (hleaves : ∀ piece ∈ Script.leaves (host.scriptOf template graph data),
      encoding.leaf piece = encoding'.leaf piece) :
    host.render encoding template graph data = host.render encoding' template graph data := by
  have hrun := Script.run_congr hclosed _ hleaves (.start template.config.startId)
  simp only [render, Assembly.output, hrun, Assembly.closeAll_congr hclosed, hfinish]

end Congr

/-! ## Widgets in markup -/

namespace Encoding

variable {voids : List String} {written written' : Widget → Logged String}

/-- What a piece is written as depends on its widgets. -/
theorem markupLeaf_congr (piece : Piece Widget)
    (h : ∀ w ∈ piece.widgets, written w = written' w) :
    markupLeaf voids written piece = markupLeaf voids written' piece := by
  cases piece with
  | text _ | raw _ | attr _ => rfl
  | _ => simp only [markupLeaf, writeLeaf, Piece.fill_congr _ h]

/-- A piece is cut off if one of its widgets is. -/
theorem endless_markupLeaf (piece : Piece Widget) :
    (markupLeaf voids written piece).log.endless =
      piece.widgets.any fun w => (written w).log.endless := by
  cases piece with
  | text _ | raw _ | attr _ => rfl
  | _ => exact (congrArg Log.endless (Log.append_empty _)).trans (Piece.endless_fill written _)

end Encoding

namespace Host

variable {host : Host} {template : Template} {graph : Graph} {data : Json} {voids : List String}
  {written written' : Widget → Logged String}

/-- The widgets that the script of a graph puts in. -/
def scriptWidgets (host : Host) (template : Template) (graph : Graph) (data : Json) :
    List Widget :=
  (Script.leaves (host.scriptOf template graph data)).flatMap Piece.widgets

theorem scriptWidgets_subset (hgraph : Graph.allWidgets graph ⊆ Graph.allWidgets template.graph) :
    host.scriptWidgets template graph data ⊆ host.widgetsAround template := by
  intro w hw
  obtain ⟨piece, hpiece, hmem⟩ := List.mem_flatMap.mp hw
  exact host.showOnly_scriptOf template data hgraph piece hpiece hmem

/-- Markup depends on what the widgets are written as that the script puts in. -/
theorem render_markup_congr
    (h : ∀ w ∈ host.scriptWidgets template graph data, written w = written' w) :
    host.render (.markup voids written) template graph data =
      host.render (.markup voids written') template graph data :=
  host.render_congr rfl rfl fun piece hpiece => Encoding.markupLeaf_congr piece fun w hw =>
    h w (List.mem_flatMap.mpr ⟨piece, hpiece, hw⟩)

/-- It comes to an end if all of these do. -/
theorem ends_render_markup :
    (host.render (.markup voids written) template graph data).Ends ↔
      ∀ w ∈ host.scriptWidgets template graph data, (written w).Ends := by
  have hleaves : ((Script.leaves (host.scriptOf template graph data)).any fun piece =>
      ((Encoding.markup voids written).leaf piece).log.endless) =
        (host.scriptWidgets template graph data).any fun w => (written w).log.endless := by
    rw [scriptWidgets, List.any_flatMap]
    exact congrArg (List.any _) (funext Encoding.endless_markupLeaf)
  rw [Logged.Ends, endless_render _ _ _ _ _ fun _ => rfl, hleaves, List.any_eq_false]
  simp only [Bool.not_eq_true, Logged.Ends]

/-- Markup matches if what the widgets are written as does. -/
theorem matches_render_markup
    (h : ∀ w ∈ host.scriptWidgets template graph data, (written w).Matches (written' w)) :
    (host.render (.markup voids written) template graph data).Matches
      (host.render (.markup voids written') template graph data) :=
  .of_parts h render_markup_congr ends_render_markup ends_render_markup

/-- The widgets that a widget puts in when it is written. -/
def writtenWithin (host : Host) (widget : Widget) : List Widget :=
  host.scriptWidgets (host.viewOf widget) (host.viewOf widget).graph (host.dataOf widget.child)

/-- The markup of a widget is made of that of the widgets that it puts in. -/
theorem layered_widgetMarkup (host : Host) :
    Logged.Layered host.widgetMarkup host.writtenWithin where
  zero := fun _ => Bool.noConfusion
  succ := fun _ _ => ends_render_markup
  congr := fun _ _ _ hinside => render_markup_congr hinside

theorem writtenWithin_subset {w : Widget} (hw : w ∈ host.widgetsAround template) :
    host.writtenWithin w ⊆ host.widgetsAround template :=
  List.Subset.trans (scriptWidgets_subset (List.Subset.refl _)) (widgetsAround_viewOf hw)

end Host

end Stencil
