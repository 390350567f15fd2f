import Stencil.Proofs.Render.Inner
import Stencil.Proofs.Render.Layers

/-!
# Renderings that come to an end

A widget is rendered within the rendering of what holds it, with the widgets that it shows within
its own, and nothing counts how deep this goes.  A rendering comes to an end just if no chain of
widgets, each of them put in by the one before, is endless.  For markup these are the widgets of
the script, also where they end up in the value of an attribute; for fragments they are those that
the tree still shows.

* `Host.ends_html`, `Host.ends_outerHtml` — markup that comes to an end.
* `Host.ends_fragment` — fragments that come to an end.
-/

namespace Stencil.Host

open Logged (NestsEndlessly)

variable (host : Host) (template : Template) (data : Json)

/-- Markup comes to an end unless its widgets are nested endlessly. -/
theorem ends_render_markupEncoding {graph : Graph}
    (hgraph : Graph.allWidgets graph ⊆ Graph.allWidgets template.graph) :
    (host.render (host.markupEncoding template) template graph data).Ends ↔
      ¬ NestsEndlessly host.writtenWithin (host.scriptWidgets template graph data) :=
  ends_render_markup.trans <| host.layered_widgetMarkup.ends_iff_not_nestsEndlessly
    (fun _ => writtenWithin_subset) (scriptWidgets_subset hgraph)
    (host.length_widgetsAround_le template)

theorem ends_html :
    (host.html template data).Ends ↔ ¬ NestsEndlessly host.writtenWithin
      (host.scriptWidgets template (host.innerGraph template) data) :=
  host.ends_render_markupEncoding template data (host.allWidgets_innerGraph template)

theorem ends_outerHtml :
    (host.outerHtml template data).Ends ↔ ¬ NestsEndlessly host.writtenWithin
      (host.scriptWidgets template template.graph data) :=
  host.ends_render_markupEncoding template data (List.Subset.refl _)

/-- A fragment comes to an end unless the widgets of its tree are nested endlessly. -/
theorem ends_fragment :
    (host.fragment template data).Ends ↔ ¬ NestsEndlessly host.holes
      (Piece.widgetsAll (host.tree template data).value.pieces) := by
  have hmounted : (host.fragment template data).Ends ↔
      (host.render (.fragment (host.widgetNodes (host.nestingBound template))) template
        template.graph data).Ends := by
    rw [Logged.Ends, fragment, Logged.log_bind, Logged.log_pure, Log.append_empty, Logged.Ends]
  rw [hmounted, ends_render_fragment]
  exact host.layered_widgetNodes.ends_iff_not_nestsEndlessly (fun _ => holes_subset)
    (Piece.showOnly_iff.mp (host.showOnly_tree template data))
    (host.length_widgetsAround_le template)

end Stencil.Host
