import Stencil.Proofs.Assembly.Kept
import Stencil.Proofs.Piece.Trim
import Stencil.Proofs.Render.Nesting
import Stencil.Proofs.Script.Compositional

/-!
# Rendered output is trim

Pieces are joined wherever they come to stand side by side: as they are put in, as frames are
closed, be it out of turn, and as blocks are opened and widgets put in their places.  So no
text is cut up in what a rendering gives, at any depth and whatever closing tags its graphs
hold.

* `Piece.gathers_trim` — an assembly holds trim pieces only.
* `Host.areTrim_tree`, `Host.areTrim_fragment` — trees and fragments are trim.
* `Host.areTrim` — both at once.
-/

namespace Stencil

/-! ## Trees -/

/-- Trim pieces stay so as trim pieces are put in; attributes go to their elements. -/
theorem Piece.gathers_trim :
    Piece.Gathers (fun piece => piece.IsTrim ∨ ∃ attr, piece = .attr attr)
      (Trimmed join? IsTrim) where
  nil := .nil
  push := by
    intro pieces piece hpieces hpiece hattr
    rcases hpiece with hpiece | ⟨attr, rfl⟩
    · exact hpieces.pushJoined joinsWell hpiece
    · exact absurd rfl (hattr attr)
  frame := fun hchildren => isTrim_frame ((trimmed_iff _).mp hchildren)

/-- The pieces that a graph puts in itself are trim. -/
theorem Script.compositional_isTrim :
    Script.Compositional (fun _ => true) (∀ piece ∈ Script.leaves ·, piece.IsTrim) where
  nil := fun _ hpiece => absurd hpiece List.not_mem_nil
  append := by
    intro first second hfirst hsecond
    rw [Script.leaves_append]
    exact List.forall_mem_append.mpr ⟨hfirst, hsecond⟩
  frame := by
    intro kind name body hbody
    rw [Script.leaves, Directive.leaves, Script.leaves, List.append_nil]
    exact hbody
  warning := fun _ _ hpiece => absurd hpiece List.not_mem_nil
  text := fun _ => List.forall_mem_singleton.mpr trivial
  comment := fun _ => List.forall_mem_singleton.mpr trivial
  triple := fun _ _ _ => List.forall_mem_singleton.mpr trivial
  closingTag := fun _ _ _ _ hpiece => absurd hpiece List.not_mem_nil
  widget := fun _ _ => List.forall_mem_singleton.mpr trivial

namespace Host

theorem areTrim_tree (host : Host) (template : Template) (data : Json) :
    Piece.AreTrim (host.tree template data).value.pieces := by
  have hleaves : ∀ piece ∈ Script.leaves (host.scriptOf template template.graph data),
      piece.IsTrim :=
    Script.compositional_isTrim.steps_walk _ _ _ _ (fun reached _ => Graph.every_true _) _
  rw [pieces_tree]
  exact (Piece.trimmed_iff _).mp (Piece.gathers_trim.results Encoding.keeps_tree
    (fun piece hpiece => .inl (hleaves piece hpiece)) template.config.startId)

/-! ## Fragments -/

/-- A fragment is trim if its widgets show trim nodes. -/
theorem areTrim_render_fragment (host : Host) {showWidget : Widget → Logged (List Dom.Node)}
    (hwidgets : ∀ widget, Dom.Node.AreTrim (showWidget widget).value) (template : Template)
    (data : Json) :
    Dom.Node.AreTrim
      (host.render (.fragment showWidget) template template.graph data).value.nodes := by
  rw [render_fragment]
  simp only [Logged.value_bind, Logged.value_pure]
  refine Piece.areTrim_ofPieces _ ?_
  rw [Piece.widgets_fillAll]
  exact List.forall_mem_map.mpr fun widget _ => hwidgets widget

/-- The contents of a container are trim if the container is. -/
theorem areTrim_mounted (host : Host) (template : Template) {fragment : Fragment}
    (h : Dom.Node.AreTrim fragment.nodes) :
    Dom.Node.AreTrim (host.mounted template fragment).nodes := by
  unfold mounted Fragment.unwrapContainer
  split
  · split
    · rename_i hnodes
      rw [hnodes] at h
      exact h.2.1
    · exact h
  · exact h

/-- Widgets show trim nodes, however deep they are nested. -/
theorem areTrim_widgetNodes (host : Host) (depth : Nat) (widget : Widget) :
    Dom.Node.AreTrim (host.widgetNodes depth widget).value := by
  induction depth generalizing widget with
  | zero => exact ⟨.nil, trivial⟩
  | succ depth ih =>
    rw [widgetNodes, Logged.value_bind, Logged.value_pure]
    exact host.areTrim_mounted _ (host.areTrim_render_fragment ih _ _)

theorem areTrim_fragment (host : Host) (template : Template) (data : Json) :
    Dom.Node.AreTrim (host.fragment template data).value.nodes := by
  rw [fragment, Logged.value_bind, Logged.value_pure]
  exact host.areTrim_mounted template
    (host.areTrim_render_fragment (host.areTrim_widgetNodes _) template data)

/-- At no depth has the tree of a template two texts or two pieces of markup side by side, a
list of children that is there and empty, or an attribute on its way to an element; and at no
depth has the fragment two texts side by side. -/
theorem areTrim (host : Host) (template : Template) (data : Json) :
    Piece.AreTrim (host.tree template data).value.pieces ∧
      Dom.Node.AreTrim (host.fragment template data).value.nodes :=
  ⟨host.areTrim_tree template data, host.areTrim_fragment template data⟩

end Host

end Stencil
