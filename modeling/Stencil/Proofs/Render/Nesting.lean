import Stencil.Proofs.Assembly.Logs
import Stencil.Proofs.Dom.Shown
import Stencil.Proofs.Graph.Widgets
import Stencil.Proofs.Layered
import Stencil.Proofs.Script.Widgets

/-!
# Widgets within widgets

What a widget shows may hold widgets, and what those show may hold further ones.  A chain
of widgets that is longer than there are widgets comes back to one of them, and never ends.
So a widget that is rendered to the end at any depth is rendered to the end at the depth
that a host allows for, and shows the same wherever it stands.

* `Host.render_fragment` — a fragment is a tree whose widgets have been filled in.
* `Host.layered_widgetNodes` — widgets are made of those within them, layer by layer.
* `Host.isCutOff_length` — as many widgets as there are bound how deep they are nested.
* `Host.value_widgetNodes` — a widget shows the same within a template and by itself.
* `Host.htmlWith_fragment` — the markup of a fragment, with its widgets by themselves.
-/

namespace Stencil

namespace Host

/-! ## The widgets that a rendering can come to -/

theorem closed_widgetsOfTemplate (template : Template) :
    Widget.Closed (widgetsOfTemplate template) := by
  have hgraph : Widget.Closed (Graph.allWidgets template.graph) :=
    fun _ hw => Graph.innerWidgets_subset template.graph hw
  have hpartials : Widget.Closed (Binding.allWidgets template.partials) :=
    fun _ hw => Binding.innerWidgets_subset template.partials hw
  exact hgraph.append hpartials

theorem closed_allWidgets (host : Host) : Widget.Closed host.allWidgets := by
  have hviews : Widget.Closed (host.components.flatMap fun entry =>
      (entry.2.view.map widgetsOfTemplate).getD []) := by
    refine .flatMap fun entry _ => ?_
    cases entry.2.view with
    | none => exact fun _ hw => absurd hw List.not_mem_nil
    | some view => exact closed_widgetsOfTemplate view
  have hinjected : Widget.Closed (Binding.allWidgets host.injected) :=
    fun _ hw => Binding.innerWidgets_subset host.injected hw
  have hprocess : Widget.Closed (Binding.allWidgets host.processWide) :=
    fun _ hw => Binding.innerWidgets_subset host.processWide hw
  exact (hviews.append hinjected).append hprocess

/-- The widgets of a template and those of its host. -/
def widgetsAround (host : Host) (template : Template) : List Widget :=
  widgetsOfTemplate template ++ host.allWidgets

theorem allWidgets_registry (host : Host) (name : RegistryName) :
    Binding.allWidgets (host.registry name) ⊆ host.allWidgets := by
  cases name with
  | injected => exact List.subset_append_of_subset_left _ (List.subset_append_right _ _)
  | processWide => exact List.subset_append_right _ _

theorem widgetsOfTemplate_view {host : Host} {id : ComponentId} {view : Template}
    (hview : (host.component? id).bind Component.view = some view) :
    widgetsOfTemplate view ⊆ host.allWidgets := by
  obtain ⟨component, hcomponent, hview⟩ := Option.bind_eq_some_iff.mp hview
  rw [component?, Option.map_eq_some_iff] at hcomponent
  obtain ⟨entry, hfind, rfl⟩ := hcomponent
  have hmem := List.mem_of_find?_eq_some hfind
  intro w hw
  refine List.mem_append_left _ (List.mem_append_left _ (List.mem_flatMap.mpr ⟨entry, hmem, ?_⟩))
  rw [hview]
  exact hw

/-- While its child has no view, a widget shows those within it. -/
theorem widgetsOfTemplate_template (w : Widget) :
    widgetsOfTemplate w.template = w.innerWidgets := by
  obtain ⟨wrapper, child, replaced, partials, registry, config⟩ := w
  simp only [widgetsOfTemplate, Widget.template, Template.ofGraph, Graph.allWidgets,
    Node.allWidgets, Widget.innerWidgets, List.append_nil]

/-- What a widget shows comes to no widgets but those around the widget. -/
theorem widgetsAround_viewOf {host : Host} {template : Template} {w : Widget}
    (hw : w ∈ host.widgetsAround template) :
    host.widgetsAround (host.viewOf w) ⊆ host.widgetsAround template := by
  refine List.append_subset.mpr ⟨?_, List.subset_append_right _ _⟩
  unfold viewOf
  cases hview : (host.component? w.child).bind Component.view with
  | some view => exact List.subset_append_of_subset_right _ (widgetsOfTemplate_view hview)
  | none =>
    rw [Option.getD_none, widgetsOfTemplate_template]
    exact (closed_widgetsOfTemplate template).append host.closed_allWidgets w hw

/-- The pieces of a tree are the complete ones once all frames are closed. -/
theorem pieces_tree (host : Host) (template : Template) (data : Json) :
    (host.tree template data).value.pieces =
      ((Script.run (Assembly.sink .tree) (host.scriptOf template template.graph data)
        (.start template.config.startId)).closeAll .tree).results.reverse :=
  Tree.pieces_ofPieces _

/-- The script of a graph puts in no widgets but those of the graph, of the partials of its
template and of the registry. -/
theorem showOnly_leaves (host : Host) (template : Template) {graph : Graph} (data : Json)
    {allowed : List Widget}
    (hregistry : Binding.allWidgets (host.registry template.registry) ⊆ allowed)
    (hgraph : Graph.allWidgets graph ⊆ allowed)
    (hpartials : Binding.allWidgets template.partials ⊆ allowed) :
    Piece.ShowOnly allowed (Script.leaves (host.scriptOf template graph data)) :=
  PartialBody.walk_showsOnly hregistry template.config.maxPartialDepth
    template.config.maxPartialDepth ⟨graph, template.partials⟩ hgraph hpartials (.ofData data)

/-- The tree of a template shows no widgets but those that its script puts in. -/
theorem showOnly_pieces (host : Host) {template : Template} {data : Json} {allowed : List Widget}
    (hscript : Piece.ShowOnly allowed
      (Script.leaves (host.scriptOf template template.graph data))) :
    Piece.ShowOnly allowed (host.tree template data).value.pieces := by
  rw [pieces_tree]
  exact Assembly.showOnly_output Encoding.keeps_tree hscript template.config.startId

/-- The script of a graph puts in no widgets but those around its template. -/
theorem showOnly_scriptOf (host : Host) (template : Template) {graph : Graph} (data : Json)
    (hgraph : Graph.allWidgets graph ⊆ Graph.allWidgets template.graph) :
    Piece.ShowOnly (host.widgetsAround template)
      (Script.leaves (host.scriptOf template graph data)) := by
  have hregistry : Binding.allWidgets (host.registry template.registry) ⊆
      host.widgetsAround template :=
    List.subset_append_of_subset_right _ (host.allWidgets_registry _)
  have haround : Graph.allWidgets template.graph ⊆ host.widgetsAround template :=
    List.subset_append_of_subset_left _ (List.subset_append_left _ _)
  have hpartials : Binding.allWidgets template.partials ⊆ host.widgetsAround template :=
    List.subset_append_of_subset_left _ (List.subset_append_right _ _)
  exact host.showOnly_leaves template data hregistry (List.Subset.trans hgraph haround) hpartials

/-- The tree of a template shows no widgets but those around. -/
theorem showOnly_tree (host : Host) (template : Template) (data : Json) :
    Piece.ShowOnly (host.widgetsAround template) (host.tree template data).value.pieces :=
  host.showOnly_pieces (host.showOnly_scriptOf template data (List.Subset.refl _))

/-! ## Fragments as trees with their widgets filled in -/

/-- A fragment is made from the tree by filling in what its widgets show. -/
theorem render_fragment (host : Host) (showWidget : Widget → Logged (List Dom.Node))
    (template : Template) (data : Json) :
    host.render (.fragment showWidget) template template.graph data =
      (do
        let tree ← host.tree template data
        let filled ← Piece.fillAll showWidget tree.pieces
        return ⟨Dom.ofPieces filled⟩ : Logged Fragment) := by
  -- Both encodings keep pieces as they are until the end, so they make the same assembly.
  obtain ⟨closed, hclosed⟩ : ∃ closed, closed =
      (Script.run (Assembly.sink .tree) (host.scriptOf template template.graph data)
        (.start template.config.startId)).closeAll .tree := ⟨_, rfl⟩
  have htree : host.tree template data =
      ⟨.ofPieces closed.results.reverse, closed.log ++ .empty⟩ := by
    rw [hclosed]
    rfl
  have hfragment : host.render (.fragment showWidget) template template.graph data =
      ⟨⟨Dom.ofPieces (Piece.fillAll showWidget closed.results.reverse).value⟩,
        closed.log ++ ((Piece.fillAll showWidget closed.results.reverse).log ++ .empty)⟩ := by
    rw [hclosed]
    rfl
  rw [htree, hfragment, Log.append_empty, Log.append_empty]
  refine congrArg₂ Logged.mk ?_ ?_
  · rw [Logged.value_bind, Tree.pieces_ofPieces]
    rfl
  · rw [Logged.log_bind, Tree.pieces_ofPieces, Logged.log_pure, Log.append_empty]

/-- A tree is never cut off, as its widgets are left as they are. -/
theorem endless_tree (host : Host) (template : Template) (data : Json) :
    (host.tree template data).log.endless = false := by
  rw [tree, endless_render _ _ _ _ _ fun _ => rfl]
  exact List.any_eq_false.mpr fun _ _ => Bool.false_ne_true

/-- A fragment comes to an end if what the widgets in the tree show does. -/
theorem ends_render_fragment (host : Host) (showWidget : Widget → Logged (List Dom.Node))
    (template : Template) (data : Json) :
    (host.render (.fragment showWidget) template template.graph data).Ends ↔
      ∀ w ∈ Piece.widgetsAll (host.tree template data).value.pieces, (showWidget w).Ends := by
  rw [Logged.Ends, render_fragment, Logged.log_bind, Logged.log_bind, Logged.log_pure,
    Log.append_empty, Log.append_def, endless_tree, Bool.false_or, Piece.endless_fillAll,
    List.any_eq_false]
  simp only [Bool.not_eq_true, Logged.Ends]

/-- What the widgets in the tree show is all that matters to a fragment. -/
theorem render_fragment_congr (host : Host)
    {showWidget showWidget' : Widget → Logged (List Dom.Node)} {template : Template} {data : Json}
    (h : ∀ w ∈ Piece.widgetsAll (host.tree template data).value.pieces,
      showWidget w = showWidget' w) :
    host.render (.fragment showWidget) template template.graph data =
      host.render (.fragment showWidget') template template.graph data := by
  have hfill := Piece.fillAll_congr _ h
  rw [render_fragment, render_fragment]
  show Logged.bind (host.tree template data) _ = Logged.bind (host.tree template data) _
  simp only [Logged.bind, hfill]

/-! ## How deep widgets are nested -/

/-- The widgets that a widget shows. -/
def holes (host : Host) (widget : Widget) : List Widget :=
  Piece.widgetsAll (host.treeOf widget).value.pieces

/-- Whether a widget is not rendered to the end at a depth. -/
def isCutOff (host : Host) (depth : Nat) (widget : Widget) : Bool :=
  (host.widgetNodes depth widget).log.endless

/-- A widget is rendered to the end if the depth is large enough. -/
def Finishes (host : Host) (widget : Widget) : Prop :=
  ∃ depth, host.isCutOff depth widget = false

variable {host : Host} {template : Template} {w : Widget} {depth : Nat}

/-- Whether widgets are rendered to the end can be tested at any one depth. -/
theorem finishes_of_all {widgets : List Widget} (depth : Nat)
    (h : widgets.all (fun w => !host.isCutOff depth w) = true) :
    ∀ w ∈ widgets, host.Finishes w := by
  intro w hw
  have hw' := List.all_eq_true.mp h w hw
  rw [Bool.not_eq_true'] at hw'
  exact ⟨depth, hw'⟩

/-- The nodes of a widget are made of those of the widgets that it shows. -/
theorem layered_widgetNodes (host : Host) : Logged.Layered host.widgetNodes host.holes where
  zero := fun _ => Bool.noConfusion
  succ := by
    intro depth w
    rw [Logged.Ends, widgetNodes, Logged.log_bind, Logged.log_pure, Log.append_empty]
    exact host.ends_render_fragment _ (host.viewOf w) (host.dataOf w.child)
  congr := by
    intro depth more w hinside
    rw [widgetNodes, widgetNodes, host.render_fragment_congr hinside]

theorem isCutOff_of_le {more : Nat} (hle : depth ≤ more) (h : host.isCutOff depth w = false) :
    host.isCutOff more w = false :=
  host.layered_widgetNodes.ends_of_le hle h

theorem holes_subset (hw : w ∈ host.widgetsAround template) :
    host.holes w ⊆ host.widgetsAround template := by
  have hshown := Piece.showOnly_iff.mp (host.showOnly_tree (host.viewOf w) (host.dataOf w.child))
  exact List.Subset.trans hshown (widgetsAround_viewOf hw)

/-- A widget around a template that is rendered to the end at any depth is so at a depth of
as many levels as there are widgets. -/
theorem isCutOff_length (hw : w ∈ host.widgetsAround template) (hfinishes : host.Finishes w) :
    host.isCutOff (host.widgetsAround template).length w = false := by
  obtain ⟨enough, henough⟩ := hfinishes
  exact host.layered_widgetNodes.ends_length (fun _ => holes_subset) hw henough

/-! ## Widgets by themselves -/

theorem length_widgetsAround_le (host : Host) (template : Template) :
    (host.widgetsAround template).length ≤ host.nestingBound template := by
  rw [widgetsAround, List.length_append, nestingBound]
  omega

/-- Within a template a widget shows what it shows by itself, if it is rendered to the end. -/
theorem value_widgetNodes (hw : w ∈ host.widgetsAround template) (hfinishes : host.Finishes w) :
    (host.widgetNodes (host.nestingBound template) w).value =
      (host.fragmentOf w).value.nodes := by
  have hwithin : host.isCutOff (host.nestingBound template) w = false :=
    isCutOff_of_le (host.length_widgetsAround_le template) (isCutOff_length hw hfinishes)
  have hself : host.isCutOff (host.nestingBound (host.viewOf w) + 1) w = false := by
    obtain ⟨enough, henough⟩ := hfinishes
    cases enough with
    | zero => cases henough
    | succ enough =>
      have hholes := (host.layered_widgetNodes.succ enough w).mp henough
      refine (host.layered_widgetNodes.succ _ w).mpr fun hole hmem => ?_
      have haround : hole ∈ host.widgetsAround (host.viewOf w) :=
        Piece.showOnly_iff.mp (host.showOnly_tree _ _) hmem
      exact isCutOff_of_le (host.length_widgetsAround_le _)
        (isCutOff_length haround ⟨enough, hholes hole hmem⟩)
  have hvalue : (host.widgetNodes (host.nestingBound (host.viewOf w) + 1) w).value =
      (host.fragmentOf w).value.nodes := rfl
  rw [← hvalue, ← host.layered_widgetNodes.eq_of_le (Nat.le_max_left _ _) hwithin,
    ← host.layered_widgetNodes.eq_of_le (Nat.le_max_right _ _) hself]

/-- The markup of the fragment of an unbound template is that of its tree, with what each
widget shows by itself in the place of the widget. -/
theorem htmlWith_fragment (hunbound : template.component = none) (data : Json)
    (hfinishes : ∀ w ∈ Piece.widgetsAll (host.tree template data).value.pieces, host.Finishes w)
    (voids : List String) :
    (host.fragment template data).value.htmlWith voids =
      (Piece.shownAll voids (fun w => (host.fragmentOf w).value.nodes)
        (host.tree template data).value.pieces).html := by
  have hmounted : ∀ fragment, host.mounted template fragment = fragment := by
    intro fragment
    rw [mounted, isTopLevel, componentOf?, hunbound]
    rfl
  have hvalue : (host.fragment template data).value =
      ⟨Dom.ofPieces (Piece.fillAll (host.widgetNodes (host.nestingBound template))
        (host.tree template data).value.pieces).value⟩ := by
    rw [fragment, render_fragment, Logged.value_bind, Logged.value_pure, hmounted]
    rfl
  rw [hvalue, Fragment.htmlWith_ofPieces]
  refine congrArg Shown.html (Piece.shownAll_congr _ fun w hw => ?_)
  exact value_widgetNodes (Piece.showOnly_iff.mp (host.showOnly_tree template data) hw)
    (hfinishes w hw)

end Host

end Stencil
