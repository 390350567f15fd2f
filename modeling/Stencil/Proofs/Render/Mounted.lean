import Stencil.Proofs.Render.Nesting
import Stencil.Proofs.Render.Tree
import Stencil.Proofs.Script.Unwrap
import Stencil.Proofs.Template.Mounted

/-!
# Views of components without a parent

The view of a component without a parent is mounted into a container that is there already:
the element that was put around the view is dropped from its fragment.  What is left is what
the contents of the element give by themselves, as long as no closing tag closes the element
early.

* `Host.nodes_fragment_mounted` — the fragment of a view is that of the contents of its root.
* `Host.mounted_view` — wrapped templates, the view of a component without a parent, the view
  attached again, and its fragment.
* `Host.mounted_view_fails` — a view whose attributes get to a closing tag that its template
  does not get to.
-/

namespace Stencil

/-- The nodes of a single element. -/
theorem Piece.ofPieces_element (show_ : Widget → Logged (List Dom.Node)) (tag : String)
    (attributes : List OutputAttribute) (children : List (Piece Widget)) :
    Dom.ofPieces
        (fillAll show_ [.element tag attributes (childrenOf children)]).value =
      [.element tag (attributes.map fun a => (a.name, a.value))
        (Dom.ofPieces (fillAll show_ children).value)] := by
  cases children with
  | nil => rfl
  | cons first rest => rfl

/-- What is left of a fragment that is a single element. -/
theorem Fragment.nodes_unwrapContainer {fragment : Fragment} {tag : String}
    {attributes : List (String × Option String)} {nodes : List Dom.Node}
    (h : fragment.nodes = [.element tag attributes nodes]) :
    fragment.unwrapContainer.nodes = nodes := by
  rw [unwrapContainer, h]

/-- A graph within an element makes one element of what the graph makes by itself. -/
theorem PartialBody.pieces_mountElement (registry partials : Partials) (limit left : Nat)
    (tag : String) (children : Graph) (scopes : Scopes) :
    Script.pieces (PartialBody.walk registry limit left
        ⟨[mountElement tag children], partials⟩ |>.steps scopes) =
      [Piece.ofFrame .ofElement tag (Script.pieces
        ((PartialBody.walk registry limit left ⟨children, partials⟩).steps scopes))] := by
  obtain ⟨around, hsteady, hwalk⟩ := PartialBody.walk_around registry limit left partials
  rw [hwalk, hwalk, Graph.steps_singleton hsteady, mountElement, Node.walk, Element.ofChildren,
    Element.asRoot, Element.steps_walk hsteady, Script.pieces_frame]
  rfl

namespace Host

/-- The fragment of a template from which no closing tag can be reached, before it is mounted,
is made of the pieces of its script. -/
theorem nodes_render_fragment (host : Host) (showWidget : Widget → Logged (List Dom.Node))
    (template : Template)
    (htags : template.body.ReachesNoTag (host.registry template.registry)) (data : Json) :
    (host.render (.fragment showWidget) template template.graph data).value.nodes =
      Dom.ofPieces (Piece.fillAll showWidget
        (Piece.joined (Script.pieces (host.scriptOf template template.graph data)))).value := by
  have hscript := template.body.walk_tagFree _
    template.config.maxPartialDepth template.config.maxPartialDepth htags (.ofData data)
  rw [host.value_render (Encoding.keeps_fragment showWidget) template template.graph data hscript]
  rfl

/-- The contents of an element refer to no more than the element does. -/
theorem reachesNoTag_children {registry partials : Partials} {tag : String} {children : Graph}
    (h : PartialBody.ReachesNoTag registry ⟨[mountElement tag children], partials⟩) :
    PartialBody.ReachesNoTag registry ⟨children, partials⟩ := by
  have hparts := Graph.sameParts_mountElement tag children
  have hpart : Graph.references children ⊆ Graph.references [mountElement tag children] :=
    hparts.names ▸ List.Subset.refl _
  intro reached hreached
  rcases hreached.of_part hpart with rfl | hreached
  · exact hparts.tags ▸ h _ .start
  · exact h reached hreached

theorem isTopLevel_of_isAlive (host : Host) {template : Template} {id : ComponentId}
    (hbound : template.component = some id) (halive : host.isAlive id = true)
    (hparent : host.parentOf? id = none) : host.isTopLevel template = true := by
  have hcomponent : host.componentOf? template = some id := by
    rw [componentOf?, hbound]
    exact Option.filter_eq_some_iff.mpr ⟨rfl, halive⟩
  rw [isTopLevel, hcomponent]
  simp only [hparent, Option.isNone_none]

section Mounted

variable (host : Host) {view : Template} {tag : String} {children : Graph}
  (hgraph : view.graph = [mountElement tag children])

include hgraph

/-- A view and the contents of its root come to the same widgets, so these are rendered to the
same depth. -/
theorem nestingBound_contents :
    host.nestingBound (.ofGraph children view.partials view.registry view.config) =
      host.nestingBound view := by
  rw [nestingBound, nestingBound, widgetsOfTemplate, widgetsOfTemplate, hgraph]
  simp only [Template.ofGraph, Graph.allWidgets, mountElement, Node.allWidgets,
    Element.ofChildren, Element.asRoot, Element.allWidgets, Attribute.allWidgets,
    List.nil_append, List.append_nil]

/-- A view makes one element of what the contents of its root make. -/
theorem pieces_scriptOf_mounted (data : Json) :
    Script.pieces (host.scriptOf view view.graph data) =
      [Piece.ofFrame .ofElement tag (Script.pieces (host.scriptOf
        (.ofGraph children view.partials view.registry view.config) children data))] := by
  rw [hgraph]
  exact PartialBody.pieces_mountElement _ _ _ _ _ _ _

/-- The view of a component without a parent gives the fragment that the contents of its root
give by themselves, if no closing tag can be reached from it. -/
theorem nodes_fragment_mounted (htop : host.isTopLevel view = true)
    (htags : view.body.ReachesNoTag (host.registry view.registry)) (data : Json) :
    (host.fragment view data).value.nodes =
      (host.fragment (.ofGraph children view.partials view.registry view.config)
        data).value.nodes := by
  have hcontents : PartialBody.ReachesNoTag (host.registry view.registry)
      ⟨children, view.partials⟩ := by
    rw [Template.body, hgraph] at htags
    exact reachesNoTag_children htags
  have hinner := host.nodes_render_fragment (host.widgetNodes (host.nestingBound view))
    (.ofGraph children view.partials view.registry view.config) hcontents data
  have houter := host.nodes_render_fragment (host.widgetNodes (host.nestingBound view)) view htags
    data
  rw [host.pieces_scriptOf_mounted hgraph] at houter
  -- The element around the view is the only node of its fragment, and is dropped.
  have hcontainer := houter.trans (Piece.ofPieces_element _ tag _ _)
  have hunbound : ∀ fragment, host.mounted
      (.ofGraph children view.partials view.registry view.config) fragment = fragment :=
    fun _ => rfl
  rw [fragment, fragment, Logged.value_bind, Logged.value_bind, Logged.value_pure,
    Logged.value_pure, hunbound, host.nestingBound_contents hgraph, mounted, if_pos htop]
  exact (Fragment.nodes_unwrapContainer hcontainer).trans hinner.symm

end Mounted

/-- A wrapped template is exactly one element.  The view of a component without a parent, made
of a template that is not wrapped, is one root element with the component's mount tag; attaching
it to the component again gives the same graph; and its fragment is that of the contents of the
element by themselves, if no closing tag can be reached from the view.  None can if none can be
from the template, and none by way of attributes, whose partials are looked up in those of the
template once it has been attached. -/
theorem mounted_view (host : Host) (id : ComponentId) (component : Component) (wrapper : Wrapper)
    (template : Template) :
    (template.Built → template.isWrapped = true →
      ∃ element, template.graph = [.element element]) ∧
    (host.parentOf? id = none → template.isWrapped = false →
      let view := (host.attachView id component wrapper template).value
      ∃ children, view.graph = [mountElement component.mountTag children] ∧
        (∀ (later : Host) (wrapper' : Wrapper),
          (later.attachView id component wrapper' view).value.graph = view.graph) ∧
        (template.body.ReachesNoTag (host.registry template.registry) →
          template.body.ValuesReachNoTag (host.registry template.registry) →
          view.body.ReachesNoTag (host.registry template.registry)) ∧
        ∀ later : Host, later.isAlive id = true → later.parentOf? id = none →
          view.body.ReachesNoTag (later.registry template.registry) → ∀ data,
            (later.fragment view data).value.nodes =
              (later.fragment
                (.ofGraph children template.partials template.registry template.config)
                data).value.nodes) := by
  refine ⟨fun hbuilt => hbuilt.exists_element, fun hparent hwrapped => ?_⟩
  intro view
  have hmount : host.needsMount id template = true := by
    rw [needsMount, hparent, hwrapped]
    rfl
  have hview : view.isWrapped = true := Bool.or_eq_true_iff.mpr (.inr hmount)
  obtain ⟨children, hgraph⟩ := host.attachView_of_needsMount id component wrapper hmount
  have hsettled : Graph.isSettled component.selectors view.graph = true :=
    (host.attachment component wrapper template.registry template.config).isSettled_attach
      ⟨host.rootedGraph id component template, template.partials⟩
  refine ⟨children, hgraph, ?_, host.reachesNoTag_attachView id component wrapper, ?_⟩
  · exact fun later wrapper' =>
      later.attachView_again id component wrapper' hview hgraph rfl hsettled
  · intro later halive hparent' htags data
    have htop : later.isTopLevel view = true :=
      later.isTopLevel_of_isAlive rfl halive hparent'
    exact later.nodes_fragment_mounted hgraph htop htags data

/-! ## A caption -/

/-- An element whose title is a partial of its own. -/
def captionBinding : Binding :=
  ⟨"caption", [.element ⟨"i", [⟨"title", .mixed [.partialRef "note" []]⟩], [], false⟩],
    [⟨"note", [.text "own"], []⟩]⟩

/-- A host with one component, and with captions. -/
def gallery : Host := ⟨[(⟨0⟩, .ofView "gallery" "div" .null)], 1, [captionBinding], []⟩

/-- A caption, next to another partial of the name that the title of the caption refers to. -/
def captioned (note : Graph) : Template :=
  .ofGraph [.partialRef "caption" [], .text "tail"] [⟨"note", note, []⟩] .injected {}

/-- The view of the gallery. -/
def captionedView (note : Graph) : Template :=
  (gallery.attachView ⟨0⟩ (.ofView "gallery" "div" .null) ⟨"ComponentWidget", 0⟩
    (captioned note)).value

/-- What the captioned template gets to: itself, the caption and the note of the caption. -/
theorem reaches_captioned {note : Graph} {reached : PartialBody}
    (h : (captioned note).body.Reaches [captionBinding] reached) :
    reached = (captioned note).body ∨ reached = captionBinding.body ∨
      reached = ⟨[.text "own"], []⟩ := by
  induction h with
  | start => exact .inl rfl
  | @step reached inner name _ hname hresolve ih =>
    rcases ih with rfl | rfl | rfl
    · have hname : name = "caption" := by
        simpa [captioned, Template.body, Template.ofGraph, Graph.references, Node.references]
          using hname
      subst hname
      exact .inr (.inl (Option.some.inj hresolve).symm)
    · have hname : name = "note" := by
        simpa [captionBinding, Binding.body, Graph.references, Node.references,
          Element.references, Attribute.references, AttributeValue.references] using hname
      subst hname
      exact .inr (.inr (Option.some.inj hresolve).symm)
    · simp [Graph.references, Node.references] at hname

/-- Whatever the note next to it is, the captioned template gets to no closing tag. -/
theorem reachesNoTag_captioned (note : Graph) :
    (captioned note).body.ReachesNoTag [captionBinding] := by
  intro reached hreached
  rcases reaches_captioned hreached with rfl | rfl | rfl
  · rfl
  · decide +kernel
  · rfl

/-- With a note that is text, the fragment of the view is that of its contents. -/
theorem mounted_view_caption :
    gallery.parentOf? ⟨0⟩ = none ∧ (captioned [.text "other"]).isWrapped = false ∧
      (captioned [.text "other"]).body.ReachesNoTag [captionBinding] ∧
      ∃ children, (captionedView [.text "other"]).graph = [mountElement "div" children] ∧
        (gallery.fragment (captionedView [.text "other"]) .null).value.nodes =
          (gallery.fragment
            (.ofGraph children (captioned [.text "other"]).partials .injected {})
            .null).value.nodes := by
  have htags := reachesNoTag_captioned [.text "other"]
  have hown : Partials.tagFree (captioned [.text "other"]).partials = true := by decide +kernel
  have hshared : Partials.tagFree [captionBinding] = true := by decide +kernel
  have hvalues : (captioned [.text "other"]).body.ValuesReachNoTag [captionBinding] := by
    intro _ _ name _ inner hresolve reached hreached
    obtain ⟨hgraph, hpartials⟩ := every_of_resolve hown hshared hresolve
    exact (hreached.every hgraph hpartials hshared).1
  obtain ⟨children, hgraph, -, hnotags, hfragment⟩ := (mounted_view gallery ⟨0⟩
    (.ofView "gallery" "div" .null) ⟨"ComponentWidget", 0⟩ (captioned [.text "other"])).2 rfl rfl
  exact ⟨rfl, rfl, htags, children, hgraph,
    hfragment gallery rfl rfl (hnotags htags hvalues) .null⟩

/-- The title of the caption refers to a partial of the caption.  In the view it is looked up in
the partials of the template instead, and leads to a closing tag that the template does not get
to: the tag closes the element around the view early, and the fragment keeps the element. -/
theorem mounted_view_fails :
    gallery.isAlive ⟨0⟩ = true ∧ gallery.parentOf? ⟨0⟩ = none ∧
      (captioned [.closingTag none "div"]).isWrapped = false ∧
      (captioned [.closingTag none "div"]).body.ReachesNoTag [captionBinding] ∧
      (captionedView [.closingTag none "div"]).graph =
        [mountElement "div" (captionBinding.graph ++ [.text "tail"])] ∧
      (gallery.fragment (captionedView [.closingTag none "div"]) .null).value.nodes ≠
        (gallery.fragment
          (.ofGraph (captionBinding.graph ++ [.text "tail"])
            (captioned [.closingTag none "div"]).partials .injected {}) .null).value.nodes := by
  refine ⟨rfl, rfl, rfl, reachesNoTag_captioned _, rfl, fun hsame => ?_⟩
  have hmarkup := congrArg (Dom.Node.htmlAll []) hsame
  revert hmarkup
  decide +kernel

end Host

end Stencil
