import Stencil.Proofs.Assembly.Leading
import Stencil.Proofs.Host.History
import Stencil.Proofs.Render.Mounted

/-!
# What mounting drops from a fragment

The fragment of a view whose component has no parent is mounted into a container that is there
already, and so a single top-level element is dropped from it.  Whether an element is put around
a view is decided as the view is attached, and whether one is dropped as it is rendered, and in
between the component may lose its parent.

* `Fragment.nodes_unwrapContainer_ne_iff` — when dropping a container changes a fragment.
* `Host.History.nodes_fragment` — what is dropped after any history: the element that was put
  around a wrapped template, and, from a template that is not wrapped, a single element of its
  own once the last parent of the component is gone.
* `Host.nodes_orphan` — a view that loses an element of its own.
-/

namespace Stencil

/-- Dropping the container changes a fragment just if it is a single element. -/
theorem Fragment.nodes_unwrapContainer_ne_iff (fragment : Fragment) :
    fragment.unwrapContainer.nodes ≠ fragment.nodes ↔
      ∃ tag attributes children, fragment.nodes = [.element tag attributes children] := by
  constructor
  · intro hne
    unfold unwrapContainer at hne
    split at hne
    · rename_i tag attributes children heq
      exact ⟨tag, attributes, children, heq⟩
    · exact absurd rfl hne
  · rintro ⟨tag, attributes, children, heq⟩ hsame
    rw [nodes_unwrapContainer heq, heq] at hsame
    have hsize := congrArg sizeOf hsame
    simp at hsize
    omega

namespace Host

/-- Whatever its closing tags do, a template that is a single element shows that element first. -/
theorem nodes_render_element (host : Host) (render : Widget → Logged (List Dom.Node))
    (template : Template) (container : Element) (data : Json) :
    ∃ attributes children more,
      (host.render (.fragment render) template [.element container] data).value.nodes =
        .element container.tag attributes children :: more := by
  obtain ⟨around, hsteady, hwalk⟩ := PartialBody.walk_around (host.registry template.registry)
    template.config.maxPartialDepth template.config.maxPartialDepth template.partials
  obtain ⟨tag, elementAttributes, elementChildren, isRoot⟩ := container
  have hscript : host.scriptOf template
      [.element ⟨tag, elementAttributes, elementChildren, isRoot⟩] data =
        (Graph.walk around
          [.element ⟨tag, elementAttributes, elementChildren, isRoot⟩]).steps (.ofData data) :=
    congrFun (congrArg Walk.steps (hwalk _)) _
  rw [Graph.steps_singleton hsteady, Node.walk, Element.steps_walk hsteady] at hscript
  rw [Host.render, hscript]
  exact Script.nodes_output_frame render tag _ [] template.config.startId

section Unwrapped

variable {host : Host} {templates : List Template} {template : Template} {id : ComponentId}

/-- The nodes that a template shows, before any of them is dropped. -/
def shownNodes (host : Host) (template : Template) (data : Json) : List Dom.Node :=
  (host.render (.fragment (host.widgetNodes (host.nestingBound template))) template template.graph
    data).value.nodes

/-- The fragment of a template whose component is there is what is shown, without its container
if the component has no parent. -/
theorem nodes_fragment_bound (hbound : host.componentOf? template = some id) (data : Json) :
    (host.fragment template data).value.nodes =
      if host.parentOf? id = none then
        ((host.render (.fragment (host.widgetNodes (host.nestingBound template))) template
          template.graph data).value.unwrapContainer).nodes
      else host.shownNodes template data := by
  have htop : host.isTopLevel template = (host.parentOf? id).isNone := by
    rw [isTopLevel, hbound]
  rw [fragment, Logged.value_bind, Logged.value_pure, mounted, htop]
  cases host.parentOf? id <;> rfl

theorem nodes_fragment_ne_iff (hbound : host.componentOf? template = some id) (data : Json) :
    (host.fragment template data).value.nodes ≠ host.shownNodes template data ↔
      host.parentOf? id = none ∧ ∃ tag attributes children,
        host.shownNodes template data = [.element tag attributes children] := by
  rw [nodes_fragment_bound hbound data]
  by_cases hparent : host.parentOf? id = none
  · rw [if_pos hparent]
    simp only [hparent, true_and]
    exact Fragment.nodes_unwrapContainer_ne_iff _
  · rw [if_neg hparent]
    simp only [hparent, false_and, iff_false, not_not]

theorem nodes_fragment_single (hbound : host.componentOf? template = some id)
    (hparent : host.parentOf? id = none) {data : Json} {tag : String}
    {attributes : List (String × Option String)} {children : List Dom.Node}
    (hshown : host.shownNodes template data = [.element tag attributes children]) :
    (host.fragment template data).value.nodes = children := by
  rw [nodes_fragment_bound hbound data, if_pos hparent]
  exact Fragment.nodes_unwrapContainer hshown

/-- What a wrapped template shows first is the element without attributes that was put around
it. -/
theorem History.exists_container (h : History host templates) (htemplate : template ∈ templates)
    (hwrapped : template.isWrapped = true) {data : Json} {tag : String}
    {attributes : List (String × Option String)} {children : List Dom.Node}
    (hshown : host.shownNodes template data = [.element tag attributes children]) :
    ∃ container, template.graph = [.element container] ∧ container.attributes = [] ∧
      container.tag = tag := by
  obtain ⟨container, hgraph, hattributes⟩ :=
    (h.sound.templates template htemplate).built.exists_container hwrapped
  obtain ⟨attributes', children', more, hfirst⟩ :=
    host.nodes_render_element (host.widgetNodes (host.nestingBound template)) template container
      data
  rw [← hgraph] at hfirst
  have hboth : Dom.Node.element container.tag attributes' children' :: more =
      [.element tag attributes children] := hfirst.symm.trans hshown
  injection hboth with helement
  injection helement with htag
  exact ⟨container, hgraph, hattributes, htag⟩

/-- The component of a template without a container has been added to a parent; if it has no
parent, that one is gone. -/
theorem History.exists_parent (h : History host templates) (htemplate : template ∈ templates)
    (hwrapped : template.isWrapped = false) (hbound : host.componentOf? template = some id)
    (hparent : host.parentOf? id = none) :
    ∃ parent, (host.component? id).bind Component.parent = some parent ∧
      host.isAlive parent = false := by
  have halive : template.component = some id ∧ host.isAlive id = true :=
    Option.filter_eq_some_iff.mp hbound
  obtain ⟨component, hcomponent⟩ := exists_component?_of_isAlive halive.2
  have hadded := h.parent_ne_none htemplate hwrapped halive.1 hcomponent
  obtain ⟨parent, hsome⟩ := Option.ne_none_iff_exists'.mp hadded
  refine ⟨parent, by rw [hcomponent, Option.bind_some, hsome], ?_⟩
  rw [parentOf?, hcomponent, Option.bind_some, hsome] at hparent
  simpa [Option.filter] using hparent

/-- After any history, the fragment of a template whose component is there lacks a top-level
element just if the component has no parent and a single element is shown.  If the template is
wrapped, this is the element without attributes that was put around it; otherwise the component
has been added to a parent, and the parent is gone. -/
theorem History.nodes_fragment (h : History host templates) (htemplate : template ∈ templates)
    (hbound : host.componentOf? template = some id) (data : Json) :
    let shown := (host.render (.fragment (host.widgetNodes (host.nestingBound template))) template
      template.graph data).value.nodes
    let nodes := (host.fragment template data).value.nodes
    (nodes ≠ shown ↔ host.parentOf? id = none ∧
      ∃ tag attributes children, shown = [.element tag attributes children]) ∧
    (template.isWrapped = true → nodes ≠ shown → ∃ container attributes,
      template.graph = [.element container] ∧ container.attributes = [] ∧
        shown = [.element container.tag attributes nodes]) ∧
    (template.isWrapped = false → nodes ≠ shown → ∃ parent,
      (host.component? id).bind Component.parent = some parent ∧ host.isAlive parent = false) := by
  intro shown nodes
  have hdropped := nodes_fragment_ne_iff hbound data
  refine ⟨hdropped, fun hwrapped hne => ?_, fun hwrapped hne => ?_⟩
  · obtain ⟨hparent, tag, attributes, children, hshown⟩ := hdropped.mp hne
    obtain ⟨container, hgraph, hattributes, htag⟩ :=
      h.exists_container htemplate hwrapped hshown
    have hleft : nodes = children := nodes_fragment_single hbound hparent hshown
    refine ⟨container, attributes, hgraph, hattributes, ?_⟩
    rw [htag, hleft]
    exact hshown
  · exact h.exists_parent htemplate hwrapped hbound (hdropped.mp hne).1

end Unwrapped

/-! ## A parent and its child -/

/-- The owner of an item, and the item. -/
def owner : Component :=
  { Component.ofView "owner" "ul" .null with children := [("item", ⟨1⟩)] }

/-- A component that has been added to the owner. -/
def item : Component := { Component.ofView "item" "div" .null with parent := some ⟨0⟩ }

/-- A host with the owner and its item. -/
def household : Host := ⟨[(⟨0⟩, owner), (⟨1⟩, item)], 2, [], []⟩

/-- A single element. -/
def itemTemplate : Template :=
  .ofGraph [.element ⟨"li", [], [.text "x"], false⟩] [] .injected {}

/-- The element attached to the owner, which has no parent. -/
def ownerView : Template :=
  (household.attachView ⟨0⟩ owner ⟨"ComponentWidget", 0⟩ itemTemplate).value

/-- The element attached to the item, which has one. -/
def itemView : Template :=
  (household.attachView ⟨1⟩ item ⟨"ComponentWidget", 0⟩ itemTemplate).value

theorem history_household : History household [ownerView, itemView, itemTemplate] := by
  have hadded : History household [] :=
    .addChild ⟨0⟩ "item" ⟨1⟩ (.add (.ofView "item" "div" .null) rfl
      (.add (.ofView "owner" "ul" .null) rfl .start))
  have htemplate : History household [itemTemplate] :=
    .ofGraph [.element ⟨"li", [], [.text "x"], false⟩] [] .injected {} hadded
  have hitem : History household [itemView, itemTemplate] :=
    .attachView ⟨1⟩ item ⟨"ComponentWidget", 0⟩ itemTemplate rfl List.mem_cons_self htemplate
  exact .attachView ⟨0⟩ owner ⟨"ComponentWidget", 0⟩ itemTemplate rfl
    (List.mem_cons_of_mem _ List.mem_cons_self) hitem

/-- From the view of the owner the element that was put around it is dropped. -/
theorem nodes_ownerView :
    ∃ container attributes,
      ownerView.graph = [.element container] ∧ container.attributes = [] ∧
        (household.render (.fragment (household.widgetNodes (household.nestingBound ownerView)))
          ownerView ownerView.graph .null).value.nodes =
            [.element container.tag attributes
              (household.fragment ownerView .null).value.nodes] := by
  have hall := history_household.nodes_fragment List.mem_cons_self
    (show household.componentOf? ownerView = some ⟨0⟩ from rfl) .null
  exact hall.2.1 rfl (hall.1.mpr ⟨rfl, "ul", [], [.element "li" [] [.text "x"]], rfl⟩)

/-- The host once nothing holds the owner any more. -/
def orphanage : Host := household.release [⟨1⟩]

/-- The view of the item has no element put around it.  Once the owner is gone, the fragment of
the view lacks an element all the same, which is its own. -/
theorem nodes_orphan :
    History orphanage [itemView] ∧ orphanage.componentOf? itemView = some ⟨1⟩ ∧
      itemView.isWrapped = false ∧
      itemView.graph = [.element ⟨"li", [], [.text "x"], true⟩] ∧
      (orphanage.render (.fragment (orphanage.widgetNodes (orphanage.nestingBound itemView)))
        itemView itemView.graph .null).value.nodes = [.element "li" [] [.text "x"]] ∧
      (orphanage.fragment itemView .null).value.nodes = [.text "x"] := by
  have hkept : [itemView] ⊆ [ownerView, itemView, itemTemplate] := by simp
  have hhistory : History orphanage [itemView] :=
    .release [⟨1⟩] (.forget [itemView] hkept history_household)
  exact ⟨hhistory, rfl, rfl, rfl, rfl, rfl⟩

end Host

end Stencil
