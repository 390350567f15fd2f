import Stencil.Proofs.Script.Placed
import Stencil.Proofs.Script.TagFree
import Stencil.Proofs.Template.Settled
import Stencil.Template.Source

/-!
# Views within one element

A template that counts as wrapped is a single element: wrapping puts one around the graph,
attaching puts one around the view of a component without a parent, and neither loses it
again.  Attaching such a view once more changes nothing.

* `Template.Built.exists_container` — a wrapped template is one element without attributes,
  however it was built.
* `Host.attachView_of_needsMount`, `Host.attachView_again` — the view of a component without a
  parent, and that view attached again.
* `Host.reachesNoTag_attachView` — when no closing tag can be reached from a view.
-/

namespace Stencil

/-! ## Single roots -/

theorem Graph.attach_root {attachment : Attachment} (expansion : Expansion) {root : Element}
    (hroot : root.isRoot = true) :
    (Graph.attach attachment expansion [.element root]).value =
      [.element { root with
        children := (Graph.attach attachment expansion root.children).value }] := by
  obtain ⟨tag, attributes, children, isRoot⟩ := root
  have hchild : attachment.childFor? ⟨tag, attributes, children, isRoot⟩ = none := if_pos hroot
  simp only [Graph.attach, Node.attach, hchild, Logged.value_bind, Logged.value_pure,
    List.append_nil]

/-- A root stays in its place as it is attached. -/
theorem Attachment.attach_root (attachment : Attachment) (partials : Partials) {root : Element}
    (hroot : root.isRoot = true) :
    ∃ children, (attachment.attach ⟨[.element root], partials⟩).value =
      [.element { root with children }] := by
  rw [attach]
  cases attachment.nameBound partials with
  | zero => exact ⟨_, Graph.attach_root _ hroot⟩
  | succ left => exact ⟨_, Graph.attach_root _ hroot⟩

namespace Host

variable (host : Host) (id : ComponentId) (component : Component) (wrapper : Wrapper)

theorem graph_attachView (template : Template) :
    (host.attachView id component wrapper template).value.graph =
      (host.attachGraph component wrapper template.registry template.config
        ⟨host.rootedGraph id component template, template.partials⟩).value := rfl

/-- The view of a component without a parent is one root element with its mount tag. -/
theorem attachView_of_needsMount {template : Template} (h : host.needsMount id template = true) :
    ∃ children, (host.attachView id component wrapper template).value.graph =
      [mountElement component.mountTag children] := by
  rw [graph_attachView, rootedGraph, if_pos h]
  exact Attachment.attach_root _ _ rfl

/-- The view that a single element is attached as is that element with other children. -/
theorem attachView_element {template : Template} (hwrapped : template.isWrapped = true)
    {element : Element} (hgraph : template.graph = [.element element]) :
    ∃ children, (host.attachView id component wrapper template).value.graph =
      [.element { element.asRoot with children }] := by
  have hrooted : host.rootedGraph id component template = [.element element.asRoot] := by
    rw [rootedGraph, needsMount, hwrapped, hgraph, Bool.not_true, Bool.and_false, if_neg nofun]
    rfl
  rw [graph_attachView, hrooted]
  exact Attachment.attach_root _ _ rfl

/-- A view that is one root element, and that was attached to a component, is left alone if it
is attached to the component again. -/
theorem attachView_again {view : Template} {root : Element} (hwrapped : view.isWrapped = true)
    (hgraph : view.graph = [.element root]) (hroot : root.isRoot = true)
    (hsettled : Graph.isSettled component.selectors view.graph = true) :
    (host.attachView id component wrapper view).value.graph = view.graph := by
  have hrooted : host.rootedGraph id component view = view.graph := by
    rw [rootedGraph, needsMount, hwrapped, hgraph, Bool.not_true, Bool.and_false, if_neg nofun]
    obtain ⟨tag, attributes, children, isRoot⟩ := root
    obtain rfl : isRoot = true := hroot
    rfl
  rw [graph_attachView, hrooted]
  exact Attachment.attach_of_isSettled hsettled

end Host

/-! ## Wrapped templates -/

/-- Templates that come about by the operations on templates. -/
inductive Template.Built : Template → Prop
  | ofGraph (graph : Graph) (partials : Partials) (registry : RegistryName) (config : Config) :
      Built (.ofGraph graph partials registry config)
  | ofCompiled (compiled : Compiled) (registry : RegistryName) (config : Config) :
      Built (.ofCompiled compiled registry config)
  | withPartials {template : Template} (partials : Partials) : Built template →
      Built { template with partials }
  | withPartial {template : Template} (name : String) (body : PartialBody) : Built template →
      Built (template.withPartial name body)
  | withRegistry {template : Template} (registry : RegistryName) : Built template →
      Built { template with registry }
  | withConfig {template : Template} (config : Config) : Built template →
      Built (template.withConfig config)
  | wrap {template : Template} (tag : String) : Built template → Built (template.wrap tag)
  | attachView {template : Template} (host : Host) (id : ComponentId) (component : Component)
      (wrapper : Wrapper) : Built template →
      Built (host.attachView id component wrapper template).value

/-- A wrapped template is exactly one element, which has no attributes. -/
theorem Template.Built.exists_container {template : Template} (h : template.Built)
    (hwrapped : template.isWrapped = true) :
    ∃ container, template.graph = [.element container] ∧ container.attributes = [] := by
  induction h with
  | ofGraph graph partials registry config => cases hwrapped
  | ofCompiled compiled registry config => cases hwrapped
  | withPartials _ _ ih => exact ih hwrapped
  | withPartial _ _ _ ih => exact ih hwrapped
  | withRegistry _ _ ih => exact ih hwrapped
  | withConfig _ _ ih => exact ih hwrapped
  | wrap tag _ _ => exact ⟨_, rfl, rfl⟩
  | @attachView template host id component wrapper _ ih =>
    rcases Bool.or_eq_true_iff.mp hwrapped with hbefore | hmount
    · obtain ⟨container, hgraph, hattributes⟩ := ih hbefore
      obtain ⟨children, hview⟩ := host.attachView_element id component wrapper hbefore hgraph
      exact ⟨_, hview, hattributes⟩
    · obtain ⟨children, hview⟩ := host.attachView_of_needsMount id component wrapper hmount
      exact ⟨_, hview, rfl⟩

theorem Template.Built.exists_element {template : Template} (h : template.Built)
    (hwrapped : template.isWrapped = true) : ∃ element, template.graph = [.element element] := by
  obtain ⟨container, hgraph, -⟩ := h.exists_container hwrapped
  exact ⟨container, hgraph⟩

/-! ## Closing tags -/

/-- No node of a graph is a closing tag, and all names that it refers to are allowed. -/
structure Graph.KeepsTo (allowed : String → Prop) (graph : Graph) : Prop where
  tagFree : Graph.every Node.isNoTag Node.isNoTag graph = true
  names : ∀ name ∈ Graph.references graph, allowed name

theorem Graph.KeepsTo.nil (allowed : String → Prop) : Graph.KeepsTo allowed [] :=
  ⟨rfl, fun _ hname => absurd hname List.not_mem_nil⟩

theorem Graph.KeepsTo.append {allowed : String → Prop} {first second : Graph}
    (hfirst : Graph.KeepsTo allowed first) (hsecond : Graph.KeepsTo allowed second) :
    Graph.KeepsTo allowed (first ++ second) where
  tagFree := by rw [Graph.every_append, hfirst.tagFree, hsecond.tagFree, Bool.and_self]
  names := by
    rw [Graph.references_append]
    exact List.forall_mem_append.mpr ⟨hfirst.names, hsecond.names⟩

section Attached

variable {attachment : Attachment} {expansion : Expansion} {allowed : String → Prop}

/-- What partials of the given names expand to keeps to the names that are allowed. -/
def Expansion.KeepsTo (expansion : Expansion) (registry : Partials) (allowed : String → Prop)
    (names : List String) : Prop :=
  ∀ name ∈ names, ∀ body, resolve name expansion.partials registry = some body →
    ∀ expanding, Graph.KeepsTo allowed (expansion.expand expanding body).value

theorem Expansion.KeepsTo.mono {registry : Partials} {names more : List String}
    (h : expansion.KeepsTo registry allowed more) (hsub : names ⊆ more) :
    expansion.KeepsTo registry allowed names :=
  fun name hname => h name (hsub hname)

mutual
theorem Node.keepsTo_attach :
    ∀ node : Node, node.every Node.isNoTag Node.isNoTag = true →
      (∀ name ∈ node.valueReferences, allowed name) →
      expansion.KeepsTo attachment.registry allowed node.references →
      Graph.KeepsTo allowed (node.attach attachment expansion).value
  | .element ⟨tag, attributes, children, isRoot⟩, htags, hnames, hexpand => by
    simp only [Node.every, Element.every, Bool.and_eq_true] at htags
    obtain ⟨hattributes, hchildren⟩ := List.forall_mem_append.mp hnames
    rw [Node.attach]
    cases attachment.childFor? ⟨tag, attributes, children, isRoot⟩ with
    | some child => exact ⟨rfl, fun _ hname => absurd hname List.not_mem_nil⟩
    | none =>
      have hattached := Graph.keepsTo_attach children htags.2.2 hchildren
        (hexpand.mono (List.subset_append_right _ _))
      simp only [Logged.value_bind, Logged.value_pure]
      refine ⟨?_, ?_⟩
      · simp only [Graph.every, Node.every, Element.every, htags.2.1, hattached.tagFree,
          Node.isNoTag, Bool.and_self]
      · simp only [Graph.references, Node.references, Element.references, List.append_nil]
        exact List.forall_mem_append.mpr ⟨hattributes, hattached.names⟩
  | .sectionBlock path children, htags, hnames, hexpand
  | .unlessBlock path children, htags, hnames, hexpand => by
    simp only [Node.every, Bool.and_eq_true] at htags
    have hattached := Graph.keepsTo_attach children htags.2 hnames hexpand
    simp only [Node.attach, Logged.value_bind, Logged.value_pure]
    refine ⟨?_, ?_⟩
    · simp only [Graph.every, Node.every, hattached.tagFree, Node.isNoTag, Bool.and_self]
    · simp only [Graph.references, Node.references, List.append_nil]
      exact hattached.names
  | .partialRef name fallback, htags, hnames, hexpand => by
    simp only [Node.every, Bool.and_eq_true] at htags
    rw [Node.attach]
    split
    · exact .nil allowed
    · split
      · rename_i body hresolve
        exact hexpand name List.mem_cons_self body hresolve _
      · exact Graph.keepsTo_attach fallback htags.2 hnames
          (hexpand.mono (List.subset_cons_self _ _))
  | .closingTag _ _, htags, _, _ => by cases htags
  | .text _, _, _, _ | .interpolator _, _, _, _ | .triple _, _, _, _ | .reference _, _, _, _
  | .comment _, _, _, _ | .widget _, _, _, _ =>
    ⟨rfl, fun _ hname => absurd hname List.not_mem_nil⟩
/-- Where attributes and partials keep to the names that are allowed, attached graphs do. -/
theorem Graph.keepsTo_attach :
    ∀ graph : List Node, Graph.every Node.isNoTag Node.isNoTag graph = true →
      (∀ name ∈ Graph.valueReferences graph, allowed name) →
      expansion.KeepsTo attachment.registry allowed (Graph.references graph) →
      Graph.KeepsTo allowed (Graph.attach attachment expansion graph).value
  | [], _, _, _ => .nil allowed
  | node :: rest, htags, hnames, hexpand => by
    simp only [Graph.every, Bool.and_eq_true] at htags
    obtain ⟨hnode, hrest⟩ := List.forall_mem_append.mp hnames
    simp only [Graph.attach, Logged.value_bind, Logged.value_pure]
    exact .append
      (Node.keepsTo_attach node htags.1 hnode (hexpand.mono (List.subset_append_left _ _)))
      (Graph.keepsTo_attach rest htags.2 hrest (hexpand.mono (List.subset_append_right _ _)))
end

/-- Attached bodies refer to no partials but those within the attributes of what a rendering
of them can get to. -/
theorem PartialBody.keepsTo_attach (attachment : Attachment) (left : Nat) :
    ∀ (expanding : List String) (body : PartialBody),
      (∀ reached, body.Reaches attachment.registry reached →
        Graph.every Node.isNoTag Node.isNoTag reached.graph = true ∧
          ∀ name ∈ Graph.valueReferences reached.graph, allowed name) →
      Graph.KeepsTo allowed (body.attach attachment left expanding).value := by
  induction left with
  | zero =>
    intro expanding body h
    obtain ⟨htags, hnames⟩ := h body .start
    rw [attach]
    exact Graph.keepsTo_attach body.graph htags hnames fun _ _ _ _ _ => .nil allowed
  | succ left ih =>
    intro expanding body h
    obtain ⟨htags, hnames⟩ := h body .start
    have hexpand : Expansion.KeepsTo
        ⟨body.partials, expanding, PartialBody.attach attachment left⟩ attachment.registry allowed
        (Graph.references body.graph) := by
      intro name hname inner hresolve expanding'
      refine ih expanding' inner fun reached hreached => h reached ?_
      exact Reaches.trans (.step .start hname hresolve) hreached
    rw [attach]
    exact Graph.keepsTo_attach body.graph htags hnames hexpand

end Attached

/-- No closing tag can be reached from a body. -/
def PartialBody.ReachesNoTag (registry : Partials) (body : PartialBody) : Prop :=
  ∀ reached, body.Reaches registry reached →
    Graph.every Node.isNoTag Node.isNoTag reached.graph = true

/-- The partials that a rendering of a body comes to within attribute values lead to no closing
tag in the partials of the body itself, where they are looked up once it has been attached. -/
def PartialBody.ValuesReachNoTag (registry : Partials) (body : PartialBody) : Prop :=
  ∀ reached, body.Reaches registry reached → ∀ name ∈ Graph.valueReferences reached.graph,
    ∀ inner, resolve name body.partials registry = some inner → inner.ReachesNoTag registry

/-- From an attached graph no closing tag can be reached if none could be before, and none by
way of its attributes. -/
theorem Attachment.reachesNoTag_attach (attachment : Attachment) {body : PartialBody}
    (htags : body.ReachesNoTag attachment.registry)
    (hvalues : body.ValuesReachNoTag attachment.registry) :
    PartialBody.ReachesNoTag attachment.registry
      ⟨(attachment.attach body).value, body.partials⟩ := by
  have hattached : Graph.KeepsTo (fun name => ∀ inner,
      resolve name body.partials attachment.registry = some inner →
        inner.ReachesNoTag attachment.registry) (attachment.attach body).value :=
    PartialBody.keepsTo_attach attachment _ [] body fun reached hreached =>
      ⟨htags reached hreached, hvalues reached hreached⟩
  intro reached hreached
  rcases hreached.cases_first with rfl | ⟨name, hname, inner, hresolve, hinner⟩
  · exact hattached.tagFree
  · exact hattached.names name hname inner hresolve reached hinner

/-! ### Mounted graphs -/

/-- Two graphs refer to the same partials and have closing tags both or neither. -/
structure Graph.SameParts (graph graph' : Graph) : Prop where
  names : Graph.references graph = Graph.references graph'
  values : Graph.valueReferences graph = Graph.valueReferences graph'
  tags : Graph.every Node.isNoTag Node.isNoTag graph =
    Graph.every Node.isNoTag Node.isNoTag graph'

theorem Graph.sameParts_markRoot (graph : Graph) :
    Graph.SameParts (graph.map Node.markRoot) graph := by
  induction graph with
  | nil => exact ⟨rfl, rfl, rfl⟩
  | cons node rest ih =>
    have hparts : node.markRoot.references = node.references ∧
        node.markRoot.valueReferences = node.valueReferences ∧
        node.markRoot.every Node.isNoTag Node.isNoTag =
          node.every Node.isNoTag Node.isNoTag := by
      cases node with
      | element el =>
        obtain ⟨tag, attributes, children, isRoot⟩ := el
        simp only [Node.markRoot, Element.asRoot, Node.references, Element.references,
          Node.valueReferences, Element.valueReferences, Node.every, Element.every, Node.isNoTag,
          and_self]
      | _ => exact ⟨rfl, rfl, rfl⟩
    rw [List.map_cons]
    constructor
    · rw [references, references, hparts.1, ih.names]
    · rw [valueReferences, valueReferences, hparts.2.1, ih.values]
    · rw [every, every, hparts.2.2, ih.tags]

theorem Graph.sameParts_mountElement (tag : String) (graph : Graph) :
    Graph.SameParts [mountElement tag graph] graph := by
  constructor <;>
    simp [mountElement, Element.ofChildren, Element.asRoot, references, Node.references,
      Element.references, Attribute.references, valueReferences, Node.valueReferences,
      Element.valueReferences, every, Node.every, Element.every, Attribute.everyAll, Node.isNoTag]

/-- Putting an element around a graph and marking its roots adds no partials and no tags. -/
theorem Host.sameParts_rootedGraph (host : Host) (id : ComponentId) (component : Component)
    (template : Template) :
    Graph.SameParts (host.rootedGraph id component template) template.graph := by
  have hmarked := Graph.sameParts_markRoot template.graph
  unfold rootedGraph
  split
  · have hmounted := Graph.sameParts_mountElement component.mountTag
      (template.graph.map Node.markRoot)
    exact ⟨hmounted.names.trans hmarked.names, hmounted.values.trans hmarked.values,
      hmounted.tags.trans hmarked.tags⟩
  · exact hmarked

/-- From a view no closing tag can be reached if none can be from the template, and none by way
of its attributes. -/
theorem Host.reachesNoTag_attachView (host : Host) (id : ComponentId) (component : Component)
    (wrapper : Wrapper) {template : Template}
    (htags : template.body.ReachesNoTag (host.registry template.registry))
    (hvalues : template.body.ValuesReachNoTag (host.registry template.registry)) :
    (host.attachView id component wrapper template).value.body.ReachesNoTag
      (host.registry template.registry) := by
  have hparts := host.sameParts_rootedGraph id component template
  have hpart : Graph.references (host.rootedGraph id component template) ⊆
      Graph.references template.graph := hparts.names ▸ List.Subset.refl _
  have htags' : PartialBody.ReachesNoTag (host.registry template.registry)
      ⟨host.rootedGraph id component template, template.partials⟩ := by
    intro reached hreached
    rcases hreached.of_part hpart with rfl | hreached
    · exact hparts.tags.trans (htags template.body .start)
    · exact htags reached hreached
  have hvalues' : PartialBody.ValuesReachNoTag (host.registry template.registry)
      ⟨host.rootedGraph id component template, template.partials⟩ := by
    intro reached hreached name hname
    rcases hreached.of_part hpart with rfl | hreached
    · exact hvalues template.body .start name (hparts.values ▸ hname)
    · exact hvalues reached hreached name hname
  exact (host.attachment component wrapper template.registry template.config).reachesNoTag_attach
    htags' hvalues'

end Stencil
