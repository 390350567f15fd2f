import Stencil.Host.Attach
import Stencil.Host.Render
import Stencil.Proofs.Graph.Widgets
import Stencil.Proofs.Script.Widgets

/-!
# The widgets that attaching puts in

Attaching a graph to a component puts in widgets for children of this component, and for no other
components.  What they have taken, and the partials around it, come from the graph and from the
partials that it refers to, and so do all other widgets in what comes out.

* `Attachment.PutsIn` — all widgets are given ones or for children.
* `PartialBody.putsIn_attach` — what attaching puts in.
* `Host.child_of_mem_attachView` — whom the widgets in the view of a component are for.
-/

namespace Stencil

namespace Attachment

variable {attachment : Attachment} {given : List Widget}

/-- An element makes place for none but the children. -/
theorem mem_children_of_childFor? {element : Element} {child : ComponentId}
    (h : attachment.childFor? element = some child) :
    child ∈ attachment.children.map Prod.snd := by
  unfold childFor? at h
  split at h
  · cases h
  · obtain ⟨text, -, hchild⟩ := Option.bind_eq_some_iff.mp h
    obtain ⟨entry, hfind, rfl⟩ := Option.map_eq_some_iff.mp hchild
    exact List.mem_map_of_mem (List.mem_reverse.mp (List.mem_of_find?_eq_some hfind))

/-- All widgets in a graph are given ones, or for children that are attached. -/
def PutsIn (attachment : Attachment) (given : List Widget) (graph : Graph) : Prop :=
  ∀ w ∈ Graph.allWidgets graph, w ∈ given ∨ w.child ∈ attachment.children.map Prod.snd

theorem PutsIn.of_subset {graph : Graph} (h : Graph.allWidgets graph ⊆ given) :
    attachment.PutsIn given graph :=
  fun _ hw => .inl (h hw)

theorem PutsIn.append {first second : Graph} (hfirst : attachment.PutsIn given first)
    (hsecond : attachment.PutsIn given second) : attachment.PutsIn given (first ++ second) := by
  rw [PutsIn, Graph.allWidgets_append]
  exact List.forall_mem_append.mpr ⟨hfirst, hsecond⟩

/-- Where an expansion stands, there are given widgets only, and from bodies that hold no others
it makes graphs that hold no others but those for children. -/
structure ExpandsFrom (attachment : Attachment) (given : List Widget) (expansion : Expansion) :
    Prop where
  registry : Binding.allWidgets attachment.registry ⊆ given
  partials : Binding.allWidgets expansion.partials ⊆ given
  expand : ∀ expanding body, Graph.allWidgets body.graph ⊆ given →
    Binding.allWidgets body.partials ⊆ given →
      attachment.PutsIn given (expansion.expand expanding body).value

end Attachment

section Attached

variable {attachment : Attachment} {expansion : Expansion} {given : List Widget}

mutual
theorem Node.putsIn_attach (hexpands : attachment.ExpandsFrom given expansion) :
    ∀ node : Node, node.allWidgets ⊆ given →
      attachment.PutsIn given (node.attach attachment expansion).value
  | .element ⟨tag, attributes, children, isRoot⟩, hnode => by
    obtain ⟨hattributes, hchildren⟩ := List.append_subset.mp hnode
    rw [Node.attach]
    cases hchild : attachment.childFor? ⟨tag, attributes, children, isRoot⟩ with
    | some child =>
      intro w hw
      simp only [Logged.value_pure, Graph.allWidgets, Node.allWidgets, List.append_nil,
        List.mem_cons] at hw
      rcases hw with rfl | hinner
      · exact .inr (Attachment.mem_children_of_childFor? hchild)
      · exact .inl (List.append_subset.mpr ⟨hnode, hexpands.partials⟩ hinner)
    | none =>
      have hattached := Graph.putsIn_attach hexpands children hchildren
      simp only [Logged.value_bind, Logged.value_pure, Attachment.PutsIn, Graph.allWidgets,
        Node.allWidgets, Element.allWidgets, List.append_nil]
      exact List.forall_mem_append.mpr ⟨fun w hw => .inl (hattributes hw), hattached⟩
  | .sectionBlock path children, hnode | .unlessBlock path children, hnode => by
    have hattached := Graph.putsIn_attach hexpands children hnode
    simp only [Node.attach, Logged.value_bind, Logged.value_pure, Attachment.PutsIn,
      Graph.allWidgets, Node.allWidgets, List.append_nil]
    exact hattached
  | .partialRef name fallback, hnode => by
    rw [Node.attach]
    split
    · exact .of_subset (List.nil_subset _)
    · split
      · rename_i body hresolve
        obtain ⟨hgraph, hpartials⟩ :=
          allWidgets_of_resolve hexpands.partials hexpands.registry hresolve
        exact hexpands.expand _ body hgraph hpartials
      · exact Graph.putsIn_attach hexpands fallback hnode
  | .widget widget, hnode => .of_subset (List.append_subset.mpr ⟨hnode, List.nil_subset _⟩)
  | .text _, _ | .interpolator _, _ | .triple _, _ | .reference _, _ | .comment _, _
  | .closingTag _ _, _ => .of_subset (List.nil_subset _)
theorem Graph.putsIn_attach (hexpands : attachment.ExpandsFrom given expansion) :
    ∀ graph : List Node, Graph.allWidgets graph ⊆ given →
      attachment.PutsIn given (Graph.attach attachment expansion graph).value
  | [], _ => .of_subset (List.nil_subset _)
  | node :: rest, hgraph => by
    obtain ⟨hnode, hrest⟩ := List.append_subset.mp hgraph
    simp only [Graph.attach, Logged.value_bind, Logged.value_pure]
    exact (Node.putsIn_attach hexpands node hnode).append
      (Graph.putsIn_attach hexpands rest hrest)
end

/-- Attaching a body puts in widgets for children, besides those that it and its partials hold. -/
theorem PartialBody.putsIn_attach (attachment : Attachment)
    (hregistry : Binding.allWidgets attachment.registry ⊆ given) (left : Nat) :
    ∀ (expanding : List String) (body : PartialBody), Graph.allWidgets body.graph ⊆ given →
      Binding.allWidgets body.partials ⊆ given →
      attachment.PutsIn given (body.attach attachment left expanding).value := by
  induction left with
  | zero =>
    intro expanding body hgraph hpartials
    rw [attach]
    exact Graph.putsIn_attach
      ⟨hregistry, hpartials, fun _ _ _ _ => .of_subset (List.nil_subset _)⟩ body.graph hgraph
  | succ left ih =>
    intro expanding body hgraph hpartials
    rw [attach]
    exact Graph.putsIn_attach ⟨hregistry, hpartials, ih⟩ body.graph hgraph

end Attached

/-! ## Views -/

theorem Graph.allWidgets_markRoot (graph : Graph) :
    Graph.allWidgets (graph.map Node.markRoot) = Graph.allWidgets graph := by
  induction graph with
  | nil => rfl
  | cons node rest ih =>
    have hnode : node.markRoot.allWidgets = node.allWidgets := by
      cases node with
      | element el =>
        obtain ⟨tag, attributes, children, isRoot⟩ := el
        rfl
      | _ => rfl
    rw [List.map_cons, allWidgets, allWidgets, hnode, ih]

namespace Host

variable {host : Host} {id : ComponentId} {component : Component} {template : Template}

/-- Putting an element around a graph and marking its roots adds no widgets. -/
theorem allWidgets_rootedGraph :
    Graph.allWidgets (host.rootedGraph id component template) =
      Graph.allWidgets template.graph := by
  unfold rootedGraph
  split
  · rw [← Graph.allWidgets_markRoot template.graph]
    exact List.append_nil _
  · exact Graph.allWidgets_markRoot template.graph

/-- If the registry holds none, the widgets in the view of a component are those of the template,
and others for its children. -/
theorem child_of_mem_attachView
    (hregistry : Binding.allWidgets (host.registry template.registry) = []) {wrapper : Wrapper}
    {w : Widget}
    (hw : w ∈ widgetsOfTemplate (host.attachView id component wrapper template).value) :
    w ∈ widgetsOfTemplate template ∨ w.child ∈ component.children.map Prod.snd := by
  rcases List.mem_append.mp hw with hgraph | hpartials
  · exact PartialBody.putsIn_attach
      (host.attachment component wrapper template.registry template.config)
      (hregistry ▸ List.nil_subset _) _ _ _
      (allWidgets_rootedGraph ▸ List.subset_append_left _ _) (List.subset_append_right _ _) w hgraph
  · exact .inl (List.mem_append_right _ hpartials)

end Host

end Stencil
