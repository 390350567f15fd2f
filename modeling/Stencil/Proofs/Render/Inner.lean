import Stencil.Host.Render
import Stencil.Proofs.Script.Tags

/-!
# What views are rendered as within others

The view of a component that has a parent is rendered as markup without its root element,
which the widget supplies.  What stands in the rest, and all that this refers to, is there in
the whole view as well.

* `Host.innerGraph_cases` — either nothing is left out, or the only element at the top.
* `Host.reaches_innerGraph` — the rest gets to what the whole gets to.
-/

namespace Stencil.Host

variable (host : Host) (template : Template)

/-- Either nothing is left out, or the only element at the top. -/
theorem innerGraph_cases :
    host.innerGraph template = template.graph ∨
      ∃ root, template.graph = [.element root] ∧ host.innerGraph template = root.children := by
  unfold innerGraph
  split
  · split
    · rename_i root hgraph
      exact .inr ⟨root, hgraph, rfl⟩
    · exact .inl rfl
  · exact .inl rfl

/-- The rest refers to no other partials than the whole. -/
theorem references_innerGraph :
    Graph.references (host.innerGraph template) ⊆ Graph.references template.graph := by
  rcases host.innerGraph_cases template with hwhole | ⟨⟨tag, attributes, children, isRoot⟩,
    hgraph, hrest⟩
  · rw [hwhole]
    exact List.Subset.refl _
  · rw [hrest, hgraph, Graph.references, Node.references, Graph.references, List.append_nil]
    exact List.subset_append_right _ _

/-- It holds no other widgets than the whole. -/
theorem allWidgets_innerGraph :
    Graph.allWidgets (host.innerGraph template) ⊆ Graph.allWidgets template.graph := by
  rcases host.innerGraph_cases template with hwhole | ⟨⟨tag, attributes, children, isRoot⟩,
    hgraph, hrest⟩
  · rw [hwhole]
    exact List.Subset.refl _
  · rw [hrest, hgraph, Graph.allWidgets, Node.allWidgets, Graph.allWidgets, List.append_nil]
    exact List.subset_append_right _ _

/-- The rest gets to what the whole gets to, besides itself. -/
theorem reaches_innerGraph {reached : PartialBody}
    (h : PartialBody.Reaches (host.registry template.registry)
      ⟨host.innerGraph template, template.partials⟩ reached) :
    reached = ⟨host.innerGraph template, template.partials⟩ ∨
      template.body.Reaches (host.registry template.registry) reached :=
  h.of_part (host.references_innerGraph template)

/-- The rest passes the tests that the whole passes. -/
theorem every_innerGraph {test : Node → Bool}
    (hevery : Graph.every test test template.graph = true) :
    Graph.every test test (host.innerGraph template) = true := by
  rcases host.innerGraph_cases template with hwhole | ⟨⟨tag, attributes, children, isRoot⟩,
    hgraph, hrest⟩
  · rw [hwhole]
    exact hevery
  · rw [hrest]
    simp only [hgraph, Graph.every, Node.every, Element.every, Bool.and_eq_true] at hevery
    exact hevery.1.2.2

/-- So does all that it gets to. -/
theorem every_of_reaches_innerGraph {test : Node → Bool}
    (hevery : ∀ reached, template.body.Reaches (host.registry template.registry) reached →
      Graph.every test test reached.graph = true) :
    ∀ reached, PartialBody.Reaches (host.registry template.registry)
        ⟨host.innerGraph template, template.partials⟩ reached →
      Graph.every test test reached.graph = true := by
  intro reached hreached
  rcases host.reaches_innerGraph template hreached with rfl | hreached
  · exact host.every_innerGraph template (hevery template.body .start)
  · exact hevery reached hreached

/-- The closing tags of the rest are among those of the whole. -/
theorem tags_innerGraph :
    Graph.tags (host.innerGraph template) ⊆ Graph.tags template.graph := by
  rcases host.innerGraph_cases template with hwhole | ⟨⟨tag, attributes, children, isRoot⟩,
    hgraph, hrest⟩
  · rw [hwhole]
    exact List.Subset.refl _
  · rw [hrest, hgraph, Graph.tags, Node.tags, Graph.tags, List.append_nil]
    exact List.subset_append_right _ _

/-- So are those of all that it gets to. -/
theorem hasTag_innerGraph {request : Closing}
    (h : PartialBody.HasTag (host.registry template.registry)
      ⟨host.innerGraph template, template.partials⟩ request) :
    template.body.HasTag (host.registry template.registry) request := by
  obtain ⟨reached, hreached, hrequest⟩ := h
  rcases host.reaches_innerGraph template hreached with rfl | hreached
  · exact ⟨template.body, .start, host.tags_innerGraph template hrequest⟩
  · exact ⟨reached, hreached, hrequest⟩

end Stencil.Host
