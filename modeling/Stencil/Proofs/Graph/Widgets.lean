import Mathlib.Data.List.Basic
import Stencil.Graph.Widgets

/-!
# The widgets of a graph, and those within them

A widget holds those within the element it has taken and within the partials around it.  They
belong to every graph that the widget belongs to, and are smaller than the widget.

* `Graph.allWidgets_append` — the widgets of two graphs.
* `Graph.innerWidgets_subset`, `Widget.Closed` — with a widget there are those within it.
* `Widget.sizeOf_lt_of_mem_innerWidgets` — widgets are not within themselves.
-/

namespace Stencil

theorem Graph.allWidgets_append (first second : Graph) :
    Graph.allWidgets (first ++ second) = Graph.allWidgets first ++ Graph.allWidgets second := by
  induction first with
  | nil => rfl
  | cons node rest ih => rw [List.cons_append, allWidgets, allWidgets, ih, List.append_assoc]

/-! ## Widgets within the elements that widgets have taken -/

mutual
theorem Node.innerWidgets_subset {w : Widget} :
    ∀ node : Node, w ∈ node.allWidgets → w.innerWidgets ⊆ node.allWidgets
  | .element el, hw => Element.innerWidgets_subset el hw
  | .sectionBlock _ children, hw => Graph.innerWidgets_subset children hw
  | .unlessBlock _ children, hw => Graph.innerWidgets_subset children hw
  | .partialRef _ fallback, hw => Graph.innerWidgets_subset fallback hw
  | .widget inner, hw => by
    rcases List.mem_cons.mp hw with rfl | hinner
    · exact List.subset_cons_self _ _
    · exact List.subset_cons_of_subset _ (Widget.innerWidgets_subset inner hinner)
theorem Element.innerWidgets_subset {w : Widget} :
    ∀ element : Element, w ∈ element.allWidgets → w.innerWidgets ⊆ element.allWidgets
  | ⟨_, attributes, children, _⟩, hw => by
    rcases List.mem_append.mp hw with hattributes | hchildren
    · exact List.subset_append_of_subset_left _
        (Attribute.innerWidgets_subset attributes hattributes)
    · exact List.subset_append_of_subset_right _ (Graph.innerWidgets_subset children hchildren)
theorem Attribute.innerWidgets_subset {w : Widget} :
    ∀ attributes : List Attribute, w ∈ Attribute.allWidgets attributes →
      w.innerWidgets ⊆ Attribute.allWidgets attributes
  | ⟨_, value⟩ :: rest, hw => by
    rcases List.mem_append.mp hw with hvalue | hrest
    · exact List.subset_append_of_subset_left _ (AttributeValue.innerWidgets_subset value hvalue)
    · exact List.subset_append_of_subset_right _ (Attribute.innerWidgets_subset rest hrest)
theorem AttributeValue.innerWidgets_subset {w : Widget} :
    ∀ value : AttributeValue, w ∈ value.allWidgets → w.innerWidgets ⊆ value.allWidgets
  | .mixed parts, hw => Graph.innerWidgets_subset parts hw
theorem Widget.innerWidgets_subset {w : Widget} :
    ∀ widget : Widget, w ∈ widget.innerWidgets → w.innerWidgets ⊆ widget.innerWidgets
  | ⟨_, _, replaced, partials, _, _⟩, hw => by
    rcases List.mem_append.mp hw with hreplaced | hpartials
    · exact List.subset_append_of_subset_left _ (Element.innerWidgets_subset replaced hreplaced)
    · exact List.subset_append_of_subset_right _ (Binding.innerWidgets_subset partials hpartials)
theorem Binding.innerWidgets_subset {w : Widget} :
    ∀ partials : List Binding, w ∈ Binding.allWidgets partials →
      w.innerWidgets ⊆ Binding.allWidgets partials
  | ⟨_, graph, inner⟩ :: rest, hw => by
    rcases List.mem_append.mp hw with hfirst | hrest
    · refine List.subset_append_of_subset_left _ ?_
      rcases List.mem_append.mp hfirst with hgraph | hinner
      · exact List.subset_append_of_subset_left _ (Graph.innerWidgets_subset graph hgraph)
      · exact List.subset_append_of_subset_right _ (Binding.innerWidgets_subset inner hinner)
    · exact List.subset_append_of_subset_right _ (Binding.innerWidgets_subset rest hrest)
/-- With a widget, a graph has all widgets in the element it has taken and in its partials. -/
theorem Graph.innerWidgets_subset {w : Widget} :
    ∀ graph : List Node, w ∈ Graph.allWidgets graph → w.innerWidgets ⊆ Graph.allWidgets graph
  | node :: rest, hw => by
    rcases List.mem_append.mp hw with hnode | hrest
    · exact List.subset_append_of_subset_left _ (Node.innerWidgets_subset node hnode)
    · exact List.subset_append_of_subset_right _ (Graph.innerWidgets_subset rest hrest)
end

/-- With each widget, some widgets include those in the element it has taken and in its
partials. -/
def Widget.Closed (widgets : List Widget) : Prop := ∀ w ∈ widgets, w.innerWidgets ⊆ widgets

namespace Widget.Closed

theorem append {first second : List Widget} (hfirst : Closed first) (hsecond : Closed second) :
    Closed (first ++ second) := by
  intro w hw
  rcases List.mem_append.mp hw with h | h
  · exact List.subset_append_of_subset_left _ (hfirst w h)
  · exact List.subset_append_of_subset_right _ (hsecond w h)

theorem flatMap {α : Type} {items : List α} {widgets : α → List Widget}
    (h : ∀ item ∈ items, Closed (widgets item)) : Closed (items.flatMap widgets) := by
  intro w hw other hother
  obtain ⟨item, hitem, hmem⟩ := List.mem_flatMap.mp hw
  exact List.mem_flatMap.mpr ⟨item, hitem, h item hitem w hmem hother⟩

end Widget.Closed

/-! ## Sizes -/

mutual
theorem Node.sizeOf_lt_of_mem_allWidgets {w : Widget} :
    ∀ node : Node, w ∈ node.allWidgets → sizeOf w < sizeOf node
  | .element el, hw => by
    have := Element.sizeOf_lt_of_mem_allWidgets el hw
    simp only [Node.element.sizeOf_spec]
    omega
  | .sectionBlock _ children, hw => by
    have := Graph.sizeOf_lt_of_mem_allWidgets children hw
    simp only [Node.sectionBlock.sizeOf_spec]
    omega
  | .unlessBlock _ children, hw => by
    have := Graph.sizeOf_lt_of_mem_allWidgets children hw
    simp only [Node.unlessBlock.sizeOf_spec]
    omega
  | .partialRef _ fallback, hw => by
    have := Graph.sizeOf_lt_of_mem_allWidgets fallback hw
    simp only [Node.partialRef.sizeOf_spec]
    omega
  | .widget widget, hw => by
    simp only [Node.widget.sizeOf_spec]
    rcases List.mem_cons.mp hw with rfl | hinner
    · omega
    · have := Widget.sizeOf_lt_of_mem_innerWidgets widget hinner
      omega
theorem Element.sizeOf_lt_of_mem_allWidgets {w : Widget} :
    ∀ element : Element, w ∈ element.allWidgets → sizeOf w < sizeOf element
  | ⟨tag, attributes, children, isRoot⟩, hw => by
    simp only [Element.mk.sizeOf_spec]
    rcases List.mem_append.mp hw with h | h
    · have := Attribute.sizeOf_lt_of_mem_allWidgets attributes h
      omega
    · have := Graph.sizeOf_lt_of_mem_allWidgets children h
      omega
theorem Attribute.sizeOf_lt_of_mem_allWidgets {w : Widget} :
    ∀ attributes : List Attribute, w ∈ Attribute.allWidgets attributes →
      sizeOf w < sizeOf attributes
  | ⟨_, value⟩ :: rest, hw => by
    simp only [List.cons.sizeOf_spec, Attribute.mk.sizeOf_spec]
    rcases List.mem_append.mp hw with h | h
    · have := AttributeValue.sizeOf_lt_of_mem_allWidgets value h
      omega
    · have := Attribute.sizeOf_lt_of_mem_allWidgets rest h
      omega
theorem AttributeValue.sizeOf_lt_of_mem_allWidgets {w : Widget} :
    ∀ value : AttributeValue, w ∈ value.allWidgets → sizeOf w < sizeOf value
  | .mixed parts, hw => by
    have := Graph.sizeOf_lt_of_mem_allWidgets parts hw
    simp only [AttributeValue.mixed.sizeOf_spec]
    omega
/-- The widgets within what a widget has taken are smaller than the widget. -/
theorem Widget.sizeOf_lt_of_mem_innerWidgets {w : Widget} :
    ∀ widget : Widget, w ∈ widget.innerWidgets → sizeOf w < sizeOf widget
  | ⟨wrapper, child, replaced, partials, registry, config⟩, hw => by
    simp only [Widget.mk.sizeOf_spec]
    rcases List.mem_append.mp hw with h | h
    · have := Element.sizeOf_lt_of_mem_allWidgets replaced h
      omega
    · have := Binding.sizeOf_lt_of_mem_allWidgets partials h
      omega
theorem Binding.sizeOf_lt_of_mem_allWidgets {w : Widget} :
    ∀ partials : List Binding, w ∈ Binding.allWidgets partials → sizeOf w < sizeOf partials
  | ⟨_, graph, inner⟩ :: rest, hw => by
    simp only [List.cons.sizeOf_spec, Binding.mk.sizeOf_spec]
    rcases List.mem_append.mp hw with hfirst | h
    · rcases List.mem_append.mp hfirst with h | h
      · have := Graph.sizeOf_lt_of_mem_allWidgets graph h
        omega
      · have := Binding.sizeOf_lt_of_mem_allWidgets inner h
        omega
    · have := Binding.sizeOf_lt_of_mem_allWidgets rest h
      omega
theorem Graph.sizeOf_lt_of_mem_allWidgets {w : Widget} :
    ∀ graph : List Node, w ∈ Graph.allWidgets graph → sizeOf w < sizeOf graph
  | node :: rest, hw => by
    simp only [List.cons.sizeOf_spec]
    rcases List.mem_append.mp hw with h | h
    · have := Node.sizeOf_lt_of_mem_allWidgets node h
      omega
    · have := Graph.sizeOf_lt_of_mem_allWidgets rest h
      omega
end

end Stencil
