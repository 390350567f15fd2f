import Stencil.Proofs.Graph.Every
import Stencil.Proofs.Graph.Widgets

/-!
# Graphs with end tags

An element ends where the graph says so, with no need of an end tag.  One may be put behind
its children all the same, in any elements of a graph, of the partials in scope in it, and of
those in scope in these.

* `Graph.EndTagged`, `Partials.EndTagged` — some elements have got an end tag.
* `Graph.allWidgets_endTagged` — the widgets are the same.
* `Partials.get?_endTagged` — names lead to what they led to, but for end tags.
-/

namespace Stencil

mutual
/-- The second node is the first one with end tags in some elements. -/
inductive Node.EndTagged : Node → Node → Prop
  | same (node : Node) : Node.EndTagged node node
  | element {el el' : Element} : Element.EndTagged el el' →
      Node.EndTagged (.element el) (.element el')
  | sectionBlock (path : Path) {children children' : List Node} :
      Graph.EndTagged children children' →
      Node.EndTagged (.sectionBlock path children) (.sectionBlock path children')
  | unlessBlock (path : Path) {children children' : List Node} :
      Graph.EndTagged children children' →
      Node.EndTagged (.unlessBlock path children) (.unlessBlock path children')
  | partialRef (name : String) {fallback fallback' : List Node} :
      Graph.EndTagged fallback fallback' →
      Node.EndTagged (.partialRef name fallback) (.partialRef name fallback')
/-- The second element is the first one with end tags in some elements, maybe in itself: with
its own tag, in letters of any case, and no address. -/
inductive Element.EndTagged : Element → Element → Prop
  | kept (tag : String) (isRoot : Bool) {attributes attributes' : List Attribute}
      {children children' : List Node} : Attribute.AllEndTagged attributes attributes' →
      Graph.EndTagged children children' →
      Element.EndTagged ⟨tag, attributes, children, isRoot⟩ ⟨tag, attributes', children', isRoot⟩
  | ended (tag : String) (isRoot : Bool) {tag' : String} {attributes attributes' : List Attribute}
      {children children' : List Node} (hname : Text.sameName tag tag' = true) :
      Attribute.AllEndTagged attributes attributes' → Graph.EndTagged children children' →
      Element.EndTagged ⟨tag, attributes, children, isRoot⟩
        ⟨tag, attributes', children' ++ [.closingTag none tag'], isRoot⟩
/-- The second attributes are the first ones with end tags in some elements. -/
inductive Attribute.AllEndTagged : List Attribute → List Attribute → Prop
  | nil : Attribute.AllEndTagged [] []
  | cons (name : String) {value value' : AttributeValue} {rest rest' : List Attribute} :
      AttributeValue.EndTagged value value' → Attribute.AllEndTagged rest rest' →
      Attribute.AllEndTagged (⟨name, value⟩ :: rest) (⟨name, value'⟩ :: rest')
/-- The second value of an attribute is the first one with end tags in some elements. -/
inductive AttributeValue.EndTagged : AttributeValue → AttributeValue → Prop
  | same (value : AttributeValue) : AttributeValue.EndTagged value value
  | mixed {parts parts' : List Node} : Graph.EndTagged parts parts' →
      AttributeValue.EndTagged (.mixed parts) (.mixed parts')
/-- The second graph is the first one with end tags in some elements. -/
inductive Graph.EndTagged : List Node → List Node → Prop
  | nil : Graph.EndTagged [] []
  | cons {node node' : Node} {rest rest' : List Node} : Node.EndTagged node node' →
      Graph.EndTagged rest rest' → Graph.EndTagged (node :: rest) (node' :: rest')
end

mutual
/-- The second binding is the first one with end tags in some elements. -/
inductive Binding.EndTagged : Binding → Binding → Prop
  | mk (name : String) {graph graph' : List Node} {partials partials' : List Binding} :
      Graph.EndTagged graph graph' → Partials.EndTagged partials partials' →
      Binding.EndTagged ⟨name, graph, partials⟩ ⟨name, graph', partials'⟩
/-- The second partials are the first ones with end tags in some elements. -/
inductive Partials.EndTagged : List Binding → List Binding → Prop
  | nil : Partials.EndTagged [] []
  | cons {binding binding' : Binding} {rest rest' : List Binding} :
      Binding.EndTagged binding binding' → Partials.EndTagged rest rest' →
      Partials.EndTagged (binding :: rest) (binding' :: rest')
end

theorem Graph.EndTagged.refl (graph : Graph) : Graph.EndTagged graph graph := by
  induction graph with
  | nil => exact .nil
  | cons node rest ih => exact .cons (.same node) ih

/-! ## Widgets -/

mutual
theorem Node.allWidgets_endTagged :
    ∀ {node node' : Node}, Node.EndTagged node node' → node'.allWidgets = node.allWidgets
  | _, _, .same _ => rfl
  | _, _, .element h => Element.allWidgets_endTagged h
  | _, _, .sectionBlock _ h | _, _, .unlessBlock _ h | _, _, .partialRef _ h =>
    Graph.allWidgets_endTagged h
theorem Element.allWidgets_endTagged :
    ∀ {element element' : Element}, Element.EndTagged element element' →
      element'.allWidgets = element.allWidgets
  | _, _, .kept _ _ hattributes hchildren => by
    rw [Element.allWidgets, Element.allWidgets, Attribute.allWidgets_endTagged hattributes,
      Graph.allWidgets_endTagged hchildren]
  | _, _, .ended _ _ _ hattributes hchildren => by
    rw [Element.allWidgets, Element.allWidgets, Attribute.allWidgets_endTagged hattributes,
      Graph.allWidgets_append, Graph.allWidgets_endTagged hchildren]
    exact congrArg _ (List.append_nil _)
theorem Attribute.allWidgets_endTagged :
    ∀ {attributes attributes' : List Attribute}, Attribute.AllEndTagged attributes attributes' →
      Attribute.allWidgets attributes' = Attribute.allWidgets attributes
  | _, _, .nil => rfl
  | _, _, .cons _ hvalue hrest => by
    rw [Attribute.allWidgets, Attribute.allWidgets, AttributeValue.allWidgets_endTagged hvalue,
      Attribute.allWidgets_endTagged hrest]
theorem AttributeValue.allWidgets_endTagged :
    ∀ {value value' : AttributeValue}, AttributeValue.EndTagged value value' →
      value'.allWidgets = value.allWidgets
  | _, _, .same _ => rfl
  | _, _, .mixed h => Graph.allWidgets_endTagged h
/-- End tags leave the widgets of a graph as they are. -/
theorem Graph.allWidgets_endTagged :
    ∀ {graph graph' : List Node}, Graph.EndTagged graph graph' →
      Graph.allWidgets graph' = Graph.allWidgets graph
  | _, _, .nil => rfl
  | _, _, .cons hnode hrest => by
    rw [Graph.allWidgets, Graph.allWidgets, Node.allWidgets_endTagged hnode,
      Graph.allWidgets_endTagged hrest]
end

/-- Neither do they change the widgets of partials. -/
theorem Binding.allWidgets_endTagged :
    ∀ {partials partials' : List Binding}, Partials.EndTagged partials partials' →
      Binding.allWidgets partials' = Binding.allWidgets partials
  | _, _, .nil => rfl
  | _, _, .cons (.mk _ hgraph hinner) hrest => by
    rw [Binding.allWidgets, Binding.allWidgets, Graph.allWidgets_endTagged hgraph,
      Binding.allWidgets_endTagged hinner, Binding.allWidgets_endTagged hrest]

/-! ## Partials -/

/-- The second body is the first one with end tags in some elements, also in its partials. -/
structure PartialBody.EndTagged (body body' : PartialBody) : Prop where
  graph : Graph.EndTagged body.graph body'.graph
  partials : Partials.EndTagged body.partials body'.partials

/-- A name leads to what it led to, but for end tags. -/
theorem Partials.get?_endTagged (name : String) {partials partials' : Partials}
    (h : Partials.EndTagged partials partials') :
    Option.Rel PartialBody.EndTagged (Partials.get? partials name)
      (Partials.get? partials' name) := by
  induction partials generalizing partials' with
  | nil =>
    cases h
    exact .none
  | cons binding rest ih =>
    cases h with
    | cons hbinding hrest =>
      cases hbinding with
      | mk bound hgraph hinner =>
        have hlater := ih hrest
        simp only [Partials.get?, List.find?_cons] at hlater ⊢
        split
        · exact .some ⟨hgraph, hinner⟩
        · exact hlater

end Stencil
