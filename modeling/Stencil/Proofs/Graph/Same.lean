import Stencil.Graph.Same
import Stencil.Proofs.Graph.Every

/-!
# What graphs that are the same have in common

Two graphs that are the same may differ only in what surrounds their widgets.  So each graph
is the same as itself, and a test that does not look into the surroundings of widgets comes
out the same for both.

* `Graph.same_refl` — a graph is the same as itself.
* `Element.staticClass?_of_same` — the same elements have the same literal class.
* `Graph.every_of_same` — the same graphs pass the same tests.
-/

namespace Stencil

/-! ## Every graph is the same as itself -/

mutual
theorem Node.same_refl : ∀ node : Node, node.same node = true
  | .text _ | .interpolator _ | .triple _ | .reference _ | .comment _ => by
    rw [Node.same, beq_self_eq_true]
  | .closingTag _ _ => by rw [Node.same, beq_self_eq_true, beq_self_eq_true, Bool.and_self]
  | .element el => by rw [Node.same, Element.same_refl el]
  | .sectionBlock _ children | .unlessBlock _ children | .partialRef _ children => by
    rw [Node.same, beq_self_eq_true, Graph.same_refl children, Bool.and_self]
  | .widget w => by rw [Node.same, Widget.same_refl w]
theorem Element.same_refl : ∀ element : Element, element.same element = true
  | ⟨_, attributes, children, _⟩ => by
    simp [Element.same, Attribute.sameAll_refl attributes, Graph.same_refl children]
theorem Attribute.sameAll_refl :
    ∀ attributes : List Attribute, Attribute.sameAll attributes attributes = true
  | [] => by rw [Attribute.sameAll]
  | ⟨_, value⟩ :: rest => by
    simp [Attribute.sameAll, Attribute.same, AttributeValue.same_refl value,
      Attribute.sameAll_refl rest]
theorem AttributeValue.same_refl : ∀ value : AttributeValue, value.same value = true
  | .empty => by rw [AttributeValue.same]
  | .literal _ => by rw [AttributeValue.same, beq_self_eq_true]
  | .mixed parts => by rw [AttributeValue.same, Graph.same_refl parts]
theorem Widget.same_refl : ∀ widget : Widget, widget.same widget = true
  | ⟨_, _, replaced, _, _, _⟩ => by simp [Widget.same, Element.same_refl replaced]
/-- A graph is the same as itself. -/
theorem Graph.same_refl : ∀ graph : List Node, Graph.same graph graph = true
  | [] => by rw [Graph.same]
  | node :: rest => by
    rw [Graph.same, Node.same_refl node, Graph.same_refl rest, Bool.and_self]
end

/-! ## Static classes -/

theorem AttributeValue.literalPart?_of_same {node other : Node} (h : node.same other = true) :
    literalPart? node = literalPart? other := by
  cases node <;> cases other <;> simp_all [Node.same, literalPart?]

theorem AttributeValue.literalParts_of_same :
    ∀ {parts others : List Node}, Graph.same parts others = true →
      parts.filterMap literalPart? = others.filterMap literalPart?
  | [], [], _ => rfl
  | [], _ :: _, h => by simp [Graph.same] at h
  | _ :: _, [], h => by simp [Graph.same] at h
  | part :: rest, other :: rest', h => by
    rw [Graph.same, Bool.and_eq_true] at h
    rw [List.filterMap_cons, List.filterMap_cons, literalPart?_of_same h.1,
      literalParts_of_same h.2]

theorem AttributeValue.staticText_of_same {value other : AttributeValue}
    (h : value.same other = true) : value.staticText = other.staticText := by
  cases value <;> cases other <;> simp only [AttributeValue.same, Bool.false_eq_true] at h
  case empty.empty => rfl
  case literal.literal text text' => rw [beq_iff_eq.mp h]
  case mixed.mixed parts parts' => rw [staticText, staticText, literalParts_of_same h]

/-- The same attributes have, under one name, values of the same literal text. -/
theorem Attribute.staticText_of_same (name : String) :
    ∀ {attributes others : List Attribute}, Attribute.sameAll attributes others = true →
      (attributes.find? (·.name == name)).map (·.value.staticText) =
        (others.find? (·.name == name)).map (·.value.staticText)
  | [], [], _ => rfl
  | [], _ :: _, h => by simp [sameAll] at h
  | _ :: _, [], h => by simp [sameAll] at h
  | ⟨first, value⟩ :: rest, ⟨first', value'⟩ :: rest', h => by
    simp only [sameAll, Attribute.same, Bool.and_eq_true, beq_iff_eq] at h
    obtain ⟨⟨rfl, hvalue⟩, hrest⟩ := h
    have htext := AttributeValue.staticText_of_same hvalue
    have hothers := Attribute.staticText_of_same name hrest
    simp only [List.find?_cons]
    split
    · rw [Option.map_some, Option.map_some, htext]
    · exact hothers

/-- The same elements have the same literal class. -/
theorem Element.staticClass?_of_same {element other : Element}
    (h : element.same other = true) : element.staticClass? = other.staticClass? := by
  obtain ⟨tag, attributes, children, isRoot⟩ := element
  simp only [Element.same, Bool.and_eq_true] at h
  simpa [staticClass?, attribute?, Function.comp_def] using
    Attribute.staticText_of_same "class" h.1.1.2

theorem Element.isRoot_of_same {element other : Element} (h : element.same other = true) :
    element.isRoot = other.isRoot := by
  obtain ⟨tag, attributes, children, isRoot⟩ := element
  simp only [Element.same, Bool.and_eq_true, beq_iff_eq] at h
  exact h.2

/-! ## Tests -/

/-- A test that does not tell nodes apart that are the same. -/
def Node.Respects (test : Node → Bool) : Prop :=
  ∀ node other : Node, node.same other = true → test node = test other

mutual
theorem Node.every_of_same {child value : Node → Bool} (hchild : Node.Respects child)
    (hvalue : Node.Respects value) :
    ∀ node other : Node, node.same other = true →
      node.every child value = other.every child value
  | .element el, other, h => by
    cases other <;> simp only [Node.same, Bool.false_eq_true] at h
    case element el' =>
      rw [Node.every, Node.every, hchild (.element el) (.element el') (by rwa [Node.same]),
        Element.every_of_same hchild hvalue el el' h]
  | .sectionBlock path children, other, h => by
    cases other <;> simp only [Node.same, Bool.false_eq_true] at h
    case sectionBlock path' children' =>
      rw [Node.every, Node.every,
        hchild (.sectionBlock path children) (.sectionBlock path' children') (by rwa [Node.same]),
        Graph.every_of_same hchild hvalue children children' (Bool.and_eq_true_iff.mp h).2]
  | .unlessBlock path children, other, h => by
    cases other <;> simp only [Node.same, Bool.false_eq_true] at h
    case unlessBlock path' children' =>
      rw [Node.every, Node.every,
        hchild (.unlessBlock path children) (.unlessBlock path' children') (by rwa [Node.same]),
        Graph.every_of_same hchild hvalue children children' (Bool.and_eq_true_iff.mp h).2]
  | .partialRef name fallback, other, h => by
    cases other <;> simp only [Node.same, Bool.false_eq_true] at h
    case partialRef name' fallback' =>
      rw [Node.every, Node.every,
        hchild (.partialRef name fallback) (.partialRef name' fallback') (by rwa [Node.same]),
        Graph.every_of_same hchild hvalue fallback fallback' (Bool.and_eq_true_iff.mp h).2]
  | .text _, other, h | .interpolator _, other, h | .triple _, other, h
  | .reference _, other, h | .comment _, other, h | .closingTag _ _, other, h
  | .widget _, other, h => by
    cases other <;> simp only [Node.same, Bool.false_eq_true] at h
    exact hchild _ _ (by rwa [Node.same])
theorem Element.every_of_same {child value : Node → Bool} (hchild : Node.Respects child)
    (hvalue : Node.Respects value) :
    ∀ element other : Element, element.same other = true →
      element.every child value = other.every child value
  | ⟨_, attributes, children, _⟩, ⟨_, attributes', children', _⟩, h => by
    simp only [Element.same, Bool.and_eq_true] at h
    rw [Element.every, Element.every,
      Attribute.everyAll_of_same hvalue attributes attributes' h.1.1.2,
      Graph.every_of_same hchild hvalue children children' h.1.2]
theorem Attribute.everyAll_of_same {value : Node → Bool} (hvalue : Node.Respects value) :
    ∀ attributes others : List Attribute, Attribute.sameAll attributes others = true →
      Attribute.everyAll value attributes = Attribute.everyAll value others
  | [], [], _ => rfl
  | [], _ :: _, h => by simp [Attribute.sameAll] at h
  | _ :: _, [], h => by simp [Attribute.sameAll] at h
  | ⟨_, contents⟩ :: rest, ⟨_, contents'⟩ :: rest', h => by
    simp only [Attribute.sameAll, Attribute.same, Bool.and_eq_true] at h
    rw [Attribute.everyAll, Attribute.everyAll,
      AttributeValue.every_of_same hvalue contents contents' h.1.2,
      Attribute.everyAll_of_same hvalue rest rest' h.2]
theorem AttributeValue.every_of_same {value : Node → Bool} (hvalue : Node.Respects value) :
    ∀ contents other : AttributeValue, contents.same other = true →
      contents.every value = other.every value
  | .empty, other, h => by cases other <;> simp_all [AttributeValue.same, AttributeValue.every]
  | .literal _, other, h => by cases other <;> simp_all [AttributeValue.same, AttributeValue.every]
  | .mixed parts, other, h => by
    cases other <;> simp only [AttributeValue.same, Bool.false_eq_true] at h
    case mixed parts' =>
      rw [AttributeValue.every, AttributeValue.every,
        Graph.every_of_same hvalue hvalue parts parts' h]
/-- The same graphs pass the same tests. -/
theorem Graph.every_of_same {child value : Node → Bool} (hchild : Node.Respects child)
    (hvalue : Node.Respects value) :
    ∀ graph other : List Node, Graph.same graph other = true →
      Graph.every child value graph = Graph.every child value other
  | [], [], _ => rfl
  | [], _ :: _, h => by simp [Graph.same] at h
  | _ :: _, [], h => by simp [Graph.same] at h
  | node :: rest, other :: rest', h => by
    rw [Graph.same, Bool.and_eq_true] at h
    rw [Graph.every, Graph.every, Node.every_of_same hchild hvalue node other h.1,
      Graph.every_of_same hchild hvalue rest rest' h.2]
end

end Stencil
