import Mathlib.Data.List.Forall2
import Stencil.Document.Decode

/-!
# Graphs up to the order of attributes

Two graphs are equal up to order if one comes from the other by moving attributes within their
elements, at any depth, also within the values of attributes.  With their partials, also these may
be moved.

* `Graph.Rearranged`, `Compiled.Rearranged` — equality up to order.
* `Attribute.rearranged_of_forall₂`, `Attribute.rearranged_of_perm` — attributes with equal
  values, and attributes in another order.
-/

namespace Stencil

mutual
/-- Two nodes are equal up to the order of the attributes of each element within them. -/
inductive Node.Rearranged : Node → Node → Prop
  | same (node : Node) : Node.Rearranged node node
  | element {tag : String} {attributes attributes' : List Attribute}
      {children children' : List Node} {isRoot : Bool} :
      Attribute.Rearranged attributes attributes' → Graph.Rearranged children children' →
      Node.Rearranged (.element ⟨tag, attributes, children, isRoot⟩)
        (.element ⟨tag, attributes', children', isRoot⟩)
  | sectionBlock {path : Path} {children children' : List Node} :
      Graph.Rearranged children children' →
      Node.Rearranged (.sectionBlock path children) (.sectionBlock path children')
  | unlessBlock {path : Path} {children children' : List Node} :
      Graph.Rearranged children children' →
      Node.Rearranged (.unlessBlock path children) (.unlessBlock path children')
  | partialRef {name : String} {fallback fallback' : List Node} :
      Graph.Rearranged fallback fallback' →
      Node.Rearranged (.partialRef name fallback) (.partialRef name fallback')
/-- Two graphs are equal node by node, up to the order of attributes. -/
inductive Graph.Rearranged : List Node → List Node → Prop
  | nil : Graph.Rearranged [] []
  | cons {node node' : Node} {rest rest' : List Node} :
      Node.Rearranged node node' → Graph.Rearranged rest rest' →
      Graph.Rearranged (node :: rest) (node' :: rest')
/-- Two lists of attributes are equal up to their order and the order of those in their values. -/
inductive Attribute.Rearranged : List Attribute → List Attribute → Prop
  | nil : Attribute.Rearranged [] []
  | cons {name : String} {value value' : AttributeValue} {rest rest' : List Attribute} :
      AttributeValue.Rearranged value value' → Attribute.Rearranged rest rest' →
      Attribute.Rearranged (⟨name, value⟩ :: rest) (⟨name, value'⟩ :: rest')
  | swap (first second : Attribute) (rest : List Attribute) :
      Attribute.Rearranged (first :: second :: rest) (second :: first :: rest)
  | trans {attributes attributes' attributes'' : List Attribute} :
      Attribute.Rearranged attributes attributes' →
      Attribute.Rearranged attributes' attributes'' → Attribute.Rearranged attributes attributes''
/-- Two values of attributes are equal up to the order of attributes within them. -/
inductive AttributeValue.Rearranged : AttributeValue → AttributeValue → Prop
  | empty : AttributeValue.Rearranged .empty .empty
  | literal (text : String) : AttributeValue.Rearranged (.literal text) (.literal text)
  | mixed {parts parts' : List Node} :
      Graph.Rearranged parts parts' → AttributeValue.Rearranged (.mixed parts) (.mixed parts')
end

/-- Two graphs with partials are equal up to the order of attributes and of the partials. -/
structure Compiled.Rearranged (compiled compiled' : Compiled) : Prop where
  graph : Graph.Rearranged compiled.graph compiled'.graph
  partials : ∃ moved : List (String × Graph), moved.Perm compiled'.partials ∧
    List.Forall₂ (fun entry entry' => entry.1 = entry'.1 ∧ Graph.Rearranged entry.2 entry'.2)
      compiled.partials moved

/-! ## Single steps -/

theorem Graph.rearranged_of_forall₂ {graph graph' : List Node}
    (h : List.Forall₂ Node.Rearranged graph graph') : Graph.Rearranged graph graph' := by
  induction h with
  | nil => exact .nil
  | cons hnode _ ih => exact .cons hnode ih

theorem Graph.Rearranged.refl (graph : List Node) : Graph.Rearranged graph graph :=
  rearranged_of_forall₂ (List.forall₂_same.mpr fun node _ => .same node)

theorem AttributeValue.Rearranged.refl (value : AttributeValue) : value.Rearranged value := by
  cases value with
  | empty => exact .empty
  | literal text => exact .literal text
  | mixed parts => exact .mixed (.refl parts)

/-- Attributes may differ in their values, up to order. -/
theorem Attribute.rearranged_of_forall₂ {attributes attributes' : List Attribute}
    (h : List.Forall₂ (fun first second => first.name = second.name ∧
      first.value.Rearranged second.value) attributes attributes') :
    Attribute.Rearranged attributes attributes' := by
  induction h with
  | nil => exact .nil
  | @cons first second _ _ hsame _ ih =>
    obtain ⟨name, value⟩ := first
    obtain ⟨name', value'⟩ := second
    obtain ⟨rfl, hvalue⟩ := hsame
    exact .cons hvalue ih

/-- Attributes may stand in another order. -/
theorem Attribute.rearranged_of_perm {attributes attributes' : List Attribute}
    (h : attributes.Perm attributes') : Attribute.Rearranged attributes attributes' := by
  induction h with
  | nil => exact .nil
  | cons moved _ ih =>
    obtain ⟨name, value⟩ := moved
    exact .cons (.refl value) ih
  | swap first second rest => exact .swap second first rest
  | trans _ _ ihfirst ihsecond => exact .trans ihfirst ihsecond

end Stencil
