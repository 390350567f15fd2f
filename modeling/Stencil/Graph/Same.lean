import Stencil.Graph.Basic

/-!
# When graphs are the same

Graphs are compared node by node.  Two widgets are the same if they stand for the
same child through the same wrapper in place of the same element; the partials and
settings around them do not count.

* `Node.same`, `Graph.same` — the comparison.
-/

namespace Stencil

mutual
/-- Whether two nodes are the same. -/
def Node.same : Node → Node → Bool
  | .text a, .text b => a == b
  | .element a, .element b => a.same b
  | .interpolator a, .interpolator b => a == b
  | .triple a, .triple b => a == b
  | .reference a, .reference b => a == b
  | .sectionBlock a as, .sectionBlock b bs => a == b && Graph.same as bs
  | .unlessBlock a as, .unlessBlock b bs => a == b && Graph.same as bs
  | .partialRef a as, .partialRef b bs => a == b && Graph.same as bs
  | .comment a, .comment b => a == b
  | .closingTag i a, .closingTag j b => i == j && a == b
  | .widget a, .widget b => a.same b
  | _, _ => false
/-- Whether two graphs are the same. -/
def Graph.same : List Node → List Node → Bool
  | [], [] => true
  | a :: as, b :: bs => a.same b && Graph.same as bs
  | _, _ => false
/-- Whether two elements are the same. -/
def Element.same : Element → Element → Bool
  | ⟨tag, attributes, children, isRoot⟩, other =>
      tag == other.tag && Attribute.sameAll attributes other.attributes &&
        Graph.same children other.children && isRoot == other.isRoot
/-- Whether two attributes are the same. -/
def Attribute.same : Attribute → Attribute → Bool
  | ⟨name, value⟩, other => name == other.name && value.same other.value
/-- Whether two lists of attributes are the same. -/
def Attribute.sameAll : List Attribute → List Attribute → Bool
  | [], [] => true
  | a :: as, b :: bs => a.same b && Attribute.sameAll as bs
  | _, _ => false
/-- Whether two values of attributes are the same. -/
def AttributeValue.same : AttributeValue → AttributeValue → Bool
  | .empty, .empty => true
  | .literal a, .literal b => a == b
  | .mixed as, .mixed bs => Graph.same as bs
  | _, _ => false
/-- Whether two widgets are the same. -/
def Widget.same : Widget → Widget → Bool
  | ⟨wrapper, child, replaced, _, _, _⟩, other =>
      child == other.child && wrapper == other.wrapper && replaced.same other.replaced
end

end Stencil
