import Stencil.Host.Attach
import Stencil.Proofs.Graph.Same

/-!
# Attached graphs are settled

In the place of children, a graph that was attached refers to no partial, and none of its
elements makes place for a child, roots apart.  Attaching leaves graphs of this kind alone
and changes all others, so to attach a graph once more is to do nothing.

* `Graph.isSettled` — no partial and no place for a child is left.
* `Graph.isSettled_attach`, `Graph.attach_of_isSettled` — attached graphs are settled, and
  settled graphs stay as they are.
* `Host.attachGraph_settled` — attaching with the children of a component, once and again.
-/

namespace Stencil

/-! ## Settled graphs -/

/-- Whether the literal class of an element holds one of the selectors. -/
def Element.isNamedBy (selectors : List String) (element : Element) : Bool :=
  element.staticClass?.any fun text => selectors.any (Attachment.selects text)

/-- Whether a node is no partial and, if it is an element, a root or named by no selector. -/
def Node.isSettled (selectors : List String) : Node → Bool
  | .element el => el.isRoot || !el.isNamedBy selectors
  | .partialRef _ _ => false
  | _ => true

/-- Whether all nodes in the place of children are settled, whatever stands in attributes. -/
def Graph.isSettled (selectors : List String) (graph : Graph) : Bool :=
  Graph.every (Node.isSettled selectors) (fun _ => true) graph

/-- The selectors that a component has children under. -/
def Component.selectors (component : Component) : List String :=
  component.children.map Prod.fst

/-- Whether a node is settled does not depend on the surroundings of widgets. -/
theorem Node.isSettled_respects (selectors : List String) :
    Node.Respects (Node.isSettled selectors) := by
  intro node other h
  cases node <;> cases other <;> simp only [Node.same, Bool.false_eq_true] at h
  case element.element el el' =>
    rw [isSettled, isSettled, Element.isNamedBy, Element.isNamedBy,
      Element.isRoot_of_same h, Element.staticClass?_of_same h]
  all_goals rfl

theorem Graph.isSettled_of_same (selectors : List String) {graph other : Graph}
    (h : Graph.same graph other = true) :
    Graph.isSettled selectors graph = Graph.isSettled selectors other :=
  Graph.every_of_same (Node.isSettled_respects selectors) (fun _ _ _ => rfl) graph other h

/-! ## Places of children -/

namespace Attachment

/-- The selectors that children are put in under. -/
def selectors (attachment : Attachment) : List String := attachment.children.map Prod.fst

/-- An element makes place for no child if it is settled. -/
theorem childFor?_eq_none (attachment : Attachment) (element : Element) :
    attachment.childFor? element = none ↔
      (element.isRoot || !element.isNamedBy attachment.selectors) = true := by
  unfold childFor? Element.isNamedBy
  cases element.isRoot with
  | true => simp
  | false =>
    cases element.staticClass? with
    | none => simp
    | some text => simp [childOfClass?, selectors, List.find?_eq_none]

end Attachment

/-! ## Attached graphs -/

section Attached

variable {attachment : Attachment} {expansion : Expansion}

/-- What expanding a partial gives is settled. -/
def Expansion.IsSettled (expansion : Expansion) (selectors : List String) : Prop :=
  ∀ names body, Graph.isSettled selectors (expansion.expand names body).value = true

mutual
theorem Node.isSettled_attach (hexpand : expansion.IsSettled attachment.selectors) :
    ∀ node : Node,
      Graph.isSettled attachment.selectors (node.attach attachment expansion).value = true
  | .element ⟨tag, attributes, children, isRoot⟩ => by
    rw [Node.attach]
    cases hchild : attachment.childFor? ⟨tag, attributes, children, isRoot⟩ with
    | some child => rfl
    | none =>
      have helement := (attachment.childFor?_eq_none _).mp hchild
      have hchildren := Graph.isSettled_attach hexpand children
      simp only [Logged.value_bind, Logged.value_pure, Graph.isSettled, Graph.every, Node.every,
        Element.every, Attribute.everyAll_true, Bool.true_and, Bool.and_true, Bool.and_eq_true]
      -- Whether an element is named depends on its attributes, which stay.
      exact ⟨helement, hchildren⟩
  | .sectionBlock path children | .unlessBlock path children => by
    have hchildren := Graph.isSettled_attach hexpand children
    simpa [Node.attach, Graph.isSettled, Graph.every, Node.every, Node.isSettled] using hchildren
  | .partialRef name fallback => by
    rw [Node.attach]
    split
    · rfl
    · split
      · exact hexpand _ _
      · exact Graph.isSettled_attach hexpand fallback
  | .text _ | .interpolator _ | .triple _ | .reference _ | .comment _ | .closingTag _ _
  | .widget _ => rfl
/-- Attached graphs are settled. -/
theorem Graph.isSettled_attach (hexpand : expansion.IsSettled attachment.selectors) :
    ∀ graph : List Node,
      Graph.isSettled attachment.selectors (Graph.attach attachment expansion graph).value = true
  | [] => rfl
  | node :: rest => by
    have hnode := Node.isSettled_attach hexpand node
    have hrest := Graph.isSettled_attach hexpand rest
    simp only [Graph.attach, Logged.value_bind, Logged.value_pure]
    rw [Graph.isSettled, Graph.every_append, Bool.and_eq_true]
    exact ⟨hnode, hrest⟩
end

mutual
theorem Node.attach_of_isSettled :
    ∀ node : Node, node.every (Node.isSettled attachment.selectors) (fun _ => true) = true →
      (node.attach attachment expansion).value = [node]
  | .element ⟨tag, attributes, children, isRoot⟩, h => by
    simp only [Node.every, Element.every, Node.isSettled, Bool.and_eq_true] at h
    have hchild := (attachment.childFor?_eq_none ⟨tag, attributes, children, isRoot⟩).mpr h.1
    have hchildren := Graph.attach_of_isSettled children h.2.2
    simp only [Node.attach, hchild, Logged.value_bind, Logged.value_pure, hchildren]
  | .sectionBlock path children, h | .unlessBlock path children, h => by
    simp only [Node.every, Bool.and_eq_true] at h
    have hchildren := Graph.attach_of_isSettled children h.2
    simp only [Node.attach, Logged.value_bind, Logged.value_pure, hchildren]
  | .partialRef _ _, h => by simp [Node.every, Node.isSettled] at h
  | .text _, _ | .interpolator _, _ | .triple _, _ | .reference _, _ | .comment _, _
  | .closingTag _ _, _ | .widget _, _ => rfl
/-- Settled graphs stay as they are. -/
theorem Graph.attach_of_isSettled :
    ∀ graph : List Node, Graph.isSettled attachment.selectors graph = true →
      (Graph.attach attachment expansion graph).value = graph
  | [], _ => rfl
  | node :: rest, h => by
    simp only [Graph.isSettled, Graph.every, Bool.and_eq_true] at h
    have hnode := Node.attach_of_isSettled node h.1
    have hrest := Graph.attach_of_isSettled rest h.2
    simp only [Graph.attach, Logged.value_bind, Logged.value_pure, hnode, hrest,
      List.singleton_append]
end

end Attached

/-! ## Bodies of partials -/

/-- Attached bodies are settled, however few levels are left for the partials in them. -/
theorem PartialBody.isSettled_attach (attachment : Attachment) (left : Nat) :
    ∀ (expanding : List String) (body : PartialBody),
      Graph.isSettled attachment.selectors (body.attach attachment left expanding).value =
        true := by
  induction left with
  | zero =>
    intro expanding body
    rw [attach]
    exact Graph.isSettled_attach (fun _ _ => rfl) body.graph
  | succ left ih =>
    intro expanding body
    have hexpand : Expansion.IsSettled
        ⟨body.partials, expanding, PartialBody.attach attachment left⟩ attachment.selectors := ih
    rw [attach]
    exact Graph.isSettled_attach hexpand body.graph

theorem Attachment.isSettled_attach (attachment : Attachment) (body : PartialBody) :
    Graph.isSettled attachment.selectors (attachment.attach body).value = true :=
  body.isSettled_attach attachment _ _

theorem Attachment.attach_of_isSettled {attachment : Attachment} {body : PartialBody}
    (h : Graph.isSettled attachment.selectors body.graph = true) :
    (attachment.attach body).value = body.graph := by
  rw [attach]
  cases attachment.nameBound body.partials <;>
    rw [PartialBody.attach, Graph.attach_of_isSettled body.graph h]

/-- An attached graph is settled; it is the same as the graph that was attached just if that
is settled; and to attach it once more, by whatever wrapper and in whatever partials, gives
it back. -/
theorem Host.attachGraph_settled (host : Host) (component : Component) (wrapper : Wrapper)
    (registry : RegistryName) (config : Config) (body : PartialBody) :
    let attached := (host.attachGraph component wrapper registry config body).value
    Graph.isSettled component.selectors attached = true ∧
      (Graph.same attached body.graph = true ↔
        Graph.isSettled component.selectors body.graph = true) ∧
      ∀ (later : Host) (wrapper' : Wrapper) (registry' : RegistryName) (config' : Config)
        (partials' : Partials),
        (later.attachGraph component wrapper' registry' config' ⟨attached, partials'⟩).value =
          attached := by
  intro attached
  have hsettled : Graph.isSettled component.selectors attached = true :=
    (host.attachment component wrapper registry config).isSettled_attach body
  refine ⟨hsettled, ⟨fun hsame => ?_, fun h => ?_⟩, ?_⟩
  · rwa [← Graph.isSettled_of_same component.selectors hsame]
  · have heq : attached = body.graph := Attachment.attach_of_isSettled h
    rw [heq]
    exact Graph.same_refl body.graph
  · intro later wrapper' registry' config' partials'
    exact Attachment.attach_of_isSettled hsettled

end Stencil
