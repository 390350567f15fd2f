import Stencil.Proofs.Script.Congruence
import Stencil.Proofs.Script.TagFree
import Stencil.Template.Attachment

/-!
# Interpreting graphs with children put in on the way

The children of a component can be put into a graph while it is interpreted: wherever an
element is met that makes place for a child, the widget of the child is put in instead.
That is the same as to interpret the graph in which the elements have been exchanged for
widgets, the bodies of partials being changed in the same way when they are come to.

* `Graph.walkMatching`, `PartialBody.walkMatching` — the walk that puts in children.
* `Graph.walkMatching_eq` — it is the walk through the graph with the elements exchanged.
* `PartialBody.walkMatching_of_leaves` — where no element makes place for a child, it is
  the plain walk.
-/

namespace Stencil

/-! ## The walk that puts in children -/

/-- The widget that an element gives way to, with the partials in scope at the element. -/
def Attachment.choose (attachment : Attachment) (partials : Partials) (element : Element) :
    Option Widget :=
  (attachment.childFor? element).map (attachment.widgetFor partials · element)

mutual
/-- The walk through a node that puts in a widget for each chosen element. -/
def Node.walkMatching (around : Surroundings) (choose : Element → Option Widget) : Node → Walk
  | .element ⟨tag, attributes, children, isRoot⟩ =>
      match choose ⟨tag, attributes, children, isRoot⟩ with
      | some widget => .emit (.leaf (.widget widget))
      | none =>
          .inFrame .ofElement tag
            (.seq (Attribute.walkAll around attributes) (Graph.walkMatching around choose children))
  | .sectionBlock path children =>
      .inFrame .ofSection path.text
        (.sectionContents path (Graph.walkMatching around choose children))
  | .unlessBlock path children =>
      .inFrame .ofSection path.text
        (.unlessContents path (Graph.walkMatching around choose children))
  | .partialRef name fallback => around.partialWalk name (Graph.walkMatching around choose fallback)
  | node => node.walk around
/-- The walk through a graph that puts in widgets for the chosen elements among children. -/
def Graph.walkMatching (around : Surroundings) (choose : Element → Option Widget) :
    List Node → Walk
  | [] => .skip
  | node :: rest => .seq (node.walkMatching around choose) (Graph.walkMatching around choose rest)
end

/-- The walk through the body of a partial that puts in the children of a component, with
`left` levels of partials to go. -/
def PartialBody.walkMatching (attachment : Attachment) : (left : Nat) → PartialBody → Walk
  | 0, body =>
      Graph.walkMatching
        ⟨(Stencil.resolve · body.partials attachment.registry), none,
          attachment.config.maxPartialDepth⟩
        (attachment.choose body.partials) body.graph
  | left + 1, body =>
      Graph.walkMatching
        ⟨(Stencil.resolve · body.partials attachment.registry),
          some (PartialBody.walkMatching attachment left), attachment.config.maxPartialDepth⟩
        (attachment.choose body.partials) body.graph

/-- The script of a graph with its partials, with the children of a component put in. -/
def Attachment.interpret (attachment : Attachment) (body : PartialBody) (data : Json) : Script :=
  (body.walkMatching attachment attachment.config.maxPartialDepth).steps (.ofData data)

/-! ## Graphs with elements exchanged for widgets -/

mutual
/-- A node in which the chosen elements among children are exchanged for widgets. -/
def Node.exchanged (choose : Element → Option Widget) : Node → Node
  | .element ⟨tag, attributes, children, isRoot⟩ =>
      match choose ⟨tag, attributes, children, isRoot⟩ with
      | some widget => .widget widget
      | none => .element ⟨tag, attributes, Graph.exchanged choose children, isRoot⟩
  | .sectionBlock path children => .sectionBlock path (Graph.exchanged choose children)
  | .unlessBlock path children => .unlessBlock path (Graph.exchanged choose children)
  | .partialRef name fallback => .partialRef name (Graph.exchanged choose fallback)
  | node => node
/-- A graph in which the chosen elements among children are exchanged for widgets. -/
def Graph.exchanged (choose : Element → Option Widget) : List Node → List Node
  | [] => []
  | node :: rest => node.exchanged choose :: Graph.exchanged choose rest
end

variable {choose : Element → Option Widget} {around : Surroundings}

mutual
theorem Node.walkMatching_eq (around : Surroundings) (choose : Element → Option Widget) :
    ∀ node : Node, node.walkMatching around choose = (node.exchanged choose).walk around
  | .element ⟨tag, attributes, children, isRoot⟩ => by
    unfold Node.walkMatching Node.exchanged
    cases choose ⟨tag, attributes, children, isRoot⟩ with
    | some widget => rfl
    | none => simp only [Graph.walkMatching_eq around choose children, Node.walk, Element.walk]
  | .sectionBlock path children => by
    rw [Node.walkMatching, Graph.walkMatching_eq around choose children]
    rfl
  | .unlessBlock path children => by
    rw [Node.walkMatching, Graph.walkMatching_eq around choose children]
    rfl
  | .partialRef name fallback => by
    rw [Node.walkMatching, Graph.walkMatching_eq around choose fallback]
    rfl
  | .text _ | .interpolator _ | .reference _ | .triple _ | .comment _ | .widget _ => rfl
  | .closingTag _ _ => rfl
/-- To put in children on the way is to walk through the graph with elements exchanged. -/
theorem Graph.walkMatching_eq (around : Surroundings) (choose : Element → Option Widget) :
    ∀ graph : List Node,
      Graph.walkMatching around choose graph = Graph.walk around (Graph.exchanged choose graph)
  | [] => rfl
  | node :: rest => by
    rw [Graph.walkMatching, Node.walkMatching_eq around choose node,
      Graph.walkMatching_eq around choose rest]
    rfl
end

/-! ## The steps of the walk -/

section Steps

variable (h : around.Steady) (scopes : Scopes)

include h

theorem Graph.steps_walkMatching_cons (node : Node) (rest : Graph) :
    (Graph.walkMatching around choose (node :: rest)).steps scopes =
      (node.walkMatching around choose).steps scopes ++
        (Graph.walkMatching around choose rest).steps scopes := by
  rw [Graph.walkMatching_eq, Node.walkMatching_eq, Graph.walkMatching_eq, Graph.exchanged,
    Graph.steps_cons h]

theorem Node.steps_walkMatching_sectionBlock (path : Path) (children : Graph) :
    (Node.walkMatching around choose (.sectionBlock path children)).steps scopes =
      [.frame .ofSection path.text
        ((scopes.within path).flatMap (Graph.walkMatching around choose children).steps)] := by
  rw [Node.walkMatching_eq, Graph.walkMatching_eq, Node.exchanged, Node.steps_sectionBlock h]

theorem Node.steps_walkMatching_unlessBlock (path : Path) (children : Graph) :
    (Node.walkMatching around choose (.unlessBlock path children)).steps scopes =
      [.frame .ofSection path.text
        ((scopes.withinUnless path).flatMap
          (Graph.walkMatching around choose children).steps)] := by
  rw [Node.walkMatching_eq, Graph.walkMatching_eq, Node.exchanged, Node.steps_unlessBlock h]

theorem Node.steps_walkMatching_element {tag : String} {attributes : List Attribute}
    {children : Graph} {isRoot : Bool}
    (hnone : choose ⟨tag, attributes, children, isRoot⟩ = none) :
    (Node.walkMatching around choose (.element ⟨tag, attributes, children, isRoot⟩)).steps scopes =
      [.frame .ofElement tag ((Attribute.walkAll around attributes).steps scopes ++
        (Graph.walkMatching around choose children).steps scopes)] := by
  rw [Node.walkMatching_eq, Graph.walkMatching_eq, Node.exchanged, hnone, Node.walk,
    Element.steps_walk h]

end Steps

/-- The walk that puts in children ends in the scopes it started in. -/
theorem PartialBody.walkMatching_steady (attachment : Attachment) (left : Nat)
    (body : PartialBody) : (body.walkMatching attachment left).Steady := by
  induction left generalizing body with
  | zero =>
    rw [walkMatching, Graph.walkMatching_eq]
    exact Graph.walk_steady (fun _ hwalks => by cases hwalks) _
  | succ left ih =>
    rw [walkMatching, Graph.walkMatching_eq]
    refine Graph.walk_steady ?_ _
    intro walks hwalks inner
    cases hwalks
    exact ih inner

/-! ## Where no child is put in -/

/-- Whether a node makes place for no child of the component. -/
def Attachment.leaves (attachment : Attachment) : Node → Bool
  | .element el => (attachment.childFor? el).isNone
  | _ => true

mutual
theorem Node.exchanged_of_leaves {attachment : Attachment} {value : Node → Bool}
    (partials : Partials) :
    ∀ node : Node, node.every attachment.leaves value = true →
      node.exchanged (attachment.choose partials) = node
  | .element ⟨tag, attributes, children, isRoot⟩, hevery => by
    simp only [Node.every, Element.every, Bool.and_eq_true] at hevery
    have hnone : attachment.choose partials ⟨tag, attributes, children, isRoot⟩ = none := by
      have hchild := hevery.1
      simp only [Attachment.leaves, Option.isNone_iff_eq_none] at hchild
      rw [Attachment.choose, hchild, Option.map_none]
    rw [Node.exchanged, hnone, Graph.exchanged_of_leaves partials children hevery.2.2]
  | .sectionBlock path children, hevery => by
    simp only [Node.every, Bool.and_eq_true] at hevery
    rw [Node.exchanged, Graph.exchanged_of_leaves partials children hevery.2]
  | .unlessBlock path children, hevery => by
    simp only [Node.every, Bool.and_eq_true] at hevery
    rw [Node.exchanged, Graph.exchanged_of_leaves partials children hevery.2]
  | .partialRef name fallback, hevery => by
    simp only [Node.every, Bool.and_eq_true] at hevery
    rw [Node.exchanged, Graph.exchanged_of_leaves partials fallback hevery.2]
  | .text _, _ | .interpolator _, _ | .reference _, _ | .triple _, _ | .comment _, _
  | .closingTag _ _, _ | .widget _, _ => rfl
/-- Where no element makes place for a child, none is exchanged. -/
theorem Graph.exchanged_of_leaves {attachment : Attachment} {value : Node → Bool}
    (partials : Partials) :
    ∀ graph : List Node, Graph.every attachment.leaves value graph = true →
      Graph.exchanged (attachment.choose partials) graph = graph
  | [], _ => rfl
  | node :: rest, hevery => by
    rw [Graph.every, Bool.and_eq_true] at hevery
    rw [Graph.exchanged, Node.exchanged_of_leaves partials node hevery.1,
      Graph.exchanged_of_leaves partials rest hevery.2]
end

/-- Where no element that can be reached makes place for a child, the walk that puts in
children is the plain walk. -/
theorem PartialBody.walkMatching_of_leaves {attachment : Attachment} {value : Node → Bool}
    (left : Nat) (body : PartialBody)
    (hleaves : ∀ reached, body.Reaches attachment.registry reached →
      Graph.every attachment.leaves value reached.graph = true) :
    body.walkMatching attachment left =
      body.walk attachment.registry attachment.config.maxPartialDepth left := by
  have hgraph := Graph.exchanged_of_leaves body.partials body.graph (hleaves body .start)
  induction left generalizing body with
  | zero => rw [walkMatching, Graph.walkMatching_eq, hgraph, walk]
  | succ left ih =>
    rw [walkMatching, Graph.walkMatching_eq, hgraph, walk]
    refine Graph.walk_congr body.graph ?_
    intro name hname fallback
    cases hresolve : resolve name body.partials attachment.registry with
    | none => simp only [Surroundings.partialWalk, hresolve]
    | some inner =>
      have hinner : ∀ reached, inner.Reaches attachment.registry reached →
          Graph.every attachment.leaves value reached.graph = true := fun reached hreached =>
        hleaves reached (Reaches.trans (.step .start hname hresolve) hreached)
      have hsame := ih inner hinner
        (Graph.exchanged_of_leaves inner.partials inner.graph (hinner inner .start))
      simp only [Surroundings.partialWalk, hresolve, hsame]

end Stencil
