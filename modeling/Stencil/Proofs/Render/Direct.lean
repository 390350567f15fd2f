import Stencil.Proofs.Piece.Join
import Stencil.Proofs.Script.Contents
import Stencil.Proofs.Script.Steady

/-!
# Rendering by recursion over the graph

The tree of a graph, without a builder: what each node shows is read off the node and
the scopes around it, and what stands side by side is joined where it stands.

* `Graph.direct`, `PartialBody.direct` — what a graph and the body of a partial show.
* `PartialBody.pieces_steps` — the walk through a body puts in just that.
-/

namespace Stencil

/-! ## What nodes show -/

namespace Piece

variable {ω : Type}

/-- The text of the pieces of an attribute value: none if there are no pieces. -/
def valueOf (pieces : List (Piece ω)) : Option String :=
  if pieces.isEmpty then none else some (textContents pieces)

end Piece

/-- What graphs are shown with. -/
structure Direct where
  /-- How to find a partial. -/
  resolve : String → Option PartialBody
  /-- What the body of a partial shows; none if partials are nested too deep. -/
  expand : Option (PartialBody → Scopes → List (Piece Widget))

mutual
/-- The pieces that a node shows. -/
def Node.direct (around : Direct) (scopes : Scopes) : Node → List (Piece Widget)
  | .text s => [.text s]
  | .element el => [el.direct around scopes]
  | .interpolator path => [.text (scopes.text path)]
  | .reference path => [.text (scopes.text path)]
  | .triple path => [.raw (scopes.text path)]
  | .sectionBlock path children =>
      [.block .ofSection (childrenOf (Piece.merged
        ((scopes.within path).flatMap fun inner => Graph.direct around inner children)))]
  | .unlessBlock path children =>
      [.block .ofSection (childrenOf (Piece.merged
        ((scopes.withinUnless path).flatMap fun inner => Graph.direct around inner children)))]
  | .partialRef name fallback =>
      match around.expand with
      | none => []
      | some expand =>
          match around.resolve name with
          | some body =>
              [.block (.ofPartial name) (childrenOf (Piece.merged (expand body scopes)))]
          | none => Graph.direct around scopes fallback
  | .comment s => [.comment s]
  | .closingTag _ _ => []
  | .widget w => [.widget w]
/-- The piece that an element is shown as. -/
def Element.direct (around : Direct) (scopes : Scopes) : Element → Piece Widget
  | ⟨tag, attributes, children, _⟩ =>
      .element tag (Attribute.directAll around scopes attributes)
        (childrenOf (Piece.merged (Graph.direct around scopes children)))
/-- Attributes with the values they are shown with. -/
def Attribute.directAll (around : Direct) (scopes : Scopes) :
    List Attribute → List OutputAttribute
  | [] => []
  | ⟨name, value⟩ :: rest =>
      ⟨name, value.direct around scopes⟩ :: Attribute.directAll around scopes rest
/-- The value that an attribute is shown with. -/
def AttributeValue.direct (around : Direct) (scopes : Scopes) : AttributeValue → Option String
  | .empty => none
  | .literal s => some s
  | .mixed parts => Piece.valueOf (Graph.direct around scopes parts)
/-- The pieces that a graph shows. -/
def Graph.direct (around : Direct) (scopes : Scopes) : List Node → List (Piece Widget)
  | [] => []
  | node :: rest => node.direct around scopes ++ Graph.direct around scopes rest
end

/-- The pieces that the body of a partial shows, with `left` levels of partials to go. -/
def PartialBody.direct (registry : Partials) :
    (left : Nat) → PartialBody → Scopes → List (Piece Widget)
  | 0, body, scopes => Graph.direct ⟨(resolve · body.partials registry), none⟩ scopes body.graph
  | left + 1, body, scopes =>
      Graph.direct
        ⟨(resolve · body.partials registry), some (PartialBody.direct registry left)⟩ scopes
        body.graph

/-! ## Pieces within frames -/

/-- The value of an attribute is that of the pieces put into it, joined or not. -/
theorem Frame.attributeValue_merged {ω : Type} (pieces : List (Piece ω)) :
    Frame.attributeValue (Piece.merged pieces) = Piece.valueOf pieces := by
  unfold Frame.attributeValue Piece.valueOf
  by_cases hempty : pieces = []
  · subst hempty
    rfl
  · have hmerged : Piece.merged pieces ≠ [] := fun h => hempty ((Piece.merged_eq_nil _).1 h)
    have hchildren : childrenOf (Piece.merged pieces) = some (Piece.merged pieces) := by
      simp [childrenOf, hmerged]
    have hnonempty : pieces.isEmpty = false := by simpa using hempty
    rw [hchildren, Option.map_some, Piece.textContents_merged, hnonempty]
    rfl

/-- The pieces hold no attribute that is on its way to an element. -/
def Piece.Settled {ω : Type} (pieces : List (Piece ω)) : Prop :=
  ∀ piece ∈ pieces, piece.attribute? = none

namespace Piece.Settled

variable {ω : Type} {first second pieces : List (Piece ω)}

theorem nil : Settled ([] : List (Piece ω)) := fun _ hmem => absurd hmem List.not_mem_nil

theorem singleton {piece : Piece ω} (h : piece.attribute? = none) : Settled [piece] := by
  intro other hmem
  rw [List.mem_singleton.1 hmem]
  exact h

theorem flatMap {β : Type} {items : List β} {shown : β → List (Piece ω)}
    (h : ∀ item, Settled (shown item)) : Settled (items.flatMap shown) := by
  intro piece hmem
  obtain ⟨item, -, hpiece⟩ := List.mem_flatMap.1 hmem
  exact h item piece hpiece

theorem append (hfirst : Settled first) (hsecond : Settled second) : Settled (first ++ second) := by
  intro piece hmem
  rcases List.mem_append.1 hmem with h | h
  · exact hfirst piece h
  · exact hsecond piece h

theorem children_eq (h : Settled pieces) : Piece.children pieces = pieces := by
  refine List.filter_eq_self.2 ?_
  intro piece hmem
  rw [h piece hmem]
  rfl

theorem attributes_eq (h : Settled pieces) : Piece.attributes pieces = [] :=
  List.filterMap_eq_nil_iff.2 h

theorem joined_eq (h : Settled pieces) : Piece.joined pieces = Piece.merged pieces := by
  rw [joined, h.children_eq]
  rfl

end Piece.Settled

/-- What an element becomes: the attributes come first, and its children after them. -/
theorem Piece.ofFrame_element {ω : Type} (tag : String) (attributes : List OutputAttribute)
    {pieces : List (Piece ω)} (h : Settled pieces) :
    Piece.ofFrame .ofElement tag (attributes.map Piece.attr ++ pieces) =
      .element tag attributes (childrenOf (Piece.merged pieces)) := by
  have hattributes : Piece.attributes (attributes.map (Piece.attr (ω := ω))) = attributes := by
    rw [Piece.attributes, List.filterMap_map]
    exact List.filterMap_some
  have hchildren : Piece.children (attributes.map (Piece.attr (ω := ω))) = [] := by
    simp [Piece.children, Piece.attribute?]
  have hjoined : Piece.joined (attributes.map Piece.attr ++ pieces) = Piece.merged pieces := by
    rw [Piece.joined, Piece.children, List.filter_append, ← Piece.children, ← Piece.children,
      hchildren, List.nil_append, h.children_eq]
    rfl
  rw [Piece.ofFrame, hjoined, Piece.attributes, List.filterMap_append, ← Piece.attributes,
    ← Piece.attributes, hattributes, h.attributes_eq, List.append_nil]

/-! ## Graphs and bodies -/

/-- The surroundings of a walk and of a direct rendering find the same partials, and what
they make of bodies agrees. -/
structure Direct.Mirrors (direct : Direct) (around : Surroundings) : Prop where
  steady : around.Steady
  resolve : direct.resolve = around.resolve
  expand : (direct.expand = none ∧ around.expand = none) ∨
    ∃ shown walks, direct.expand = some shown ∧ around.expand = some walks ∧
      ∀ body scopes, Script.pieces ((walks body).steps scopes) = shown body scopes ∧
        Piece.Settled (shown body scopes)

variable {around : Surroundings} {direct : Direct}

mutual
theorem Node.direct_settled (direct : Direct) (scopes : Scopes) :
    ∀ node : Node, Piece.Settled (node.direct direct scopes)
  | .element ⟨_, _, _, _⟩ => .singleton rfl
  | .partialRef name fallback => by
    unfold Node.direct
    cases direct.expand with
    | none => exact .nil
    | some expand =>
      cases direct.resolve name with
      | none => exact Graph.direct_settled direct scopes fallback
      | some body => exact .singleton rfl
  | .closingTag _ _ => .nil
  | .text _ | .interpolator _ | .reference _ | .triple _ | .comment _ | .widget _ =>
    .singleton rfl
  | .sectionBlock _ _ | .unlessBlock _ _ => .singleton rfl
/-- What nodes show stands for itself; only attributes are on their way to an element. -/
theorem Graph.direct_settled (direct : Direct) (scopes : Scopes) :
    ∀ graph : List Node, Piece.Settled (Graph.direct direct scopes graph)
  | [] => .nil
  | node :: rest =>
    (Node.direct_settled direct scopes node).append (Graph.direct_settled direct scopes rest)
end

/-- A section becomes a block of what its contents show in each of its scopes. -/
theorem Piece.ofFrame_section (direct : Direct) (name : String) (inner : List Scopes)
    (children : Graph) :
    Piece.ofFrame .ofSection name
        (inner.flatMap fun scopes => Graph.direct direct scopes children) =
      .block .ofSection (childrenOf (Piece.merged
        (inner.flatMap fun scopes => Graph.direct direct scopes children))) := by
  have hsettled : Piece.Settled
      (inner.flatMap fun scopes => Graph.direct direct scopes children) :=
    .flatMap fun scopes => Graph.direct_settled direct scopes children
  rw [Piece.ofFrame, hsettled.joined_eq]

theorem Script.pieces_frame (kind : FrameKind) (name : String) (body : Script) :
    Script.pieces [.frame kind name body] = [Piece.ofFrame kind name (Script.pieces body)] := by
  rw [Script.pieces, Directive.pieces, Script.pieces, List.append_nil]

mutual
theorem Node.pieces_steps (h : direct.Mirrors around) (scopes : Scopes) :
    ∀ node : Node, Script.pieces ((node.walk around).steps scopes) = node.direct direct scopes
  | .element el => Element.pieces_steps h scopes el
  | .sectionBlock path children => by
    have hchildren := fun inner => Graph.pieces_steps h inner children
    rw [Node.steps_sectionBlock h.steady, Script.pieces_frame, Script.pieces_flatMap]
    simp only [hchildren, Piece.ofFrame_section]
    rfl
  | .unlessBlock path children => by
    have hchildren := fun inner => Graph.pieces_steps h inner children
    rw [Node.steps_unlessBlock h.steady, Script.pieces_frame, Script.pieces_flatMap]
    simp only [hchildren, Piece.ofFrame_section]
    rfl
  | .partialRef name fallback => by
    have hfallback := Graph.pieces_steps h scopes fallback
    rw [Node.walk, Node.direct, h.resolve]
    obtain ⟨hshown, hwalks⟩ | ⟨shown, walks, hshown, hwalks, hbodies⟩ := h.expand
    · rw [Surroundings.steps_partialWalk_none hwalks, hshown]
      rfl
    · cases hresolve : around.resolve name with
      | none =>
        rw [Surroundings.steps_partialWalk_fallback hwalks hresolve, hshown]
        exact hfallback
      | some body =>
        obtain ⟨hpieces, hsettled⟩ := hbodies body scopes
        rw [Surroundings.steps_partialWalk_body hwalks hresolve, hshown, Script.pieces_frame,
          hpieces, Piece.ofFrame, hsettled.joined_eq]
  | .text _ | .interpolator _ | .reference _ | .triple _ | .comment _ | .widget _ => rfl
  | .closingTag _ _ => rfl
theorem Element.pieces_steps (h : direct.Mirrors around) (scopes : Scopes) :
    ∀ element : Element,
      Script.pieces ((element.walk around).steps scopes) = [element.direct direct scopes]
  | ⟨tag, attributes, children, _⟩ => by
    rw [Element.steps_walk h.steady, Script.pieces_frame, Script.pieces_append,
      Attribute.pieces_steps h scopes attributes, Graph.pieces_steps h scopes children,
      Piece.ofFrame_element _ _ (Graph.direct_settled direct scopes children)]
    rfl
theorem Attribute.pieces_steps (h : direct.Mirrors around) (scopes : Scopes) :
    ∀ attributes : List Attribute,
      Script.pieces ((Attribute.walkAll around attributes).steps scopes) =
        (Attribute.directAll direct scopes attributes).map Piece.attr
  | [] => rfl
  | ⟨name, value⟩ :: rest => by
    rw [Attribute.steps_cons h.steady, Script.pieces, Directive.pieces, Piece.ofFrame,
      AttributeValue.value_steps h scopes value, Attribute.pieces_steps h scopes rest]
    rfl
theorem AttributeValue.value_steps (h : direct.Mirrors around) (scopes : Scopes) :
    ∀ value : AttributeValue,
      Frame.attributeValue (Piece.joined (Script.pieces ((value.walk around).steps scopes))) =
        value.direct direct scopes
  | .empty => rfl
  | .literal s => by
    have hsettled : Piece.Settled [(.text s : Piece Widget)] := .singleton rfl
    have hpieces : Script.pieces ((AttributeValue.walk around (.literal s)).steps scopes) =
        [.text s] := rfl
    rw [hpieces, hsettled.joined_eq, Frame.attributeValue_merged]
    simp [Piece.valueOf, Piece.textContents, Piece.textContent, AttributeValue.direct]
  | .mixed parts => by
    have hparts : Script.pieces ((AttributeValue.walk around (.mixed parts)).steps scopes) =
        Graph.direct direct scopes parts := Graph.pieces_steps h scopes parts
    rw [hparts, (Graph.direct_settled direct scopes parts).joined_eq,
      Frame.attributeValue_merged]
    rfl
theorem Graph.pieces_steps (h : direct.Mirrors around) (scopes : Scopes) :
    ∀ graph : List Node,
      Script.pieces ((Graph.walk around graph).steps scopes) = Graph.direct direct scopes graph
  | [] => rfl
  | node :: rest => by
    rw [Graph.steps_cons h.steady, Script.pieces_append, Node.pieces_steps h scopes node,
      Graph.pieces_steps h scopes rest]
    rfl
end

theorem PartialBody.direct_settled (registry : Partials) (left : Nat) (body : PartialBody)
    (scopes : Scopes) : Piece.Settled (body.direct registry left scopes) := by
  cases left with
  | zero => exact Graph.direct_settled _ scopes body.graph
  | succ left => exact Graph.direct_settled _ scopes body.graph

/-- The walk through the body of a partial puts in what the body shows. -/
theorem PartialBody.pieces_steps (registry : Partials) (limit left : Nat) (body : PartialBody)
    (scopes : Scopes) :
    Script.pieces ((body.walk registry limit left).steps scopes) =
      body.direct registry left scopes := by
  induction left generalizing body scopes with
  | zero =>
    refine Graph.pieces_steps ⟨?_, rfl, .inl ⟨rfl, rfl⟩⟩ scopes body.graph
    intro walks hwalks
    cases hwalks
  | succ left ih =>
    refine Graph.pieces_steps ⟨?_, rfl, .inr ⟨_, _, rfl, rfl, ?_⟩⟩ scopes body.graph
    · intro walks hwalks inner
      cases hwalks
      exact inner.walk_steady registry limit left
    · exact fun inner scopes => ⟨ih inner scopes, inner.direct_settled registry left scopes⟩

end Stencil
