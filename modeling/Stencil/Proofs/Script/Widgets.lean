import Stencil.Graph.Widgets
import Stencil.Proofs.Assembly.Widgets
import Stencil.Proofs.Graph.Every
import Stencil.Proofs.Script.Steady

/-!
# The widgets in a script

The script of a graph puts in widgets only where the graph, or a partial that it gets to,
holds them.

* `PartialBody.walk_showsOnly` — the widgets of a body are its own and those of partials.
-/

namespace Stencil

theorem Piece.showOnly_flatMap {α : Type} {allowed : List Widget} {items : List α}
    {steps : α → Script} (h : ∀ item, ShowOnly allowed (Script.leaves (steps item))) :
    ShowOnly allowed (Script.leaves (items.flatMap steps)) := by
  induction items with
  | nil => exact .nil
  | cons item rest ih =>
    rw [List.flatMap_cons, Script.leaves_append]
    exact (h item).append ih

theorem Script.leaves_frame (kind : FrameKind) (name : String) (body : Script) :
    Script.leaves [.frame kind name body] = Script.leaves body := by
  rw [leaves, Directive.leaves, leaves, List.append_nil]

/-- The script of a walk puts in given widgets only, whatever scopes the walk starts in. -/
def Walk.ShowsOnly (allowed : List Widget) (walk : Walk) : Prop :=
  ∀ scopes, Piece.ShowOnly allowed (Script.leaves (walk.steps scopes))

/-- The walks through the bodies that names lead to put in given widgets only. -/
def Surroundings.ShowsOnly (around : Surroundings) (allowed : List Widget) : Prop :=
  ∀ walks, around.expand = some walks → ∀ name body, around.resolve name = some body →
    (walks body).ShowsOnly allowed

/-- A piece that holds no widgets, or only given ones, is put in. -/
theorem Walk.showsOnly_leaf {allowed : List Widget} {piece : Piece Widget}
    (h : piece.widgets ⊆ allowed) : Piece.ShowOnly allowed (Script.leaves [.leaf piece]) := by
  intro other hother
  rw [List.mem_singleton.mp hother]
  exact h

section Walks

variable {allowed : List Widget} {around : Surroundings}

mutual
theorem Node.walk_showsOnly (hsteady : around.Steady) (haround : around.ShowsOnly allowed) :
    ∀ node : Node, node.allWidgets ⊆ allowed → (node.walk around).ShowsOnly allowed
  | .element el, hallowed => Element.walk_showsOnly hsteady haround el hallowed
  | .sectionBlock path children, hallowed => by
    have hchildren := Graph.walk_showsOnly hsteady haround children hallowed
    intro scopes
    rw [Node.steps_sectionBlock hsteady, Script.leaves_frame]
    exact Piece.showOnly_flatMap hchildren
  | .unlessBlock path children, hallowed => by
    have hchildren := Graph.walk_showsOnly hsteady haround children hallowed
    intro scopes
    rw [Node.steps_unlessBlock hsteady, Script.leaves_frame]
    exact Piece.showOnly_flatMap hchildren
  | .partialRef name fallback, hallowed => by
    have hfallback := Graph.walk_showsOnly hsteady haround fallback hallowed
    intro scopes
    rw [Node.walk]
    cases hexpand : around.expand with
    | none =>
      rw [Surroundings.steps_partialWalk_none hexpand]
      exact .nil
    | some walks =>
      cases hresolve : around.resolve name with
      | none =>
        rw [Surroundings.steps_partialWalk_fallback hexpand hresolve]
        exact hfallback scopes
      | some body =>
        rw [Surroundings.steps_partialWalk_body hexpand hresolve, Script.leaves_frame]
        exact haround walks hexpand name body hresolve scopes
  | .closingTag _ _, _ => fun _ => .nil
  | .widget w, hallowed => fun _ => Walk.showsOnly_leaf
      (List.cons_subset.mpr ⟨hallowed List.mem_cons_self, List.nil_subset _⟩)
  | .text _, _ | .interpolator _, _ | .reference _, _ | .triple _, _ | .comment _, _ =>
    fun _ => Walk.showsOnly_leaf (List.nil_subset _)
theorem Element.walk_showsOnly (hsteady : around.Steady) (haround : around.ShowsOnly allowed) :
    ∀ element : Element, element.allWidgets ⊆ allowed → (element.walk around).ShowsOnly allowed
  | ⟨tag, attributes, children, _⟩, hallowed => by
    obtain ⟨hattributes, hchildren⟩ := List.append_subset.mp hallowed
    intro scopes
    rw [Element.steps_walk hsteady, Script.leaves_frame, Script.leaves_append]
    exact (Attribute.walkAll_showsOnly hsteady haround attributes hattributes scopes).append
      (Graph.walk_showsOnly hsteady haround children hchildren scopes)
theorem Attribute.walkAll_showsOnly (hsteady : around.Steady)
    (haround : around.ShowsOnly allowed) :
    ∀ attributes : List Attribute, Attribute.allWidgets attributes ⊆ allowed →
      (Attribute.walkAll around attributes).ShowsOnly allowed
  | [], _ => fun _ => .nil
  | ⟨name, value⟩ :: rest, hallowed => by
    obtain ⟨hvalue, hrest⟩ := List.append_subset.mp hallowed
    intro scopes
    rw [Attribute.steps_cons hsteady, Script.leaves, Directive.leaves]
    exact (AttributeValue.walk_showsOnly hsteady haround value hvalue scopes).append
      (Attribute.walkAll_showsOnly hsteady haround rest hrest scopes)
theorem AttributeValue.walk_showsOnly (hsteady : around.Steady)
    (haround : around.ShowsOnly allowed) :
    ∀ value : AttributeValue, value.allWidgets ⊆ allowed → (value.walk around).ShowsOnly allowed
  | .empty, _ => fun _ => .nil
  | .literal _, _ => fun _ => Walk.showsOnly_leaf (List.nil_subset _)
  | .mixed parts, hallowed => Graph.walk_showsOnly hsteady haround parts hallowed
/-- A walk puts in the widgets of its graph, and of the bodies it goes through. -/
theorem Graph.walk_showsOnly (hsteady : around.Steady) (haround : around.ShowsOnly allowed) :
    ∀ graph : List Node, Graph.allWidgets graph ⊆ allowed →
      (Graph.walk around graph).ShowsOnly allowed
  | [], _ => fun _ => .nil
  | node :: rest, hallowed => by
    obtain ⟨hnode, hrest⟩ := List.append_subset.mp hallowed
    intro scopes
    rw [Graph.steps_cons hsteady, Script.leaves_append]
    exact (Node.walk_showsOnly hsteady haround node hnode scopes).append
      (Graph.walk_showsOnly hsteady haround rest hrest scopes)
end

end Walks

/-! ## Bodies -/

theorem Binding.allWidgets_of_mem {partials : Partials} {binding : Binding}
    (hmem : binding ∈ partials) :
    Graph.allWidgets binding.graph ⊆ Binding.allWidgets partials ∧
      Binding.allWidgets binding.partials ⊆ Binding.allWidgets partials := by
  induction partials with
  | nil => cases hmem
  | cons first rest ih =>
    obtain ⟨name, graph, inner⟩ := first
    rw [allWidgets]
    rcases List.mem_cons.mp hmem with rfl | hrest
    · exact ⟨List.subset_append_of_subset_left _ (List.subset_append_left _ _),
        List.subset_append_of_subset_left _ (List.subset_append_right _ _)⟩
    · obtain ⟨hgraph, hinner⟩ := ih hrest
      exact ⟨List.subset_append_of_subset_right _ hgraph,
        List.subset_append_of_subset_right _ hinner⟩

/-- All widgets of a partial that a name leads to are widgets of the partials in scope. -/
theorem allWidgets_of_resolve {allowed : List Widget} {inner registry : Partials} {name : String}
    {body : PartialBody} (hinner : Binding.allWidgets inner ⊆ allowed)
    (hregistry : Binding.allWidgets registry ⊆ allowed)
    (hresolve : resolve name inner registry = some body) :
    Graph.allWidgets body.graph ⊆ allowed ∧ Binding.allWidgets body.partials ⊆ allowed := by
  obtain ⟨binding, hmem, -, hbody⟩ := exists_binding_of_resolve hresolve
  rw [← hbody]
  rcases hmem with hmem | hmem
  · obtain ⟨hgraph, hpartials⟩ := Binding.allWidgets_of_mem hmem
    exact ⟨List.Subset.trans hgraph hinner, List.Subset.trans hpartials hinner⟩
  · obtain ⟨hgraph, hpartials⟩ := Binding.allWidgets_of_mem hmem
    exact ⟨List.Subset.trans hgraph hregistry, List.Subset.trans hpartials hregistry⟩

/-- The script of a body puts in widgets of the body, its partials and the registry only. -/
theorem PartialBody.walk_showsOnly {allowed : List Widget} {registry : Partials}
    (hregistry : Binding.allWidgets registry ⊆ allowed) (limit left : Nat) (body : PartialBody)
    (hgraph : Graph.allWidgets body.graph ⊆ allowed)
    (hpartials : Binding.allWidgets body.partials ⊆ allowed) :
    (body.walk registry limit left).ShowsOnly allowed := by
  refine PartialBody.walk_induction registry limit
    (fun body walk => Graph.allWidgets body.graph ⊆ allowed →
      Binding.allWidgets body.partials ⊆ allowed → walk.ShowsOnly allowed)
    ?_ left body hgraph hpartials
  intro around body hsteady hresolve hwalks hgraph hpartials
  refine Graph.walk_showsOnly hsteady ?_ body.graph hgraph
  intro walks hexpand name inner hinner
  rw [hresolve] at hinner
  obtain ⟨hgraph', hpartials'⟩ := allWidgets_of_resolve hpartials hregistry hinner
  exact hwalks walks hexpand inner hgraph' hpartials'

end Stencil
