import Stencil.Proofs.Graph.Every
import Stencil.Proofs.Script.Steady

/-!
# The closing tags of a script

Each closing tag of a script stands in the graph, or in the body of a partial, that the
script comes from.

* `Graph.tags`, `Script.tags` — the closing tags of graphs and of scripts.
* `PartialBody.tags_walk` — those of a script stand in a body that a rendering can get to.
-/

namespace Stencil

mutual
/-- The requests of the closing tags in a step. -/
def Directive.tags : Directive → List Closing
  | .frame _ _ body => Script.tags body
  | .closingTag id tag => [.ofTag id tag]
  | _ => []
/-- The requests of the closing tags in a script. -/
def Script.tags : List Directive → List Closing
  | [] => []
  | step :: rest => step.tags ++ Script.tags rest
end

mutual
/-- The requests of the closing tags in a node, also within attribute values. -/
def Node.tags : Node → List Closing
  | .element el => el.tags
  | .sectionBlock _ children => Graph.tags children
  | .unlessBlock _ children => Graph.tags children
  | .partialRef _ fallback => Graph.tags fallback
  | .closingTag id tag => [.ofTag id tag]
  | _ => []
/-- The requests of the closing tags in an element. -/
def Element.tags : Element → List Closing
  | ⟨_, attributes, children, _⟩ => Attribute.tagsOfAll attributes ++ Graph.tags children
/-- The requests of the closing tags in attributes. -/
def Attribute.tagsOfAll : List Attribute → List Closing
  | [] => []
  | ⟨_, value⟩ :: rest => value.tags ++ Attribute.tagsOfAll rest
/-- The requests of the closing tags in the value of an attribute. -/
def AttributeValue.tags : AttributeValue → List Closing
  | .mixed parts => Graph.tags parts
  | _ => []
/-- The requests of the closing tags in a graph. -/
def Graph.tags : List Node → List Closing
  | [] => []
  | node :: rest => node.tags ++ Graph.tags rest
end

theorem Script.tags_append (first second : Script) :
    Script.tags (first ++ second) = Script.tags first ++ Script.tags second := by
  induction first with
  | nil => rfl
  | cons step rest ih => rw [List.cons_append, tags, tags, ih, List.append_assoc]

theorem Script.tags_frame (kind : FrameKind) (name : String) (body : Script) :
    Script.tags [.frame kind name body] = Script.tags body := by
  rw [tags, Directive.tags, tags, List.append_nil]

/-- The closing tags in the script of a walk are among given ones, whatever scopes the walk
starts in. -/
def Walk.TagsAmong (allowed : Closing → Prop) (walk : Walk) : Prop :=
  ∀ scopes, ∀ request ∈ Script.tags (walk.steps scopes), allowed request

theorem Walk.TagsAmong.flatMap {allowed : Closing → Prop} {walk : Walk}
    (h : walk.TagsAmong allowed) (around : List Scopes) :
    ∀ request ∈ Script.tags (around.flatMap walk.steps), allowed request := by
  induction around with
  | nil => exact fun _ hrequest => absurd hrequest List.not_mem_nil
  | cons scopes rest ih =>
    rw [List.flatMap_cons, Script.tags_append]
    exact List.forall_mem_append.mpr ⟨h scopes, ih⟩

section Walks

variable {allowed : Closing → Prop} {around : Surroundings}

mutual
theorem Node.walk_tags (hsteady : around.Steady) :
    ∀ node : Node, (∀ request ∈ node.tags, allowed request) →
      around.Leads (Walk.TagsAmong allowed) node.references → (node.walk around).TagsAmong allowed
  | .element el, hallowed, hnames => Element.walk_tags hsteady el hallowed hnames
  | .sectionBlock path children, hallowed, hnames => by
    have hchildren := Graph.walk_tags hsteady children hallowed hnames
    intro scopes
    rw [Node.steps_sectionBlock hsteady, Script.tags_frame]
    exact hchildren.flatMap _
  | .unlessBlock path children, hallowed, hnames => by
    have hchildren := Graph.walk_tags hsteady children hallowed hnames
    intro scopes
    rw [Node.steps_unlessBlock hsteady, Script.tags_frame]
    exact hchildren.flatMap _
  | .partialRef name fallback, hallowed, hnames => by
    have hfallback := Graph.walk_tags hsteady fallback hallowed
      (hnames.mono (List.subset_cons_self _ _))
    intro scopes
    rw [Node.walk]
    cases hexpand : around.expand with
    | none =>
      rw [Surroundings.steps_partialWalk_none hexpand]
      exact fun _ hrequest => absurd hrequest List.not_mem_nil
    | some walks =>
      cases hresolve : around.resolve name with
      | none =>
        rw [Surroundings.steps_partialWalk_fallback hexpand hresolve]
        exact hfallback scopes
      | some body =>
        rw [Surroundings.steps_partialWalk_body hexpand hresolve, Script.tags_frame]
        exact hnames walks hexpand name List.mem_cons_self body hresolve scopes
  | .closingTag _ _, hallowed, _ => fun _ => hallowed
  | .text _, _, _ | .interpolator _, _, _ | .reference _, _, _ | .triple _, _, _
  | .comment _, _, _ | .widget _, _, _ => fun _ _ hrequest => absurd hrequest List.not_mem_nil
theorem Element.walk_tags (hsteady : around.Steady) :
    ∀ element : Element, (∀ request ∈ element.tags, allowed request) →
      around.Leads (Walk.TagsAmong allowed) element.references →
      (element.walk around).TagsAmong allowed
  | ⟨tag, attributes, children, _⟩, hallowed, hnames => by
    obtain ⟨hheld, hinner⟩ := List.forall_mem_append.mp hallowed
    have hattributes := Attribute.walkAll_tags hsteady attributes hheld
      (hnames.mono (List.subset_append_left _ _))
    have hchildren := Graph.walk_tags hsteady children hinner
      (hnames.mono (List.subset_append_right _ _))
    intro scopes
    rw [Element.steps_walk hsteady, Script.tags_frame, Script.tags_append]
    exact List.forall_mem_append.mpr ⟨hattributes scopes, hchildren scopes⟩
theorem Attribute.walkAll_tags (hsteady : around.Steady) :
    ∀ attributes : List Attribute, (∀ request ∈ Attribute.tagsOfAll attributes, allowed request) →
      around.Leads (Walk.TagsAmong allowed) (Attribute.references attributes) →
      (Attribute.walkAll around attributes).TagsAmong allowed
  | [], _, _ => fun _ _ hrequest => absurd hrequest List.not_mem_nil
  | ⟨name, value⟩ :: rest, hallowed, hnames => by
    obtain ⟨hfirst, hothers⟩ := List.forall_mem_append.mp hallowed
    have hvalue := AttributeValue.walk_tags hsteady value hfirst
      (hnames.mono (List.subset_append_left _ _))
    have hrest := Attribute.walkAll_tags hsteady rest hothers
      (hnames.mono (List.subset_append_right _ _))
    intro scopes
    rw [Attribute.steps_cons hsteady, Script.tags, Directive.tags]
    exact List.forall_mem_append.mpr ⟨hvalue scopes, hrest scopes⟩
theorem AttributeValue.walk_tags (hsteady : around.Steady) :
    ∀ value : AttributeValue, (∀ request ∈ value.tags, allowed request) →
      around.Leads (Walk.TagsAmong allowed) value.references →
      (value.walk around).TagsAmong allowed
  | .empty, _, _ => fun _ _ hrequest => absurd hrequest List.not_mem_nil
  | .literal _, _, _ => fun _ _ hrequest => absurd hrequest List.not_mem_nil
  | .mixed parts, hallowed, hnames => Graph.walk_tags hsteady parts hallowed hnames
/-- The tags of a walk are those of its graph and of the bodies it goes through. -/
theorem Graph.walk_tags (hsteady : around.Steady) :
    ∀ graph : List Node, (∀ request ∈ Graph.tags graph, allowed request) →
      around.Leads (Walk.TagsAmong allowed) (Graph.references graph) →
      (Graph.walk around graph).TagsAmong allowed
  | [], _, _ => fun _ _ hrequest => absurd hrequest List.not_mem_nil
  | node :: rest, hallowed, hnames => by
    obtain ⟨hfirst, hothers⟩ := List.forall_mem_append.mp hallowed
    have hnode := Node.walk_tags hsteady node hfirst (hnames.mono (List.subset_append_left _ _))
    have hrest := Graph.walk_tags hsteady rest hothers
      (hnames.mono (List.subset_append_right _ _))
    intro scopes
    rw [Graph.steps_cons hsteady, Script.tags_append]
    exact List.forall_mem_append.mpr ⟨hnode scopes, hrest scopes⟩
end

end Walks

/-- A closing tag stands in one of the bodies that a rendering of a body can get to. -/
def PartialBody.HasTag (registry : Partials) (body : PartialBody) (request : Closing) : Prop :=
  ∃ reached, body.Reaches registry reached ∧ request ∈ Graph.tags reached.graph

/-- Each closing tag of the script of a body stands in a body that can be reached from it. -/
theorem PartialBody.tags_walk (registry : Partials) (limit left : Nat) (body : PartialBody) :
    (body.walk registry limit left).TagsAmong (body.HasTag registry) := by
  refine PartialBody.walk_induction registry limit
    (fun body walk => ∀ allowed : Closing → Prop,
      (∀ request, body.HasTag registry request → allowed request) → walk.TagsAmong allowed)
    ?_ left body _ (fun _ => id)
  intro around body hsteady hresolve hwalks allowed hallowed
  refine Graph.walk_tags hsteady body.graph ?_ ?_
  · exact fun request hrequest => hallowed request ⟨body, .start, hrequest⟩
  · refine Surroundings.leads_of_resolve hresolve
      (fun walks hexpand inner => hwalks walks hexpand inner allowed) ?_
    rintro name hname inner hinner request ⟨reached, hreached, hrequest⟩
    exact hallowed request ⟨reached, Reaches.trans (.step .start hname hinner) hreached, hrequest⟩

end Stencil
