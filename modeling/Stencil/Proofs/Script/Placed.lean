import Stencil.Proofs.Assembly.Alike
import Stencil.Proofs.Graph.Every
import Stencil.Proofs.Script.Contents
import Stencil.Proofs.Script.Steady

/-!
# Where nodes may stand

Within attribute values there may be text, bound values, blocks, and partials that consist of
such; outside of them anything but widgets, as long as void elements have no children.  Where
a rendering can get to nothing else, its script keeps to the same places.

* `PartialBody.WellPlaced` — all that a rendering can get to stands where it may.
* `Script.isValue`, `Script.isPlaced` — the same of scripts.
* `PartialBody.walk_places` — the script of a well-placed body is well placed.
-/

namespace Stencil

/-! ## Nodes -/

/-- Whether a node may stand within an attribute value. -/
def Node.isValuePart : Node → Bool
  | .text _ | .interpolator _ | .reference _ | .triple _ => true
  | .sectionBlock _ _ | .unlessBlock _ _ | .partialRef _ _ => true
  | _ => false

/-- Whether a node may stand outside of attribute values: it is no widget, and no void element
with children. -/
def Node.isDocumentPart (voids : List String) : Node → Bool
  | .element el => !isVoidTag voids el.tag || el.children.isEmpty
  | .widget _ => false
  | _ => true

mutual
/-- The names of the partials that a node refers to within attribute values. -/
def Node.valueReferences : Node → List String
  | .element el => el.valueReferences
  | .sectionBlock _ children => Graph.valueReferences children
  | .unlessBlock _ children => Graph.valueReferences children
  | .partialRef _ fallback => Graph.valueReferences fallback
  | _ => []
/-- The names of the partials that an element refers to within attribute values. -/
def Element.valueReferences : Element → List String
  | ⟨_, attributes, children, _⟩ =>
      Attribute.references attributes ++ Graph.valueReferences children
/-- The names of the partials that a graph refers to within attribute values. -/
def Graph.valueReferences : List Node → List String
  | [] => []
  | node :: rest => node.valueReferences ++ Graph.valueReferences rest
end

/-- The partials that a body can get to hold nothing but parts of attribute values. -/
def PartialBody.IsValue (registry : Partials) (body : PartialBody) : Prop :=
  ∀ reached, body.Reaches registry reached →
    Graph.every Node.isValuePart Node.isValuePart reached.graph = true

/-- All nodes that a body can get to stand where they may, and the partials within attribute
values hold nothing but parts of such values. -/
structure PartialBody.WellPlaced (voids : List String) (registry : Partials)
    (body : PartialBody) : Prop where
  parts : ∀ reached, body.Reaches registry reached →
    Graph.every (Node.isDocumentPart voids) Node.isValuePart reached.graph = true
  values : ∀ reached, body.Reaches registry reached →
    ∀ name ∈ Graph.valueReferences reached.graph, ∀ inner,
      resolve name reached.partials registry = some inner → inner.IsValue registry

namespace PartialBody

variable {voids : List String} {registry : Partials} {body inner : PartialBody} {name : String}

theorem IsValue.step (h : body.IsValue registry) (hname : name ∈ Graph.references body.graph)
    (hresolve : resolve name body.partials registry = some inner) : inner.IsValue registry :=
  fun reached hreached => h reached (Reaches.trans (.step .start hname hresolve) hreached)

theorem WellPlaced.step (h : body.WellPlaced voids registry)
    (hname : name ∈ Graph.references body.graph)
    (hresolve : resolve name body.partials registry = some inner) :
    inner.WellPlaced voids registry where
  parts := fun reached hreached =>
    h.parts reached (Reaches.trans (.step .start hname hresolve) hreached)
  values := fun reached hreached =>
    h.values reached (Reaches.trans (.step .start hname hresolve) hreached)

end PartialBody

/-! ## Scripts -/

/-- Whether a piece may be put in as it is: text, markup or a comment. -/
def Piece.isLeaf {ω : Type} : Piece ω → Bool
  | .text _ | .raw _ | .comment _ => true
  | _ => false

mutual
/-- Whether a step makes part of an attribute value: text and markup, in sections and
partials. -/
def Directive.isValue : Directive → Bool
  | .frame kind _ body => (kind == .ofSection || kind == .ofPartial) && Script.isValue body
  | .leaf piece => piece.isPlain
  | .closingTag _ _ => false
  | .warning _ => true
/-- Whether steps make parts of an attribute value. -/
def Script.isValue : List Directive → Bool
  | [] => true
  | step :: rest => step.isValue && Script.isValue rest
end

/-- Whether a step makes an attribute. -/
def Directive.isAttribute : Directive → Bool
  | .frame .ofAttribute _ body => Script.isValue body
  | _ => false

mutual
/-- Whether a step makes something that may stand outside of attribute values: void elements
hold nothing but attributes. -/
def Directive.isPlaced (voids : List String) : Directive → Bool
  | .frame kind name body =>
      match kind with
      | .ofAttribute => Script.isValue body
      | .ofElement =>
          (!isVoidTag voids name || body.all Directive.isAttribute) &&
            Script.isPlaced voids body
      | .ofSection => Script.isPlaced voids body
      | .ofPartial => Script.isPlaced voids body
  | .leaf piece => piece.isLeaf
  | .closingTag _ _ => true
  | .warning _ => true
/-- Whether steps make what may stand outside of attribute values. -/
def Script.isPlaced (voids : List String) : List Directive → Bool
  | [] => true
  | step :: rest => step.isPlaced voids && Script.isPlaced voids rest
end

namespace Script

variable {voids : List String}

theorem isValue_eq_all (script : Script) : isValue script = script.all Directive.isValue := by
  induction script with
  | nil => rfl
  | cons step rest ih => rw [isValue, List.all_cons, ih]

theorem isPlaced_eq_all (script : Script) :
    isPlaced voids script = script.all (Directive.isPlaced voids) := by
  induction script with
  | nil => rfl
  | cons step rest ih => rw [isPlaced, List.all_cons, ih]

theorem isValue_append (first second : Script) :
    isValue (first ++ second) = (isValue first && isValue second) := by
  rw [isValue_eq_all, isValue_eq_all, isValue_eq_all, List.all_append]

theorem isPlaced_append (first second : Script) :
    isPlaced voids (first ++ second) = (isPlaced voids first && isPlaced voids second) := by
  rw [isPlaced_eq_all, isPlaced_eq_all, isPlaced_eq_all, List.all_append]

theorem isValue_flatMap {β : Type} {items : List β} {steps : β → Script}
    (h : ∀ item, isValue (steps item) = true) : isValue (items.flatMap steps) = true := by
  rw [isValue_eq_all, List.all_flatMap, List.all_eq_true]
  intro item _
  rw [← isValue_eq_all]
  exact h item

theorem isPlaced_flatMap {β : Type} {items : List β} {steps : β → Script}
    (h : ∀ item, isPlaced voids (steps item) = true) :
    isPlaced voids (items.flatMap steps) = true := by
  rw [isPlaced_eq_all, List.all_flatMap, List.all_eq_true]
  intro item _
  rw [← isPlaced_eq_all]
  exact h item

/-- Sections and partials are parts of an attribute value if their contents are. -/
theorem isValue_frame {kind : FrameKind} {name : String} {body : Script}
    (hkind : kind = .ofSection ∨ kind = .ofPartial) (hbody : isValue body = true) :
    isValue [.frame kind name body] = true := by
  rcases hkind with rfl | rfl <;> simp [isValue, Directive.isValue, hbody]

/-- They may stand anywhere else if their contents may. -/
theorem isPlaced_frame {kind : FrameKind} {name : String} {body : Script}
    (hkind : kind = .ofSection ∨ kind = .ofPartial) (hbody : isPlaced voids body = true) :
    isPlaced voids [.frame kind name body] = true := by
  rcases hkind with rfl | rfl <;> simp [isPlaced, Directive.isPlaced, hbody]

end Script

theorem Directive.isPlaced_of_isAttribute {voids : List String} {step : Directive}
    (h : step.isAttribute = true) : step.isPlaced voids = true := by
  unfold isAttribute at h
  split at h
  · exact h
  · cases h

mutual
theorem Directive.tagFree_of_isValue :
    ∀ (step : Directive) (_ : step.isValue = true), step.tagFree = true
  | .frame _ _ body, h => by
    rw [Directive.isValue, Bool.and_eq_true] at h
    exact Script.tagFree_of_isValue body h.2
  | .leaf _, _ => rfl
  | .warning _, _ => rfl
/-- There are no closing tags within attribute values. -/
theorem Script.tagFree_of_isValue :
    ∀ (script : Script) (_ : Script.isValue script = true), Script.tagFree script = true
  | [], _ => rfl
  | step :: rest, h => by
    rw [Script.isValue, Bool.and_eq_true] at h
    rw [Script.tagFree, Directive.tagFree_of_isValue step h.1, Script.tagFree_of_isValue rest h.2,
      Bool.and_self]
end

/-! ## Walks -/

/-- The script of a walk makes parts of an attribute value. -/
def Walk.IsValue (walk : Walk) : Prop := ∀ scopes, Script.isValue (walk.steps scopes) = true

/-- The script of a walk makes what may stand outside of attribute values. -/
def Walk.IsPlaced (voids : List String) (walk : Walk) : Prop :=
  ∀ scopes, Script.isPlaced voids (walk.steps scopes) = true

section Walks

variable {around : Surroundings} (hsteady : around.Steady)

include hsteady

mutual
theorem Node.walk_value :
    ∀ node : Node, node.every Node.isValuePart Node.isValuePart = true →
      around.Leads Walk.IsValue node.references → (node.walk around).IsValue
  | .text _, _, _ | .interpolator _, _, _ | .reference _, _, _ | .triple _, _, _ => fun _ => rfl
  | .sectionBlock path children, hevery, hnames => by
    simp only [Node.every, Bool.and_eq_true] at hevery
    have hchildren := Graph.walk_value children hevery.2 hnames
    intro scopes
    rw [Node.steps_sectionBlock hsteady]
    exact Script.isValue_frame (.inl rfl) (Script.isValue_flatMap hchildren)
  | .unlessBlock path children, hevery, hnames => by
    simp only [Node.every, Bool.and_eq_true] at hevery
    have hchildren := Graph.walk_value children hevery.2 hnames
    intro scopes
    rw [Node.steps_unlessBlock hsteady]
    exact Script.isValue_frame (.inl rfl) (Script.isValue_flatMap hchildren)
  | .partialRef name fallback, hevery, hnames => by
    simp only [Node.every, Bool.and_eq_true] at hevery
    have hfallback := Graph.walk_value fallback hevery.2
      (hnames.mono (List.subset_cons_self _ _))
    intro scopes
    rw [Node.walk]
    cases hexpand : around.expand with
    | none =>
      rw [Surroundings.steps_partialWalk_none hexpand]
      rfl
    | some walks =>
      cases hresolve : around.resolve name with
      | none =>
        rw [Surroundings.steps_partialWalk_fallback hexpand hresolve]
        exact hfallback scopes
      | some body =>
        rw [Surroundings.steps_partialWalk_body hexpand hresolve]
        exact Script.isValue_frame (.inr rfl)
          (hnames walks hexpand name List.mem_cons_self body hresolve scopes)
  | .element _, hevery, _ | .comment _, hevery, _ | .closingTag _ _, hevery, _
  | .widget _, hevery, _ => by simp [Node.every, Node.isValuePart] at hevery
/-- Nodes that are parts of an attribute value make parts of it. -/
theorem Graph.walk_value :
    ∀ graph : List Node, Graph.every Node.isValuePart Node.isValuePart graph = true →
      around.Leads Walk.IsValue (Graph.references graph) → (Graph.walk around graph).IsValue
  | [], _, _ => fun _ => rfl
  | node :: rest, hevery, hnames => by
    simp only [Graph.every, Bool.and_eq_true] at hevery
    have hnode := Node.walk_value node hevery.1 (hnames.mono (List.subset_append_left _ _))
    have hrest := Graph.walk_value rest hevery.2 (hnames.mono (List.subset_append_right _ _))
    intro scopes
    rw [Graph.steps_cons hsteady, Script.isValue_append, hnode scopes, hrest scopes,
      Bool.and_self]
end

/-- The value of an attribute makes parts of it. -/
theorem AttributeValue.walk_value :
    ∀ value : AttributeValue, value.every Node.isValuePart = true →
      around.Leads Walk.IsValue value.references → (value.walk around).IsValue
  | .empty, _, _ => fun _ => rfl
  | .literal _, _, _ => fun _ => rfl
  | .mixed parts, hevery, hnames => Graph.walk_value hsteady parts hevery hnames

/-- Attributes make attributes. -/
theorem Attribute.walkAll_attributes (attributes : List Attribute)
    (hevery : Attribute.everyAll Node.isValuePart attributes = true)
    (hnames : around.Leads Walk.IsValue (Attribute.references attributes)) (scopes : Scopes) :
    ((Attribute.walkAll around attributes).steps scopes).all Directive.isAttribute = true := by
  induction attributes with
  | nil => rfl
  | cons first rest ih =>
    obtain ⟨name, value⟩ := first
    simp only [Attribute.everyAll, Bool.and_eq_true] at hevery
    have hvalue := AttributeValue.walk_value hsteady value hevery.1
      (hnames.mono (List.subset_append_left _ _))
    have hrest := ih hevery.2 (hnames.mono (List.subset_append_right _ _))
    rw [Attribute.steps_cons hsteady, List.all_cons, hrest, Directive.isAttribute,
      hvalue scopes, Bool.and_self]

mutual
theorem Node.walk_placed {voids : List String} :
    ∀ node : Node, node.every (Node.isDocumentPart voids) Node.isValuePart = true →
      around.Leads (Walk.IsPlaced voids) node.references →
      around.Leads Walk.IsValue node.valueReferences → (node.walk around).IsPlaced voids
  | .text _, _, _, _ | .interpolator _, _, _, _ | .reference _, _, _, _ | .triple _, _, _, _
  | .comment _, _, _, _ | .closingTag _ _, _, _, _ => fun _ => rfl
  | .element ⟨tag, attributes, children, isRoot⟩, hevery, hnames, hvalues => by
    simp only [Node.every, Element.every, Node.isDocumentPart, Bool.and_eq_true,
      Bool.or_eq_true, Bool.not_eq_true', List.isEmpty_iff] at hevery
    obtain ⟨hvoid, hattributes, hchildren⟩ := hevery
    have hheld := Attribute.walkAll_attributes hsteady attributes hattributes
      (hvalues.mono (List.subset_append_left _ _))
    have hbody := Graph.walk_placed children hchildren
      (hnames.mono (List.subset_append_right _ _)) (hvalues.mono (List.subset_append_right _ _))
    intro scopes
    have hplaced : Script.isPlaced voids ((Attribute.walkAll around attributes).steps scopes) =
        true := by
      rw [Script.isPlaced_eq_all, List.all_eq_true]
      intro step hstep
      exact Directive.isPlaced_of_isAttribute (List.all_eq_true.mp (hheld scopes) step hstep)
    have hinner : isVoidTag voids tag = false ∨
        ((Attribute.walkAll around attributes).steps scopes ++
          (Graph.walk around children).steps scopes).all Directive.isAttribute = true := by
      refine hvoid.imp_right ?_
      rintro rfl
      rw [List.all_append, hheld scopes]
      rfl
    have hsteps := Element.steps_walk hsteady scopes tag attributes children isRoot
    rw [Node.walk, hsteps]
    simpa [Script.isPlaced, Directive.isPlaced, Script.isPlaced_append, hplaced,
      hbody scopes] using hinner
  | .sectionBlock path children, hevery, hnames, hvalues => by
    simp only [Node.every, Bool.and_eq_true] at hevery
    have hchildren := Graph.walk_placed children hevery.2 hnames hvalues
    intro scopes
    rw [Node.steps_sectionBlock hsteady]
    exact Script.isPlaced_frame (.inl rfl) (Script.isPlaced_flatMap hchildren)
  | .unlessBlock path children, hevery, hnames, hvalues => by
    simp only [Node.every, Bool.and_eq_true] at hevery
    have hchildren := Graph.walk_placed children hevery.2 hnames hvalues
    intro scopes
    rw [Node.steps_unlessBlock hsteady]
    exact Script.isPlaced_frame (.inl rfl) (Script.isPlaced_flatMap hchildren)
  | .partialRef name fallback, hevery, hnames, hvalues => by
    simp only [Node.every, Bool.and_eq_true] at hevery
    have hfallback := Graph.walk_placed fallback hevery.2
      (hnames.mono (List.subset_cons_self _ _)) hvalues
    intro scopes
    rw [Node.walk]
    cases hexpand : around.expand with
    | none =>
      rw [Surroundings.steps_partialWalk_none hexpand]
      rfl
    | some walks =>
      cases hresolve : around.resolve name with
      | none =>
        rw [Surroundings.steps_partialWalk_fallback hexpand hresolve]
        exact hfallback scopes
      | some body =>
        rw [Surroundings.steps_partialWalk_body hexpand hresolve]
        exact Script.isPlaced_frame (.inr rfl)
          (hnames walks hexpand name List.mem_cons_self body hresolve scopes)
  | .widget _, hevery, _, _ => by simp [Node.every, Node.isDocumentPart] at hevery
/-- Nodes that stand where they may make what may stand there. -/
theorem Graph.walk_placed {voids : List String} :
    ∀ graph : List Node,
      Graph.every (Node.isDocumentPart voids) Node.isValuePart graph = true →
      around.Leads (Walk.IsPlaced voids) (Graph.references graph) →
      around.Leads Walk.IsValue (Graph.valueReferences graph) →
      (Graph.walk around graph).IsPlaced voids
  | [], _, _, _ => fun _ => rfl
  | node :: rest, hevery, hnames, hvalues => by
    simp only [Graph.every, Bool.and_eq_true] at hevery
    have hnode := Node.walk_placed node hevery.1 (hnames.mono (List.subset_append_left _ _))
      (hvalues.mono (List.subset_append_left _ _))
    have hrest := Graph.walk_placed rest hevery.2 (hnames.mono (List.subset_append_right _ _))
      (hvalues.mono (List.subset_append_right _ _))
    intro scopes
    rw [Graph.steps_cons hsteady, Script.isPlaced_append, hnode scopes, hrest scopes,
      Bool.and_self]
end

end Walks

/-! ## Bodies -/

/-- A body that holds nothing but parts of attribute values makes parts of them, and a
well-placed body makes what may stand outside of attribute values. -/
theorem PartialBody.walk_places {voids : List String} {registry : Partials} (limit left : Nat)
    (body : PartialBody) :
    (body.IsValue registry → (body.walk registry limit left).IsValue) ∧
      (body.WellPlaced voids registry → (body.walk registry limit left).IsPlaced voids) := by
  refine PartialBody.walk_induction registry limit
    (fun body walk => (body.IsValue registry → walk.IsValue) ∧
      (body.WellPlaced voids registry → walk.IsPlaced voids)) ?_ left body
  intro around body hsteady hresolve hwalks
  have hvalue := fun walks hexpand inner => (hwalks walks hexpand inner).1
  have hplaced := fun walks hexpand inner => (hwalks walks hexpand inner).2
  refine ⟨fun h => ?_, fun h => ?_⟩
  · exact Graph.walk_value hsteady body.graph (h body .start)
      (Surroundings.leads_of_resolve hresolve hvalue fun name hname inner => h.step hname)
  · exact Graph.walk_placed hsteady body.graph (h.parts body .start)
      (Surroundings.leads_of_resolve hresolve hplaced fun name hname inner => h.step hname)
      (Surroundings.leads_of_resolve hresolve hvalue (h.values body .start))

end Stencil
