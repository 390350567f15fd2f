import Stencil.Proofs.Graph.Every
import Stencil.Proofs.Script.Steady

/-!
# Properties that walks have part by part

A walk is built from walks through its parts, in few ways.  A property that each of these
ways keeps, and that the walks through single nodes have, holds of the walk through a graph
as soon as it holds of the walks through the partials that the graph refers to, and so of
the walk through every body.

* `Walk.Compositional` — the ways of building walks keep a property.
* `PartialBody.walk_of_compositional` — the property then holds of walks through bodies.
* `Script.Compositional` — the same for properties of scripts.
-/

namespace Stencil

/-! ## Properties of walks -/

/-- The walks through nodes that pass a test have a property if the walks through their
parts have it. -/
structure Walk.Compositional (test : Node → Bool) (property : Walk → Prop) : Prop where
  skip : property .skip
  seq : ∀ {first second}, property first → property second → property (.seq first second)
  inFrame : ∀ kind name {body}, property body → property (.inFrame kind name body)
  sectionContents : ∀ path {body}, property body → property (.sectionContents path body)
  unlessContents : ∀ path {body}, property body → property (.unlessContents path body)
  warning : ∀ w, property (.emit (.warning w))
  text : ∀ s, property (.emit (.leaf (.text s)))
  comment : ∀ s, property (.emit (.leaf (.comment s)))
  interpolator : ∀ path, property (.emitText .text path)
  triple : ∀ path, test (.triple path) = true → property (.emitText .raw path)
  closingTag : ∀ id tag, test (.closingTag id tag) = true →
    property (.emit (.closingTag id tag))
  widget : ∀ w, test (.widget w) = true → property (.emit (.leaf (.widget w)))

section Walks

variable {test : Node → Bool} {property : Walk → Prop} (h : Walk.Compositional test property)
  {around : Surroundings}

include h

theorem Surroundings.partialWalk_of_compositional {name : String} {fallback : Walk}
    (hname : around.Leads property [name]) (hfallback : property fallback) :
    property (around.partialWalk name fallback) := by
  unfold Surroundings.partialWalk
  cases hexpand : around.expand with
  | none => exact h.warning _
  | some walks =>
    cases hresolve : around.resolve name with
    | none => exact h.seq (h.warning _) hfallback
    | some body =>
      exact h.inFrame _ _ (hname walks hexpand name List.mem_cons_self body hresolve)

mutual
theorem Node.walk_of_compositional :
    ∀ node : Node, node.every test test = true → around.Leads property node.references →
      property (node.walk around)
  | .element el, hevery, hnames => by
    rw [Node.every, Bool.and_eq_true] at hevery
    exact Element.walk_of_compositional el hevery.2 hnames
  | .sectionBlock path children, hevery, hnames => by
    rw [Node.every, Bool.and_eq_true] at hevery
    exact h.inFrame _ _
      (h.sectionContents path (Graph.walk_of_compositional children hevery.2 hnames))
  | .unlessBlock path children, hevery, hnames => by
    rw [Node.every, Bool.and_eq_true] at hevery
    exact h.inFrame _ _
      (h.unlessContents path (Graph.walk_of_compositional children hevery.2 hnames))
  | .partialRef name fallback, hevery, hnames => by
    rw [Node.every, Bool.and_eq_true] at hevery
    have hfallback := Graph.walk_of_compositional fallback hevery.2
      (hnames.mono (List.subset_cons_self _ _))
    exact around.partialWalk_of_compositional h
      (hnames.mono (List.cons_subset.mpr ⟨List.mem_cons_self, List.nil_subset _⟩)) hfallback
  | .text s, _, _ => h.text s
  | .comment s, _, _ => h.comment s
  | .interpolator path, _, _ | .reference path, _, _ => h.interpolator path
  | .triple path, hevery, _ => h.triple path (by simpa only [Node.every] using hevery)
  | .closingTag id tag, hevery, _ =>
    h.closingTag id tag (by simpa only [Node.every] using hevery)
  | .widget w, hevery, _ => h.widget w (by simpa only [Node.every] using hevery)
theorem Element.walk_of_compositional :
    ∀ element : Element, element.every test test = true →
      around.Leads property element.references → property (element.walk around)
  | ⟨tag, attributes, children, _⟩, hevery, hnames => by
    rw [Element.every, Bool.and_eq_true] at hevery
    have hattributes := Attribute.walkAll_of_compositional attributes hevery.1
      (hnames.mono (List.subset_append_left _ _))
    have hchildren := Graph.walk_of_compositional children hevery.2
      (hnames.mono (List.subset_append_right _ _))
    exact h.inFrame .ofElement tag (h.seq hattributes hchildren)
theorem Attribute.walkAll_of_compositional :
    ∀ attributes : List Attribute, Attribute.everyAll test attributes = true →
      around.Leads property (Attribute.references attributes) →
      property (Attribute.walkAll around attributes)
  | [], _, _ => h.skip
  | ⟨name, value⟩ :: rest, hevery, hnames => by
    rw [Attribute.everyAll, Bool.and_eq_true] at hevery
    have hvalue := AttributeValue.walk_of_compositional value hevery.1
      (hnames.mono (List.subset_append_left _ _))
    have hrest := Attribute.walkAll_of_compositional rest hevery.2
      (hnames.mono (List.subset_append_right _ _))
    exact h.seq (h.inFrame .ofAttribute name hvalue) hrest
theorem AttributeValue.walk_of_compositional :
    ∀ value : AttributeValue, value.every test = true →
      around.Leads property value.references → property (value.walk around)
  | .empty, _, _ => h.skip
  | .literal s, _, _ => h.text s
  | .mixed parts, hevery, hnames => Graph.walk_of_compositional parts hevery hnames
/-- The walk through a graph whose nodes pass the test has the property, if the walks through
what its partials lead to have it. -/
theorem Graph.walk_of_compositional :
    ∀ graph : List Node, Graph.every test test graph = true →
      around.Leads property (Graph.references graph) → property (Graph.walk around graph)
  | [], _, _ => h.skip
  | node :: rest, hevery, hnames => by
    rw [Graph.every, Bool.and_eq_true] at hevery
    exact h.seq
      (Node.walk_of_compositional node hevery.1 (hnames.mono (List.subset_append_left _ _)))
      (Graph.walk_of_compositional rest hevery.2 (hnames.mono (List.subset_append_right _ _)))
end

/-- The walk through a body has the property if all nodes that can be reached pass the test. -/
theorem PartialBody.walk_of_compositional (registry : Partials) (limit left : Nat)
    (body : PartialBody)
    (hevery : ∀ reached, body.Reaches registry reached →
      Graph.every test test reached.graph = true) :
    property (body.walk registry limit left) := by
  refine PartialBody.walk_induction registry limit
    (fun body walk => (∀ reached, body.Reaches registry reached →
      Graph.every test test reached.graph = true) → property walk) ?_ left body hevery
  intro around body _ hresolve hwalks hevery
  refine Graph.walk_of_compositional h body.graph (hevery body .start) ?_
  refine Surroundings.leads_of_resolve hresolve hwalks ?_
  intro name hname inner hinner reached hreached
  exact hevery reached (Reaches.trans (.step .start hname hinner) hreached)

end Walks

/-! ## Properties of scripts -/

/-- The scripts of nodes that pass a test have a property if the scripts of their parts have
it. -/
structure Script.Compositional (test : Node → Bool) (property : Script → Prop) : Prop where
  nil : property []
  append : ∀ {first second : Script}, property first → property second →
    property (first ++ second)
  frame : ∀ kind name {body}, property body → property [.frame kind name body]
  warning : ∀ w, property [.warning w]
  text : ∀ s, property [.leaf (.text s)]
  comment : ∀ s, property [.leaf (.comment s)]
  triple : ∀ path s, test (.triple path) = true → property [.leaf (.raw s)]
  closingTag : ∀ id tag, test (.closingTag id tag) = true → property [.closingTag id tag]
  widget : ∀ w, test (.widget w) = true → property [.leaf (.widget w)]

namespace Script.Compositional

variable {test : Node → Bool} {property : Script → Prop}

theorem flatMap {α : Type} (h : Script.Compositional test property) {steps : α → Script}
    (hsteps : ∀ item, property (steps item)) (items : List α) :
    property (items.flatMap steps) := by
  induction items with
  | nil => exact h.nil
  | cons item rest ih =>
    rw [List.flatMap_cons]
    exact h.append (hsteps item) ih

/-- A walk is steady and its script has a property if that is so of its parts. -/
theorem walk (h : Script.Compositional test property) :
    Walk.Compositional test
      (fun walk => walk.Steady ∧ ∀ scopes, property (walk.steps scopes)) where
  skip := ⟨.skip, fun _ => h.nil⟩
  seq := by
    intro first second hfirst hsecond
    refine ⟨.seq hfirst.1 hsecond.1, fun scopes => ?_⟩
    rw [hfirst.1.steps_seq]
    exact h.append (hfirst.2 scopes) (hsecond.2 scopes)
  inFrame := fun kind name _ hbody =>
    ⟨.inFrame kind name hbody.1, fun scopes => h.frame kind name (hbody.2 scopes)⟩
  sectionContents := by
    intro path body hbody
    refine ⟨.sectionContents path hbody.1, fun scopes => ?_⟩
    rw [hbody.1.steps_sectionContents]
    exact h.flatMap hbody.2 _
  unlessContents := by
    intro path body hbody
    refine ⟨.unlessContents path hbody.1, fun scopes => ?_⟩
    rw [hbody.1.steps_unlessContents]
    exact h.flatMap hbody.2 _
  warning := fun w => ⟨.emit _, fun _ => h.warning w⟩
  text := fun s => ⟨.emit _, fun _ => h.text s⟩
  comment := fun s => ⟨.emit _, fun _ => h.comment s⟩
  interpolator := fun path => ⟨.emitText _ path, fun _ => h.text _⟩
  triple := fun path htest => ⟨.emitText _ path, fun _ => h.triple path _ htest⟩
  closingTag := fun id tag htest => ⟨.emit _, fun _ => h.closingTag id tag htest⟩
  widget := fun w htest => ⟨.emit _, fun _ => h.widget w htest⟩

/-- The script of a body has the property if all nodes that can be reached pass the test. -/
theorem steps_walk (h : Script.Compositional test property) (registry : Partials)
    (limit left : Nat) (body : PartialBody)
    (hevery : ∀ reached, body.Reaches registry reached →
      Graph.every test test reached.graph = true) (scopes : Scopes) :
    property ((body.walk registry limit left).steps scopes) :=
  (PartialBody.walk_of_compositional h.walk registry limit left body hevery).2 scopes

end Script.Compositional

end Stencil
