import Stencil.Proofs.Graph.Every
import Stencil.Proofs.Script.Steady

/-!
# Relations that walks have part by part

A relation between walks that each way of building walks keeps holds between two walks
through one graph as soon as it holds between what the partials lead to that the graph
refers to.

* `Walk.Congruence` — the ways of building walks keep a relation.
* `Graph.walk_related` — two walks through one graph are related if its partials are.
* `Graph.walk_congr` — a walk depends on nothing else than on what its partials lead to.
-/

namespace Stencil

/-- A relation between walks that single steps have to themselves, and that the ways of
building walks keep. -/
structure Walk.Congruence (related : Walk → Walk → Prop) : Prop where
  skip : related .skip .skip
  emit : ∀ step, related (.emit step) (.emit step)
  emitText : ∀ toPiece path, related (.emitText toPiece path) (.emitText toPiece path)
  seq : ∀ {first first' second second'}, related first first' → related second second' →
    related (.seq first second) (.seq first' second')
  inFrame : ∀ kind name {body body'}, related body body' →
    related (.inFrame kind name body) (.inFrame kind name body')
  sectionContents : ∀ path {body body'}, related body body' →
    related (.sectionContents path body) (.sectionContents path body')
  unlessContents : ∀ path {body body'}, related body body' →
    related (.unlessContents path body) (.unlessContents path body')

theorem Walk.congruence_eq : Walk.Congruence Eq where
  skip := rfl
  emit := fun _ => rfl
  emitText := fun _ _ => rfl
  seq := by
    rintro first _ second _ rfl rfl
    rfl
  inFrame := by
    rintro kind name body _ rfl
    rfl
  sectionContents := by
    rintro path body _ rfl
    rfl
  unlessContents := by
    rintro path body _ rfl
    rfl

section Related

variable {related : Walk → Walk → Prop} {around around' : Surroundings}

/-- The walks through the partials that given names lead to are related. -/
def Surroundings.RelatedOn (related : Walk → Walk → Prop) (around around' : Surroundings)
    (names : List String) : Prop :=
  ∀ name ∈ names, ∀ {fallback fallback' : Walk}, related fallback fallback' →
    related (around.partialWalk name fallback) (around'.partialWalk name fallback')

theorem Surroundings.RelatedOn.mono {names more : List String}
    (h : around.RelatedOn related around' more) (hsub : names ⊆ more) :
    around.RelatedOn related around' names :=
  fun name hname => h name (hsub hname)

/-- A name leads to bodies with related walks, or leads to none in either surroundings. -/
def Surroundings.RelatedAt (related : Walk → Walk → Prop) (around around' : Surroundings)
    (name : String) : Prop :=
  Option.Rel
    (fun walks walks' => Option.Rel (fun body body' => related (walks body) (walks' body'))
      (around.resolve name) (around'.resolve name))
    around.expand around'.expand

variable (h : Walk.Congruence related)

include h

/-- The walks through a partial are related if those through the bodies are that its name leads
to. -/
theorem Surroundings.RelatedAt.partialWalk {name : String}
    (hbodies : around.RelatedAt related around' name) (hlimit : around.limit = around'.limit)
    {fallback fallback' : Walk} (hfallback : related fallback fallback') :
    related (around.partialWalk name fallback) (around'.partialWalk name fallback') := by
  obtain ⟨resolve, expand, limit⟩ := around
  obtain ⟨resolve', expand', limit'⟩ := around'
  obtain rfl : limit = limit' := hlimit
  cases hbodies with
  | none => exact h.emit _
  | some hfound =>
    simp only [Surroundings.partialWalk] at hfound ⊢
    generalize resolve name = found at hfound ⊢
    generalize resolve' name = found' at hfound ⊢
    cases hfound with
    | none => exact h.seq (h.emit _) hfallback
    | some hbody => exact h.inFrame _ _ hbody

mutual
theorem Node.walk_related :
    ∀ node : Node, around.RelatedOn related around' node.references →
      related (node.walk around) (node.walk around')
  | .element el, hnames => Element.walk_related el hnames
  | .sectionBlock path children, hnames =>
    h.inFrame _ _ (h.sectionContents path (Graph.walk_related children hnames))
  | .unlessBlock path children, hnames =>
    h.inFrame _ _ (h.unlessContents path (Graph.walk_related children hnames))
  | .partialRef name fallback, hnames =>
    hnames name List.mem_cons_self
      (Graph.walk_related fallback (hnames.mono (List.subset_cons_self _ _)))
  | .text _, _ | .comment _, _ | .closingTag _ _, _ | .widget _, _ => h.emit _
  | .interpolator path, _ | .reference path, _ | .triple path, _ => h.emitText _ path
theorem Element.walk_related :
    ∀ element : Element, around.RelatedOn related around' element.references →
      related (element.walk around) (element.walk around')
  | ⟨tag, attributes, children, _⟩, hnames =>
    h.inFrame .ofElement tag
      (h.seq (Attribute.walkAll_related attributes (hnames.mono (List.subset_append_left _ _)))
        (Graph.walk_related children (hnames.mono (List.subset_append_right _ _))))
theorem Attribute.walkAll_related :
    ∀ attributes : List Attribute,
      around.RelatedOn related around' (Attribute.references attributes) →
      related (Attribute.walkAll around attributes) (Attribute.walkAll around' attributes)
  | [], _ => h.skip
  | ⟨name, value⟩ :: rest, hnames =>
    h.seq
      (h.inFrame .ofAttribute name
        (AttributeValue.walk_related value (hnames.mono (List.subset_append_left _ _))))
      (Attribute.walkAll_related rest (hnames.mono (List.subset_append_right _ _)))
theorem AttributeValue.walk_related :
    ∀ value : AttributeValue, around.RelatedOn related around' value.references →
      related (value.walk around) (value.walk around')
  | .empty, _ => h.skip
  | .literal _, _ => h.emit _
  | .mixed parts, hnames => Graph.walk_related parts hnames
/-- Two walks through one graph are related if the partials that its names lead to are. -/
theorem Graph.walk_related :
    ∀ graph : List Node, around.RelatedOn related around' (Graph.references graph) →
      related (Graph.walk around graph) (Graph.walk around' graph)
  | [], _ => h.skip
  | node :: rest, hnames =>
    h.seq (Node.walk_related node (hnames.mono (List.subset_append_left _ _)))
      (Graph.walk_related rest (hnames.mono (List.subset_append_right _ _)))
end

end Related

/-! ## Equal walks -/

section Equal

variable {around around' : Surroundings}

/-- The partials that given names lead to are walked through in the same way. -/
def Surroundings.AgreeOn (around around' : Surroundings) (names : List String) : Prop :=
  ∀ name ∈ names, ∀ fallback, around.partialWalk name fallback = around'.partialWalk name fallback

theorem Surroundings.AgreeOn.relatedOn {names : List String} (h : around.AgreeOn around' names) :
    around.RelatedOn Eq around' names := by
  rintro name hname fallback _ rfl
  exact h name hname fallback

/-- A walk through the value of an attribute depends on nothing but what its names lead to, -/
theorem AttributeValue.walk_congr (value : AttributeValue)
    (h : around.AgreeOn around' value.references) : value.walk around = value.walk around' :=
  AttributeValue.walk_related Walk.congruence_eq value h.relatedOn

/-- and so does a walk through a graph. -/
theorem Graph.walk_congr (graph : Graph) (h : around.AgreeOn around' (Graph.references graph)) :
    Graph.walk around graph = Graph.walk around' graph :=
  Graph.walk_related Walk.congruence_eq graph h.relatedOn

end Equal

end Stencil
