import Stencil.Script.Walk

/-!
# Walks leave the scopes as they were

Every scope that a walk enters it leaves again, so a walk starts and ends in the same
scopes.  The steps of a walk can then be read off without threading scopes through it:
walks one after the other all start in the same scopes, and the contents of a section are
walked through once in each of the scopes within it.

* `PartialBody.walk_steady` — the walk through a body ends in the scopes it started in.
* `PartialBody.walk_induction` — what holds of graphs in turn holds of bodies.
* `Graph.steps_cons`, `Node.steps_sectionBlock`, `Element.steps_walk` — the steps of nodes.
-/

namespace Stencil

/-! ## Scopes within sections -/

/-- The scopes in which the contents of a section are shown, one after the other. -/
def Scopes.within (scopes : Scopes) (path : Path) : List Scopes :=
  match scopes.blockValue path with
  | .skip => []
  | .once => [scopes]
  | .scoped value => [scopes.push value none]
  | .iterate items => items.mapIdx fun index item => scopes.push item (some index)

/-- The scopes in which the contents of an inverted section are shown. -/
def Scopes.withinUnless (scopes : Scopes) (path : Path) : List Scopes :=
  match scopes.blockValue path with
  | .skip => [scopes]
  | _ => []

/-! ## Steady walks -/

namespace Walk

/-- The steps of a walk that starts in given scopes. -/
def steps (walk : Walk) (scopes : Scopes) : Script := (walk scopes).1

/-- The walk ends in the scopes it started in. -/
def Steady (walk : Walk) : Prop := ∀ scopes, (walk scopes).2 = scopes

namespace Steady

variable {first second body : Walk}

theorem skip : Walk.skip.Steady := fun _ => rfl

theorem emit (step : Directive) : (Walk.emit step).Steady := fun _ => rfl

theorem emitText (toPiece : String → Piece Widget) (path : Path) :
    (Walk.emitText toPiece path).Steady := fun _ => rfl

theorem seq (hfirst : first.Steady) (hsecond : second.Steady) : (Walk.seq first second).Steady := by
  intro scopes
  simp only [Walk.seq, hfirst scopes, hsecond scopes]

theorem steps_seq (hfirst : first.Steady) (second : Walk) (scopes : Scopes) :
    (Walk.seq first second).steps scopes = first.steps scopes ++ second.steps scopes := by
  simp only [Walk.seq, steps, hfirst scopes]

theorem inFrame (kind : FrameKind) (name : String) (hbody : body.Steady) :
    (Walk.inFrame kind name body).Steady := fun scopes => hbody scopes

theorem inScope (value : Json) (index : Option Nat) (hbody : body.Steady) :
    (Walk.inScope value index body).Steady := by
  intro scopes
  simp only [Walk.inScope, hbody (scopes.push value index), Scopes.pop_push]

theorem eachFrom (hbody : body.Steady) (items : List Json) (index : Nat) :
    (Walk.eachFrom body index items).Steady := by
  induction items generalizing index with
  | nil => exact skip
  | cons item rest ih => exact seq (inScope item (some index) hbody) (ih (index + 1))

theorem steps_eachFrom (hbody : body.Steady) (items : List Json) (index : Nat)
    (scopes : Scopes) :
    (Walk.eachFrom body index items).steps scopes =
      (items.mapIdx fun position item => scopes.push item (some (position + index))).flatMap
        body.steps := by
  induction items generalizing index with
  | nil => rfl
  | cons item rest ih =>
    have hstep := steps_seq (inScope item (some index) hbody)
      (Walk.eachFrom body (index + 1) rest) scopes
    rw [Walk.eachFrom, hstep, ih, List.mapIdx_cons, List.flatMap_cons, Nat.zero_add]
    simp only [Nat.add_assoc, Nat.add_comm 1 index]
    rfl

/-- The contents of a section are walked through once in each of the scopes within it. -/
theorem sectionContents_eq (path : Path) (hbody : body.Steady) (scopes : Scopes) :
    Walk.sectionContents path body scopes =
      ((scopes.within path).flatMap body.steps, scopes) := by
  match hvalue : scopes.blockValue path with
  | .skip => simp only [Walk.sectionContents, depending, Scopes.within, hvalue]; rfl
  | .once =>
    simp only [Walk.sectionContents, depending, Scopes.within, hvalue, List.flatMap_singleton]
    exact Prod.ext rfl (hbody scopes)
  | .scoped value =>
    simp only [Walk.sectionContents, depending, Scopes.within, hvalue, List.flatMap_singleton]
    exact Prod.ext rfl (inScope value none hbody scopes)
  | .iterate items =>
    simp only [Walk.sectionContents, depending, Scopes.within, hvalue]
    exact Prod.ext (steps_eachFrom hbody items 0 scopes) (eachFrom hbody items 0 scopes)

theorem unlessContents_eq (path : Path) (hbody : body.Steady) (scopes : Scopes) :
    Walk.unlessContents path body scopes =
      ((scopes.withinUnless path).flatMap body.steps, scopes) := by
  cases hvalue : scopes.blockValue path with
  | skip =>
    simp only [Walk.unlessContents, depending, Scopes.withinUnless, hvalue,
      List.flatMap_singleton]
    exact Prod.ext rfl (hbody scopes)
  | _ => simp only [Walk.unlessContents, depending, Scopes.withinUnless, hvalue]; rfl

theorem sectionContents (path : Path) (hbody : body.Steady) :
    (Walk.sectionContents path body).Steady := by
  intro scopes
  rw [hbody.sectionContents_eq]

theorem steps_sectionContents (path : Path) (hbody : body.Steady) (scopes : Scopes) :
    (Walk.sectionContents path body).steps scopes =
      (scopes.within path).flatMap body.steps := by
  rw [steps, hbody.sectionContents_eq]

theorem unlessContents (path : Path) (hbody : body.Steady) :
    (Walk.unlessContents path body).Steady := by
  intro scopes
  rw [hbody.unlessContents_eq]

theorem steps_unlessContents (path : Path) (hbody : body.Steady) (scopes : Scopes) :
    (Walk.unlessContents path body).steps scopes =
      (scopes.withinUnless path).flatMap body.steps := by
  rw [steps, hbody.unlessContents_eq]

end Steady

end Walk

/-! ## Graphs and bodies -/

/-- The walks through the bodies of partials are steady. -/
def Surroundings.Steady (around : Surroundings) : Prop :=
  ∀ walks, around.expand = some walks → ∀ body, (walks body).Steady

theorem Surroundings.Steady.partialWalk {around : Surroundings} (h : around.Steady)
    (name : String) {fallback : Walk} (hfallback : fallback.Steady) :
    (around.partialWalk name fallback).Steady := by
  unfold Surroundings.partialWalk
  cases hexpand : around.expand with
  | none => exact .emit _
  | some walks =>
    cases around.resolve name with
    | none => exact .seq (.emit _) hfallback
    | some body => exact .inFrame _ _ (h walks hexpand body)

mutual
theorem Node.walk_steady {around : Surroundings} (h : around.Steady) :
    ∀ node : Node, (node.walk around).Steady
  | .text _ | .comment _ | .closingTag _ _ | .widget _ => .emit _
  | .interpolator path | .reference path => .emitText .text path
  | .triple path => .emitText .raw path
  | .element el => Element.walk_steady h el
  | .sectionBlock _ children => .inFrame _ _ (.sectionContents _ (Graph.walk_steady h children))
  | .unlessBlock _ children => .inFrame _ _ (.unlessContents _ (Graph.walk_steady h children))
  | .partialRef name fallback => h.partialWalk name (Graph.walk_steady h fallback)
theorem Element.walk_steady {around : Surroundings} (h : around.Steady) :
    ∀ element : Element, (element.walk around).Steady
  | ⟨_, attributes, children, _⟩ =>
    .inFrame _ _ (.seq (Attribute.walkAll_steady h attributes) (Graph.walk_steady h children))
theorem Attribute.walkAll_steady {around : Surroundings} (h : around.Steady) :
    ∀ attributes : List Attribute, (Attribute.walkAll around attributes).Steady
  | [] => .skip
  | ⟨_, value⟩ :: rest =>
    .seq (.inFrame _ _ (AttributeValue.walk_steady h value)) (Attribute.walkAll_steady h rest)
theorem AttributeValue.walk_steady {around : Surroundings} (h : around.Steady) :
    ∀ value : AttributeValue, (value.walk around).Steady
  | .empty => .skip
  | .literal _ => .emit _
  | .mixed parts => Graph.walk_steady h parts
theorem Graph.walk_steady {around : Surroundings} (h : around.Steady) :
    ∀ graph : List Node, (Graph.walk around graph).Steady
  | [] => .skip
  | node :: rest => .seq (Node.walk_steady h node) (Graph.walk_steady h rest)
end

/-! ## The steps of graphs -/

section Steps

variable {around : Surroundings} (h : around.Steady) (scopes : Scopes)

include h

theorem Graph.steps_cons (node : Node) (rest : Graph) :
    (Graph.walk around (node :: rest)).steps scopes =
      (node.walk around).steps scopes ++ (Graph.walk around rest).steps scopes :=
  (Node.walk_steady h node).steps_seq _ scopes

theorem Graph.steps_append (first second : Graph) :
    (Graph.walk around (first ++ second)).steps scopes =
      (Graph.walk around first).steps scopes ++ (Graph.walk around second).steps scopes := by
  induction first with
  | nil => rfl
  | cons node rest ih =>
    rw [List.cons_append, Graph.steps_cons h, Graph.steps_cons h, ih, List.append_assoc]

/-- A graph with a single node is walked through as the node is. -/
theorem Graph.steps_singleton (node : Node) :
    (Graph.walk around [node]).steps scopes = (node.walk around).steps scopes := by
  rw [Graph.steps_cons h]
  exact List.append_nil _

theorem Node.steps_sectionBlock (path : Path) (children : Graph) :
    (Node.walk around (.sectionBlock path children)).steps scopes =
      [.frame .ofSection path.text
        ((scopes.within path).flatMap (Graph.walk around children).steps)] := by
  rw [← (Graph.walk_steady h children).steps_sectionContents]
  rfl

theorem Node.steps_unlessBlock (path : Path) (children : Graph) :
    (Node.walk around (.unlessBlock path children)).steps scopes =
      [.frame .ofSection path.text
        ((scopes.withinUnless path).flatMap (Graph.walk around children).steps)] := by
  rw [← (Graph.walk_steady h children).steps_unlessContents]
  rfl

theorem Element.steps_walk (tag : String) (attributes : List Attribute) (children : Graph)
    (isRoot : Bool) :
    (Element.walk around ⟨tag, attributes, children, isRoot⟩).steps scopes =
      [.frame .ofElement tag ((Attribute.walkAll around attributes).steps scopes ++
        (Graph.walk around children).steps scopes)] := by
  rw [← (Attribute.walkAll_steady h attributes).steps_seq]
  rfl

theorem Attribute.steps_cons (name : String) (value : AttributeValue) (rest : List Attribute) :
    (Attribute.walkAll around (⟨name, value⟩ :: rest)).steps scopes =
      .frame .ofAttribute name ((value.walk around).steps scopes) ::
        (Attribute.walkAll around rest).steps scopes := by
  have hframe : (Walk.inFrame .ofAttribute name (value.walk around)).Steady :=
    .inFrame _ _ (AttributeValue.walk_steady h value)
  exact hframe.steps_seq _ scopes

end Steps

theorem Surroundings.steps_partialWalk_none {around : Surroundings}
    (hexpand : around.expand = none) (name : String) (fallback : Walk) (scopes : Scopes) :
    (around.partialWalk name fallback).steps scopes =
      [.warning (nestingWarning name around.limit)] := by
  rw [partialWalk, hexpand]
  rfl

theorem Surroundings.steps_partialWalk_body {around : Surroundings} {name : String}
    {walks : PartialBody → Walk} {body : PartialBody} (hexpand : around.expand = some walks)
    (hresolve : around.resolve name = some body) (fallback : Walk) (scopes : Scopes) :
    (around.partialWalk name fallback).steps scopes =
      [.frame .ofPartial name ((walks body).steps scopes)] := by
  simp only [partialWalk, hexpand, hresolve]
  rfl

theorem Surroundings.steps_partialWalk_fallback {around : Surroundings} {name : String}
    {walks : PartialBody → Walk} (hexpand : around.expand = some walks)
    (hresolve : around.resolve name = none) (fallback : Walk) (scopes : Scopes) :
    (around.partialWalk name fallback).steps scopes =
      .warning (unresolvedWarning name) :: fallback.steps scopes := by
  simp only [partialWalk, hexpand, hresolve]
  rfl

/-- The walk through the body of a partial ends in the scopes it started in. -/
theorem PartialBody.walk_steady (registry : Partials) (limit left : Nat) (body : PartialBody) :
    (body.walk registry limit left).Steady := by
  induction left generalizing body with
  | zero => exact Graph.walk_steady (fun _ hwalks => by cases hwalks) body.graph
  | succ left ih =>
    refine Graph.walk_steady ?_ body.graph
    intro walks hwalks inner
    cases hwalks
    exact ih inner

/-- The walks through the bodies that given names lead to have a property. -/
def Surroundings.Leads (around : Surroundings) (property : Walk → Prop) (names : List String) :
    Prop :=
  ∀ walks, around.expand = some walks → ∀ name ∈ names, ∀ body,
    around.resolve name = some body → property (walks body)

theorem Surroundings.Leads.mono {around : Surroundings} {property : Walk → Prop}
    {names more : List String} (h : around.Leads property more) (hsub : names ⊆ more) :
    around.Leads property names :=
  fun walks hwalks name hname => h walks hwalks name (hsub hname)

/-- Names that are looked up in some partials lead to what the partials are. -/
theorem Surroundings.leads_of_resolve {around : Surroundings} {partials registry : Partials}
    (hresolve : ∀ name, around.resolve name = Stencil.resolve name partials registry)
    {holds : PartialBody → Prop} {property : Walk → Prop} {names : List String}
    (hwalks : ∀ walks, around.expand = some walks → ∀ body, holds body → property (walks body))
    (hnames : ∀ name ∈ names, ∀ body,
      Stencil.resolve name partials registry = some body → holds body) :
    around.Leads property names := by
  intro walks hexpand name hname body hbody
  rw [hresolve] at hbody
  exact hwalks walks hexpand body (hnames name hname body hbody)

/-- What holds of the walk through a graph, provided that it holds of the walks through what
its partials lead to, holds of the walks through all bodies. -/
theorem PartialBody.walk_induction (registry : Partials) (limit : Nat)
    (property : PartialBody → Walk → Prop)
    (hgraph : ∀ (around : Surroundings) (body : PartialBody), around.Steady →
      (∀ name, around.resolve name = resolve name body.partials registry) →
      (∀ walks, around.expand = some walks → ∀ inner, property inner (walks inner)) →
      property body (Graph.walk around body.graph))
    (left : Nat) (body : PartialBody) : property body (body.walk registry limit left) := by
  induction left generalizing body with
  | zero =>
    refine hgraph _ body ?_ (fun _ => rfl) ?_
    · intro walks hwalks
      cases hwalks
    · intro walks hwalks
      cases hwalks
  | succ left ih =>
    refine hgraph _ body ?_ (fun _ => rfl) ?_
    · intro walks hwalks inner
      cases hwalks
      exact inner.walk_steady registry limit left
    · intro walks hwalks inner
      cases hwalks
      exact ih inner

/-- What graphs are walked through with that have given partials in scope, with `left` levels
of partials to go. -/
def Surroundings.ofPartials (registry : Partials) (limit left : Nat) (partials : Partials) :
    Surroundings where
  resolve := (Stencil.resolve · partials registry)
  expand :=
    match left with
    | 0 => none
    | left + 1 => some (PartialBody.walk registry limit left)
  limit := limit

theorem Surroundings.steady_ofPartials (registry : Partials) (limit left : Nat)
    (partials : Partials) : (ofPartials registry limit left partials).Steady := by
  intro walks hwalks inner
  cases left with
  | zero => cases hwalks
  | succ left =>
    cases hwalks
    exact inner.walk_steady registry limit left

theorem PartialBody.walk_eq_ofPartials (registry : Partials) (limit left : Nat)
    (partials : Partials) (graph : Graph) :
    PartialBody.walk registry limit left ⟨graph, partials⟩ =
      Graph.walk (.ofPartials registry limit left partials) graph := by
  cases left <;> rfl

/-- With the same partials in scope, all graphs are walked through in the same surroundings. -/
theorem PartialBody.walk_around (registry : Partials) (limit left : Nat) (partials : Partials) :
    ∃ around : Surroundings, around.Steady ∧
      ∀ graph, PartialBody.walk registry limit left ⟨graph, partials⟩ =
        Graph.walk around graph :=
  ⟨.ofPartials registry limit left partials,
    Surroundings.steady_ofPartials registry limit left partials,
    walk_eq_ofPartials registry limit left partials⟩

end Stencil
