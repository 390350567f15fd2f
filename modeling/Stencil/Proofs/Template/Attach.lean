import Stencil.Proofs.Script.Unwrap
import Stencil.Proofs.Template.Expansion
import Stencil.Proofs.Template.Matching

/-!
# Attaching is interpreting ahead of time

Attaching a graph expands its partials and puts in the children of a component before any
data are known, and interpreting does the same step by step.  Where neither runs into
partials that include themselves, the script of the attached graph is that of the graph
itself, but for the frames of partials and the warnings about those that are not bound.

* `Warning.Acyclic` — no partial included itself, or was nested too deep.
* `Node.isAttachable` — no closing tag, and no partial within an attribute.
* `PartialBody.unwraps_attach`, `Attachment.unwraps_attach` — the two scripts, whatever the
  data.
-/

namespace Stencil

/-! ## Warnings about cycles -/

/-- There is no warning about partials that include themselves or are nested too deep. -/
def Warning.Acyclic (warnings : List Warning) : Prop :=
  Warning.ofKind .partialCycle warnings = []

instance (warnings : List Warning) : Decidable (Warning.Acyclic warnings) :=
  inferInstanceAs (Decidable (_ = []))

theorem Warning.acyclic_append {first second : List Warning} :
    Acyclic (first ++ second) ↔ Acyclic first ∧ Acyclic second := by
  rw [Acyclic, ofKind, List.filter_append, List.append_eq_nil_iff]
  rfl

theorem Warning.acyclic_flatMap {α : Type} {items : List α} {warnings : α → List Warning}
    (h : Acyclic (items.flatMap warnings)) : ∀ item ∈ items, Acyclic (warnings item) := by
  induction items with
  | nil => simp
  | cons first rest ih =>
    rw [List.flatMap_cons, acyclic_append] at h
    intro item hitem
    rcases List.mem_cons.mp hitem with rfl | hrest
    · exact h.1
    · exact ih h.2 item hrest

/-! ## Graphs that can be attached -/

/-- Whether a node is no closing tag and refers to no partial within its attributes. -/
def Node.isAttachable : Node → Bool
  | .element el => (Attribute.references el.attributes).isEmpty
  | .closingTag _ _ => false
  | _ => true

/-- Attributes without partials come out the same in any surroundings. -/
theorem Attribute.unwraps_steps {around attached : Surroundings} (hsteady : around.Steady)
    (hattached : attached.Steady) (scopes : Scopes) :
    ∀ attributes : List Attribute, Attribute.references attributes = [] →
      Attribute.everyAll Node.isNoTag attributes = true →
        Script.Unwraps ((Attribute.walkAll around attributes).steps scopes)
          ((Attribute.walkAll attached attributes).steps scopes)
  | [], _, _ => .nil
  | ⟨name, value⟩ :: rest, hnames, hevery => by
    rw [Attribute.references, List.append_eq_nil_iff] at hnames
    rw [Attribute.everyAll, Bool.and_eq_true] at hevery
    have hvalue : value.walk around = value.walk attached := by
      refine AttributeValue.walk_congr value ?_
      rw [hnames.1]
      exact fun name hname => absurd hname List.not_mem_nil
    have htags : Script.tagFree ((value.walk around).steps scopes) = true := by
      refine (AttributeValue.walk_of_compositional Script.compositional_tagFree.walk value
        hevery.1 ?_).2 scopes
      rw [hnames.1]
      exact fun _ _ name hname => absurd hname List.not_mem_nil
    rw [Attribute.steps_cons hsteady, Attribute.steps_cons hattached, ← hvalue]
    exact .attr name htags (Attribute.unwraps_steps hsteady hattached scopes rest hnames.2 hevery.2)

mutual
theorem Node.steps_settled {around : Surroundings} (h : around.Steady) (scopes : Scopes) :
    ∀ node : Node, Piece.Settled (Script.pieces ((node.walk around).steps scopes))
  | .element ⟨_, _, _, _⟩ => by
    rw [Node.walk, Element.steps_walk h, Script.pieces_frame]
    exact .singleton rfl
  | .sectionBlock _ _ => by
    rw [Node.steps_sectionBlock h, Script.pieces_frame]
    exact .singleton rfl
  | .unlessBlock _ _ => by
    rw [Node.steps_unlessBlock h, Script.pieces_frame]
    exact .singleton rfl
  | .partialRef name fallback => by
    rw [Node.walk]
    cases hexpand : around.expand with
    | none =>
      rw [Surroundings.steps_partialWalk_none hexpand]
      exact .nil
    | some walks =>
      cases hresolve : around.resolve name with
      | none =>
        rw [Surroundings.steps_partialWalk_fallback hexpand hresolve]
        exact Graph.steps_settled h scopes fallback
      | some body =>
        rw [Surroundings.steps_partialWalk_body hexpand hresolve, Script.pieces_frame]
        exact .singleton rfl
  | .closingTag _ _ => .nil
  | .text _ | .interpolator _ | .reference _ | .triple _ | .comment _ | .widget _ =>
    .singleton rfl
/-- No attribute is left on its way to an element by the nodes of a graph. -/
theorem Graph.steps_settled {around : Surroundings} (h : around.Steady) (scopes : Scopes) :
    ∀ graph : List Node, Piece.Settled (Script.pieces ((Graph.walk around graph).steps scopes))
  | [] => .nil
  | node :: rest => by
    rw [Graph.steps_cons h, Script.pieces_append]
    exact (Node.steps_settled h scopes node).append (Graph.steps_settled h scopes rest)
end

/-! ## Graphs -/

/-- Where given names lead, attaching a body and interpreting it come to the same, as far as
neither runs into a cycle. -/
def Expansion.AgreesOn (expansion : Expansion) (attachment : Attachment)
    (around attached : Surroundings) (names : List String) : Prop :=
  ∀ walks, around.expand = some walks → ∀ name ∈ names, name ∉ expansion.expanding →
    ∀ body, resolve name expansion.partials attachment.registry = some body →
      Warning.Acyclic (expansion.expand (expansion.expanding ++ [name]) body).log.warnings →
        ∀ scopes, Warning.Acyclic (Script.warnings ((walks body).steps scopes)) →
          Script.Unwraps ((walks body).steps scopes)
              ((Graph.walk attached
                (expansion.expand (expansion.expanding ++ [name]) body).value).steps scopes) ∧
            Piece.Settled (Script.pieces ((walks body).steps scopes))

theorem Expansion.AgreesOn.mono {expansion : Expansion} {attachment : Attachment}
    {around attached : Surroundings} {names more : List String}
    (h : expansion.AgreesOn attachment around attached more) (hsub : names ⊆ more) :
    expansion.AgreesOn attachment around attached names :=
  fun walks hwalks name hname => h walks hwalks name (hsub hname)

section Graphs

variable {attachment : Attachment} {expansion : Expansion} {around attached : Surroundings}

mutual
theorem Node.unwraps_attach (hsteady : around.Steady) (hattached : attached.Steady)
    (hresolve : around.resolve = (resolve · expansion.partials attachment.registry)) :
    ∀ node : Node, node.every Node.isAttachable Node.isNoTag = true →
      expansion.AgreesOn attachment around attached node.references →
      Warning.Acyclic (node.attach attachment expansion).log.warnings → ∀ scopes,
      Warning.Acyclic (Script.warnings
        ((node.walkMatching around (attachment.choose expansion.partials)).steps scopes)) →
      Script.Unwraps
        ((node.walkMatching around (attachment.choose expansion.partials)).steps scopes)
        ((Graph.walk attached (node.attach attachment expansion).value).steps scopes)
  | .element ⟨tag, attributes, children, isRoot⟩, hevery, hnames, hattach, scopes, hwalk => by
    simp only [Node.every, Element.every, Node.isAttachable, List.isEmpty_iff,
      Bool.and_eq_true] at hevery
    cases hchild : attachment.childFor? ⟨tag, attributes, children, isRoot⟩ with
    | some child =>
      have hchosen : attachment.choose expansion.partials ⟨tag, attributes, children, isRoot⟩ =
          some (attachment.widgetFor expansion.partials child
            ⟨tag, attributes, children, isRoot⟩) := by
        rw [Attachment.choose, hchild, Option.map_some]
      simp only [Node.attach, Node.walkMatching, hchild, hchosen]
      exact .leaf _ .nil
    | none =>
      have hnone : attachment.choose expansion.partials ⟨tag, attributes, children, isRoot⟩ =
          none := by
        rw [Attachment.choose, hchild, Option.map_none]
      rw [Node.steps_walkMatching_element hsteady scopes hnone] at hwalk ⊢
      simp only [Node.attach, hchild, Logged.value_bind, Logged.value_pure, Logged.log_bind,
        Logged.log_pure, Log.append_empty] at hattach ⊢
      simp only [Script.warnings, Directive.warnings, List.append_nil, Script.warnings_append,
        Warning.acyclic_append] at hwalk
      have hattributes := Attribute.unwraps_steps hsteady hattached scopes attributes hevery.1
        hevery.2.1
      have hchildren := Graph.unwraps_attach hsteady hattached hresolve children hevery.2.2
        (hnames.mono (List.subset_append_right _ _)) hattach scopes hwalk.2
      rw [Graph.steps_singleton hattached, Node.walk, Element.steps_walk hattached]
      exact .element tag (hattributes.append hchildren) .nil
  | .sectionBlock path children, hevery, hnames, hattach, scopes, hwalk => by
    simp only [Node.every, Bool.and_eq_true] at hevery
    rw [Node.steps_walkMatching_sectionBlock hsteady] at hwalk ⊢
    simp only [Node.attach, Logged.value_bind, Logged.value_pure, Logged.log_bind,
      Logged.log_pure, Log.append_empty] at hattach ⊢
    simp only [Script.warnings, Directive.warnings, List.append_nil,
      Script.warnings_flatMap] at hwalk
    have hchildren := Graph.unwraps_attach hsteady hattached hresolve children hevery.2 hnames
      hattach
    rw [Graph.steps_singleton hattached, Node.steps_sectionBlock hattached]
    refine .sectionBlock path.text (.flatMap _ ?_) .nil
    exact fun inner hinner => hchildren inner (Warning.acyclic_flatMap hwalk inner hinner)
  | .unlessBlock path children, hevery, hnames, hattach, scopes, hwalk => by
    simp only [Node.every, Bool.and_eq_true] at hevery
    rw [Node.steps_walkMatching_unlessBlock hsteady] at hwalk ⊢
    simp only [Node.attach, Logged.value_bind, Logged.value_pure, Logged.log_bind,
      Logged.log_pure, Log.append_empty] at hattach ⊢
    simp only [Script.warnings, Directive.warnings, List.append_nil,
      Script.warnings_flatMap] at hwalk
    have hchildren := Graph.unwraps_attach hsteady hattached hresolve children hevery.2 hnames
      hattach
    rw [Graph.steps_singleton hattached, Node.steps_unlessBlock hattached]
    refine .sectionBlock path.text (.flatMap _ ?_) .nil
    exact fun inner hinner => hchildren inner (Warning.acyclic_flatMap hwalk inner hinner)
  | .partialRef name fallback, hevery, hnames, hattach, scopes, hwalk => by
    simp only [Node.every, Bool.and_eq_true] at hevery
    rw [Node.walkMatching] at hwalk ⊢
    cases hexpand : around.expand with
    | none =>
      -- Partials are nested too deep, and the warning says so.
      rw [Surroundings.steps_partialWalk_none hexpand] at hwalk
      cases hwalk
    | some walks =>
      by_cases hexpanding : expansion.expanding.contains name = true
      · -- The partial includes itself, and attaching says so.
        simp only [Node.attach, hexpanding, if_true] at hattach
        cases hattach
      · have hnew : name ∉ expansion.expanding := by simpa using hexpanding
        have hfound : around.resolve name =
            Stencil.resolve name expansion.partials attachment.registry := by rw [hresolve]
        simp only [Node.attach, hexpanding] at hattach ⊢
        cases hbody : Stencil.resolve name expansion.partials attachment.registry with
        | none =>
          rw [Surroundings.steps_partialWalk_fallback hexpand (hfound.trans hbody)] at hwalk ⊢
          simp only [hbody] at hattach ⊢
          have hwalk' := (Warning.acyclic_append.mp hwalk).2
          have hattach' := (Warning.acyclic_append.mp hattach).2
          exact .warning _ (Graph.unwraps_attach hsteady hattached hresolve fallback hevery.2
            (hnames.mono (List.subset_cons_self _ _)) hattach' scopes hwalk')
        | some body =>
          rw [Surroundings.steps_partialWalk_body hexpand (hfound.trans hbody)] at hwalk ⊢
          simp only [hbody] at hattach ⊢
          simp only [Script.warnings, Directive.warnings, List.append_nil] at hwalk
          obtain ⟨hunwraps, hsettled⟩ := hnames walks hexpand name List.mem_cons_self hnew body
            hbody hattach scopes hwalk
          have hwhole := Script.Unwraps.partialBlock name hunwraps hsettled .nil
          rwa [List.append_nil] at hwhole
  | .closingTag _ _, hevery, _, _, _, _ => by
    simp [Node.every, Node.isAttachable] at hevery
  | .text _, _, _, _, _, _ | .interpolator _, _, _, _, _, _ | .reference _, _, _, _, _, _
  | .triple _, _, _, _, _, _ | .comment _, _, _, _, _, _ | .widget _, _, _, _, _, _ =>
    .leaf _ .nil
/-- The script of an attached graph is the script of the graph with the partials opened up. -/
theorem Graph.unwraps_attach (hsteady : around.Steady) (hattached : attached.Steady)
    (hresolve : around.resolve = (resolve · expansion.partials attachment.registry)) :
    ∀ graph : List Node, Graph.every Node.isAttachable Node.isNoTag graph = true →
      expansion.AgreesOn attachment around attached (Graph.references graph) →
      Warning.Acyclic (Graph.attach attachment expansion graph).log.warnings → ∀ scopes,
      Warning.Acyclic (Script.warnings
        ((Graph.walkMatching around (attachment.choose expansion.partials) graph).steps scopes)) →
      Script.Unwraps
        ((Graph.walkMatching around (attachment.choose expansion.partials) graph).steps scopes)
        ((Graph.walk attached (Graph.attach attachment expansion graph).value).steps scopes)
  | [], _, _, _, _, _ => .nil
  | node :: rest, hevery, hnames, hattach, scopes, hwalk => by
    simp only [Graph.every, Bool.and_eq_true] at hevery
    rw [Graph.steps_walkMatching_cons hsteady] at hwalk ⊢
    simp only [Graph.attach, Logged.value_bind, Logged.value_pure, Logged.log_bind,
      Logged.log_pure, Log.append_empty] at hattach ⊢
    rw [Script.warnings_append, Warning.acyclic_append] at hwalk
    have hlogs := Warning.acyclic_append.mp hattach
    rw [Graph.steps_append hattached]
    exact .append
      (Node.unwraps_attach hsteady hattached hresolve node hevery.1
        (hnames.mono (List.subset_append_left _ _)) hlogs.1 scopes hwalk.1)
      (Graph.unwraps_attach hsteady hattached hresolve rest hevery.2
        (hnames.mono (List.subset_append_right _ _)) hlogs.2 scopes hwalk.2)
end

end Graphs

/-! ## Bodies -/

/-- What stands around the body of a partial: partials are looked up in its own and in the
registry, and are expanded as long as levels are left. -/
theorem PartialBody.walkMatching_around (attachment : Attachment) (left : Nat)
    (body : PartialBody) :
    ∃ around : Surroundings, around.Steady ∧
      around.resolve = (Stencil.resolve · body.partials attachment.registry) ∧
      (∀ walks, around.expand = some walks →
        ∃ fewer, walks = PartialBody.walkMatching attachment fewer) ∧
      body.walkMatching attachment left =
        Graph.walkMatching around (attachment.choose body.partials) body.graph := by
  cases left with
  | zero =>
    refine ⟨_, ?_, rfl, ?_, by rw [walkMatching]⟩
    · exact fun walks hwalks => by cases hwalks
    · exact fun walks hwalks => by cases hwalks
  | succ left =>
    refine ⟨_, ?_, rfl, ?_, by rw [walkMatching]⟩
    · intro walks hwalks inner
      cases hwalks
      exact walkMatching_steady attachment left inner
    · intro walks hwalks
      cases hwalks
      exact ⟨left, rfl⟩

theorem PartialBody.walkMatching_settled (attachment : Attachment) (left : Nat)
    (body : PartialBody) (scopes : Scopes) :
    Piece.Settled (Script.pieces ((body.walkMatching attachment left).steps scopes)) := by
  obtain ⟨around, hsteady, -, -, hbody⟩ := body.walkMatching_around attachment left
  rw [hbody, Graph.walkMatching_eq]
  exact Graph.steps_settled hsteady scopes _

/-- Attaching a body, within names that leave room for it, and interpreting it come to the
same. -/
theorem PartialBody.unwraps_attach {attachment : Attachment} {attached : Surroundings}
    (hattached : attached.Steady) {names : List String}
    (hregistry : Partials.boundNames attachment.registry ⊆ names) (levels : Nat) :
    ∀ (left : Nat) (expanding : List String) (body : PartialBody),
      body.HasRoom names levels expanding →
      (∀ reached, body.Reaches attachment.registry reached →
        Graph.every Node.isAttachable Node.isNoTag reached.graph = true) →
      Warning.Acyclic (body.attach attachment levels expanding).log.warnings → ∀ scopes,
      Warning.Acyclic (Script.warnings ((body.walkMatching attachment left).steps scopes)) →
      Script.Unwraps ((body.walkMatching attachment left).steps scopes)
        ((Graph.walk attached (body.attach attachment levels expanding).value).steps scopes) := by
  induction levels with
  | zero =>
    intro left expanding body hroom hevery hattach scopes hwalk
    obtain ⟨around, hsteady, hresolve, -, hbody⟩ := body.walkMatching_around attachment left
    rw [hbody] at hwalk ⊢
    refine Graph.unwraps_attach hsteady hattached hresolve body.graph (hevery body .start) ?_
      hattach scopes hwalk
    -- No level is left to expand, so there is no name left either.
    intro walks _ name hname hnew inner hinner
    obtain ⟨fewer, hfewer, -⟩ := hroom.expand hregistry hnew hinner
    cases hfewer
  | succ levels ih =>
    intro left expanding body hroom hevery hattach scopes hwalk
    obtain ⟨around, hsteady, hresolve, hexpand, hbody⟩ := body.walkMatching_around attachment left
    rw [hbody] at hwalk ⊢
    refine Graph.unwraps_attach hsteady hattached hresolve body.graph (hevery body .start) ?_
      hattach scopes hwalk
    intro walks hwalks name hname hnew inner hinner hattach' scopes' hwalk'
    obtain ⟨left, rfl⟩ := hexpand walks hwalks
    obtain ⟨fewer, hfewer, hroom'⟩ := hroom.expand hregistry hnew hinner
    obtain rfl : levels = fewer := Nat.succ.inj hfewer
    refine ⟨ih left (expanding ++ [name]) inner hroom' ?_ hattach' scopes' hwalk',
      inner.walkMatching_settled attachment left scopes'⟩
    intro reached hreached
    exact hevery reached (Reaches.trans (.step .start hname hinner) hreached)

/-- Attaching a graph and interpreting it come to the same, if neither warns of a cycle. -/
theorem Attachment.unwraps_attach {attachment : Attachment} {attached : Surroundings}
    (hattached : attached.Steady) {body : PartialBody} {data : Json}
    (hevery : ∀ reached, body.Reaches attachment.registry reached →
      Graph.every Node.isAttachable Node.isNoTag reached.graph = true)
    (hattach : Warning.Acyclic (attachment.attach body).log.warnings)
    (hwalk : Warning.Acyclic (Script.warnings (attachment.interpret body data))) :
    Script.Unwraps (attachment.interpret body data)
      ((Graph.walk attached (attachment.attach body).value).steps (.ofData data)) := by
  exact PartialBody.unwraps_attach hattached (List.subset_append_left _ _) _ _ [] body
    (attachment.hasRoom_start body) hevery hattach _ hwalk

end Stencil
