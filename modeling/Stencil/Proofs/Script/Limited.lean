import Stencil.Proofs.Script.Balance
import Stencil.Proofs.Script.Congruence
import Stencil.Proofs.Template.Attach

/-!
# How deep partials are nested

The body of a partial may refer to partials again, also to itself, and a limit says how deep
these may be nested.  Closing tags may close the frames of partials early, and then the bodies go
on outside of them, but no tag ever lets more frames be open than there would be without it.  So
at no point are more partials open than the limit allows.  As long as the limit is not exceeded,
a larger one changes nothing.

* `Script.nesting` — how deep the frames of partials are nested in a script.
* `Script.states` — all states that a run goes through.
* `PartialBody.nesting_walk` — the script of a body keeps to the levels that are left.
* `Script.openPartials_states` — with a run, no more partials are open than are nested.
* `Walk.Widens`, `PartialBody.widens_walk` — the script of a body with more levels to go.
-/

namespace Stencil

/-! ## Partials within partials -/

mutual
/-- How deep the frames of partials are nested in a step. -/
def Directive.nesting : Directive → Nat
  | .frame .ofPartial _ body => Script.nesting body + 1
  | .frame _ _ body => Script.nesting body
  | _ => 0
/-- How deep the frames of partials are nested in a script. -/
def Script.nesting : List Directive → Nat
  | [] => 0
  | step :: rest => max step.nesting (Script.nesting rest)
end

namespace Script

theorem nesting_append (first second : Script) :
    nesting (first ++ second) = max (nesting first) (nesting second) := by
  induction first with
  | nil => exact (Nat.zero_max _).symm
  | cons step rest ih => rw [List.cons_append, nesting, nesting, ih, Nat.max_assoc]

theorem nesting_flatMap_le {α : Type} {steps : α → Script} {depth : Nat}
    (h : ∀ item, nesting (steps item) ≤ depth) (items : List α) :
    nesting (items.flatMap steps) ≤ depth := by
  induction items with
  | nil => exact Nat.zero_le depth
  | cons item rest ih =>
    rw [List.flatMap_cons, nesting_append]
    exact Nat.max_le.mpr ⟨h item, ih⟩

end Script

/-! ## Scripts of graphs -/

section Walks

variable {around : Surroundings} {depth : Nat}

/-- The bodies that partials lead to are nested less deep than given. -/
def Surroundings.NestsTo (around : Surroundings) (depth : Nat) : Prop :=
  ∀ walks, around.expand = some walks → ∀ body scopes,
    Script.nesting ((walks body).steps scopes) < depth

theorem Surroundings.NestsTo.partialWalk (h : around.NestsTo depth) (name : String)
    {fallback : Walk} (hfallback : ∀ scopes, Script.nesting (fallback.steps scopes) ≤ depth)
    (scopes : Scopes) :
    Script.nesting ((around.partialWalk name fallback).steps scopes) ≤ depth := by
  cases hexpand : around.expand with
  | none =>
    rw [Surroundings.steps_partialWalk_none hexpand]
    exact Nat.zero_le depth
  | some walks =>
    cases hresolve : around.resolve name with
    | none =>
      rw [Surroundings.steps_partialWalk_fallback hexpand hresolve]
      exact Nat.max_le.mpr ⟨Nat.zero_le depth, hfallback scopes⟩
    | some body =>
      rw [Surroundings.steps_partialWalk_body hexpand hresolve]
      exact Nat.max_le.mpr ⟨h walks hexpand body scopes, Nat.zero_le depth⟩

mutual
theorem Node.nesting_walk (hsteady : around.Steady) (haround : around.NestsTo depth) :
    ∀ (node : Node) (scopes : Scopes), Script.nesting ((node.walk around).steps scopes) ≤ depth
  | .element el, scopes => Element.nesting_walk hsteady haround el scopes
  | .sectionBlock _ children, scopes => by
    rw [Node.steps_sectionBlock hsteady]
    exact Nat.max_le.mpr ⟨Script.nesting_flatMap_le (Graph.nesting_walk hsteady haround children) _,
      Nat.zero_le depth⟩
  | .unlessBlock _ children, scopes => by
    rw [Node.steps_unlessBlock hsteady]
    exact Nat.max_le.mpr ⟨Script.nesting_flatMap_le (Graph.nesting_walk hsteady haround children) _,
      Nat.zero_le depth⟩
  | .partialRef name fallback, scopes =>
    haround.partialWalk name (Graph.nesting_walk hsteady haround fallback) scopes
  | .text _, _ | .interpolator _, _ | .reference _, _ | .triple _, _ | .comment _, _
  | .closingTag _ _, _ | .widget _, _ => Nat.zero_le depth
theorem Element.nesting_walk (hsteady : around.Steady) (haround : around.NestsTo depth) :
    ∀ (element : Element) (scopes : Scopes),
      Script.nesting ((element.walk around).steps scopes) ≤ depth
  | ⟨_, attributes, children, _⟩, scopes => by
    have hattributes := Attribute.nesting_walkAll hsteady haround attributes scopes
    have hchildren := Graph.nesting_walk hsteady haround children scopes
    rw [Element.steps_walk hsteady]
    refine Nat.max_le.mpr ⟨?_, Nat.zero_le depth⟩
    rw [Directive.nesting, Script.nesting_append]
    · exact Nat.max_le.mpr ⟨hattributes, hchildren⟩
    · exact FrameKind.noConfusion
theorem Attribute.nesting_walkAll (hsteady : around.Steady) (haround : around.NestsTo depth) :
    ∀ (attributes : List Attribute) (scopes : Scopes),
      Script.nesting ((Attribute.walkAll around attributes).steps scopes) ≤ depth
  | [], _ => Nat.zero_le depth
  | ⟨_, value⟩ :: rest, scopes => by
    rw [Attribute.steps_cons hsteady]
    exact Nat.max_le.mpr ⟨AttributeValue.nesting_walk hsteady haround value scopes,
      Attribute.nesting_walkAll hsteady haround rest scopes⟩
theorem AttributeValue.nesting_walk (hsteady : around.Steady) (haround : around.NestsTo depth) :
    ∀ (value : AttributeValue) (scopes : Scopes),
      Script.nesting ((value.walk around).steps scopes) ≤ depth
  | .empty, _ | .literal _, _ => Nat.zero_le depth
  | .mixed parts, scopes => Graph.nesting_walk hsteady haround parts scopes
/-- Partials are nested in the script of a graph no deeper than they may be. -/
theorem Graph.nesting_walk (hsteady : around.Steady) (haround : around.NestsTo depth) :
    ∀ (graph : List Node) (scopes : Scopes),
      Script.nesting ((Graph.walk around graph).steps scopes) ≤ depth
  | [], _ => Nat.zero_le depth
  | node :: rest, scopes => by
    rw [Graph.steps_cons hsteady, Script.nesting_append]
    exact Nat.max_le.mpr ⟨Node.nesting_walk hsteady haround node scopes,
      Graph.nesting_walk hsteady haround rest scopes⟩
end

end Walks

/-- Partials are nested no deeper than levels are left, whatever they refer to. -/
theorem PartialBody.nesting_walk (registry : Partials) (limit left : Nat) (body : PartialBody)
    (scopes : Scopes) : Script.nesting ((body.walk registry limit left).steps scopes) ≤ left := by
  induction left generalizing body scopes with
  | zero =>
    refine Graph.nesting_walk ?_ ?_ body.graph scopes
    · exact fun walks hwalks => by cases hwalks
    · exact fun walks hwalks => by cases hwalks
  | succ left ih =>
    refine Graph.nesting_walk ?_ ?_ body.graph scopes
    · intro walks hwalks inner
      cases hwalks
      exact inner.walk_steady registry limit left
    · intro walks hwalks inner scopes
      cases hwalks
      exact Nat.lt_succ_of_le (ih inner scopes)

/-! ## Runs -/

section States

variable {σ : Type}

mutual
/-- The states that a step goes through, in order. -/
def Directive.states (sink : Sink σ) : Directive → σ → List σ
  | .frame kind name body, state =>
      let (request, opened) := sink.openFrame kind name state
      opened :: (Script.states sink body opened ++
        [sink.closeFrame request (Script.run sink body opened)])
  | step, state => [step.run sink state]
/-- The states that a run goes through after the first, in order. -/
def Script.states (sink : Sink σ) : List Directive → σ → List σ
  | [], _ => []
  | step :: rest, state => step.states sink state ++ Script.states sink rest (step.run sink state)
end

end States

namespace Assembly

variable {ω α : Type} {assembly : Assembly ω} {path : List Nat}

/-- How many partials are open. -/
def openPartials (assembly : Assembly ω) : Nat :=
  assembly.openFrames.countP (·.kind = .ofPartial)

/-- A frame that is opened counts if it is that of a partial. -/
theorem openPartials_openFrame (assembly : Assembly ω) (kind : FrameKind) (name : String) :
    (assembly.openFrame kind name).2.openPartials =
      assembly.openPartials + if kind = .ofPartial then 1 else 0 := by
  have hclosings : assembly.claimIndex.stack.map Frame.closing =
      assembly.stack.map Frame.closing := by
    have hshells := closings_claimIndex assembly
    rwa [shells, shells, List.map_map, List.map_map] at hshells
  have hframes : (assembly.openFrame kind name).2.openFrames =
      assembly.openFrames ++ [(assembly.openFrame kind name).1] := by
    rw [openFrames, openFrames, ← hclosings, ← List.reverse_cons]
    rfl
  rw [openPartials, hframes, List.countP_append, List.countP_singleton]
  cases kind <;> rfl

/-- After a script, no more partials are open than before. -/
theorem Tidy.openPartials_run_le (h : assembly.Tidy path) (encoding : Encoding ω α)
    (script : Script) :
    (Script.run (Assembly.sink encoding) script assembly).openPartials ≤ assembly.openPartials :=
  (h.openFrames_run encoding script).sublist.countP_le

end Assembly

section Runs

variable {ω α : Type} (encoding : Encoding ω α)

/-- A step that opens no frame leaves no more partials open. -/
theorem Directive.openPartials_run_le (step : Directive) {assembly : Assembly ω}
    {path : List Nat} (h : assembly.Tidy path) :
    (step.run (Assembly.sink encoding) assembly).openPartials ≤ assembly.openPartials :=
  h.openPartials_run_le encoding [step]

mutual
theorem Directive.openPartials_states :
    ∀ (step : Directive) {assembly : Assembly ω} {path : List Nat} (_ : assembly.Tidy path),
      ∀ state ∈ step.states (Assembly.sink encoding) assembly,
        state.openPartials ≤ assembly.openPartials + step.nesting
  | .frame kind name body, assembly, path, h, state, hstate => by
    have hopened := assembly.openPartials_openFrame kind name
    have hnesting : Directive.nesting (.frame kind name body) =
        Script.nesting body + if kind = .ofPartial then 1 else 0 := by
      cases kind <;> rfl
    have hinside := Script.openPartials_states body (h.openFrame kind name)
    have hclosed := Directive.openPartials_run_le encoding (.frame kind name body) h
    rcases List.mem_cons.mp hstate with rfl | hlater
    · rw [hnesting]
      exact hopened.le.trans (Nat.add_le_add_left (Nat.le_add_left _ _) _)
    · rcases List.mem_append.mp hlater with hbody | hlast
      · have hle := hinside state hbody
        omega
      · rw [List.mem_singleton.mp hlast]
        exact Nat.le_add_right_of_le hclosed
  | .leaf piece, _, _, h, state, hstate => by
    rw [List.mem_singleton.mp hstate]
    exact Directive.openPartials_run_le encoding (.leaf piece) h
  | .closingTag id tag, _, _, h, state, hstate => by
    rw [List.mem_singleton.mp hstate]
    exact Directive.openPartials_run_le encoding (.closingTag id tag) h
  | .warning w, _, _, h, state, hstate => by
    rw [List.mem_singleton.mp hstate]
    exact Directive.openPartials_run_le encoding (.warning w) h
/-- At no point of a run are more partials open than are nested in the script, besides those that
were open before. -/
theorem Script.openPartials_states :
    ∀ (script : Script) {assembly : Assembly ω} {path : List Nat} (_ : assembly.Tidy path),
      ∀ state ∈ Script.states (Assembly.sink encoding) script assembly,
        state.openPartials ≤ assembly.openPartials + Script.nesting script
  | [], _, _, _, _, hstate => by cases hstate
  | step :: rest, assembly, path, h, state, hstate => by
    rw [Script.nesting]
    rcases List.mem_append.mp hstate with hstep | hrest
    · have hle := Directive.openPartials_states step h state hstep
      omega
    · obtain ⟨path', hafter⟩ := Script.tidy_run [step] assembly path h
      have hle := Script.openPartials_states rest hafter state hrest
      have hfewer := h.openPartials_run_le encoding [step]
      omega
end

end Runs

/-! ## Graphs -/

/-- A graph is interpreted from its start to its end, whatever its partials refer to, and at no
point are more partials open than the limit allows. -/
theorem openPartials_interpret {ω α : Type} (encoding : Encoding ω α) (config : Config)
    (registry : Partials) (body : PartialBody) (data : Json) (startId : String) :
    ∀ state ∈ Script.states (Assembly.sink encoding) (interpret config registry body data).1
        (.start startId),
      state.openPartials ≤ config.maxPartialDepth := by
  intro state hstate
  have hstart : (Assembly.start startId : Assembly ω).Tidy [] := Assembly.tidy_start startId
  have hopen := Script.openPartials_states encoding _ hstart state hstate
  have hnothing : (Assembly.start startId : Assembly ω).openPartials = 0 := rfl
  rw [hnothing, Nat.zero_add] at hopen
  exact hopen.trans (PartialBody.nesting_walk registry _ _ body (.ofData data))

/-! ## Larger limits -/

namespace Walk

/-- Where no warning about cycles is raised by one walk, the other has the same script. -/
structure Widens (walk wider : Walk) : Prop where
  steady : walk.Steady
  steady' : wider.Steady
  steps : ∀ scopes, Warning.Acyclic (Script.warnings (walk.steps scopes)) →
    wider.steps scopes = walk.steps scopes

theorem Widens.refl {walk : Walk} (h : walk.Steady) : walk.Widens walk := ⟨h, h, fun _ _ => rfl⟩

/-- The contents of a section are the same if they are so in each of the scopes within it. -/
theorem Widens.flatMap {walk wider : Walk} (h : walk.Widens wider) {around : List Scopes}
    (hacyclic : Warning.Acyclic (Script.warnings (around.flatMap walk.steps))) :
    around.flatMap wider.steps = around.flatMap walk.steps := by
  rw [Script.warnings_flatMap] at hacyclic
  refine List.flatMap_congr fun scopes hscopes => ?_
  exact h.steps scopes (Warning.acyclic_flatMap hacyclic scopes hscopes)

theorem congruence_widens : Congruence Widens where
  skip := .refl .skip
  emit := fun step => .refl (.emit step)
  emitText := fun toPiece path => .refl (.emitText toPiece path)
  seq := by
    intro first first' second second' hfirst hsecond
    refine ⟨.seq hfirst.steady hsecond.steady, .seq hfirst.steady' hsecond.steady', ?_⟩
    intro scopes hacyclic
    rw [hfirst.steady.steps_seq, Script.warnings_append, Warning.acyclic_append] at hacyclic
    rw [hfirst.steady.steps_seq, hfirst.steady'.steps_seq, hfirst.steps scopes hacyclic.1,
      hsecond.steps scopes hacyclic.2]
  inFrame := by
    intro kind name body body' hbody
    refine ⟨.inFrame kind name hbody.steady, .inFrame kind name hbody.steady', ?_⟩
    intro scopes hacyclic
    have hinside : Warning.Acyclic (Script.warnings (body.steps scopes)) :=
      (Warning.acyclic_append.mp hacyclic).1
    exact congrArg (fun steps => [Directive.frame kind name steps]) (hbody.steps scopes hinside)
  sectionContents := by
    intro path body body' hbody
    refine ⟨.sectionContents path hbody.steady, .sectionContents path hbody.steady', ?_⟩
    intro scopes hacyclic
    rw [hbody.steady.steps_sectionContents] at hacyclic ⊢
    rw [hbody.steady'.steps_sectionContents, hbody.flatMap hacyclic]
  unlessContents := by
    intro path body body' hbody
    refine ⟨.unlessContents path hbody.steady, .unlessContents path hbody.steady', ?_⟩
    intro scopes hacyclic
    rw [hbody.steady.steps_unlessContents] at hacyclic ⊢
    rw [hbody.steady'.steps_unlessContents, hbody.flatMap hacyclic]

end Walk

/-- Surroundings in which partials may be nested deeper. -/
structure Surroundings.Widens (around wider : Surroundings) : Prop where
  steady : around.Steady
  steady' : wider.Steady
  resolve : ∀ name, wider.resolve name = around.resolve name
  expand : ∀ walks, around.expand = some walks →
    ∃ walks', wider.expand = some walks' ∧ ∀ body, (walks body).Widens (walks' body)

theorem Surroundings.Widens.relatedOn {around wider : Surroundings} (h : around.Widens wider)
    (names : List String) : around.RelatedOn Walk.Widens wider names := by
  intro name _ fallback fallback' hfallback
  refine ⟨h.steady.partialWalk name hfallback.steady, h.steady'.partialWalk name hfallback.steady',
    fun scopes hacyclic => ?_⟩
  cases hexpand : around.expand with
  | none =>
    -- The partial is nested too deep, and the warning says so.
    rw [Surroundings.steps_partialWalk_none hexpand] at hacyclic
    cases hacyclic
  | some walks =>
    obtain ⟨walks', hexpand', hwalks⟩ := h.expand walks hexpand
    cases hresolve : around.resolve name with
    | none =>
      rw [Surroundings.steps_partialWalk_fallback hexpand hresolve] at hacyclic ⊢
      rw [Surroundings.steps_partialWalk_fallback hexpand' ((h.resolve name).trans hresolve),
        hfallback.steps scopes (Warning.acyclic_append.mp hacyclic).2]
    | some body =>
      rw [Surroundings.steps_partialWalk_body hexpand hresolve] at hacyclic ⊢
      rw [Surroundings.steps_partialWalk_body hexpand' ((h.resolve name).trans hresolve),
        (hwalks body).steps scopes (Warning.acyclic_append.mp hacyclic).1]

/-- With more levels to go, the script of a body is the same, if no partial is nested too deep. -/
theorem PartialBody.widens_walk (registry : Partials) (limit more left further : Nat)
    (body : PartialBody) (hle : left ≤ further) :
    (body.walk registry limit left).Widens (body.walk registry more further) := by
  induction left generalizing body further with
  | zero =>
    rw [walk_eq_ofPartials, walk_eq_ofPartials]
    refine Graph.walk_related Walk.congruence_widens body.graph (Surroundings.Widens.relatedOn ?_ _)
    exact ⟨Surroundings.steady_ofPartials _ _ _ _, Surroundings.steady_ofPartials _ _ _ _,
      fun _ => rfl, fun walks hwalks => by cases hwalks⟩
  | succ left ih =>
    obtain ⟨further, rfl⟩ : ∃ fewer, further = fewer + 1 := ⟨further - 1, by omega⟩
    rw [walk_eq_ofPartials, walk_eq_ofPartials]
    refine Graph.walk_related Walk.congruence_widens body.graph (Surroundings.Widens.relatedOn ?_ _)
    refine ⟨Surroundings.steady_ofPartials _ _ _ _, Surroundings.steady_ofPartials _ _ _ _,
      fun _ => rfl, fun walks hwalks => ?_⟩
    cases hwalks
    exact ⟨_, rfl, fun inner => ih further inner (Nat.le_of_succ_le_succ hle)⟩

end Stencil
