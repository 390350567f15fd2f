import Stencil.Proofs.Graph.EndTagged
import Stencil.Proofs.Script.Congruence
import Stencil.Proofs.Script.TagFree

/-!
# End tags that change nothing

The end tag of an element closes its frame early, and the frame's own request, which comes
right after, is then taken for a late one.  If nothing else was left open, the assembly is
the same afterwards as without the tag, down to the closes that are still to come, so the
addresses of all that follows are the same as well.

* `Script.RunsAs` — scripts that do the same to any assembly.
* `Script.runsAs_endTag` — an element with its end tag does the same as without.
* `Walk.congruence_runsAs` — doing the same is a relation that walks have part by part.
* `Graph.walk_endTagged` — end tags within one graph.
* `PartialBody.walk_endTagged` — end tags in all bodies.
-/

namespace Stencil

variable {ω α : Type}

/-! ## Closing early -/

namespace Assembly

/-- Which closes are still to come has no bearing on where a piece is put, -/
theorem place_withPending (assembly : Assembly ω) (pending : List String) (piece : Piece ω) :
    { assembly with pending }.place piece = { assembly.place piece with pending } := by
  cases piece with
  | attr attr =>
    simp only [place, placeAttribute]
    split
    · split
      · rfl
      · rfl
    · rfl
  | _ =>
    simp only [place, placeChild]
    split <;> rfl

/-- nor on what the innermost frame becomes. -/
theorem pop_withPending (encoding : Encoding ω α) (assembly : Assembly ω)
    (pending : List String) :
    { assembly with pending }.pop encoding = { assembly.pop encoding with pending } := by
  obtain ⟨startId, stack, results, nextIndex, before, log⟩ := assembly
  cases stack with
  | nil => rfl
  | cons frame outer =>
    exact place_withPending ⟨startId, outer, results, nextIndex, before, log⟩ pending _

/-- A frame that is closed and remembered, and then forgotten, is as good as just closed. -/
theorem forget_pop_remember (encoding : Encoding ω α) (assembly : Assembly ω) {request : Closing}
    {address : String} (haddress : request.address = some address)
    (hpending : address ∉ assembly.pending) :
    ((assembly.remember address).pop encoding).forget request = assembly.pop encoding := by
  have herase : (assembly.pending.insert address).erase address = assembly.pending := by
    rw [List.insert_of_not_mem hpending, List.erase_cons_head]
  simp only [forget, haddress, pending_pop, pending_remember, herase]
  rw [remember, pop_withPending, ← pending_pop encoding assembly]

/-- A closing tag without an address closes the innermost frame early if that is an element of
its name.  The frame's own request then only forgets it. -/
theorem closeFrame_ofTag (encoding : Encoding ω α) {assembly : Assembly ω} {frame : Frame ω}
    {outer : List (Frame ω)} (hstack : assembly.stack = frame :: outer)
    (hkind : frame.kind = .ofElement) {tag : String} (hname : Text.sameName frame.name tag = true)
    (hpending : frame.address ∉ assembly.pending) :
    (assembly.closeFrame encoding (.ofTag none tag)).closeFrame encoding frame.closing =
      assembly.closeFrame encoding frame.closing := by
  have hmeant : frame.isMeantBy (.ofTag none tag) = true := by
    simp [Frame.isMeantBy, Frame.fits, Closing.ofTag, hkind, hname]
  have hearly : assembly.closeFrame encoding (.ofTag none tag) =
      (assembly.remember frame.address).pop encoding := by
    simp only [closeFrame, hstack, hmeant]
    rfl
  have hlate : ((assembly.remember frame.address).pop encoding).isLate frame.closing = true := by
    simp [isLate, Frame.closing]
  rw [hearly, closeFrame_closing encoding hstack hpending, closeFrame, if_pos hlate]
  exact forget_pop_remember encoding assembly rfl hpending

end Assembly

/-! ## Scripts that do the same -/

/-- Two scripts that do the same to any assembly in good order. -/
def Script.RunsAs (script script' : Script) : Prop :=
  ∀ ⦃ω α : Type⦄ (encoding : Encoding ω α) (assembly : Assembly ω) (path : List Nat),
    assembly.Tidy path →
      Script.run (Assembly.sink encoding) script assembly =
        Script.run (Assembly.sink encoding) script' assembly

namespace Script.RunsAs

variable {first first' second second' body body' script script' script'' : Script}

theorem refl (script : Script) : script.RunsAs script := fun _ _ _ _ _ _ => rfl

theorem trans (h : script.RunsAs script') (h' : Script.RunsAs script' script'') :
    script.RunsAs script'' :=
  fun _ _ encoding assembly path htidy =>
    (h encoding assembly path htidy).trans (h' encoding assembly path htidy)

theorem append (hfirst : first.RunsAs first') (hsecond : second.RunsAs second') :
    Script.RunsAs (first ++ second) (first' ++ second') := by
  intro ω α encoding assembly path htidy
  obtain ⟨path', hafter⟩ : ∃ path', (Script.run (Assembly.sink encoding) first assembly).Tidy
      path' := Script.tidy_run first assembly path htidy
  rw [run_append, run_append, ← hfirst encoding assembly path htidy]
  exact hsecond encoding _ path' hafter

theorem frame (kind : FrameKind) (name : String) (hbody : body.RunsAs body') :
    Script.RunsAs [.frame kind name body] [.frame kind name body'] := by
  intro ω α encoding assembly path htidy
  have hsame := hbody encoding _ _ (htidy.openFrame kind name)
  exact congrArg (Assembly.closeFrame encoding · (assembly.openFrame kind name).1) hsame

theorem flatMap {β : Type} (items : List β) {steps steps' : β → Script}
    (h : ∀ item, (steps item).RunsAs (steps' item)) :
    Script.RunsAs (items.flatMap steps) (items.flatMap steps') := by
  induction items with
  | nil => exact .refl []
  | cons item rest ih =>
    rw [List.flatMap_cons, List.flatMap_cons]
    exact (h item).append ih

end Script.RunsAs

/-- An element with its end tag behind all else does the same as without, if no other closing
tag is in it. -/
theorem Script.runsAs_endTag {tag tag' : String} {body body' : Script}
    (hname : Text.sameName tag tag' = true) (hfree : Script.tagFree body = true)
    (hbody : body.RunsAs body') :
    Script.RunsAs [.frame .ofElement tag body]
      [.frame .ofElement tag (body' ++ [.closingTag none tag'])] := by
  intro ω α encoding assembly path htidy
  let filled := Script.run (Assembly.sink encoding) body (assembly.openFrame .ofElement tag).2
  have hopened := htidy.openFrame .ofElement tag
  have hsame : filled = Script.run (Assembly.sink encoding) body'
      (assembly.openFrame .ofElement tag).2 := hbody encoding _ _ hopened
  obtain ⟨hpending, hcontents⟩ := Script.contents_run_encoded encoding body hfree _ _ hopened
  obtain ⟨frame, outer, hstack, hclosing, -⟩ := assembly.exists_filled filled _ _ _ hcontents
  have hkind : frame.kind = .ofElement := congrArg Closing.kind hclosing
  have htag : frame.name = tag := congrArg Closing.name hclosing
  have hnew : frame.address ∉ filled.pending := by
    have haddress : frame.address = assembly.nextAddress :=
      Option.some.inj (congrArg Closing.address hclosing)
    rw [haddress, hpending, Assembly.pending_openFrame]
    exact htidy.next_unused.1
  have hclose := Assembly.closeFrame_ofTag encoding hstack hkind (htag.symm ▸ hname) hnew
  rw [hclosing] at hclose
  calc Script.run (Assembly.sink encoding) [.frame .ofElement tag body] assembly
      = filled.closeFrame encoding (assembly.openFrame .ofElement tag).1 := rfl
    _ = (filled.closeFrame encoding (.ofTag none tag')).closeFrame encoding
          (assembly.openFrame .ofElement tag).1 := hclose.symm
    _ = Script.run (Assembly.sink encoding)
          [.frame .ofElement tag (body' ++ [.closingTag none tag'])] assembly := by
      rw [hsame, Script.run, Script.run, Directive.run]
      simp only [Script.run_append]
      rfl

/-! ## Walks that do the same -/

/-- Two walks whose scripts do the same, whatever scopes they start in. -/
structure Walk.RunsAs (walk walk' : Walk) : Prop where
  steady : walk.Steady
  steady' : walk'.Steady
  steps : ∀ scopes, (walk.steps scopes).RunsAs (walk'.steps scopes)

theorem Walk.RunsAs.refl {walk : Walk} (hsteady : walk.Steady) : walk.RunsAs walk :=
  ⟨hsteady, hsteady, fun _ => .refl _⟩

theorem Walk.RunsAs.trans {walk walk' walk'' : Walk} (h : walk.RunsAs walk')
    (h' : Walk.RunsAs walk' walk'') : walk.RunsAs walk'' :=
  ⟨h.steady, h'.steady', fun scopes => (h.steps scopes).trans (h'.steps scopes)⟩

/-- Walks do the same if their parts do. -/
theorem Walk.congruence_runsAs : Walk.Congruence Walk.RunsAs where
  skip := ⟨.skip, .skip, fun _ => .refl _⟩
  emit := fun step => ⟨.emit step, .emit step, fun _ => .refl _⟩
  emitText := fun toPiece path => ⟨.emitText toPiece path, .emitText toPiece path, fun _ => .refl _⟩
  seq := by
    intro first first' second second' hfirst hsecond
    refine ⟨.seq hfirst.steady hsecond.steady, .seq hfirst.steady' hsecond.steady', ?_⟩
    intro scopes
    rw [hfirst.steady.steps_seq, hfirst.steady'.steps_seq]
    exact (hfirst.steps scopes).append (hsecond.steps scopes)
  inFrame := fun kind name _ _ hbody =>
    ⟨.inFrame kind name hbody.steady, .inFrame kind name hbody.steady',
      fun scopes => (hbody.steps scopes).frame kind name⟩
  sectionContents := by
    intro path body body' hbody
    refine ⟨.sectionContents path hbody.steady, .sectionContents path hbody.steady', ?_⟩
    intro scopes
    rw [hbody.steady.steps_sectionContents, hbody.steady'.steps_sectionContents]
    exact .flatMap _ hbody.steps
  unlessContents := by
    intro path body body' hbody
    refine ⟨.unlessContents path hbody.steady, .unlessContents path hbody.steady', ?_⟩
    intro scopes
    rw [hbody.steady.steps_unlessContents, hbody.steady'.steps_unlessContents]
    exact .flatMap _ hbody.steps

/-! ## End tags within one graph -/

/-- Partials are walked through without closing tags, whatever name leads to them. -/
structure Surroundings.TagFree (around : Surroundings) : Prop where
  steady : around.Steady
  leads : ∀ names, around.Leads Walk.TagFree names

theorem Surroundings.Steady.relatedAt {around : Surroundings} (h : around.Steady)
    (name : String) : around.RelatedAt Walk.RunsAs around name := by
  unfold RelatedAt
  cases hexpand : around.expand with
  | none => exact .none
  | some walks =>
    refine .some ?_
    cases around.resolve name with
    | none => exact .none
    | some body => exact .some (.refl (h walks hexpand body))

section Graphs

variable {around : Surroundings}

/-- Where partials lead to no closing tag, an element without closing tags has none in its
script. -/
theorem Element.walk_tagFree (h : around.TagFree) {element : Element}
    (hfree : element.every Node.isNoTag Node.isNoTag = true) : (element.walk around).TagFree :=
  (Element.walk_of_compositional Script.compositional_tagFree.walk element hfree
    fun walks hexpand name hname body hbody =>
      ⟨h.steady walks hexpand body, h.leads _ walks hexpand name hname body hbody⟩).2

/-- An element with its end tag is walked through like one without. -/
theorem Element.runsAs_ended (h : around.TagFree) {tag tag' : String} {isRoot : Bool}
    {attributes attributes' : List Attribute} {children children' : Graph}
    (hname : Text.sameName tag tag' = true)
    (hfree : Element.every Node.isNoTag Node.isNoTag ⟨tag, attributes, children, isRoot⟩ = true)
    (hattributes : (Attribute.walkAll around attributes).RunsAs
      (Attribute.walkAll around attributes'))
    (hchildren : (Graph.walk around children).RunsAs (Graph.walk around children')) :
    (Element.walk around ⟨tag, attributes, children, isRoot⟩).RunsAs
      (Element.walk around ⟨tag, attributes', children' ++ [.closingTag none tag'], isRoot⟩) where
  steady := Element.walk_steady h.steady _
  steady' := Element.walk_steady h.steady _
  steps := by
    intro scopes
    have hbody := Element.walk_tagFree h hfree scopes
    rw [Element.steps_walk h.steady, Script.tagFree, Directive.tagFree, Bool.and_eq_true] at hbody
    have hsame := (hattributes.steps scopes).append (hchildren.steps scopes)
    rw [Element.steps_walk h.steady, Element.steps_walk h.steady, Graph.steps_append h.steady,
      Graph.steps_singleton h.steady, ← List.append_assoc]
    exact Script.runsAs_endTag hname hbody.1 hsame

mutual
theorem Node.walk_endTagged (h : around.TagFree) :
    ∀ {node node' : Node}, Node.EndTagged node node' →
      node.every Node.isNoTag Node.isNoTag = true →
      (node.walk around).RunsAs (node'.walk around)
  | _, _, .same node, _ => .refl (Node.walk_steady h.steady node)
  | _, _, .element hel, hfree => by
    rw [Node.every, Bool.and_eq_true] at hfree
    exact Element.walk_endTagged h hel hfree.2
  | _, _, .sectionBlock path hchildren, hfree => by
    rw [Node.every, Bool.and_eq_true] at hfree
    exact Walk.congruence_runsAs.inFrame _ _
      (Walk.congruence_runsAs.sectionContents path (Graph.walk_endTagged h hchildren hfree.2))
  | _, _, .unlessBlock path hchildren, hfree => by
    rw [Node.every, Bool.and_eq_true] at hfree
    exact Walk.congruence_runsAs.inFrame _ _
      (Walk.congruence_runsAs.unlessContents path (Graph.walk_endTagged h hchildren hfree.2))
  | _, _, .partialRef name hfallback, hfree => by
    rw [Node.every, Bool.and_eq_true] at hfree
    exact (h.steady.relatedAt name).partialWalk Walk.congruence_runsAs rfl
      (Graph.walk_endTagged h hfallback hfree.2)
theorem Element.walk_endTagged (h : around.TagFree) :
    ∀ {element element' : Element}, Element.EndTagged element element' →
      element.every Node.isNoTag Node.isNoTag = true →
      (element.walk around).RunsAs (element'.walk around)
  | _, _, .kept tag isRoot hattributes hchildren, hfree => by
    rw [Element.every, Bool.and_eq_true] at hfree
    exact Walk.congruence_runsAs.inFrame .ofElement tag
      (Walk.congruence_runsAs.seq (Attribute.walkAll_endTagged h hattributes hfree.1)
        (Graph.walk_endTagged h hchildren hfree.2))
  | _, _, .ended tag isRoot hname hattributes hchildren, hfree => by
    have hparts := hfree
    rw [Element.every, Bool.and_eq_true] at hparts
    exact Element.runsAs_ended h hname hfree
      (Attribute.walkAll_endTagged h hattributes hparts.1)
      (Graph.walk_endTagged h hchildren hparts.2)
theorem Attribute.walkAll_endTagged (h : around.TagFree) :
    ∀ {attributes attributes' : List Attribute}, Attribute.AllEndTagged attributes attributes' →
      Attribute.everyAll Node.isNoTag attributes = true →
      (Attribute.walkAll around attributes).RunsAs (Attribute.walkAll around attributes')
  | _, _, .nil, _ => Walk.congruence_runsAs.skip
  | _, _, .cons name hvalue hrest, hfree => by
    rw [Attribute.everyAll, Bool.and_eq_true] at hfree
    exact Walk.congruence_runsAs.seq
      (Walk.congruence_runsAs.inFrame .ofAttribute name
        (AttributeValue.walk_endTagged h hvalue hfree.1))
      (Attribute.walkAll_endTagged h hrest hfree.2)
theorem AttributeValue.walk_endTagged (h : around.TagFree) :
    ∀ {value value' : AttributeValue}, AttributeValue.EndTagged value value' →
      value.every Node.isNoTag = true → (value.walk around).RunsAs (value'.walk around)
  | _, _, .same value, _ => .refl (AttributeValue.walk_steady h.steady value)
  | _, _, .mixed hparts, hfree => Graph.walk_endTagged h hparts hfree
/-- Where partials lead to no closing tag, end tags in a graph without closing tags change
nothing. -/
theorem Graph.walk_endTagged (h : around.TagFree) :
    ∀ {graph graph' : List Node}, Graph.EndTagged graph graph' →
      Graph.every Node.isNoTag Node.isNoTag graph = true →
      (Graph.walk around graph).RunsAs (Graph.walk around graph')
  | _, _, .nil, _ => Walk.congruence_runsAs.skip
  | _, _, .cons hnode hrest, hfree => by
    rw [Graph.every, Bool.and_eq_true] at hfree
    exact Walk.congruence_runsAs.seq (Node.walk_endTagged h hnode hfree.1)
      (Graph.walk_endTagged h hrest hfree.2)
end

end Graphs

/-! ## End tags in partials -/

/-- The second partials are the first ones, or the first ones are without closing tags and the
second ones have end tags in some elements. -/
inductive Partials.MayEnd : Partials → Partials → Prop
  | same (partials : Partials) : Partials.MayEnd partials partials
  | ended {partials partials' : Partials}
      (hfree : Binding.everyAll Node.isNoTag Node.isNoTag partials = true)
      (hended : Partials.EndTagged partials partials') : Partials.MayEnd partials partials'

/-- The second body is the first one, or the first one is without closing tags and the second
one has end tags in some elements. -/
inductive PartialBody.MayEnd : PartialBody → PartialBody → Prop
  | same (body : PartialBody) : PartialBody.MayEnd body body
  | ended {body body' : PartialBody}
      (hgraph : Graph.every Node.isNoTag Node.isNoTag body.graph = true)
      (hpartials : Binding.everyAll Node.isNoTag Node.isNoTag body.partials = true)
      (hended : body.EndTagged body') : PartialBody.MayEnd body body'

theorem PartialBody.MayEnd.partials {body body' : PartialBody} (h : body.MayEnd body') :
    Partials.MayEnd body.partials body'.partials := by
  cases h with
  | same => exact .same _
  | ended _ hpartials hended => exact .ended hpartials hended.partials

/-- A name leads to the body it led to, or to that body with end tags. -/
theorem Partials.MayEnd.get? {partials partials' : Partials} (h : Partials.MayEnd partials partials')
    (name : String) :
    Option.Rel PartialBody.MayEnd (partials.get? name) (partials'.get? name) := by
  cases h with
  | same =>
    cases partials.get? name with
    | none => exact .none
    | some body => exact .some (.same body)
  | ended hfree hended =>
    have hbodies := Partials.get?_endTagged name hended
    cases hget : partials.get? name with
    | none =>
      rw [hget] at hbodies
      generalize partials'.get? name = found at hbodies ⊢
      cases hbodies
      exact .none
    | some body =>
      have hresolve : resolve name partials partials = some body := by
        simp only [resolve, hget]
      obtain ⟨hgraph, hpartials⟩ := every_of_resolve hfree hfree hresolve
      rw [hget] at hbodies
      generalize partials'.get? name = found at hbodies ⊢
      cases hbodies with
      | some hbody => exact .some (.ended hgraph hpartials hbody)

theorem resolve_mayEnd {inner inner' registry registry' : Partials}
    (hinner : Partials.MayEnd inner inner') (hregistry : Partials.MayEnd registry registry')
    (name : String) :
    Option.Rel PartialBody.MayEnd (resolve name inner registry)
      (resolve name inner' registry') := by
  have hlocal := hinner.get? name
  unfold resolve
  generalize inner.get? name = found at hlocal ⊢
  generalize inner'.get? name = found' at hlocal ⊢
  cases hlocal with
  | none => exact hregistry.get? name
  | some hbody => exact .some hbody

section Bodies

variable {registry registry' : Partials}
  (hfree : Binding.everyAll Node.isNoTag Node.isNoTag registry = true)

include hfree

/-- Partials without closing tags lead to walks without closing tags. -/
theorem Surroundings.tagFree_ofPartials (limit left : Nat) {partials : Partials}
    (hpartials : Binding.everyAll Node.isNoTag Node.isNoTag partials = true) :
    (ofPartials registry limit left partials).TagFree where
  steady := steady_ofPartials registry limit left partials
  leads := by
    intro names walks hexpand name _ body hbody
    obtain ⟨hgraph, hinner⟩ := every_of_resolve hpartials hfree hbody
    cases left with
    | zero => cases hexpand
    | succ left =>
      cases hexpand
      exact body.walk_tagFree registry limit left
        fun reached hreached => (hreached.every hgraph hinner hfree).1

/-- End tags change nothing of the walks through bodies, if none changes anything of the walks
through what their partials lead to. -/
theorem PartialBody.runsAs_of_relatedAt (limit left : Nat) {body body' : PartialBody}
    (hbody : body.MayEnd body')
    (hrelated : ∀ name, (Surroundings.ofPartials registry limit left body.partials).RelatedAt
      Walk.RunsAs (.ofPartials registry' limit left body'.partials) name) :
    (body.walk registry limit left).RunsAs (body'.walk registry' limit left) := by
  have hwalk := PartialBody.walk_eq_ofPartials registry limit left body.partials body.graph
  have hwalk' := PartialBody.walk_eq_ofPartials registry' limit left body'.partials body'.graph
  have hgraph : (Graph.walk (.ofPartials registry limit left body.partials) body'.graph).RunsAs
      (Graph.walk (.ofPartials registry' limit left body'.partials) body'.graph) :=
    Graph.walk_related Walk.congruence_runsAs body'.graph fun name _ _ _ hfallback =>
      (hrelated name).partialWalk Walk.congruence_runsAs rfl hfallback
  rw [hwalk, hwalk']
  cases hbody with
  | same => exact hgraph
  | ended hbodyFree hpartials hended =>
    have haround := Surroundings.tagFree_ofPartials hfree limit left hpartials
    exact (Graph.walk_endTagged haround hended.graph hbodyFree).trans hgraph

/-- End tags in a body, in its partials and in the registry change nothing of the walk through
the body, if none of these holds closing tags.  A body that has got no end tags may hold
any. -/
theorem PartialBody.walk_mayEnd (hregistry : Partials.MayEnd registry registry')
    (limit left : Nat) {body body' : PartialBody} (hbody : body.MayEnd body') :
    (body.walk registry limit left).RunsAs (body'.walk registry' limit left) := by
  induction left generalizing body body' with
  | zero => exact runsAs_of_relatedAt hfree limit 0 hbody fun _ => .none
  | succ left ih =>
    refine runsAs_of_relatedAt hfree limit (left + 1) hbody fun name => .some ?_
    have hbodies := resolve_mayEnd hbody.partials hregistry name
    show Option.Rel _ (resolve name body.partials registry) (resolve name body'.partials registry')
    generalize resolve name body.partials registry = found at hbodies ⊢
    generalize resolve name body'.partials registry' = found' at hbodies ⊢
    cases hbodies with
    | none => exact .none
    | some hinner => exact .some (ih hinner)

end Bodies

end Stencil
