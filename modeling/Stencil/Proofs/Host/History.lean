import Stencil.Host.Liveness
import Stencil.Proofs.Template.Mounted

/-!
# Histories of hosts

Components are added, given children, data and views, and let go; templates are made, wrapped,
and attached as views.  A template that was attached to a component with a parent has no element
put around it, and from then on the component may lose that parent, but it is never again one
that was not added to any.

* `Host.History` — what such operations lead to: a host, and the templates at hand.
* `Host.History.sound` — what they keep.
* `Host.History.parent_ne_none` — the component of a template that is not wrapped was added to
  some parent.
-/

namespace Stencil

namespace Host

variable {host : Host}

/-! ## Looking up components -/

theorem exists_component?_of_isAlive {id : ComponentId} (h : host.isAlive id = true) :
    ∃ component, host.component? id = some component := by
  rw [isAlive, List.any_eq_true] at h
  obtain ⟨entry, hmem, hid⟩ := h
  cases hfind : host.components.find? (·.1 == id) with
  | none => exact absurd hid (List.find?_eq_none.mp hfind entry hmem)
  | some found => exact ⟨found.2, by rw [component?, hfind]; rfl⟩

theorem component?_update (host : Host) (other id : ComponentId)
    (change : Component → Component) :
    (host.update other change).component? id =
      (host.component? id).map fun component =>
        if id = other then change component else component := by
  have hkey : (fun entry : ComponentId × Component => entry.1 == id) ∘
      (fun entry => if entry.1 = other then (other, change entry.2) else entry) =
        (·.1 == id) := by
    funext entry
    by_cases hentry : entry.1 = other <;> simp [hentry]
  rw [component?, component?, update, List.find?_map, hkey, Option.map_map, Option.map_map]
  cases hfind : host.components.find? (·.1 == id) with
  | none => rfl
  | some entry =>
    have hid : entry.1 = id := by simpa using List.find?_some hfind
    subst hid
    by_cases hentry : entry.1 = other <;> simp [hentry]

/-- The components after one was added are those before, and the one with the new number. -/
theorem component?_add {component found : Component} {id : ComponentId}
    (h : (host.add component).2.component? id = some found) :
    host.component? id = some found ∨ id = ⟨host.nextNumber⟩ ∧ found = component := by
  rw [component?, add, List.find?_append] at h
  cases hfind : host.components.find? (·.1 == id) with
  | some entry => exact .inl (by simpa [component?, hfind] using h)
  | none =>
    by_cases hid : (⟨host.nextNumber⟩ : ComponentId) = id
    · exact .inr (by simpa [hfind, hid, eq_comm] using h)
    · simp [hfind, hid] at h

theorem component?_releaseOnce {outside : List ComponentId} {id : ComponentId}
    {component : Component} (h : (releaseOnce outside host).component? id = some component) :
    host.component? id = some component := by
  rw [component?, releaseOnce, List.find?_filter] at h
  cases hheld : (host.held outside).contains id with
  | true =>
    have hsame : (fun entry : ComponentId × Component =>
        decide ((host.held outside).contains entry.1 = true ∧ (entry.1 == id) = true)) =
          (·.1 == id) := by
      funext entry
      by_cases hentry : entry.1 = id <;> simp_all
    rw [component?, ← hsame]
    exact h
  | false =>
    rw [Option.map_eq_some_iff] at h
    obtain ⟨entry, hfind, -⟩ := h
    have hentry := List.find?_some hfind
    simp only [decide_eq_true_eq] at hentry
    rw [eq_of_beq hentry.2, hheld] at hentry
    cases hentry.1

/-- Letting go of components changes none of those that stay. -/
theorem component?_release {outside : List ComponentId} {id : ComponentId}
    {component : Component} (h : (host.release outside).component? id = some component) :
    host.component? id = some component := by
  rw [release] at h
  generalize host.components.length = rounds at h
  induction rounds with
  | zero => exact h
  | succ rounds ih => exact ih (component?_releaseOnce h)

theorem nextNumber_release (host : Host) (outside : List ComponentId) :
    (host.release outside).nextNumber = host.nextNumber := by
  rw [release]
  generalize host.components.length = rounds
  induction rounds with
  | zero => rfl
  | succ rounds ih => exact ih

end Host

/-! ## What becomes of components -/

/-- How a component changes: once it has been added to a parent, the parent it was last added
to is on record, and it gets no views but given ones. -/
structure Component.Follows (views : List Template) (before after : Component) : Prop where
  parent : before.parent ≠ none → after.parent ≠ none
  view : ∀ view, after.view = some view → before.view = some view ∨ view ∈ views

theorem Component.Follows.refl (views : List Template) (component : Component) :
    component.Follows views component :=
  ⟨fun h => h, fun _ => .inl⟩

/-- How a host changes: components that come about have new numbers and no view yet, and those
that were there change as components do. -/
structure Host.Follows (views : List Template) (before after : Host) : Prop where
  next : before.nextNumber ≤ after.nextNumber
  components : ∀ id component, after.component? id = some component →
    (before.nextNumber ≤ id.number ∧ id.number < after.nextNumber ∧ component.view = none) ∨
      ∃ old, before.component? id = some old ∧ old.Follows views component

namespace Host.Follows

variable {host : Host} {views : List Template}

theorem add {component : Component} (hview : component.view = none) :
    Follows views host (host.add component).2 where
  next := Nat.le_succ _
  components := by
    intro id found hfound
    rcases component?_add hfound with hold | ⟨rfl, rfl⟩
    · exact .inr ⟨found, hold, .refl views found⟩
    · exact .inl ⟨Nat.le_refl _, Nat.lt_succ_self _, hview⟩

theorem update {id : ComponentId} {change : Component → Component}
    (h : ∀ component : Component, component.Follows views (change component)) :
    Follows views host (host.update id change) where
  next := Nat.le_refl _
  components := by
    intro other component hcomponent
    rw [component?_update, Option.map_eq_some_iff] at hcomponent
    obtain ⟨old, hold, hchanged⟩ := hcomponent
    refine .inr ⟨old, hold, ?_⟩
    rw [← hchanged]
    split
    · exact h old
    · exact .refl views old

theorem updateRegistry (name : RegistryName) (change : Partials → Partials) :
    Follows views host (host.updateRegistry name change) := by
  have hsame : ∀ id component, host.component? id = some component →
      (host.nextNumber ≤ id.number ∧ id.number < host.nextNumber ∧ component.view = none) ∨
        ∃ old, host.component? id = some old ∧ old.Follows views component :=
    fun id component hcomponent => .inr ⟨component, hcomponent, .refl views component⟩
  cases name with
  | injected => exact ⟨Nat.le_refl _, hsame⟩
  | processWide => exact ⟨Nat.le_refl _, hsame⟩

theorem release (outside : List ComponentId) : Follows views host (host.release outside) where
  next := Nat.le_of_eq (nextNumber_release host outside).symm
  components := fun _ component hcomponent =>
    .inr ⟨component, component?_release hcomponent, .refl views component⟩

end Host.Follows

/-! ## Histories -/

/-- What a history of operations can lead to: a host, and the templates at hand. -/
inductive Host.History : Host → List Template → Prop
  | start : History .empty []
  /-- A component without a view is added. -/
  | add {host templates} (component : Component) (hview : component.view = none) :
      History host templates → History (host.add component).2 templates
  | addChild {host templates} (parent : ComponentId) (selector : String) (child : ComponentId) :
      History host templates → History (host.addChild parent selector child) templates
  | setData {host templates} (id : ComponentId) (data : Json) :
      History host templates → History (host.setData id data) templates
  | updateRegistry {host templates} (name : RegistryName) (change : Partials → Partials) :
      History host templates → History (host.updateRegistry name change) templates
  /-- Components that nothing holds any more are let go. -/
  | release {host templates} (outside : List ComponentId) :
      History host templates → History (host.release outside) templates
  /-- A template is made of a graph. -/
  | ofGraph {host templates} (graph : Graph) (partials : Partials) (registry : RegistryName)
      (config : Config) :
      History host templates →
      History host (.ofGraph graph partials registry config :: templates)
  | wrap {host templates} (tag : String) (template : Template) (htemplate : template ∈ templates) :
      History host templates → History host (template.wrap tag :: templates)
  /-- A template gets other partials, another registry and another configuration. -/
  | withScope {host templates} (partials : Partials) (registry : RegistryName) (config : Config)
      (template : Template) (htemplate : template ∈ templates) :
      History host templates →
      History host ({ template with partials, registry, config } :: templates)
  /-- A template is attached to a component that is there. -/
  | attachView {host templates} (id : ComponentId) (component : Component) (wrapper : Wrapper)
      (template : Template) (hfound : host.component? id = some component)
      (htemplate : template ∈ templates) :
      History host templates →
      History host ((host.attachView id component wrapper template).value :: templates)
  /-- A component gets a view. -/
  | setView {host templates} (id : ComponentId) (view : Template) (hview : view ∈ templates) :
      History host templates → History (host.setView id view) templates
  /-- The view of a component is taken. -/
  | view {host templates} (id : ComponentId) (component : Component) (view : Template)
      (hfound : host.component? id = some component) (hview : component.view = some view) :
      History host templates → History host (view :: templates)
  /-- Templates are forgotten. -/
  | forget {host templates} (kept : List Template) (hkept : kept ⊆ templates) :
      History host templates → History host kept

/-- How a template stands to a host: it came about by the operations on templates, the
component it is bound to was added before, and if no element was put around it then that
component, as long as it is there, has been added to some parent. -/
structure Template.Fits (host : Host) (template : Template) : Prop where
  built : template.Built
  early : ∀ id, template.component = some id → id.number < host.nextNumber
  added : ∀ id, template.component = some id → template.isWrapped = false →
    ∀ component, host.component? id = some component → component.parent ≠ none

/-- All templates at hand and all views fit a host, and its components have numbers that have
been given out. -/
structure Host.Sound (host : Host) (templates : List Template) : Prop where
  templates : ∀ template ∈ templates, template.Fits host
  views : ∀ id component view, host.component? id = some component →
    component.view = some view → view.Fits host
  early : ∀ id component, host.component? id = some component → id.number < host.nextNumber

namespace Template.Fits

variable {host : Host} {template : Template}

theorem ofGraph (graph : Graph) (partials : Partials) (registry : RegistryName)
    (config : Config) : (Template.ofGraph graph partials registry config).Fits host where
  built := .ofGraph graph partials registry config
  early := fun _ hid => by cases hid
  added := fun _ hid => by cases hid

theorem wrap (h : template.Fits host) (tag : String) : (template.wrap tag).Fits host where
  built := .wrap tag h.built
  early := h.early
  added := fun _ _ hwrapped => by cases hwrapped

theorem withScope (h : template.Fits host) (partials : Partials) (registry : RegistryName)
    (config : Config) : Fits host { template with partials, registry, config } where
  built := .withConfig config (.withRegistry registry (.withPartials partials h.built))
  early := h.early
  added := h.added

/-- A view that has no element around it is attached while the component has a parent. -/
theorem attachView (h : template.Fits host) {id : ComponentId} {component : Component}
    (wrapper : Wrapper) (hfound : host.component? id = some component)
    (hearly : id.number < host.nextNumber) :
    (host.attachView id component wrapper template).value.Fits host where
  built := .attachView host id component wrapper h.built
  early := by
    intro other hother
    cases hother
    exact hearly
  added := by
    intro other hother hwrapped found hother'
    cases hother
    have hmount : host.needsMount id template = false := (Bool.or_eq_false_iff.mp hwrapped).2
    have hbefore : template.isWrapped = false := (Bool.or_eq_false_iff.mp hwrapped).1
    rw [Host.needsMount, hbefore, Bool.not_false, Bool.and_true] at hmount
    obtain rfl : component = found := Option.some.inj (hfound.symm.trans hother')
    intro hparent
    simp [Host.parentOf?, hfound, hparent] at hmount

/-- A template fits whatever becomes of a host that it fits. -/
theorem follows (h : template.Fits host) {views : List Template} {after : Host}
    (hfollows : host.Follows views after) : template.Fits after where
  built := h.built
  early := fun id hid => Nat.lt_of_lt_of_le (h.early id hid) hfollows.next
  added := by
    intro id hid hwrapped component hcomponent
    rcases hfollows.components id component hcomponent with ⟨hnew, -, -⟩ | ⟨old, hold, hchange⟩
    · have hearly := h.early id hid
      omega
    · exact hchange.parent (h.added id hid hwrapped old hold)

end Template.Fits

namespace Host

variable {host : Host} {templates : List Template}

namespace Sound

theorem follows (h : host.Sound templates) {after : Host}
    (hfollows : host.Follows templates after) : after.Sound templates where
  templates := fun template htemplate => (h.templates template htemplate).follows hfollows
  views := by
    intro id component view hcomponent hview
    rcases hfollows.components id component hcomponent with ⟨-, -, hnone⟩ | ⟨old, hold, hchange⟩
    · rw [hnone] at hview
      cases hview
    · rcases hchange.view view hview with hbefore | hgiven
      · exact (h.views id old view hold hbefore).follows hfollows
      · exact (h.templates view hgiven).follows hfollows
  early := by
    intro id component hcomponent
    rcases hfollows.components id component hcomponent with ⟨-, hnew, -⟩ | ⟨old, hold, -⟩
    · exact hnew
    · exact Nat.lt_of_lt_of_le (h.early id old hold) hfollows.next

theorem cons (h : host.Sound templates) {template : Template} (hfits : template.Fits host) :
    host.Sound (template :: templates) :=
  ⟨List.forall_mem_cons.mpr ⟨hfits, h.templates⟩, h.views, h.early⟩

end Sound

/-- Every operation keeps templates and components sound. -/
theorem History.sound (h : History host templates) : host.Sound templates := by
  induction h with
  | start => exact ⟨by simp, by simp [component?, empty], by simp [component?, empty]⟩
  | add component hview _ ih => exact ih.follows (.add hview)
  | @addChild host templates parent selector child _ ih =>
    have hadded : host.Follows templates
        (host.update child fun component => { component with parent := some parent }) :=
      .update fun _ => ⟨fun _ => Option.some_ne_none parent, fun _ => .inl⟩
    exact (ih.follows hadded).follows (.update fun _ => ⟨fun hparent => hparent, fun _ => .inl⟩)
  | setData id data _ ih =>
    exact ih.follows (.update fun _ => ⟨fun hparent => hparent, fun _ => .inl⟩)
  | updateRegistry name change _ ih => exact ih.follows (.updateRegistry name change)
  | release outside _ ih => exact ih.follows (.release outside)
  | ofGraph graph partials registry config _ ih =>
    exact ih.cons (.ofGraph graph partials registry config)
  | wrap tag template htemplate _ ih => exact ih.cons ((ih.templates template htemplate).wrap tag)
  | withScope partials registry config template htemplate _ ih =>
    exact ih.cons ((ih.templates template htemplate).withScope partials registry config)
  | attachView id component wrapper template hfound htemplate _ ih =>
    exact ih.cons ((ih.templates template htemplate).attachView wrapper hfound
      (ih.early id component hfound))
  | setView id view hview _ ih =>
    refine ih.follows (.update fun _ => ⟨fun hparent => hparent, ?_⟩)
    intro other hother
    cases hother
    exact .inr hview
  | view id component view hfound hview _ ih => exact ih.cons (ih.views id component view hfound hview)
  | forget kept hkept _ ih => exact ⟨fun t ht => ih.templates t (hkept ht), ih.views, ih.early⟩

/-- The component of a template that is not wrapped has been added to some parent. -/
theorem History.parent_ne_none (h : History host templates) {template : Template}
    (htemplate : template ∈ templates) (hwrapped : template.isWrapped = false)
    {id : ComponentId} (hid : template.component = some id) {component : Component}
    (hcomponent : host.component? id = some component) : component.parent ≠ none :=
  (h.sound.templates template htemplate).added id hid hwrapped component hcomponent

end Host

end Stencil
