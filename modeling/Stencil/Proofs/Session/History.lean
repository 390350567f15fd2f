import Stencil.Proofs.Host.History
import Stencil.Proofs.Keyed
import Stencil.Session.Basic

/-!
# Sessions are histories

Whatever commands a session is given, what it does to its host is a history of operations on
hosts, with the templates that have names at hand.  So what holds after any history holds in any
session.

* `Session.Reachable` — the sessions that commands lead to.
* `Session.history_perform`, `Session.history_step` — what one command adds to a history.
* `Session.Reachable.history` — whole sessions.
-/

namespace Stencil

/-- What a computation that goes on after another one ends with, it ends with after the result
of the other one. -/
theorem exists_of_bind_eq_ok {ε α β : Type} {first : Except ε α} {next : α → Except ε β}
    {result : β} (h : (first >>= next) = .ok result) :
    ∃ value, first = .ok value ∧ next value = .ok result := by
  cases first with
  | error problem => cases h
  | ok value => exact ⟨value, rfl, h⟩

/-! ## Names -/

namespace Session

variable {session : Session} {id : String}

/-- The templates that have names. -/
def named (session : Session) : List Template := session.templates.map Prod.snd

/-- The session comes about by a history, with the templates that have names at hand. -/
def HasHistory (session : Session) : Prop := session.host.History session.named

theorem mem_named {template : Template} (h : session.templateNamed id = .ok template) :
    template ∈ session.named := by
  unfold templateNamed at h
  split at h
  · rename_i found hfound
    cases h
    exact List.mem_map_of_mem (Keyed.mem_of_get? hfound)
  · cases h

theorem component?_of_component {found : ComponentId × Component}
    (h : session.component id = .ok found) :
    session.host.component? found.1 = some found.2 := by
  unfold component at h
  split at h
  · cases h
  · split at h
    · cases h
    · rename_i hcomponent
      cases h
      exact hcomponent

theorem exists_wrapper (session : Session) (name : Option String) (ownOne : Bool) :
    ∃ wrapper wrappers serial, session.chooseWrapper name ownOne =
      (wrapper, { session with wrappers := wrappers, nextSerial := serial }) := by
  unfold chooseWrapper wrapperNamed freshWrapper
  split
  · split
    · exact ⟨_, _, _, rfl⟩
    · exact ⟨_, _, _, rfl⟩
  · split
    · exact ⟨_, _, _, rfl⟩
    · exact ⟨_, _, _, rfl⟩

/-! ## What commands add -/

/-- A template that comes about by a history may be given a name. -/
theorem history_defineTemplate {template : Logged Template}
    (h : session.host.History (template.value :: session.named)) :
    (session.defineTemplate id template).2.HasHistory :=
  .forget _ (Keyed.map_snd_put_subset id template.value session.templates) h

theorem history_defineComponent (h : session.HasHistory) {component : Component}
    (hview : component.view = none) (answer : Answer) :
    (session.defineComponent id component answer).2.HasHistory :=
  Host.History.add component hview h

theorem history_withHost {host : Host} (h : host.History session.named)
    (registry : RegistryName) : (session.withHost host registry).2.HasHistory := h

theorem history_attach (h : session.HasHistory) {found : ComponentId × Component}
    {template : Template} (hfound : session.host.component? found.1 = some found.2)
    (htemplate : template ∈ session.named) (wrapper : Option String) :
    (session.attach id found template wrapper).2.HasHistory := by
  obtain ⟨number, component⟩ := found
  obtain ⟨chosen, wrappers, serial, hchosen⟩ :=
    session.exists_wrapper wrapper (decide (component.kind = .view))
  have hattached := Host.History.attachView number component chosen template hfound htemplate h
  simp only [attach, hchosen]
  refine history_defineTemplate ?_
  split
  · exact .setView number _ List.mem_cons_self hattached
  · exact hattached

/-- Partials that a template is given one after the other are given to it at once. -/
theorem exists_foldl_withPartial (bodies : List (String × PartialBody)) (graph : Graph)
    (partials : Partials) (registry : RegistryName) (config : Config) :
    ∃ partials', bodies.foldl (fun template entry => template.withPartial entry.1 entry.2)
      (Template.ofGraph graph partials registry config) =
        .ofGraph graph partials' registry config := by
  induction bodies generalizing partials with
  | nil => exact ⟨partials, rfl⟩
  | cons entry rest ih => exact ih (partials.bind entry.1 entry.2)

/-- What a command does is a history. -/
theorem history_perform (h : session.HasHistory) {command : Command} {outcome : Outcome}
    (hperform : session.perform command = .ok outcome) : outcome.2.HasHistory := by
  cases command with
  | view id name tag data =>
    cases hperform
    exact history_defineComponent h rfl .done
  | bare id name =>
    cases hperform
    exact history_defineComponent h rfl .done
  | fixed id name children =>
    obtain ⟨entries, -, hperform⟩ := exists_of_bind_eq_ok hperform
    cases hperform
    exact history_defineComponent h rfl _
  | addChild parent selector child =>
    obtain ⟨parent, -, hperform⟩ := exists_of_bind_eq_ok hperform
    obtain ⟨child, -, hperform⟩ := exists_of_bind_eq_ok hperform
    cases hperform
    exact Host.History.addChild parent.1 selector child.1 h
  | setData view data =>
    obtain ⟨found, -, hperform⟩ := exists_of_bind_eq_ok hperform
    cases hperform
    exact Host.History.setData found.1 data h
  | drop id =>
    obtain ⟨_, -, hperform⟩ := exists_of_bind_eq_ok hperform
    cases hperform
    exact h
  | dropTemplate id =>
    obtain ⟨_, -, hperform⟩ := exists_of_bind_eq_ok hperform
    cases hperform
    exact .forget _ (Keyed.map_snd_erase_subset id session.templates) h
  | template id source partials registry =>
    obtain ⟨compiled, -, hperform⟩ := exists_of_bind_eq_ok hperform
    obtain ⟨bodies, -, hperform⟩ := exists_of_bind_eq_ok hperform
    cases hperform
    obtain ⟨partials', hpartials⟩ := exists_foldl_withPartial bodies compiled.graph
      compiled.bindings registry session.config
    refine history_defineTemplate ?_
    rw [Logged.value_pure, Template.ofCompiled, hpartials]
    exact .ofGraph compiled.graph partials' registry session.config h
  | withPartial id origin name source =>
    obtain ⟨template, htemplate, hperform⟩ := exists_of_bind_eq_ok hperform
    obtain ⟨body, -, hperform⟩ := exists_of_bind_eq_ok hperform
    cases hperform
    exact history_defineTemplate (.withScope (template.partials.bind name body) template.registry
      template.config template (mem_named htemplate) h)
  | wrap id origin tag =>
    obtain ⟨template, htemplate, hperform⟩ := exists_of_bind_eq_ok hperform
    cases hperform
    exact history_defineTemplate (.wrap _ template (mem_named htemplate) h)
  | configure id origin config =>
    obtain ⟨template, htemplate, hperform⟩ := exists_of_bind_eq_ok hperform
    cases hperform
    exact history_defineTemplate (.withScope template.partials template.registry config template
      (mem_named htemplate) h)
  | attach id component template wrapper =>
    obtain ⟨found, hfound, hperform⟩ := exists_of_bind_eq_ok hperform
    obtain ⟨template, htemplate, hperform⟩ := exists_of_bind_eq_ok hperform
    cases hperform
    exact history_attach h (component?_of_component hfound) (mem_named htemplate) wrapper
  | attachGraph id component template wrapper =>
    obtain ⟨found, -, hperform⟩ := exists_of_bind_eq_ok hperform
    obtain ⟨template, -, hperform⟩ := exists_of_bind_eq_ok hperform
    cases hperform
    obtain ⟨chosen, wrappers, serial, hchosen⟩ := session.exists_wrapper wrapper false
    simp only [attachGraph, hchosen]
    exact history_defineTemplate (.ofGraph _ template.partials .injected session.config h)
  | register template name =>
    obtain ⟨template, -, hperform⟩ := exists_of_bind_eq_ok hperform
    cases hperform
    exact history_withHost (.updateRegistry template.registry _ h) template.registry
  | registerGraph name source registry =>
    obtain ⟨compiled, -, hperform⟩ := exists_of_bind_eq_ok hperform
    cases hperform
    exact history_withHost (.updateRegistry registry _ h) registry
  | reset registry =>
    cases hperform
    exact history_withHost (.updateRegistry registry _ h) registry
  | lookup name registry =>
    cases hperform
    exact h
  | info _ | resolve _ _ | inspect _ | html _ _ | outerHtml _ _ | tree _ _ | fragment _ _
  | fragmentWithPieces _ _ | widgets _ =>
    obtain ⟨_, -, hperform⟩ := exists_of_bind_eq_ok hperform
    cases hperform
    exact h
  | same first second data =>
    obtain ⟨_, -, hperform⟩ := exists_of_bind_eq_ok hperform
    obtain ⟨_, -, hperform⟩ := exists_of_bind_eq_ok hperform
    cases hperform
    exact h

/-- So is a command with what is let go after it. -/
theorem history_step (h : session.HasHistory) (command : Command) :
    (session.step command).2.HasHistory := by
  rw [step]
  cases hperform : session.perform command with
  | error refusal => exact h
  | ok outcome => exact Host.History.release _ (history_perform h hperform)

/-! ## Whole sessions -/

/-- The sessions that commands lead to. -/
inductive Reachable (config : Config) : Session → Prop
  | start : Reachable config (.start config)
  | step {session : Session} (command : Command) :
      Reachable config session → Reachable config (session.step command).2

/-- Every session comes about by a history. -/
theorem Reachable.history {config : Config} (h : Reachable config session) :
    session.HasHistory := by
  induction h with
  | start => exact Host.History.start
  | step command _ ih => exact history_step ih command

end Session

end Stencil
