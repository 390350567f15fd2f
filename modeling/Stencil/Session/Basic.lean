import Stencil.Graph.Same
import Stencil.Host.Attach
import Stencil.Host.Liveness
import Stencil.Session.Command
import Stencil.Template.Source

/-!
# Sessions

A session is a host whose components and templates have names.  Commands change it
or ask about it; a command that is refused changes nothing.  A component that has
lost its name stays while something else holds it.

* `Session.perform` — what a command answers, and the session after it.
* `Session.step` — the same, with the components let go that nothing holds any more.
-/

namespace Stencil

/-- A host whose components and templates have names. -/
structure Session where
  host : Host
  /-- The configuration of the templates that are defined from documents. -/
  config : Config
  components : List (String × ComponentId)
  templates : List (String × Template)
  /-- The wrappers that have been asked for by name. -/
  wrappers : List (String × Wrapper)
  /-- The serial number of the next wrapper. -/
  nextSerial : Nat

namespace Session

/-- The name of wrappers that are not asked for by name. -/
def defaultWrapperName : String := "ComponentWidget"

/-- The wrapper that attachments share unless they need one of their own. -/
def sharedWrapper : Wrapper := ⟨defaultWrapperName, 0⟩

/-- A session without components and templates. -/
def start (config : Config) : Session := ⟨.empty, config, [], [], [], 1⟩

/-! ## Names -/

/-- The component with a name, which is held and so still there. -/
def component (session : Session) (id : String) : Except Refusal (ComponentId × Component) :=
  match Keyed.get? id session.components with
  | none => .error .unknown
  | some number =>
      match session.host.component? number with
      | none => .error .unknown
      | some component => .ok (number, component)

/-- The component with a name, if it is a view. -/
def viewComponent (session : Session) (id : String) : Except Refusal (ComponentId × Component) := do
  let found ← session.component id
  if found.2.kind = .view then return found else throw .unknown

/-- The template with a name. -/
def templateNamed (session : Session) (id : String) : Except Refusal Template :=
  match Keyed.get? id session.templates with
  | some template => .ok template
  | none => .error .unknown

/-- The document of a text. -/
def parse (source : String) : Except Refusal Compiled :=
  (Document.parse source).mapError .document

/-- The partial that a source gives. -/
def partialBody (session : Session) : PartialSource → Except Refusal PartialBody
  | .graph source => do return ⟨(← parse source).graph, []⟩
  | .template id => do return (← session.templateNamed id).body

/-! ## What commands do -/

/-- What a command does: an answer with its log, and the session after it. -/
abbrev Outcome := Logged Answer × Session

/-- An answer that raises no warning. -/
def Outcome.of (answer : Answer) (session : Session) : Outcome := (pure answer, session)

/-- Give a name to a new component. -/
def defineComponent (session : Session) (id : String) (component : Component) (answer : Answer) :
    Outcome :=
  let (number, host) := session.host.add component
  .of answer { session with host, components := Keyed.put id number session.components }

/-- Give a name to a template, and tell about it. -/
def defineTemplate (session : Session) (id : String) (template : Logged Template) : Outcome :=
  (template >>= fun template => pure (.template template),
    { session with templates := Keyed.put id template.value session.templates })

/-- Names in order. -/
def sortedNames (partials : Partials) : List String :=
  partials.names.mergeSort (fun a b => decide (a ≤ b))

/-- Change a registry, and tell its names. -/
def withHost (session : Session) (host : Host) (registry : RegistryName) : Outcome :=
  .of (.names (sortedNames (host.registry registry))) { session with host }

/-- The wrapper with a name: always the same one within a session. -/
def wrapperNamed (session : Session) (name : String) : Wrapper × Session :=
  match Keyed.get? name session.wrappers with
  | some wrapper => (wrapper, session)
  | none =>
      let wrapper : Wrapper := ⟨name, session.nextSerial⟩
      (wrapper, { session with
        wrappers := Keyed.put name wrapper session.wrappers
        nextSerial := session.nextSerial + 1 })

/-- A wrapper that nothing else has. -/
def freshWrapper (session : Session) : Wrapper × Session :=
  (⟨defaultWrapperName, session.nextSerial⟩,
    { session with nextSerial := session.nextSerial + 1 })

/-- The wrapper of an attachment: the one that is asked for, or else the shared one, or for
the view of a component one of its own. -/
def chooseWrapper (session : Session) (name : Option String) (ownOne : Bool) :
    Wrapper × Session :=
  match name with
  | some name => session.wrapperNamed name
  | none => if ownOne then session.freshWrapper else (sharedWrapper, session)

/-- Attach a template to a component, and define the result. -/
def attach (session : Session) (id : String) (found : ComponentId × Component)
    (template : Template) (wrapper : Option String) : Outcome :=
  let (number, component) := found
  let isView := component.kind = .view
  let (wrapper, session) := session.chooseWrapper wrapper isView
  let attached := session.host.attachView number component wrapper template
  let host := if isView then session.host.setView number attached.value else session.host
  { session with host }.defineTemplate id attached

/-- Put the children of a component into the graph of a template, and define the result. -/
def attachGraph (session : Session) (id : String) (component : Component) (template : Template)
    (wrapper : Option String) : Outcome :=
  let (wrapper, session) := session.chooseWrapper wrapper false
  let graph := session.host.attachGraph component wrapper .injected session.config template.body
  session.defineTemplate id (graph >>= fun graph =>
    pure (.ofGraph graph template.partials .injected session.config))

/-! ## What is told -/

/-- What is told about a component. -/
def report (session : Session) (id : ComponentId) (component : Component) : ComponentReport where
  name := component.name
  parent := (session.host.parentOf? id).map session.host.nameOf
  children := component.children.map fun entry => (entry.1, session.host.nameOf entry.2)
  tag := component.mountTag
  data := component.data
  view := component.view

/-- What a widget shows. -/
def reportWidget (host : Host) (widget : Widget) : Logged WidgetReport := do
  let markup ← host.markupOf widget
  let tree ← host.treeOf widget
  let fragment ← host.fragmentOf widget
  return ⟨widget, host.viewOf widget, markup, tree, fragment.nodes⟩

/-- What widgets show, one after the other. -/
def reportWidgets (host : Host) : List Widget → Logged (List WidgetReport)
  | [] => pure []
  | widget :: rest => do
      let report ← reportWidget host widget
      let reports ← reportWidgets host rest
      return report :: reports

/-- A fragment and the pieces it was made of. -/
def fragmentWithPieces (host : Host) (template : Template) (data : Json) : Logged Answer := do
  let fragment ← host.fragment template data
  return .fragmentWithPieces template.config fragment (host.tree template data).value.pieces

/-- Whether two templates have the same graph and the same tree. -/
def compare (host : Host) (first second : Template) (data : Json) : Logged Answer := do
  let firstTree ← host.tree first data
  let secondTree ← host.tree second data
  return .same (Graph.same first.graph second.graph) (firstTree.same Widget.same secondTree)

/-! ## Commands -/

/-- What a command answers, and the session after it. -/
def perform (session : Session) : Command → Except Refusal Outcome
  | .view id name tag data =>
      return session.defineComponent id (.ofView name (tag.getD defaultMountTag) data) .done
  | .bare id name => return session.defineComponent id (.ofName name) .done
  | .fixed id name children => do
      let entries ← children.mapM fun entry => do
        return (entry.1, (← session.component entry.2).1)
      let children := Keyed.ofEntries entries
      return session.defineComponent id (.ofChildren name children) (.count children.length)
  | .addChild parent selector child => do
      let (parent, _) ← session.viewComponent parent
      let (child, _) ← session.viewComponent child
      let host := session.host.addChild parent selector child
      let children := ((host.component? parent).map Component.children).getD []
      return .of (.selectors (children.map Prod.fst)) { session with host }
  | .setData view data => do
      let (number, _) ← session.viewComponent view
      return .of .done { session with host := session.host.setData number data }
  | .drop id => do
      let _ ← session.component id
      return .of .done { session with components := Keyed.erase id session.components }
  | .dropTemplate id => do
      let _ ← session.templateNamed id
      return .of .done { session with templates := Keyed.erase id session.templates }
  | .info id => do
      let (number, component) ← session.component id
      return .of (.component (session.report number component)) session
  | .template id source partials registry => do
      let compiled ← parse source
      let bodies ← partials.mapM fun entry => do
        return (entry.1, ← session.partialBody entry.2)
      let template := bodies.foldl (fun template entry => template.withPartial entry.1 entry.2)
        (Template.ofCompiled compiled registry session.config)
      return session.defineTemplate id (pure template)
  | .withPartial id origin name source => do
      let template ← session.templateNamed origin
      let body ← session.partialBody source
      return session.defineTemplate id (pure (template.withPartial name body))
  | .wrap id origin tag => do
      let template ← session.templateNamed origin
      return session.defineTemplate id
        (pure (template.wrap (tag.getD template.config.wrapTag)))
  | .configure id origin config => do
      let template ← session.templateNamed origin
      return session.defineTemplate id (pure (template.withConfig config))
  | .attach id component template wrapper => do
      let found ← session.component component
      let template ← session.templateNamed template
      return session.attach id found template wrapper
  | .attachGraph id component template wrapper => do
      let (_, component) ← session.component component
      let template ← session.templateNamed template
      return session.attachGraph id component template wrapper
  | .register template name => do
      let template ← session.templateNamed template
      return session.withHost (session.host.register template.registry name template.body)
        template.registry
  | .registerGraph name source registry => do
      let compiled ← parse source
      return session.withHost (session.host.register registry name ⟨compiled.graph, []⟩) registry
  | .reset registry =>
      return session.withHost (session.host.updateRegistry registry fun _ => []) registry
  | .lookup name registry =>
      return .of (.registered (((session.host.registry registry).get? name).map PartialBody.graph))
        session
  | .resolve template name => do
      let template ← session.templateNamed template
      let found := Stencil.resolve name template.partials
        (session.host.registry template.registry)
      return .of (.resolved (template.partials.binds name) template.partials found) session
  | .inspect template => do
      return .of (.template (← session.templateNamed template)) session
  | .html template data => do
      let template ← session.templateNamed template
      return (session.host.html template data >>= fun s => pure (.markup s), session)
  | .outerHtml template data => do
      let template ← session.templateNamed template
      return (session.host.outerHtml template data >>= fun s => pure (.markup s), session)
  | .tree template data => do
      let template ← session.templateNamed template
      return (session.host.tree template data >>= fun t => pure (.tree t), session)
  | .fragment template data => do
      let template ← session.templateNamed template
      return (session.host.fragment template data >>= fun f =>
        pure (.fragment template.config f), session)
  | .fragmentWithPieces template data => do
      let template ← session.templateNamed template
      return (fragmentWithPieces session.host template data, session)
  | .widgets template => do
      let template ← session.templateNamed template
      return (reportWidgets session.host (Graph.widgets template.graph) >>= fun reports =>
        pure (.widgets reports), session)
  | .same first second data => do
      let first ← session.templateNamed first
      let second ← session.templateNamed second
      return (compare session.host first second data, session)

/-- The components that a session holds by name or in its templates. -/
def held (session : Session) : List ComponentId :=
  session.components.map Prod.snd ++ session.templates.flatMap (·.2.held)

/-- The session without the components that nothing holds. -/
def release (session : Session) : Session :=
  { session with host := session.host.release session.held }

/-- What is answered to a command. -/
structure Reply where
  /-- The host as it was when the answer was given. -/
  host : Host
  answer : Except Refusal Answer
  warnings : List Warning

/-- Answer a command.  Afterwards the components are let go that nothing holds any more. -/
def step (session : Session) (command : Command) : Reply × Session :=
  match session.perform command with
  | .error refusal => (⟨session.host, .error refusal, []⟩, session)
  | .ok (answer, after) =>
      (⟨after.host, .ok answer.value, answer.log.warnings⟩, after.release)

end Session

end Stencil
