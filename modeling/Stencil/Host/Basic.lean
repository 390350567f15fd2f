import Stencil.Json.Basic
import Stencil.Template.Basic

/-!
# Hosts and their components

A host has components, which may have a parent, children under selectors, data and
a view, and two registries of partials.  Components that are gone have no entry any
more, so links to them lead nowhere.

* `Host.component?` — a component that is still there.
* `Host.add`, `Host.addChild`, `Host.setView` — how components come about and change.
-/

namespace Stencil

/-- What a component can do. -/
inductive ComponentKind where
  /-- Everything: it has data, children that can be added, a parent and a view. -/
  | view
  /-- It has a name and nothing else. -/
  | bare
  /-- It has a name and children that were fixed at the start. -/
  | fixed
  deriving DecidableEq, Repr

/-- A component. -/
structure Component where
  kind : ComponentKind
  name : String
  /-- The tag of the element the component is mounted into. -/
  mountTag : String
  data : Json
  /-- The component it was last added to.  It may be gone by now. -/
  parent : Option ComponentId
  /-- The children under their selectors, in the order of registration. -/
  children : List (String × ComponentId)
  /-- The template attached to the component. -/
  view : Option Template

/-- The tag of components that name none. -/
def defaultMountTag : String := "div"

namespace Component

/-- A component with data, without a parent, children or a view. -/
def ofView (name tag : String) (data : Json) : Component :=
  ⟨.view, name, tag, data, none, [], none⟩

/-- A component with a name only. -/
def ofName (name : String) : Component :=
  ⟨.bare, name, defaultMountTag, .null, none, [], none⟩

/-- A component with fixed children. -/
def ofChildren (name : String) (children : List (String × ComponentId)) : Component :=
  ⟨.fixed, name, defaultMountTag, .null, none, children, none⟩

end Component

/-- Components and registries. -/
structure Host where
  /-- The components that are there. -/
  components : List (ComponentId × Component)
  /-- The number of the next component. -/
  nextNumber : Nat
  /-- The registry the host hands to its templates. -/
  injected : Partials
  /-- The registry of the whole process. -/
  processWide : Partials

namespace Host

/-- A host without components and with empty registries. -/
def empty : Host := ⟨[], 0, [], []⟩

/-! ## Registries -/

/-- One of the registries. -/
def registry (host : Host) : RegistryName → Partials
  | .injected => host.injected
  | .processWide => host.processWide

/-- Change one of the registries. -/
def updateRegistry (host : Host) (name : RegistryName) (change : Partials → Partials) : Host :=
  match name with
  | .injected => { host with injected := change host.injected }
  | .processWide => { host with processWide := change host.processWide }

/-- Bind a name in one of the registries. -/
def register (host : Host) (registry : RegistryName) (name : String) (body : PartialBody) : Host :=
  host.updateRegistry registry (·.bind name body)

/-! ## Components -/

/-- A component that is still there. -/
def component? (host : Host) (id : ComponentId) : Option Component :=
  (host.components.find? (·.1 == id)).map Prod.snd

/-- Whether a component is still there. -/
def isAlive (host : Host) (id : ComponentId) : Bool :=
  host.components.any (·.1 == id)

/-- Add a component. -/
def add (host : Host) (component : Component) : ComponentId × Host :=
  let id : ComponentId := ⟨host.nextNumber⟩
  (id, { host with
    components := host.components ++ [(id, component)]
    nextNumber := host.nextNumber + 1 })

/-- Change a component. -/
def update (host : Host) (id : ComponentId) (change : Component → Component) : Host :=
  { host with
    components := host.components.map fun entry =>
      if entry.1 = id then (id, change entry.2) else entry }

/-- The name of a component. -/
def nameOf (host : Host) (id : ComponentId) : String :=
  ((host.component? id).map Component.name).getD ""

/-- The data of a component. -/
def dataOf (host : Host) (id : ComponentId) : Json :=
  ((host.component? id).map Component.data).getD .null

/-- The parent of a component, while it is there. -/
def parentOf? (host : Host) (id : ComponentId) : Option ComponentId :=
  ((host.component? id).bind Component.parent).filter host.isAlive

/-- The component a template is bound to, while it is there. -/
def componentOf? (host : Host) (template : Template) : Option ComponentId :=
  template.component.filter host.isAlive

/-- What a widget shows: the view of its child, or else the element it has taken. -/
def viewOf (host : Host) (widget : Widget) : Template :=
  ((host.component? widget.child).bind Component.view).getD widget.template

/-- Put a child under a selector of a parent, and make that the child's parent. -/
def addChild (host : Host) (parent : ComponentId) (selector : String) (child : ComponentId) :
    Host :=
  (host.update child fun component => { component with parent := some parent }).update parent
    fun component => { component with children := Keyed.put selector child component.children }

/-- Give a component other data. -/
def setData (host : Host) (id : ComponentId) (data : Json) : Host :=
  host.update id fun component => { component with data }

/-- Give a component a view. -/
def setView (host : Host) (id : ComponentId) (view : Template) : Host :=
  host.update id fun component => { component with view := some view }

end Host

end Stencil
