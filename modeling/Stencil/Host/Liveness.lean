import Stencil.Graph.Widgets
import Stencil.Host.Render

/-!
# Components that are let go

A component stays as long as something holds it: a holder outside the host, another
component that has it as a child, or a widget in a view or a registry.  Parents and
the components that templates are bound to are not held.  Components that hold each
other in a circle stay.

* `Host.release` — the host without the components that nothing holds.
-/

namespace Stencil

/-- The components that widgets stand for. -/
def widgetChildren (widgets : List Widget) : List ComponentId := widgets.map Widget.child

/-- The components that a template holds. -/
def Template.held (template : Template) : List ComponentId :=
  widgetChildren (Host.widgetsOfTemplate template)

/-- The components that a component holds: its children and those in its view. -/
def Component.held (component : Component) : List ComponentId :=
  component.children.map Prod.snd ++ (component.view.map Template.held).getD []

namespace Host

/-- The components that the registries hold. -/
def heldByRegistries (host : Host) : List ComponentId :=
  widgetChildren (Binding.allWidgets host.injected ++ Binding.allWidgets host.processWide)

/-- The components that are held from outside or by one another. -/
def held (host : Host) (outside : List ComponentId) : List ComponentId :=
  outside ++ host.heldByRegistries ++ host.components.flatMap (·.2.held)

/-- The host without the components that nothing holds right now. -/
def releaseOnce (outside : List ComponentId) (host : Host) : Host :=
  let held := host.held outside
  { host with components := host.components.filter fun entry => held.contains entry.1 }

/-- Let go of components as long as there are some that nothing holds.  Each round but the
last lets go of at least one, so there are no more rounds than components. -/
def release (host : Host) (outside : List ComponentId) : Host :=
  Nat.repeat (releaseOnce outside) host.components.length host

end Host

end Stencil
