import Stencil.Host.Basic
import Stencil.Template.Attachment

/-!
# Attaching templates to components

The view of a component is a template whose top-level elements are its roots.  A
component without a parent is mounted by itself, so its view is put within an
element with its mount tag, unless the template is within an element already.

* `Host.attachGraph` — a graph with the children of a component put in.
* `Host.attachView` — a template as the view of a component.
-/

namespace Stencil

/-- A node marked as a root, if it is an element. -/
def Node.markRoot : Node → Node
  | .element el => .element el.asRoot
  | node => node

/-- A graph within a single root element. -/
def mountElement (tag : String) (graph : Graph) : Node :=
  .element (Element.ofChildren tag graph).asRoot

namespace Host

/-- How graphs are attached to a component. -/
def attachment (host : Host) (component : Component) (wrapper : Wrapper)
    (registry : RegistryName) (config : Config) : Attachment :=
  ⟨wrapper, component.children, registry, host.registry registry, config⟩

/-- A graph, with its partials, with the children of a component put in. -/
def attachGraph (host : Host) (component : Component) (wrapper : Wrapper)
    (registry : RegistryName) (config : Config) (body : PartialBody) : Logged Graph :=
  (host.attachment component wrapper registry config).attach body

/-- Whether a template has to be put within an element to be the view of a component. -/
def needsMount (host : Host) (id : ComponentId) (template : Template) : Bool :=
  (host.parentOf? id).isNone && !template.isWrapped

/-- The graph of a template with its roots marked, within the mount element if needed. -/
def rootedGraph (host : Host) (id : ComponentId) (component : Component) (template : Template) :
    Graph :=
  let marked := template.graph.map Node.markRoot
  if host.needsMount id template then [mountElement component.mountTag marked] else marked

/-- A template as the view of a component. -/
def attachView (host : Host) (id : ComponentId) (component : Component) (wrapper : Wrapper)
    (template : Template) : Logged Template := do
  let rooted := host.rootedGraph id component template
  let graph ← host.attachGraph component wrapper template.registry template.config
    ⟨rooted, template.partials⟩
  return { template with
    graph
    component := some id
    isWrapped := template.isWrapped || host.needsMount id template }

end Host

end Stencil
