import Stencil.Graph.Partials

/-!
# Templates

A template is a graph with everything needed to render it: its partials, the
registry it shares, a configuration, and the component it is bound to, if any.

* `Template.wrap` — the graph within a single element.
* `Widget.template` — what a widget shows while its child has no view.
-/

namespace Stencil

/-- A graph with everything needed to render it. -/
structure Template where
  graph : Graph
  partials : Partials
  registry : RegistryName
  config : Config
  /-- The component the template is bound to.  It may be gone by now. -/
  component : Option ComponentId
  /-- Whether the graph is within an element that was put around it. -/
  isWrapped : Bool

namespace Template

/-- A template that is bound to no component. -/
def ofGraph (graph : Graph) (partials : Partials) (registry : RegistryName) (config : Config) :
    Template :=
  ⟨graph, partials, registry, config, none, false⟩

/-- A template with one more partial, or another one under a name. -/
def withPartial (template : Template) (name : String) (body : PartialBody) : Template :=
  { template with partials := template.partials.bind name body }

/-- A template with another configuration. -/
def withConfig (template : Template) (config : Config) : Template :=
  { template with config }

/-- The graph within a single element. -/
def wrap (template : Template) (tag : String) : Template :=
  { template with
    graph := [.element (.ofChildren tag template.graph)]
    isWrapped := true }

/-- The graph within an element with the tag of the configuration. -/
def wrapDefault (template : Template) : Template := template.wrap template.config.wrapTag

/-- A template as a partial: its graph and its own partials. -/
def body (template : Template) : PartialBody := ⟨template.graph, template.partials⟩

end Template

/-- What a widget shows while its child has no view: the element it has taken. -/
def Widget.template (widget : Widget) : Template :=
  .ofGraph [.element widget.replaced] widget.partials widget.registry widget.config

end Stencil
