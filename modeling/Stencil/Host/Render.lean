import Stencil.Assembly.Encodings
import Stencil.Graph.Widgets
import Stencil.Host.Basic
import Stencil.Script.Walk

/-!
# Rendering templates

A template is interpreted, and its script run on an empty assembly.  Where the
output is markup or a fragment, each widget is rendered in its place: the view of
its child, against the child's data.

Views may hold widgets whose views hold widgets, and so on.  A widget always shows
the same view against the same data, so a chain of nested widgets either visits each
component and each widget at most once, or never ends.  The number of both bounds
the depth, and a chain that passes it is cut off and marked in the log.

* `Host.html`, `Host.outerHtml`, `Host.tree`, `Host.fragment` — the renderings.
-/

namespace Stencil

namespace Host

variable {ω α : Type}

/-! ## One template -/

/-- The script of a graph in the surroundings of a template. -/
def scriptOf (host : Host) (template : Template) (graph : Graph) (data : Json) : Script :=
  (interpret template.config (host.registry template.registry) ⟨graph, template.partials⟩
    data).1

/-- The output of a graph in the surroundings of a template. -/
def render (host : Host) (encoding : Encoding ω α) (template : Template) (graph : Graph)
    (data : Json) : Logged α :=
  let script := host.scriptOf template graph data
  let assembly := Script.run (Assembly.sink encoding) script (.start template.config.startId)
  let (value, assembly) := assembly.output encoding
  ⟨value, assembly.log⟩

/-- Whether a template is the view of a component that has a parent. -/
def isNested (host : Host) (template : Template) : Bool :=
  match host.componentOf? template with
  | some id => (host.parentOf? id).isSome
  | none => false

/-- Whether a template is the view of a component that has no parent. -/
def isTopLevel (host : Host) (template : Template) : Bool :=
  match host.componentOf? template with
  | some id => (host.parentOf? id).isNone
  | none => false

/-- A fragment as it is mounted: the view of a component without a parent goes into a
container that is there already, so its own is dropped. -/
def mounted (host : Host) (template : Template) (fragment : Fragment) : Fragment :=
  if host.isTopLevel template then fragment.unwrapContainer else fragment

/-! ## Widgets within widgets -/

/-- The markup of a widget, with at most `depth` widgets within one another. -/
def widgetMarkup (host : Host) : (depth : Nat) → Widget → Logged String
  | 0, _ => .cutOff ""
  | depth + 1, widget =>
      let view := host.viewOf widget
      host.render (.markup view.config.voidElements (widgetMarkup host depth)) view view.graph
        (host.dataOf widget.child)

/-- The nodes of a widget, with at most `depth` widgets within one another. -/
def widgetNodes (host : Host) : (depth : Nat) → Widget → Logged (List Dom.Node)
  | 0, _ => .cutOff []
  | depth + 1, widget => do
      let view := host.viewOf widget
      let fragment ← host.render (.fragment (widgetNodes host depth)) view view.graph
        (host.dataOf widget.child)
      return (host.mounted view fragment).nodes

/-- All widgets within a template. -/
def widgetsOfTemplate (template : Template) : List Widget :=
  Graph.allWidgets template.graph ++ Binding.allWidgets template.partials

/-- All widgets within the views and registries of a host. -/
def allWidgets (host : Host) : List Widget :=
  host.components.flatMap (fun entry =>
      (entry.2.view.map widgetsOfTemplate).getD []) ++
    Binding.allWidgets host.injected ++ Binding.allWidgets host.processWide

/-- A bound on the widgets that a rendering of a template nests, if it ends at all. -/
def nestingBound (host : Host) (template : Template) : Nat :=
  host.components.length + host.allWidgets.length + (widgetsOfTemplate template).length + 1

/-! ## The renderings -/

/-- How markup is written, in the surroundings of a template. -/
def markupEncoding (host : Host) (template : Template) : Encoding Empty String :=
  .markup template.config.voidElements (host.widgetMarkup (host.nestingBound template))

/-- The whole graph of a template as markup. -/
def outerHtml (host : Host) (template : Template) (data : Json) : Logged String :=
  host.render (host.markupEncoding template) template template.graph data

/-- The part of a graph that `html` renders: the contents of the root element, if the
template is the view of a component with a parent, whose widget supplies the element. -/
def innerGraph (host : Host) (template : Template) : Graph :=
  if host.isNested template then
    match template.graph with
    | [.element root] => root.children
    | graph => graph
  else template.graph

/-- A template as markup. -/
def html (host : Host) (template : Template) (data : Json) : Logged String :=
  host.render (host.markupEncoding template) template (host.innerGraph template) data

/-- A template as a tree. -/
def tree (host : Host) (template : Template) (data : Json) : Logged (Tree Widget) :=
  host.render .tree template template.graph data

/-- A template as a fragment. -/
def fragment (host : Host) (template : Template) (data : Json) : Logged Fragment := do
  let fragment ← host.render (.fragment (host.widgetNodes (host.nestingBound template)))
    template template.graph data
  return host.mounted template fragment

/-! ## A widget by itself -/

/-- The markup that a widget shows. -/
def markupOf (host : Host) (widget : Widget) : Logged String :=
  host.outerHtml (host.viewOf widget) (host.dataOf widget.child)

/-- The tree that a widget shows. -/
def treeOf (host : Host) (widget : Widget) : Logged (Tree Widget) :=
  host.tree (host.viewOf widget) (host.dataOf widget.child)

/-- The fragment that a widget shows. -/
def fragmentOf (host : Host) (widget : Widget) : Logged Fragment :=
  host.fragment (host.viewOf widget) (host.dataOf widget.child)

end Host

end Stencil
