import Stencil.Dom.Basic
import Stencil.Document.Decode
import Stencil.Template.Basic

/-!
# Commands and answers

What can be asked of a session, and what it answers.  Components and templates go
by names, which the one who asks chooses.

* `Command` — what can be asked.
* `Answer`, `Refusal` — what comes back.
-/

namespace Stencil.Session

/-- Where a partial comes from. -/
inductive PartialSource where
  /-- The graph of a document, without the partials that came with it. -/
  | graph (source : String)
  /-- A template of the session, with its partials. -/
  | template (id : String)

/-- What can be asked of a session. -/
inductive Command where
  /-- Define a component with data, children and a view. -/
  | view (id name : String) (tag : Option String) (data : Json)
  /-- Define a component with a name only. -/
  | bare (id name : String)
  /-- Define a component with fixed children. -/
  | fixed (id name : String) (children : List (String × String))
  /-- Put a child under a selector of a parent. -/
  | addChild (parent selector child : String)
  /-- Give a component other data. -/
  | setData (view : String) (data : Json)
  /-- Forget the name of a component. -/
  | drop (id : String)
  /-- Forget a template. -/
  | dropTemplate (id : String)
  /-- Tell about a component. -/
  | info (id : String)
  /-- Define a template. -/
  | template (id source : String) (partials : List (String × PartialSource))
      (registry : RegistryName)
  /-- Define a template as another one with one more partial. -/
  | withPartial (id origin name : String) (source : PartialSource)
  /-- Define a template as another one within an element. -/
  | wrap (id origin : String) (tag : Option String)
  /-- Define a template as another one with another configuration. -/
  | configure (id origin : String) (config : Config)
  /-- Attach a template to a component, and define the result. -/
  | attach (id component template : String) (wrapper : Option String)
  /-- Put the children of a component into the graph of a template, and define the result. -/
  | attachGraph (id component template : String) (wrapper : Option String)
  /-- Bind a name to a template in the registry of that template. -/
  | register (template name : String)
  /-- Bind a name to a graph in a registry. -/
  | registerGraph (name source : String) (registry : RegistryName)
  /-- Empty a registry. -/
  | reset (registry : RegistryName)
  /-- Tell what a registry binds a name to. -/
  | lookup (name : String) (registry : RegistryName)
  /-- Tell what a template finds under a name. -/
  | resolve (template name : String)
  /-- Tell about a template. -/
  | inspect (template : String)
  /-- Render a template to markup. -/
  | html (template : String) (data : Json)
  /-- Render the whole graph of a template to markup. -/
  | outerHtml (template : String) (data : Json)
  /-- Render a template to a tree. -/
  | tree (template : String) (data : Json)
  /-- Render a template to a fragment. -/
  | fragment (template : String) (data : Json)
  /-- Render a template to a fragment, and tell the pieces it was made of. -/
  | fragmentWithPieces (template : String) (data : Json)
  /-- Tell what each widget of a template shows. -/
  | widgets (template : String)
  /-- Tell whether two templates have the same graph and the same tree. -/
  | same (first second : String) (data : Json)

/-- What a widget shows. -/
structure WidgetReport where
  widget : Widget
  view : Template
  markup : String
  tree : Tree Widget
  nodes : List Dom.Node

/-- What is told about a component. -/
structure ComponentReport where
  name : String
  /-- The name of the parent. -/
  parent : Option String
  /-- The names of the children under their selectors. -/
  children : List (String × String)
  tag : String
  data : Json
  view : Option Template

/-- What a session answers. -/
inductive Answer where
  /-- It is done. -/
  | done
  /-- The number of children of a component. -/
  | count (children : Nat)
  /-- The selectors of a component. -/
  | selectors (selectors : List String)
  | component (report : ComponentReport)
  | template (template : Template)
  /-- The names that a registry binds. -/
  | names (names : List String)
  /-- The graph that a registry binds a name to. -/
  | registered (graph : Option Graph)
  /-- Whether a name is bound by the partials of a template itself, those partials, and what
  the name leads to. -/
  | resolved (isLocal : Bool) (inner : Partials) (found : Option PartialBody)
  | markup (markup : String)
  | tree (tree : Tree Widget)
  | fragment (config : Config) (fragment : Fragment)
  | fragmentWithPieces (config : Config) (fragment : Fragment) (pieces : List (Piece Widget))
  | widgets (reports : List WidgetReport)
  | same (graphs trees : Bool)

/-- Why a session does not do what it is asked. -/
inductive Refusal where
  /-- A name that nothing goes by, or a component that cannot do what is asked. -/
  | unknown
  /-- A document that has no graph. -/
  | document (error : Document.ParseError)

end Stencil.Session
