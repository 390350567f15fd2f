import Stencil.Graph.Basic
import Stencil.Warning

/-!
# Partials and how they are found

A name is looked up in the local partials of the graph that uses it, and then in
a registry.  What is found is a graph together with its own local partials, so a
partial never sees those of the graph that uses it.

* `Partials.get?`, `Partials.bind` — the partial under a name; binding a name again
  keeps its place.
* `resolve` — local partials first, then the registry.
* `unresolvedWarning` — what is said of a name that neither binds.
-/

namespace Stencil

/-- A partial that has been found: its graph and the partials in scope in it. -/
structure PartialBody where
  graph : Graph
  partials : Partials

/-- The body that a binding gives its name. -/
def Binding.body (binding : Binding) : PartialBody := ⟨binding.graph, binding.partials⟩

namespace Partials

/-- The partial under a name. -/
def get? (partials : Partials) (name : String) : Option PartialBody :=
  (partials.find? (·.name == name)).map Binding.body

/-- Whether a name is bound. -/
def binds (partials : Partials) (name : String) : Bool :=
  partials.any (·.name == name)

/-- The names in the order they were first bound. -/
def names (partials : Partials) : List String :=
  partials.map Binding.name

/-- Bind a name; a name that is bound already keeps its place. -/
def bind : Partials → String → PartialBody → Partials
  | [], name, body => [⟨name, body.graph, body.partials⟩]
  | binding :: rest, name, body =>
      if binding.name = name then ⟨name, body.graph, body.partials⟩ :: rest
      else binding :: bind rest name body

/-- The partials that bind names to bare graphs. -/
def ofGraphs (graphs : List (String × Graph)) : Partials :=
  graphs.foldl (fun partials entry => partials.bind entry.1 ⟨entry.2, []⟩) []

end Partials

/-- The partial under a name: a local one if there is one, or else the registry's. -/
def resolve (name : String) (inner registry : Partials) : Option PartialBody :=
  match inner.get? name with
  | some body => some body
  | none => registry.get? name

/-- The warning about a partial that nothing binds. -/
def unresolvedWarning (name : String) : Warning :=
  ⟨.unresolvedPartial, "partial '" ++ name ++ "' is not registered"⟩

end Stencil
