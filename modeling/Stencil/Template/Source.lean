import Stencil.Document.Decode
import Stencil.Template.Basic

/-!
# Templates from documents

* `Template.ofCompiled` — a document's graph with the partials that came with it.
* `Template.parse` — the template of a JSON text.
-/

namespace Stencil

/-- The partials that came with a graph. -/
def Compiled.bindings (compiled : Compiled) : Partials := .ofGraphs compiled.partials

/-- A document as a partial: its graph with its own partials. -/
def Compiled.body (compiled : Compiled) : PartialBody := ⟨compiled.graph, compiled.bindings⟩

/-- The template of a document: its graph with the partials that came with it. -/
def Template.ofCompiled (compiled : Compiled) (registry : RegistryName) (config : Config) :
    Template :=
  .ofGraph compiled.graph compiled.bindings registry config

/-- The template of a JSON text, with the registry of the whole process. -/
def Template.parse (source : String) (config : Config) :
    Except Document.ParseError Template := do
  let compiled ← Document.parse source
  return .ofCompiled compiled .processWide config

end Stencil
