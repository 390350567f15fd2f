import Stencil.Host.Render
import Stencil.Template.Source

/-!
# Rendering documents

* `Host.htmlOfSource` — a JSON text rendered to markup in one go.
-/

namespace Stencil

/-- The markup of a JSON text, rendered against data. -/
def Host.htmlOfSource (host : Host) (source : String) (data : Json) (config : Config) :
    Except Document.ParseError (Logged String) := do
  let template ← Template.parse source config
  return host.html template data

end Stencil
