import Stencil.Main
import Stencil.Script.Trace
import Stencil.Session.Basic
import Stencil.Proofs.Assembly.Listing
import Stencil.Proofs.Assembly.Numbering
import Stencil.Proofs.Document.Roundtrip
import Stencil.Proofs.Dom.Bare
import Stencil.Proofs.Host.Unwrapped
import Stencil.Proofs.Render.Attached
import Stencil.Proofs.Render.Brackets
import Stencil.Proofs.Render.Closes
import Stencil.Proofs.Render.Mounted
import Stencil.Proofs.Render.Trim
import Stencil.Proofs.Render.Valued
import Stencil.Proofs.Render.Written
import Stencil.Proofs.Session.History
import Stencil.Proofs.Script.Balance
import Stencil.Proofs.Script.Placed
import Stencil.Proofs.Script.Tags
import Stencil.Proofs.Script.Written
import Stencil.Proofs.Template.Settled
import Stencil.Proofs.Assembly.Handles
import Stencil.Proofs.Template.Cycles
import Stencil.Proofs.Template.Scopes
import Stencil.Proofs.Template.Roots
import Stencil.Proofs.Assembly.Pairing
import Stencil.Proofs.Assembly.Output
import Stencil.Proofs.Render.Renamed
import Stencil.Proofs.Graph.EndTagged
import Stencil.Proofs.Script.EndTagged
import Stencil.Proofs.Render.EndTagged
import Stencil.Proofs.Render.Limited
import Stencil.Proofs.Render.Scoped
import Stencil.Proofs.Template.Progress
import Stencil.Proofs.Template.Selected
import Stencil.Proofs.Scopes
import Stencil.Proofs.Document.Faults
import Stencil.Proofs.Document.Sorted
import Stencil.Proofs.Host.Links
