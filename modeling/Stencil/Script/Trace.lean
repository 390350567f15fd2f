import Stencil.Script.Basic

/-!
# Traces

A record of what a script did to an assembly.

* `Trace.sink` — an assembly that keeps such a record.
-/

namespace Stencil

/-- What happened to an assembly. -/
inductive Event where
  /-- A frame was opened; its request, and the number of open frames then. -/
  | opened (request : Closing) (depth : Nat)
  /-- A piece was put in. -/
  | put (piece : Piece Widget)
  /-- A request was made; the addresses of the open frames then. -/
  | closed (request : Closing) (openAddresses : List String)

/-- An assembly and what has happened to it, last event first. -/
structure Trace (ω : Type) where
  assembly : Assembly ω
  events : List Event

namespace Trace

variable {ω α : Type}

/-- Add an event. -/
def record (trace : Trace ω) (event : Event) (assembly : Assembly ω) : Trace ω :=
  ⟨assembly, event :: trace.events⟩

/-- An assembly that records what a script does to it. -/
def sink (encoding : Encoding ω α) : Sink (Trace ω) where
  openFrame := fun kind name trace =>
    let (request, assembly) := trace.assembly.openFrame kind name
    (request, trace.record (.opened request assembly.depth) assembly)
  put := fun piece trace => trace.record (.put piece) (trace.assembly.put encoding piece)
  closeFrame := fun request trace =>
    let assembly := trace.assembly.closeFrame encoding request
    trace.record (.closed request assembly.openAddresses) assembly
  warn := fun warning trace =>
    { trace with assembly := trace.assembly.warn warning.kind warning.message }

end Trace

end Stencil
