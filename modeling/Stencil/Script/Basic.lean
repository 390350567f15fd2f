import Stencil.Assembly.Basic

/-!
# Scripts

A script tells what a rendering does to its output, step by step, whatever the
output is.  Frames are nested in it, so each is opened, filled and closed by its own
request; only closing tags may close a frame out of turn.

* `Sink` — something that the steps of a script can be done to.
* `Script.run` — the steps of a script done one after the other.
* `Assembly.sink` — an assembly as such a thing.
-/

namespace Stencil

/-- A step of a script. -/
inductive Directive where
  /-- Open a frame, do the steps within it, and close it. -/
  | frame (kind : FrameKind) (name : String) (body : List Directive)
  /-- Put in a piece. -/
  | leaf (piece : Piece Widget)
  /-- Close an element by a tag of its own. -/
  | closingTag (id : Option String) (tag : String)
  /-- Raise a warning. -/
  | warning (warning : Warning)

/-- The steps of a rendering. -/
abbrev Script := List Directive

/-- What the steps of a script do to a state. -/
structure Sink (σ : Type) where
  openFrame : FrameKind → String → σ → Closing × σ
  put : Piece Widget → σ → σ
  closeFrame : Closing → σ → σ
  warn : Warning → σ → σ

mutual
/-- Do a step. -/
def Directive.run {σ : Type} (sink : Sink σ) : Directive → σ → σ
  | .frame kind name body, state =>
      let (request, opened) := sink.openFrame kind name state
      sink.closeFrame request (Script.run sink body opened)
  | .leaf piece, state => sink.put piece state
  | .closingTag id tag, state => sink.closeFrame (.ofTag id tag) state
  | .warning w, state => sink.warn w state
/-- Do the steps of a script. -/
def Script.run {σ : Type} (sink : Sink σ) : List Directive → σ → σ
  | [], state => state
  | step :: rest, state => Script.run sink rest (step.run sink state)
end

theorem Script.run_append {σ : Type} (sink : Sink σ) (first second : Script) (state : σ) :
    Script.run sink (first ++ second) state =
      Script.run sink second (Script.run sink first state) := by
  induction first generalizing state with
  | nil => rfl
  | cons step rest ih => simp [Script.run, ih]

/-- An assembly does what its operations say. -/
def Assembly.sink {ω α : Type} (encoding : Encoding ω α) : Sink (Assembly ω) where
  openFrame := fun kind name assembly => assembly.openFrame kind name
  put := fun piece assembly => assembly.put encoding piece
  closeFrame := fun request assembly => assembly.closeFrame encoding request
  warn := fun warning assembly => assembly.warn warning.kind warning.message

end Stencil
