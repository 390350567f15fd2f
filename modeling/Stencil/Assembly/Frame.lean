import Stencil.Piece.Basic

/-!
# Frames

A frame is an element, an attribute, a section or a partial that has been opened
and not closed yet.  It has an address, gathers attributes and children, and
becomes a piece when it is closed.

* `Closing` — a request to close a frame.
* `Frame.fits` — the frame is of the kind and name that a request gives.
* `Frame.piece` — what a frame becomes.
-/

namespace Stencil

/-- What a frame is. -/
inductive FrameKind where
  | ofElement
  | ofAttribute
  | ofSection
  | ofPartial
  deriving DecidableEq, Repr

/-- The name of a kind of frame. -/
def FrameKind.name : FrameKind → String
  | .ofElement => "element"
  | .ofAttribute => "attribute"
  | .ofSection => "section"
  | .ofPartial => "partial"

/-- A request to close a frame. -/
structure Closing where
  /-- The address of the frame, if it is known. -/
  address : Option String
  kind : FrameKind
  /-- The tag, the name of the attribute or partial, or the path of the section. -/
  name : String
  /-- Whether the request is a closing tag of its own, so that the frame's own request is
  still to come. -/
  explicit : Bool
  deriving DecidableEq, Repr

namespace Closing

/-- The request of a closing tag. -/
def ofTag (address : Option String) (tag : String) : Closing :=
  ⟨address, .ofElement, tag, true⟩

/-- Whether a request is for an element with a tag. -/
def isTag (closing : Closing) (tag : String) : Bool :=
  closing.kind == .ofElement && Text.sameName closing.name tag

/-- The address of a request as messages show it. -/
def shownAddress (closing : Closing) : String := closing.address.getD "<unknown>"

end Closing

/-- An open frame.  Attributes and children are kept last one first. -/
structure Frame (ω : Type) where
  kind : FrameKind
  name : String
  address : String
  attributes : List OutputAttribute
  children : List (Piece ω)
  /-- The index of the next frame or piece that begins within the frame. -/
  nextIndex : Nat

namespace Frame

variable {ω : Type}

/-- A frame that has just been opened. -/
def fresh (kind : FrameKind) (name address : String) : Frame ω :=
  ⟨kind, name, address, [], [], 0⟩

/-- The request that closes the frame. -/
def closing (frame : Frame ω) : Closing :=
  ⟨some frame.address, frame.kind, frame.name, false⟩

/-- Whether the frame is of the kind of a request and has its name, but for the case of
letters. -/
def fits (frame : Frame ω) (request : Closing) : Bool :=
  frame.kind == request.kind && Text.sameName frame.name request.name

/-- Whether a request is for this very frame: it has the frame's address, or no address and
fits. -/
def isMeantBy (frame : Frame ω) (request : Closing) : Bool :=
  match request.address with
  | some address => address == frame.address
  | none => frame.fits request

/-- The value of an attribute with contents: none if there are no contents. -/
def attributeValue (children : List (Piece ω)) : Option String :=
  (childrenOf children).map Piece.textContents

/-- The piece that a frame becomes when it is closed. -/
def piece (frame : Frame ω) : Piece ω :=
  let children := frame.children.reverse
  match frame.kind with
  | .ofElement => .element frame.name frame.attributes.reverse (childrenOf children)
  | .ofAttribute => .attr ⟨frame.name, attributeValue children⟩
  | .ofSection => .block .ofSection (childrenOf children)
  | .ofPartial => .block (.ofPartial frame.name) (childrenOf children)

end Frame

end Stencil
