import Stencil.Assembly.Frame

/-!
# Assemblies

An assembly is output in the making: the frames that are open and the pieces that
are complete.  Frames may be closed in any order.  A close that does not fit the
innermost frame unwinds to the nearest frame that does, and remembers the frames it
closed on the way, so that their own closes do nothing later on.

* `Assembly.openFrame`, `Assembly.put`, `Assembly.closeFrame` — the operations.
* `Assembly.output` — everything closed and the pieces encoded.
* `Encoding` — how pieces are encoded as they come in and as frames are closed.
-/

namespace Stencil

/-- How the pieces of an assembly are encoded. -/
structure Encoding (ω α : Type) where
  /-- A piece as it comes in. -/
  leaf : Piece Widget → Logged (Piece ω)
  /-- The piece of a frame that has been closed. -/
  closed : Piece ω → Piece ω
  /-- The output, from the top-level pieces. -/
  finish : List (Piece ω) → Logged α

/-- Output in the making. -/
structure Assembly (ω : Type) where
  /-- What the addresses of top-level frames start with. -/
  startId : String
  /-- The open frames, innermost first. -/
  stack : List (Frame ω)
  /-- The complete top-level pieces, last one first. -/
  results : List (Piece ω)
  /-- The index of the next top-level frame or piece. -/
  nextIndex : Nat
  /-- The addresses of frames that were closed on behalf of others, and whose own closes are
  still to come. -/
  pending : List String
  log : Log

namespace Assembly

variable {ω α : Type}

/-- An assembly with nothing in it. -/
def start (startId : String) : Assembly ω := ⟨startId, [], [], 0, [], .empty⟩

/-- The number of open frames. -/
def depth (assembly : Assembly ω) : Nat := assembly.stack.length

/-- The addresses of the open frames, outermost first. -/
def openAddresses (assembly : Assembly ω) : List String :=
  (assembly.stack.map Frame.address).reverse

/-- An assembly with one more warning. -/
def warn (assembly : Assembly ω) (kind : WarningKind) (message : String) : Assembly ω :=
  { assembly with log := assembly.log.warn ⟨kind, message⟩ }

/-! ## Opening -/

/-- The address of the next frame. -/
def nextAddress (assembly : Assembly ω) : String :=
  match assembly.stack with
  | frame :: _ => frame.address ++ "." ++ toString frame.nextIndex
  | [] => assembly.startId ++ toString assembly.nextIndex

/-- Use up the next index, of the innermost frame or at top level. -/
def claimIndex (assembly : Assembly ω) : Assembly ω :=
  match assembly.stack with
  | frame :: outer =>
      { assembly with stack := { frame with nextIndex := frame.nextIndex + 1 } :: outer }
  | [] => { assembly with nextIndex := assembly.nextIndex + 1 }

/-- The frame that opens next. -/
def nextFrame (assembly : Assembly ω) (kind : FrameKind) (name : String) : Frame ω :=
  .fresh kind name assembly.nextAddress

/-- Open a frame; the request that closes it, and the assembly with the frame open. -/
def openFrame (assembly : Assembly ω) (kind : FrameKind) (name : String) :
    Closing × Assembly ω :=
  let frame := assembly.nextFrame kind name
  let claimed := assembly.claimIndex
  (frame.closing, { claimed with stack := frame :: claimed.stack })

/-! ## Placing pieces -/

/-- The warning about an attribute that belongs to no start tag. -/
def misplacedMessage (name : String) : String :=
  "attribute '" ++ name ++ "' produced outside of an element start tag"

/-- Put an attribute into the innermost frame if that is an element, and drop it with a
warning otherwise. -/
def placeAttribute (assembly : Assembly ω) (attr : OutputAttribute) : Assembly ω :=
  match assembly.stack with
  | frame :: outer =>
      if frame.kind = .ofElement then
        { assembly with stack := { frame with attributes := attr :: frame.attributes } :: outer }
      else assembly.warn .misplacedAttribute (misplacedMessage attr.name)
  | [] => assembly.warn .misplacedAttribute (misplacedMessage attr.name)

/-- Put a piece behind the children of the innermost frame, or behind the results. -/
def placeChild (assembly : Assembly ω) (piece : Piece ω) : Assembly ω :=
  match assembly.stack with
  | frame :: outer =>
      let children := pushJoined Piece.join? frame.children piece
      { assembly with stack := { frame with children } :: outer }
  | [] => { assembly with results := pushJoined Piece.join? assembly.results piece }

/-- Put a piece where it belongs. -/
def place (assembly : Assembly ω) : Piece ω → Assembly ω
  | .attr attr => assembly.placeAttribute attr
  | piece => assembly.placeChild piece

/-- Put in a piece that is no frame. -/
def put (encoding : Encoding ω α) (assembly : Assembly ω) (piece : Piece Widget) : Assembly ω :=
  let encoded := encoding.leaf piece
  let claimed := assembly.claimIndex
  { claimed with log := claimed.log ++ encoded.log }.place encoded.value

/-! ## Closing -/

/-- Close the innermost frame. -/
def pop (encoding : Encoding ω α) (assembly : Assembly ω) : Assembly ω :=
  match assembly.stack with
  | frame :: outer =>
      { assembly with stack := outer }.place (encoding.closed frame.piece)
  | [] => assembly

/-- Remember that a frame's own close is still to come. -/
def remember (assembly : Assembly ω) (address : String) : Assembly ω :=
  { assembly with pending := assembly.pending.insert address }

/-- Whether a request is the late close of a frame that has been closed already. -/
def isLate (assembly : Assembly ω) (request : Closing) : Bool :=
  match request.address with
  | some address => assembly.pending.contains address
  | none => false

/-- Forget the frame whose late close has come. -/
def forget (assembly : Assembly ω) (request : Closing) : Assembly ω :=
  match request.address with
  | some address => { assembly with pending := assembly.pending.erase address }
  | none => assembly

/-- Put in an empty paragraph. -/
def putParagraph (encoding : Encoding ω α) (assembly : Assembly ω) : Assembly ω :=
  let (request, opened) := assembly.openFrame .ofElement "p"
  if opened.isLate request then opened.forget request else opened.pop encoding

/-- The warning about a request with nothing to close. -/
def strayMessage (request : Closing) : String :=
  "closing " ++ request.kind.name ++ " '" ++ request.name ++ "' at " ++ request.shownAddress ++
    " has no open counterpart"

/-- Close a frame while none is open: the end of a paragraph puts in an empty one, and
anything else is dropped with a warning. -/
def closeNothing (encoding : Encoding ω α) (assembly : Assembly ω) (request : Closing) :
    Assembly ω :=
  if request.isTag "p" then assembly.putParagraph encoding
  else assembly.warn .strayClose (strayMessage request)

/-- The warning about a request that is not for the innermost frame. -/
def mismatchMessage (request : Closing) (top : Frame ω) : String :=
  "closing " ++ request.kind.name ++ " '" ++ request.name ++ "' expected at " ++
    request.shownAddress ++ " but top of stack is '" ++ top.name ++ "' at " ++ top.address

/-- The frames inside the nearest one that fits a request, innermost first. -/
def unfitting (assembly : Assembly ω) (request : Closing) : List (Frame ω) :=
  assembly.stack.takeWhile (!·.fits request)

/-- Close the frames inside the nearest one that fits a request. -/
def unwind (encoding : Encoding ω α) (assembly : Assembly ω) (request : Closing) : Assembly ω :=
  (assembly.unfitting request).foldl
    (fun assembly frame => (assembly.remember frame.address).pop encoding) assembly

/-- Close the innermost frame, which fits a request after unwinding.  Its own close is still
to come unless the request was just that. -/
def closeFitting (encoding : Encoding ω α) (assembly : Assembly ω) (request : Closing)
    (top : Frame ω) : Assembly ω :=
  if request.explicit || request.address != some top.address then
    (assembly.remember top.address).pop encoding
  else assembly.pop encoding

/-- Close a frame that is not the innermost one: unwind to it, and close it. -/
def closeUnwinding (encoding : Encoding ω α) (assembly : Assembly ω) (request : Closing) :
    Assembly ω :=
  let unwound := assembly.unwind encoding request
  match unwound.stack with
  | top :: _ => unwound.closeFitting encoding request top
  | [] => unwound.closeNothing encoding request

/-- Close the frame that a request is for. -/
def closeFrame (encoding : Encoding ω α) (assembly : Assembly ω) (request : Closing) :
    Assembly ω :=
  if assembly.isLate request then assembly.forget request
  else
    match assembly.stack with
    | [] => assembly.closeNothing encoding request
    | top :: _ =>
        if top.isMeantBy request then
          if request.explicit then (assembly.remember top.address).pop encoding
          else assembly.pop encoding
        else
          (assembly.warn .tagMismatch (mismatchMessage request top)).closeUnwinding encoding
            request

/-! ## Output -/

/-- Close a frame by its own request, and in any case. -/
def closeForced (encoding : Encoding ω α) (assembly : Assembly ω) (frame : Frame ω) :
    Assembly ω :=
  let closed := assembly.closeFrame encoding frame.closing
  if assembly.depth ≤ closed.depth then closed.pop encoding else closed

/-- Close all frames, innermost first. -/
def closeAll (encoding : Encoding ω α) (assembly : Assembly ω) : Assembly ω :=
  assembly.stack.foldl (closeForced encoding) assembly

/-- The assembly as it was at the start, with its log kept. -/
def clear (assembly : Assembly ω) : Assembly ω :=
  { start assembly.startId with log := assembly.log }

/-- Close all frames and encode the top-level pieces; the assembly is empty afterwards. -/
def output (encoding : Encoding ω α) (assembly : Assembly ω) : α × Assembly ω :=
  let closed := assembly.closeAll encoding
  let finished := encoding.finish closed.results.reverse
  (finished.value, { closed.clear with log := closed.log ++ finished.log })

end Assembly

end Stencil
