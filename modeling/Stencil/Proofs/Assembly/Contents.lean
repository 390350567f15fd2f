import Stencil.Assembly.Encodings

/-!
# What an assembly holds

The contents of an assembly are its open frames and its complete pieces, with the
counts of what has begun in them left out.  Raising a warning or using up an index
leaves the contents as they are, and placing a piece acts on the contents alone.

* `Assembly.contents_place`, `Assembly.contents_openFrame`, `Assembly.contents_pop` —
  what the operations do to the contents.
* `Frame.piece_receiveAll_fresh` — a frame into which pieces were put one after the other.
-/

namespace Stencil

variable {ω α : Type}

/-! ## Frames and the pieces they receive -/

namespace Frame

/-- The frame without the count of what has begun in it. -/
def unnumbered (frame : Frame ω) : Frame ω := { frame with nextIndex := 0 }

/-- The frame with one more piece: an attribute of an element goes to its attributes, and
an attribute of any other frame is dropped. -/
def receive (frame : Frame ω) : Piece ω → Frame ω
  | .attr attr =>
      if frame.kind = .ofElement then { frame with attributes := attr :: frame.attributes }
      else frame
  | piece => { frame with children := pushJoined Piece.join? frame.children piece }

/-- The frame with pieces put in one after the other. -/
def receiveAll (frame : Frame ω) (pieces : List (Piece ω)) : Frame ω :=
  pieces.foldl receive frame

@[simp] theorem piece_unnumbered (frame : Frame ω) : frame.unnumbered.piece = frame.piece := rfl

@[simp] theorem kind_unnumbered (frame : Frame ω) : frame.unnumbered.kind = frame.kind := rfl

@[simp] theorem closing_unnumbered (frame : Frame ω) :
    frame.unnumbered.closing = frame.closing := rfl

theorem unnumbered_receive (frame : Frame ω) (piece : Piece ω) :
    (frame.receive piece).unnumbered = frame.unnumbered.receive piece := by
  cases piece with
  | attr attr =>
    by_cases hkind : frame.kind = .ofElement
    · rw [receive, receive, if_pos hkind, kind_unnumbered, if_pos hkind]
      rfl
    · rw [receive, receive, if_neg hkind, kind_unnumbered, if_neg hkind]
  | _ => rfl

end Frame

/-! ## Contents -/

/-- The open frames, innermost first and without their counts, and the complete pieces,
last one first. -/
structure Contents (ω : Type) where
  stack : List (Frame ω)
  results : List (Piece ω)

/-- Put a piece where it belongs; an attribute that belongs nowhere is dropped. -/
def Contents.place (contents : Contents ω) (piece : Piece ω) : Contents ω :=
  match contents.stack, piece with
  | frame :: outer, piece => { contents with stack := frame.receive piece :: outer }
  | [], .attr _ => contents
  | [], piece => { contents with results := pushJoined Piece.join? contents.results piece }

/-- Put pieces in one after the other. -/
def Contents.placeAll (contents : Contents ω) (pieces : List (Piece ω)) : Contents ω :=
  pieces.foldl Contents.place contents

theorem Contents.placeAll_append (contents : Contents ω) (first second : List (Piece ω)) :
    contents.placeAll (first ++ second) = (contents.placeAll first).placeAll second := by
  rw [placeAll, placeAll, placeAll, List.foldl_append]

/-- Within an open frame, pieces reach that frame only. -/
theorem Contents.placeAll_cons (frame : Frame ω) (outer : List (Frame ω))
    (results pieces : List (Piece ω)) :
    (Contents.mk (frame :: outer) results).placeAll pieces =
      ⟨frame.receiveAll pieces :: outer, results⟩ := by
  induction pieces generalizing frame with
  | nil => rfl
  | cons piece rest ih => exact ih (frame.receive piece)

namespace Assembly

/-- What an assembly holds. -/
def contents (assembly : Assembly ω) : Contents ω :=
  ⟨assembly.stack.map Frame.unnumbered, assembly.results⟩

@[simp] theorem contents_forget (assembly : Assembly ω) (request : Closing) :
    (assembly.forget request).contents = assembly.contents := by
  unfold forget
  split <;> rfl

@[simp] theorem contents_claimIndex (assembly : Assembly ω) :
    assembly.claimIndex.contents = assembly.contents := by
  unfold claimIndex
  split
  · rename_i frame outer hstack
    simp only [contents, hstack, List.map_cons]
    rfl
  · rfl

theorem contents_placeAttribute (assembly : Assembly ω) (attr : OutputAttribute) :
    (assembly.placeAttribute attr).contents = assembly.contents.place (.attr attr) := by
  unfold placeAttribute
  cases hstack : assembly.stack with
  | nil => simp [contents, Contents.place, warn, hstack]
  | cons frame outer =>
    simp only [contents, hstack, List.map_cons, Contents.place, ← Frame.unnumbered_receive]
    by_cases hkind : frame.kind = .ofElement
    · rw [if_pos hkind, Frame.receive, if_pos hkind]
      rfl
    · rw [if_neg hkind, Frame.receive, if_neg hkind]
      simp only [warn, hstack, List.map_cons]

theorem contents_placeChild (assembly : Assembly ω) (piece : Piece ω)
    (hpiece : ∀ attr, piece ≠ .attr attr) :
    (assembly.placeChild piece).contents = assembly.contents.place piece := by
  unfold placeChild
  cases hstack : assembly.stack with
  | nil =>
    simp only [contents, hstack, List.map_nil, Contents.place]
  | cons frame outer =>
    cases piece with
    | attr attr => exact absurd rfl (hpiece attr)
    | _ => simp [contents, hstack, Contents.place, Frame.receive, Frame.unnumbered]

theorem contents_place (assembly : Assembly ω) (piece : Piece ω) :
    (assembly.place piece).contents = assembly.contents.place piece := by
  cases piece with
  | attr attr => exact contents_placeAttribute assembly attr
  | _ => exact contents_placeChild assembly _ (by simp)

theorem contents_openFrame (assembly : Assembly ω) (kind : FrameKind) (name : String) :
    (assembly.openFrame kind name).2.contents =
      ⟨.fresh kind name assembly.nextAddress :: assembly.contents.stack,
        assembly.contents.results⟩ := by
  have hclaim := contents_claimIndex assembly
  rw [← hclaim]
  rfl

theorem contents_put (encoding : Encoding ω α) (assembly : Assembly ω) (piece : Piece Widget) :
    (assembly.put encoding piece).contents =
      assembly.contents.place (encoding.leaf piece).value := by
  rw [put, contents_place]
  exact congrArg (Contents.place · _) (contents_claimIndex assembly)

theorem contents_pop (encoding : Encoding ω α) {assembly : Assembly ω} {frame : Frame ω}
    {outer : List (Frame ω)} (hstack : assembly.stack = frame :: outer) :
    (assembly.pop encoding).contents =
      (Contents.mk (outer.map Frame.unnumbered) assembly.results).place
        (encoding.closed frame.piece) := by
  rw [pop, hstack]
  exact contents_place _ _

end Assembly

/-- The encoding keeps pieces as they are until the end. -/
structure Encoding.Keeps (encoding : Encoding Widget α) : Prop where
  leaf : ∀ piece, encoding.leaf piece = pure piece
  closed : ∀ piece, encoding.closed piece = piece

theorem Encoding.keeps_tree : Encoding.tree.Keeps := ⟨fun _ => rfl, fun _ => rfl⟩

theorem Encoding.keeps_fragment (render : Widget → Logged (List Dom.Node)) :
    (Encoding.fragment render).Keeps := ⟨fun _ => rfl, fun _ => rfl⟩

/-! ## Frames filled from scratch -/

/-- The attribute that a piece is on its way to be, if it is one. -/
def Piece.attribute? : Piece ω → Option OutputAttribute
  | .attr a => some a
  | _ => none

/-- The pieces that are no attributes. -/
def Piece.children (pieces : List (Piece ω)) : List (Piece ω) :=
  pieces.filter (·.attribute?.isNone)

/-- The attributes among pieces. -/
def Piece.attributes (pieces : List (Piece ω)) : List OutputAttribute :=
  pieces.filterMap Piece.attribute?

theorem Piece.attributes_append (first second : List (Piece ω)) :
    attributes (first ++ second) = attributes first ++ attributes second :=
  List.filterMap_append

namespace Frame

theorem closing_receive (frame : Frame ω) (piece : Piece ω) :
    (frame.receive piece).closing = frame.closing := by
  cases piece with
  | attr attr =>
    rw [receive]
    split <;> rfl
  | _ => rfl

/-- Receiving pieces changes neither the address of a frame nor its kind and name. -/
theorem closing_receiveAll (frame : Frame ω) (pieces : List (Piece ω)) :
    (frame.receiveAll pieces).closing = frame.closing := by
  induction pieces generalizing frame with
  | nil => rfl
  | cons piece rest ih => exact (ih _).trans (closing_receive frame piece)

/-- The children of a frame after pieces were put in. -/
theorem children_receiveAll (frame : Frame ω) (pieces : List (Piece ω)) :
    (frame.receiveAll pieces).children =
      pushAllJoined Piece.join? frame.children (Piece.children pieces) := by
  induction pieces generalizing frame with
  | nil => rfl
  | cons piece rest ih =>
    rw [receiveAll, List.foldl_cons, ← receiveAll, ih]
    cases piece with
    | attr attr =>
      have hchildren : (frame.receive (.attr attr)).children = frame.children := by
        rw [receive]
        split <;> rfl
      rw [hchildren]
      rfl
    | _ => rfl

/-- The attributes of an element after pieces were put in. -/
theorem attributes_receiveAll (frame : Frame ω) (hkind : frame.kind = .ofElement)
    (pieces : List (Piece ω)) :
    (frame.receiveAll pieces).attributes =
      (Piece.attributes pieces).reverse ++ frame.attributes := by
  induction pieces generalizing frame with
  | nil => rfl
  | cons piece rest ih =>
    rw [receiveAll, List.foldl_cons, ← receiveAll]
    cases piece with
    | attr attr =>
      have hreceive : frame.receive (.attr attr) =
          { frame with attributes := attr :: frame.attributes } := by
        rw [receive, if_pos hkind]
      rw [hreceive, ih _ (by exact hkind)]
      simp [Piece.attributes, Piece.attribute?]
    | _ => exact ih _ hkind

end Frame

/-- With no frame open, pieces reach the results, and attributes are dropped. -/
theorem Contents.placeAll_nil (results pieces : List (Piece ω)) :
    (Contents.mk [] results).placeAll pieces =
      ⟨[], pushAllJoined Piece.join? results (Piece.children pieces)⟩ := by
  induction pieces generalizing results with
  | nil => rfl
  | cons piece rest ih =>
    rw [placeAll, List.foldl_cons, ← placeAll]
    cases piece with
    | attr attr => exact ih results
    | _ => exact ih (pushJoined Piece.join? results _)

/-- The list that the children among pieces grow into. -/
def Piece.joined (pieces : List (Piece ω)) : List (Piece ω) :=
  joinNeighbours Piece.join? (Piece.children pieces)

/-- The piece that a frame becomes if pieces were put into it and nothing else. -/
def Piece.ofFrame (kind : FrameKind) (name : String) (pieces : List (Piece ω)) : Piece ω :=
  match kind with
  | .ofElement => .element name (Piece.attributes pieces) (childrenOf (Piece.joined pieces))
  | .ofAttribute => .attr ⟨name, Frame.attributeValue (Piece.joined pieces)⟩
  | .ofSection => .block .ofSection (childrenOf (Piece.joined pieces))
  | .ofPartial => .block (.ofPartial name) (childrenOf (Piece.joined pieces))

/-- A frame that was opened and filled becomes the piece of what was put into it. -/
theorem Frame.piece_receiveAll_fresh (kind : FrameKind) (name address : String)
    (pieces : List (Piece ω)) :
    ((Frame.fresh kind name address).receiveAll pieces).piece =
      Piece.ofFrame kind name pieces := by
  have hclosing := Frame.closing_receiveAll (Frame.fresh kind name address) pieces
  have hname : ((Frame.fresh kind name address).receiveAll pieces).name = name :=
    congrArg Closing.name hclosing
  have hkind : ((Frame.fresh kind name address).receiveAll pieces).kind = kind :=
    congrArg Closing.kind hclosing
  have hchildren := Frame.children_receiveAll (Frame.fresh kind name address) pieces
  have hjoined : ((Frame.fresh kind name address).receiveAll pieces).children.reverse =
      Piece.joined pieces := by
    rw [hchildren]
    rfl
  unfold Frame.piece Piece.ofFrame
  rw [hkind, hname, hjoined]
  cases kind with
  | ofElement =>
    rw [Frame.attributes_receiveAll _ rfl]
    simp [Frame.fresh]
  | ofAttribute => rfl
  | ofSection => rfl
  | ofPartial => rfl

end Stencil
