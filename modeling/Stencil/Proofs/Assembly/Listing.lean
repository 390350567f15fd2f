import Stencil.Proofs.Assembly.Tidy
import Stencil.Proofs.Piece.Listing

/-!
# Nothing is lost, repeated or put out of order

Frames and pieces appear in the output in the order in which they were begun.  Closes of any
kind, and however many frames they unwind, only decide how deep a frame or a piece stands; and
the only thing that comes on top is an empty paragraph, at the moment at which one is closed
that is not open.

* `Contents.listing` — what an assembly holds, listed in pre-order.
* `Operation.chronology` — what operations begin, listed in the order of the operations.
* `Operation.listing_output` — the two are the same.
-/

namespace Stencil

variable {ω α : Type}

/-! ## What is held, listed -/

/-- A frame as it stands, without its children, as a piece. -/
def Frame.heading (frame : Frame ω) : Piece ω := { frame with children := [] }.piece

/-- The entries of an open frame: the frame itself, and those of its children. -/
def Frame.listing (frame : Frame ω) : List (Piece ω) :=
  frame.heading :: Piece.listingAll frame.children.reverse

/-- A closed frame has the entries that it had when it was open. -/
theorem Frame.listing_piece {frame : Frame ω} (hkind : frame.kind ≠ .ofAttribute) :
    frame.piece.listing = frame.listing := by
  obtain ⟨kind, name, address, attributes, children, nextIndex⟩ := frame
  cases kind with
  | ofElement => exact Piece.listing_element _ _ _
  | ofAttribute => exact absurd rfl hkind
  | ofSection => exact Piece.listing_block _ _
  | ofPartial => exact Piece.listing_block _ _

namespace Contents

/-- The entries of the complete pieces, and those of the open frames behind them. -/
def listing (contents : Contents ω) : List (Piece ω) :=
  Piece.listingAll contents.results.reverse ++ contents.stack.reverse.flatMap Frame.listing

/-- No attribute is open. -/
def OutsideAttributes (contents : Contents ω) : Prop :=
  ∀ frame ∈ contents.stack, frame.kind ≠ .ofAttribute

variable {contents : Contents ω} {piece : Piece ω}

theorem listing_cons (frame : Frame ω) (outer : List (Frame ω)) (results : List (Piece ω)) :
    listing ⟨frame :: outer, results⟩ = listing ⟨outer, results⟩ ++ frame.listing := by
  simp [listing]

/-- A piece that is put in comes behind all others. -/
theorem sameRuns_place (contents : Contents ω) (hpiece : piece.attribute? = none) :
    Piece.SameRuns (contents.place piece).listing (contents.listing ++ piece.listing) := by
  obtain ⟨stack, results⟩ := contents
  cases stack with
  | nil =>
    have hplace : place ⟨[], results⟩ piece = ⟨[], pushJoined Piece.join? results piece⟩ := by
      cases piece with
      | attr attr => cases hpiece
      | _ => rfl
    rw [hplace]
    simp only [listing, List.reverse_nil, List.flatMap_nil, List.append_nil]
    exact Piece.sameRuns_pushJoined results piece
  | cons frame outer =>
    have hplace : place ⟨frame :: outer, results⟩ piece =
        ⟨{ frame with children := pushJoined Piece.join? frame.children piece } :: outer,
          results⟩ := by
      cases piece with
      | attr attr => cases hpiece
      | _ => rfl
    have hchildren := (Piece.SameRuns.refl [frame.heading]).append
      (Piece.sameRuns_pushJoined frame.children piece)
    rw [hplace, listing_cons, listing_cons, List.append_assoc]
    exact (Piece.SameRuns.refl _).append hchildren

theorem OutsideAttributes.place (h : contents.OutsideAttributes)
    (hpiece : piece.attribute? = none) : (contents.place piece).OutsideAttributes := by
  obtain ⟨stack, results⟩ := contents
  cases stack with
  | nil =>
    cases piece with
    | attr attr => cases hpiece
    | _ => exact h
  | cons frame outer =>
    have hkind : (frame.receive piece).kind = frame.kind :=
      congrArg Closing.kind (Frame.closing_receive frame piece)
    intro other hother
    rcases List.mem_cons.mp hother with rfl | houter
    · rw [hkind]
      exact h frame List.mem_cons_self
    · exact h other (List.mem_cons_of_mem _ houter)

variable {encoding : Encoding Widget α} {contents : Contents Widget}

/-- Closing the innermost frame leaves all entries where they are. -/
theorem sameRuns_pop (keeps : encoding.Keeps) (h : contents.OutsideAttributes) :
    Piece.SameRuns (contents.pop encoding).listing contents.listing ∧
      (contents.pop encoding).OutsideAttributes := by
  obtain ⟨stack, results⟩ := contents
  cases stack with
  | nil => exact ⟨.refl _, h⟩
  | cons frame outer =>
    have hkind := h frame List.mem_cons_self
    have houter : OutsideAttributes ⟨outer, results⟩ :=
      fun other hother => h other (List.mem_cons_of_mem _ hother)
    have hpiece : frame.piece.attribute? = none := by
      obtain ⟨kind, name, address, attributes, children, nextIndex⟩ := frame
      cases kind with
      | ofAttribute => exact absurd rfl hkind
      | _ => rfl
    simp only [pop, keeps.closed]
    refine ⟨?_, houter.place hpiece⟩
    rw [listing_cons, ← Frame.listing_piece hkind]
    exact sameRuns_place _ hpiece

/-- So does closing any number of the innermost frames. -/
theorem sameRuns_iterate_pop (keeps : encoding.Keeps) (h : contents.OutsideAttributes)
    (count : Nat) :
    Piece.SameRuns ((pop encoding)^[count] contents).listing contents.listing ∧
      ((pop encoding)^[count] contents).OutsideAttributes := by
  induction count generalizing contents with
  | zero => exact ⟨.refl _, h⟩
  | succ count ih =>
    obtain ⟨hpop, houtside⟩ := sameRuns_pop keeps h
    obtain ⟨hrest, houtside'⟩ := ih houtside
    exact ⟨hrest.trans hpop, houtside'⟩

end Contents

/-! ## What operations begin, listed -/

namespace Operation

/-- Whether an operation leaves entries: it is not about attributes, which leave none. -/
def isListed : Operation → Bool
  | .openFrame kind _ => kind != .ofAttribute
  | .put piece => piece.attribute?.isNone
  | .closeFrame _ => true

/-- The entries of what an operation begins: a frame, a piece, or an empty paragraph. -/
def entries (assembly : Assembly ω) : Operation → List (Piece Widget)
  | .openFrame kind name => [Piece.ofFrame kind name []]
  | .put piece => piece.listing
  | .closeFrame request =>
      if assembly.bringsParagraph request then [Piece.ofFrame .ofElement "p" []] else []

/-- The entries of what operations begin, in the order of the operations. -/
def chronology (encoding : Encoding ω α) :
    List Operation → Assembly ω → List (Piece Widget)
  | [], _ => []
  | operation :: rest, assembly =>
      operation.entries assembly ++
        chronology encoding rest (operation.apply encoding assembly).2

variable {encoding : Encoding Widget α} {assembly : Assembly Widget} {path : List Nat}

/-- A frame that is opened comes behind all others. -/
theorem listing_openFrame (assembly : Assembly Widget) (kind : FrameKind) (name : String) :
    (assembly.openFrame kind name).2.contents.listing =
      assembly.contents.listing ++ [Piece.ofFrame kind name []] := by
  rw [Assembly.contents_openFrame, Contents.listing_cons]
  cases kind <;> rfl

theorem outsideAttributes_openFrame (h : assembly.contents.OutsideAttributes) {kind : FrameKind}
    (hkind : kind ≠ .ofAttribute) (name : String) :
    (assembly.openFrame kind name).2.contents.OutsideAttributes := by
  rw [Assembly.contents_openFrame]
  intro frame hframe
  rcases List.mem_cons.mp hframe with rfl | houter
  · exact hkind
  · exact h frame houter

/-- A close request adds no entry but that of an empty paragraph. -/
theorem sameRuns_closeFrame (keeps : encoding.Keeps) (h : assembly.Tidy path)
    (houtside : assembly.contents.OutsideAttributes) (request : Closing) :
    Piece.SameRuns (assembly.closeFrame encoding request).contents.listing
        (assembly.contents.listing ++ entries assembly (.closeFrame request)) ∧
      (assembly.closeFrame encoding request).contents.OutsideAttributes := by
  have heffect := h.closeFrame_effect encoding request
  generalize assembly.closeFrame encoding request = after at heffect
  cases heffect with
  | closed count hparagraph hcloses =>
    have hentries : entries assembly (.closeFrame request) = [] := by
      rw [entries, hparagraph]
      rfl
    rw [hentries, List.append_nil, hcloses.contents]
    exact Contents.sameRuns_iterate_pop keeps houtside count
  | @paragraph emptied hparagraph hcloses =>
    have hentries : entries assembly (.closeFrame request) =
        [Piece.ofFrame .ofElement "p" []] := by
      rw [entries, hparagraph]
      rfl
    obtain ⟨hemptied, houtside'⟩ :=
      Contents.sameRuns_iterate_pop keeps houtside assembly.depth
    rw [← hcloses.contents] at hemptied houtside'
    have hkind : FrameKind.ofElement ≠ .ofAttribute := by decide
    have hopened := outsideAttributes_openFrame houtside' hkind "p"
    obtain ⟨hpop, houtside''⟩ := Contents.sameRuns_pop keeps hopened
    rw [Assembly.contents_pop_eq, hentries]
    refine ⟨hpop.trans ?_, houtside''⟩
    rw [listing_openFrame]
    exact hemptied.append (.refl _)

/-- An operation adds the entries of what it begins behind all others. -/
theorem sameRuns_apply (keeps : encoding.Keeps) (h : assembly.Tidy path)
    (houtside : assembly.contents.OutsideAttributes) (operation : Operation)
    (hlisted : operation.isListed = true) :
    Piece.SameRuns (operation.apply encoding assembly).2.contents.listing
        (assembly.contents.listing ++ operation.entries assembly) ∧
      (operation.apply encoding assembly).2.contents.OutsideAttributes := by
  cases operation with
  | openFrame kind name =>
    have hkind : kind ≠ .ofAttribute := by simpa [isListed] using hlisted
    have hlisting := listing_openFrame assembly kind name
    exact ⟨hlisting ▸ .refl _, outsideAttributes_openFrame houtside hkind name⟩
  | put piece =>
    have hpiece : piece.attribute? = none := by simpa [isListed] using hlisted
    have hput : (assembly.put encoding piece).contents = assembly.contents.place piece := by
      rw [Assembly.contents_put, keeps.leaf]
      rfl
    simp only [apply, hput]
    exact ⟨assembly.contents.sameRuns_place hpiece, houtside.place hpiece⟩
  | closeFrame request => exact sameRuns_closeFrame keeps h houtside request

/-- Operations add the entries of what they begin, one after the other. -/
theorem sameRuns_run (keeps : encoding.Keeps) (operations : List Operation)
    (hlisted : operations.all isListed = true) (h : assembly.Tidy path)
    (houtside : assembly.contents.OutsideAttributes) :
    Piece.SameRuns (run encoding operations assembly).contents.listing
        (assembly.contents.listing ++ chronology encoding operations assembly) ∧
      (run encoding operations assembly).contents.OutsideAttributes ∧
      ∃ path', (run encoding operations assembly).Tidy path' := by
  induction operations generalizing assembly path with
  | nil =>
    rw [chronology, List.append_nil]
    exact ⟨.refl _, houtside, path, h⟩
  | cons operation rest ih =>
    rw [List.all_cons, Bool.and_eq_true] at hlisted
    obtain ⟨hfirst, houtside'⟩ := sameRuns_apply keeps h houtside operation hlisted.1
    obtain ⟨path', hafter⟩ := h.apply encoding operation
    obtain ⟨hrest, hlast⟩ := ih hlisted.2 hafter houtside'
    refine ⟨hrest.trans ?_, hlast⟩
    rw [chronology, ← List.append_assoc]
    exact hfirst.append (.refl _)

/-- The output has the entries that are there once all frames are closed. -/
theorem listing_pieces_output {assembly : Assembly Widget}
    (hclosed : (assembly.closeAll .tree).stack = []) :
    Piece.listingAll (assembly.output .tree).1.pieces =
      (assembly.closeAll .tree).contents.listing := by
  have hpieces : (assembly.output .tree).1.pieces = (assembly.closeAll .tree).results.reverse :=
    Tree.pieces_ofPieces _
  rw [hpieces, Contents.listing, Assembly.contents, hclosed, List.map_nil, List.reverse_nil,
    List.flatMap_nil, List.append_nil]

/-- The output, listed in pre-order, has the entries of what the operations began, in their
order.  In both listings, runs of text are joined, and runs of markup. -/
theorem listing_output (startId : String) (operations : List Operation)
    (hlisted : operations.all isListed = true) :
    Piece.merged (Piece.listingAll
        ((run .tree operations (.start startId)).output .tree).1.pieces) =
      Piece.merged (chronology .tree operations (.start startId)) := by
  have hkeeps : Encoding.tree.Keeps := ⟨fun _ => rfl, fun _ => rfl⟩
  obtain ⟨hrun, houtside, path, htidy⟩ := sameRuns_run hkeeps operations hlisted
    (Assembly.tidy_start startId) (fun _ hframe => absurd hframe List.not_mem_nil)
  have hcloses := htidy.closeAll_closes .tree
  obtain ⟨hclosed, -⟩ := Contents.sameRuns_iterate_pop hkeeps houtside
    (run .tree operations (.start startId)).depth
  rw [listing_pieces_output hcloses.stack_eq_nil, hcloses.contents]
  exact (hclosed.trans hrun).merged_eq

/-- Frames closed by tags of others and by the ends of paragraphs, or left open. -/
def unwoundOperations : List Operation :=
  [.openFrame .ofElement "div", .put (.text "a"), .openFrame .ofSection "items",
    .put (.text "b"), .openFrame .ofElement "b", .put (.raw "<i>"),
    .closeFrame (.ofTag none "DIV"), .closeFrame ⟨some "0.1", .ofSection, "items", false⟩,
    .put (.text "c"), .put (.text "d"), .closeFrame (.ofTag none "P"),
    .openFrame .ofElement "ul", .put (.comment "x"), .closeFrame (.ofTag (some "7") "p"),
    .openFrame .ofPartial "menu", .put (.text "e")]

theorem listing_unwoundOperations :
    unwoundOperations.all isListed = true ∧
      Piece.merged (Piece.listingAll
          ((run .tree unwoundOperations (.start "")).output .tree).1.pieces) =
        [.element "div" [] none, .text "a", .block .ofSection none, .text "b",
          .element "b" [] none, .raw "<i>", .text "cd", .element "p" [] none,
          .element "ul" [] none, .comment "x", .element "p" [] none,
          .block (.ofPartial "menu") none, .text "e"] := by
  have hlisted : unwoundOperations.all isListed = true := by decide
  refine ⟨hlisted, (listing_output "" unwoundOperations hlisted).trans ?_⟩
  rfl

end Operation

end Stencil
