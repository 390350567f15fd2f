import Stencil.Assembly.Encodings
import Stencil.Proofs.Assembly.Parallel
import Stencil.Proofs.Piece.Markup

/-!
# Markup and trees grow alike

The same operations on output in the making open and close the same frames, whether
the output is a tree or markup.  What the frames hold differs: a tree keeps pieces as
they are, and markup writes elements and comments as soon as they are complete.  But
what will be read of it stays the same, which is the text of pieces within an attribute
and their markup everywhere else.

* `Piece.Alike`, `Frame.Alike`, `Assembly.Alike` — a tree and markup at the same point.
* `Assembly.Alike.openFrame`, `Assembly.Alike.put`, `Assembly.Alike.closeFrame`,
  `Assembly.Alike.closeAll` — each operation keeps them alike.
-/

namespace Stencil

/-! ## What counts of the pieces in a frame -/

/-- Whether the innermost of some frames is that of an attribute, or within one. -/
def Frame.withinAttribute {ω : Type} (stack : List (Frame ω)) : Bool :=
  stack.any (·.kind == .ofAttribute)

/-- What is read of a piece: its text within an attribute, and its markup elsewhere. -/
def Piece.counted {ω : Type} (voids : List String) (hole : ω → String) (inAttribute : Bool)
    (piece : Piece ω) : String :=
  if inAttribute then piece.textContent else piece.markup voids hole

theorem Piece.additive_counted {ω : Type} (voids : List String) (hole : ω → String)
    (inAttribute : Bool) :
    Additive join? (· ++ ·) "" (counted voids hole inAttribute) := by
  cases inAttribute with
  | true => exact additive_textContent
  | false => exact additive_markup voids hole

/-- Of a block the same is read as of its children. -/
theorem Piece.counted_block {ω : Type} (voids : List String) (hole : ω → String)
    (inAttribute : Bool) (kind : BlockKind) (children : List (Piece ω)) :
    (Piece.block kind (childrenOf children)).counted voids hole inAttribute =
      total (· ++ ·) "" (counted voids hole inAttribute) children := by
  cases inAttribute with
  | true => exact (textContent_block kind children).trans (textContents_eq_total children)
  | false =>
    exact (markup_block voids hole kind children).trans (markupAll_eq_total voids hole children)

/-- The value of an attribute shows of its children only their text, and whether there are
any. -/
theorem Frame.attributeValue_congr {ω ψ : Type} {children : List (Piece ω)}
    {children' : List (Piece ψ)} (hnil : children = [] ↔ children' = [])
    (htext : Piece.textContents children = Piece.textContents children') :
    attributeValue children = attributeValue children' := by
  cases children with
  | nil =>
    have hnil' : children' = [] := hnil.mp rfl
    rw [hnil']
    rfl
  | cons first rest =>
    cases children' with
    | nil => exact absurd (hnil.mpr rfl) (List.cons_ne_nil _ _)
    | cons first' rest' =>
      rw [attributeValue, attributeValue, childrenOf_cons, childrenOf_cons, Option.map_some,
        Option.map_some, htext]

variable {voids : List String} {hole : Widget → String}

/-- A piece of a tree and one of markup that go to the same place and count the same. -/
inductive Piece.Alike (voids : List String) (hole : Widget → String) (inAttribute : Bool) :
    Piece Widget → Piece Empty → Prop
  | attr (attr : OutputAttribute) : Alike voids hole inAttribute (.attr attr) (.attr attr)
  | child {grown : Piece Widget} {written : Piece Empty} (hgrown : ∀ attr, grown ≠ .attr attr)
      (hwritten : ∀ attr, written ≠ .attr attr)
      (hcounted : grown.counted voids hole inAttribute =
        written.counted voids Empty.elim inAttribute) :
      Alike voids hole inAttribute grown written

/-- Pieces of a tree and of markup, last one first, of which the same is read. -/
structure Piece.AllAlike (voids : List String) (hole : Widget → String) (inAttribute : Bool)
    (grown : List (Piece Widget)) (written : List (Piece Empty)) : Prop where
  nil : grown = [] ↔ written = []
  counted : total (· ++ ·) "" (Piece.counted voids hole inAttribute) grown.reverse =
    total (· ++ ·) "" (Piece.counted voids Empty.elim inAttribute) written.reverse

theorem Piece.AllAlike.push {inAttribute : Bool} {grown : List (Piece Widget)}
    {written : List (Piece Empty)} (h : AllAlike voids hole inAttribute grown written)
    {piece : Piece Widget} {piece' : Piece Empty}
    (hcounted : piece.counted voids hole inAttribute =
      piece'.counted voids Empty.elim inAttribute) :
    AllAlike voids hole inAttribute (pushJoined join? grown piece)
      (pushJoined join? written piece') where
  nil := iff_of_false (pushJoined_ne_nil join? grown piece) (pushJoined_ne_nil join? written piece')
  counted := by
    rw [(additive_counted voids hole inAttribute).total_pushJoined,
      (additive_counted voids Empty.elim inAttribute).total_pushJoined, h.counted, hcounted]

/-- Whether a piece is text or markup. -/
def Piece.isPlain {ω : Type} : Piece ω → Bool
  | .text _ => true
  | .raw _ => true
  | _ => false

/-! ## Frames -/

/-- An open frame of a tree and one of markup at the same point. -/
structure Frame.Alike (voids : List String) (hole : Widget → String) (inAttribute : Bool)
    (grown : Frame Widget) (written : Frame Empty) : Prop where
  shell : grown.shell = written.shell
  attributes : grown.attributes = written.attributes
  children : Piece.AllAlike voids hole inAttribute grown.children written.children

/-- Open frames of a tree and of markup at the same point, innermost first.  Within an
attribute there are sections and partials only. -/
inductive Frame.AllAlike (voids : List String) (hole : Widget → String) :
    List (Frame Widget) → List (Frame Empty) → Prop
  | nil : AllAlike voids hole [] []
  | cons {grown : Frame Widget} {written : Frame Empty} {outer : List (Frame Widget)}
      {outer' : List (Frame Empty)}
      (hframe : grown.Alike voids hole (withinAttribute (grown :: outer)) written)
      (hkind : withinAttribute outer = true → grown.kind = .ofSection ∨ grown.kind = .ofPartial)
      (houter : AllAlike voids hole outer outer') :
      AllAlike voids hole (grown :: outer) (written :: outer')

namespace Frame

theorem AllAlike.shells {grown : List (Frame Widget)} {written : List (Frame Empty)}
    (h : AllAlike voids hole grown written) : grown.map shell = written.map shell := by
  induction h with
  | nil => rfl
  | cons hframe hkind houter ih => rw [List.map_cons, List.map_cons, hframe.shell, ih]

theorem AllAlike.frames {grown : List (Frame Widget)} {written : List (Frame Empty)}
    (h : AllAlike voids hole grown written) : List.Forall₂ (Matches Eq) grown written := by
  induction h with
  | nil => exact .nil
  | cons hframe hkind houter ih => exact .cons (.ofShell hframe.shell) ih

theorem Alike.kind {inAttribute : Bool} {grown : Frame Widget} {written : Frame Empty}
    (h : grown.Alike voids hole inAttribute written) : grown.kind = written.kind :=
  congrArg Frame.kind h.shell

theorem Alike.name {inAttribute : Bool} {grown : Frame Widget} {written : Frame Empty}
    (h : grown.Alike voids hole inAttribute written) : grown.name = written.name :=
  congrArg Frame.name h.shell

/-- A frame other than an attribute hands on where it is. -/
theorem withinAttribute_cons {ω : Type} {frame : Frame ω} (hkind : frame.kind ≠ .ofAttribute)
    (outer : List (Frame ω)) : withinAttribute (frame :: outer) = withinAttribute outer := by
  simp [withinAttribute, hkind]

theorem Alike.element {grown : Frame Widget} {written : Frame Empty}
    (h : grown.Alike voids hole false written) (hkind : grown.kind = .ofElement) :
    Piece.Alike voids hole false grown.piece (Encoding.markupClosed voids written.piece) := by
  have hnil : grown.children.reverse = [] ↔ written.children.reverse = [] := by
    rw [List.reverse_eq_nil_iff, List.reverse_eq_nil_iff]
    exact h.children.nil
  have hmarkup : Piece.markupAll voids hole grown.children.reverse =
      Piece.markupAll voids Empty.elim written.children.reverse := by
    rw [Piece.markupAll_eq_total, Piece.markupAll_eq_total]
    exact h.children.counted
  have hkind' : written.kind = .ofElement := h.kind.symm.trans hkind
  simp only [Frame.piece, hkind, hkind', Encoding.markupClosed]
  refine .child (by simp) (by simp) ?_
  rw [h.attributes, h.name]
  exact Piece.markup_element_congr voids _ _ hnil hmarkup

theorem Alike.attribute {grown : Frame Widget} {written : Frame Empty} {inAttribute : Bool}
    (h : grown.Alike voids hole true written) (hkind : grown.kind = .ofAttribute) :
    Piece.Alike voids hole inAttribute grown.piece
      (Encoding.markupClosed voids written.piece) := by
  have hnil : grown.children.reverse = [] ↔ written.children.reverse = [] := by
    rw [List.reverse_eq_nil_iff, List.reverse_eq_nil_iff]
    exact h.children.nil
  have htext : Piece.textContents grown.children.reverse =
      Piece.textContents written.children.reverse := by
    rw [Piece.textContents_eq_total, Piece.textContents_eq_total]
    exact h.children.counted
  have hkind' : written.kind = .ofAttribute := h.kind.symm.trans hkind
  simp only [Frame.piece, hkind, hkind', Encoding.markupClosed]
  rw [h.name, attributeValue_congr hnil htext]
  exact .attr _

theorem Alike.block {grown : Frame Widget} {written : Frame Empty} {inAttribute : Bool}
    (h : grown.Alike voids hole inAttribute written)
    (hkind : grown.kind = .ofSection ∨ grown.kind = .ofPartial) :
    Piece.Alike voids hole inAttribute grown.piece
      (Encoding.markupClosed voids written.piece) := by
  have hcounted := h.children.counted
  rcases hkind with hkind | hkind
  · have hkind' : written.kind = .ofSection := h.kind.symm.trans hkind
    simp only [Frame.piece, hkind, hkind', Encoding.markupClosed]
    refine .child (by simp) (by simp) ?_
    rw [Piece.counted_block, Piece.counted_block, hcounted]
  · have hkind' : written.kind = .ofPartial := h.kind.symm.trans hkind
    simp only [Frame.piece, hkind, hkind', Encoding.markupClosed]
    refine .child (by simp) (by simp) ?_
    rw [Piece.counted_block, Piece.counted_block, hcounted]

/-- A frame that is closed becomes alike pieces: where an attribute reads it, it is a block
or the attribute itself, and keeps its text. -/
theorem Alike.piece {grown : Frame Widget} {written : Frame Empty} {outer : List (Frame Widget)}
    (h : grown.Alike voids hole (withinAttribute (grown :: outer)) written)
    (hkind : withinAttribute outer = true → grown.kind = .ofSection ∨ grown.kind = .ofPartial) :
    Piece.Alike voids hole (withinAttribute outer) grown.piece
      (Encoding.markupClosed voids written.piece) := by
  cases hgrown : grown.kind with
  | ofElement =>
    have houter : withinAttribute outer = false := by
      cases hwithin : withinAttribute outer with
      | false => rfl
      | true => simpa [hgrown] using hkind hwithin
    rw [withinAttribute_cons (by simp [hgrown]), houter] at h
    rw [houter]
    exact h.element hgrown
  | ofAttribute =>
    have hwithin : withinAttribute (grown :: outer) = true := by simp [withinAttribute, hgrown]
    rw [hwithin] at h
    exact h.attribute hgrown
  | ofSection =>
    rw [withinAttribute_cons (by simp [hgrown])] at h
    exact h.block (.inl hgrown)
  | ofPartial =>
    rw [withinAttribute_cons (by simp [hgrown])] at h
    exact h.block (.inr hgrown)

end Frame

/-! ## Leaves -/

/-- A piece without widgets comes in alike, within an attribute if it is text or markup. -/
theorem Piece.alike_leaf (voids : List String) (hole : Widget → String)
    (render : Widget → Logged String) (inAttribute : Bool) (piece : Piece Widget)
    (hfree : piece.widgetFree = true) (hplain : inAttribute = true → piece.isPlain = true) :
    (Encoding.markupLeaf voids render piece).log = .empty ∧
      Piece.Alike voids hole inAttribute piece
        (Encoding.markupLeaf voids render piece).value := by
  have hwrite : (∀ attr, piece ≠ .attr attr) → inAttribute = false →
      Encoding.markupLeaf voids render piece = Encoding.writeLeaf voids render piece →
      (Encoding.markupLeaf voids render piece).log = .empty ∧
        Piece.Alike voids hole inAttribute piece
          (Encoding.markupLeaf voids render piece).value := by
    intro hattr houtside hleaf
    obtain ⟨hlog, hmarkup⟩ := fill_of_widgetFree voids hole id render piece hfree
    rw [hleaf, houtside]
    refine ⟨?_, .child hattr (by simp [Encoding.writeLeaf]) ?_⟩
    · rw [Encoding.writeLeaf, Logged.log_bind, hlog]
      rfl
    · exact hmarkup.symm
  have houtside : piece.isPlain = false → inAttribute = false := by
    intro hnot
    cases inAttribute with
    | false => rfl
    | true => rw [hplain rfl] at hnot; cases hnot
  cases piece with
  | text s =>
    refine ⟨rfl, .child (by simp) (by simp [Encoding.markupLeaf]) ?_⟩
    cases inAttribute <;> rfl
  | raw s =>
    refine ⟨rfl, .child (by simp) (by simp [Encoding.markupLeaf]) ?_⟩
    cases inAttribute <;> rfl
  | attr a => exact ⟨rfl, .attr a⟩
  | comment s => exact hwrite (by simp) (houtside rfl) rfl
  | element tag attributes children => exact hwrite (by simp) (houtside rfl) rfl
  | block kind children => exact hwrite (by simp) (houtside rfl) rfl
  | widget w => cases hfree

/-! ## Assemblies -/

namespace Assembly

/-- A tree in the making and markup in the making at the same point. -/
structure Alike (voids : List String) (hole : Widget → String) (grown : Assembly Widget)
    (written : Assembly Empty) : Prop where
  startId : grown.startId = written.startId
  nextIndex : grown.nextIndex = written.nextIndex
  pending : grown.pending = written.pending
  log : grown.log = written.log
  stack : Frame.AllAlike voids hole grown.stack written.stack
  results : Piece.AllAlike voids hole false grown.results written.results

theorem alike_start (voids : List String) (hole : Widget → String) (startId : String) :
    Alike voids hole (start startId) (start startId) :=
  ⟨rfl, rfl, rfl, rfl, .nil, iff_of_true rfl rfl, rfl⟩

theorem withinAttribute_claimIndex {ω : Type} (assembly : Assembly ω) :
    Frame.withinAttribute assembly.claimIndex.stack = Frame.withinAttribute assembly.stack := by
  unfold claimIndex
  split
  · rename_i frame outer hstack
    rw [hstack]
    rfl
  · rfl

namespace Alike

variable {grown : Assembly Widget} {written : Assembly Empty}

theorem shells (h : grown.Alike voids hole written) : grown.shells = written.shells :=
  h.stack.shells

theorem depth (h : grown.Alike voids hole written) : grown.depth = written.depth := by
  rw [depth_eq, depth_eq, h.shells]

theorem openAddresses (h : grown.Alike voids hole written) :
    grown.openAddresses = written.openAddresses := by
  rw [openAddresses_eq, openAddresses_eq, h.shells]

theorem isLate (h : grown.Alike voids hole written) (request : Closing) :
    grown.isLate request = written.isLate request := by
  unfold Assembly.isLate
  rw [h.pending]

theorem warn (h : grown.Alike voids hole written) (kind : WarningKind) (message : String) :
    (grown.warn kind message).Alike voids hole (written.warn kind message) :=
  { h with log := congrArg (Log.warn · ⟨kind, message⟩) h.log }

theorem remember (h : grown.Alike voids hole written) (address : String) :
    (grown.remember address).Alike voids hole (written.remember address) :=
  { h with pending := congrArg (List.insert address) h.pending }

theorem forget (h : grown.Alike voids hole written) (request : Closing) :
    (grown.forget request).Alike voids hole (written.forget request) := by
  unfold Assembly.forget
  split
  · exact { h with pending := congrArg (List.erase · _) h.pending }
  · exact h

/-! ### Opening frames and placing pieces -/

theorem nextAddress (h : grown.Alike voids hole written) :
    grown.nextAddress = written.nextAddress := by
  rw [nextAddress_eq, nextAddress_eq, h.shells, h.startId, h.nextIndex]

theorem claimIndex (h : grown.Alike voids hole written) :
    grown.claimIndex.Alike voids hole written.claimIndex := by
  obtain ⟨startId, stack, results, nextIndex, pending, log⟩ := grown
  obtain ⟨startId', stack', results', nextIndex', pending', log'⟩ := written
  have hstack : Frame.AllAlike voids hole stack stack' := h.stack
  cases hstack with
  | nil => exact { h with nextIndex := congrArg (· + 1) h.nextIndex }
  | cons hframe hkind houter =>
    have hcounted := congrArg
      (fun shell : Frame Empty => { shell with nextIndex := shell.nextIndex + 1 }) hframe.shell
    exact { h with stack := .cons { hframe with shell := hcounted } hkind houter }

/-- Both are given the same frame; within an attribute, only sections and partials. -/
theorem openFrame (h : grown.Alike voids hole written) (kind : FrameKind) (name : String)
    (hkind : Frame.withinAttribute grown.stack = true → kind = .ofSection ∨ kind = .ofPartial) :
    (grown.openFrame kind name).1 = (written.openFrame kind name).1 ∧
      (grown.openFrame kind name).2.Alike voids hole (written.openFrame kind name).2 := by
  have hclaimed := h.claimIndex
  refine ⟨?_,
    { hclaimed with stack := .cons ⟨?_, rfl, iff_of_true rfl rfl, rfl⟩ ?_ hclaimed.stack }⟩
  · rw [closing_openFrame, closing_openFrame, h.nextAddress]
  · exact congrArg (Frame.fresh kind name) h.nextAddress
  · rw [withinAttribute_claimIndex]
    exact hkind

theorem placeChild (h : grown.Alike voids hole written) {piece : Piece Widget}
    {piece' : Piece Empty}
    (hcounted : piece.counted voids hole (Frame.withinAttribute grown.stack) =
      piece'.counted voids Empty.elim (Frame.withinAttribute grown.stack)) :
    (grown.placeChild piece).Alike voids hole (written.placeChild piece') := by
  obtain ⟨startId, stack, results, nextIndex, pending, log⟩ := grown
  obtain ⟨startId', stack', results', nextIndex', pending', log'⟩ := written
  have hstack : Frame.AllAlike voids hole stack stack' := h.stack
  cases hstack with
  | nil => exact { h with results := h.results.push hcounted }
  | cons hframe hkind houter =>
    exact { h with
      stack := .cons { hframe with children := hframe.children.push hcounted } hkind houter }

theorem placeAttribute (h : grown.Alike voids hole written) (attr : OutputAttribute) :
    (grown.placeAttribute attr).Alike voids hole (written.placeAttribute attr) := by
  obtain ⟨startId, stack, results, nextIndex, pending, log⟩ := grown
  obtain ⟨startId', stack', results', nextIndex', pending', log'⟩ := written
  have hstack : Frame.AllAlike voids hole stack stack' := h.stack
  cases hstack with
  | nil => exact h.warn .misplacedAttribute (misplacedMessage attr.name)
  | @cons frame frame' outer outer' hframe hkind houter =>
    simp only [Assembly.placeAttribute]
    by_cases helement : frame.kind = .ofElement
    · have helement' : frame'.kind = .ofElement := hframe.kind.symm.trans helement
      rw [if_pos helement, if_pos helement']
      have hattributes := congrArg (List.cons attr) hframe.attributes
      exact { h with stack := .cons { hframe with attributes := hattributes } hkind houter }
    · have helement' : frame'.kind ≠ .ofElement := fun hkind' => helement (hframe.kind.trans hkind')
      rw [if_neg helement, if_neg helement']
      exact h.warn .misplacedAttribute (misplacedMessage attr.name)

theorem place (h : grown.Alike voids hole written) {piece : Piece Widget} {piece' : Piece Empty}
    (hpiece : Piece.Alike voids hole (Frame.withinAttribute grown.stack) piece piece') :
    (grown.place piece).Alike voids hole (written.place piece') := by
  cases hpiece with
  | attr attr => exact h.placeAttribute attr
  | child hgrown hwritten hcounted =>
    rw [place_child grown hgrown, place_child written hwritten]
    exact h.placeChild hcounted

/-- A piece without widgets goes in alike; within an attribute, only text and markup. -/
theorem put (h : grown.Alike voids hole written) (render : Widget → Logged String)
    (piece : Piece Widget) (hfree : piece.widgetFree = true)
    (hplain : Frame.withinAttribute grown.stack = true → piece.isPlain = true) :
    (grown.put .tree piece).Alike voids hole (written.put (.markup voids render) piece) := by
  obtain ⟨hlog, hpiece⟩ := Piece.alike_leaf voids hole render
    (Frame.withinAttribute grown.stack) piece hfree hplain
  have hclaimed := h.claimIndex
  have hlogged : Assembly.Alike voids hole
      { grown.claimIndex with log := grown.claimIndex.log ++ .empty }
      { written.claimIndex with
        log := written.claimIndex.log ++ (Encoding.markupLeaf voids render piece).log } := by
    rw [hlog]
    exact { hclaimed with log := congrArg (· ++ Log.empty) hclaimed.log }
  rw [← withinAttribute_claimIndex] at hpiece
  exact hlogged.place hpiece

/-! ### Closing frames -/

theorem pop (h : grown.Alike voids hole written) (render : Widget → Logged String) :
    (grown.pop .tree).Alike voids hole (written.pop (.markup voids render)) := by
  obtain ⟨startId, stack, results, nextIndex, pending, log⟩ := grown
  obtain ⟨startId', stack', results', nextIndex', pending', log'⟩ := written
  have hstack : Frame.AllAlike voids hole stack stack' := h.stack
  cases hstack with
  | nil => exact h
  | @cons frame frame' outer outer' hframe hkind houter =>
    have hbelow : Assembly.Alike voids hole
        (⟨startId, outer, results, nextIndex, pending, log⟩ : Assembly Widget)
        (⟨startId', outer', results', nextIndex', pending', log'⟩ : Assembly Empty) :=
      { h with stack := houter }
    exact hbelow.place (hframe.piece hkind)

/-- A tree and markup take the same way through every close request. -/
theorem inStep (voids : List String) (hole : Widget → String) (render : Widget → Logged String) :
    InStep .tree (.markup voids render) Eq (Assembly.Alike voids hole) where
  oneToOne := Address.oneToOne_eq
  stack := fun h => h.stack.frames
  isLate := fun h hrequest => hrequest.eq ▸ h.isLate _
  remember := fun h haddress => haddress ▸ h.remember _
  forget := fun h hrequest => hrequest.eq ▸ h.forget _
  stray := fun h hrequest => hrequest.eq ▸ h.warn _ _
  mismatch := by
    intro grown written request request' top top' h hrequest htop
    rw [htop.mismatchMessage_eq hrequest]
    exact h.warn _ _
  pop := fun h => h.pop render
  paragraph := by
    intro grown written h hstack
    have houtside : Frame.withinAttribute grown.stack = false := by
      rw [hstack]
      rfl
    obtain ⟨hrequest, hopened⟩ := h.openFrame .ofElement "p" (by simp [houtside])
    exact ⟨hrequest ▸ .refl _, hopened⟩

/-- A close request of any kind leaves a tree and markup alike. -/
theorem closeFrame (h : grown.Alike voids hole written) (render : Widget → Logged String)
    (request : Closing) :
    (grown.closeFrame .tree request).Alike voids hole
      (written.closeFrame (.markup voids render) request) :=
  (inStep voids hole render).closeFrame h (.refl request)

/-! ### Output -/

theorem closeAll (h : grown.Alike voids hole written) (render : Widget → Logged String) :
    (grown.closeAll .tree).Alike voids hole (written.closeAll (.markup voids render)) :=
  (inStep voids hole render).closeAll h

/-- The markup that comes out is the markup of the tree that comes out, and the warnings
are the same. -/
theorem output (h : grown.Alike voids hole written) (render : Widget → Logged String) :
    (written.output (.markup voids render)).1 =
        Piece.markupAll voids hole (grown.output .tree).1.pieces ∧
      (written.output (.markup voids render)).2.log = (grown.output .tree).2.log := by
  have hclosed := h.closeAll render
  refine ⟨?_, ?_⟩
  · have hcounted := hclosed.results.counted
    simp only [Assembly.output, Encoding.markup, Encoding.tree, Logged.value_pure,
      Tree.pieces_ofPieces]
    rw [Piece.markupAll_eq_total, Piece.markupAll_eq_total]
    exact hcounted.symm
  · exact congrArg (· ++ Log.empty) hclosed.log.symm

end Alike

end Assembly

end Stencil
