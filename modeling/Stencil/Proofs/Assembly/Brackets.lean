import Stencil.Assembly.Encodings
import Stencil.Proofs.Assembly.Parallel
import Stencil.Proofs.Piece.Brackets
import Stencil.Proofs.Script.Uniform

/-!
# The brackets of markup in the making

Two scripts that are the same but for what their texts say open and close the same frames,
even where closing tags cross one another.  What the frames hold then has the same brackets
all along, and so has the markup that comes out.

* `Frame.SameBrackets`, `Assembly.SameBrackets` — frames and assemblies with the same brackets.
* `Assembly.SameBrackets.inStep` — closing keeps the brackets the same.
* `Assembly.SameBrackets.run`, `Assembly.SameBrackets.output` — so do scripts, and the markup
  that comes out has the same brackets.
-/

namespace Stencil

variable {voids : List String}

/-! ## Frames -/

/-- Two open frames that have the same brackets so far. -/
structure Frame.SameBrackets (voids : List String) (frame frame' : Frame Empty) : Prop where
  shell : frame.shell = frame'.shell
  attributes : List.Forall₂ OutputAttribute.SameBrackets frame.attributes frame'.attributes
  children : Piece.AllSameBrackets voids frame.children.reverse frame'.children.reverse

/-- Whether an attribute has a value depends on whether there are any contents. -/
theorem Frame.isSome_attributeValue {children children' : List (Piece Empty)}
    (hnil : children = [] ↔ children' = []) :
    (attributeValue children).isSome = (attributeValue children').isSome := by
  cases children with
  | nil => rw [hnil.mp rfl]
  | cons first rest =>
    cases children' with
    | nil => exact absurd (hnil.mpr rfl) (List.cons_ne_nil _ _)
    | cons first' rest' => rfl

/-- Frames with the same brackets become pieces with the same brackets. -/
theorem Frame.SameBrackets.closed {frame frame' : Frame Empty}
    (h : frame.SameBrackets voids frame') :
    Piece.SameBrackets voids (Encoding.markupClosed voids frame.piece)
      (Encoding.markupClosed voids frame'.piece) := by
  obtain ⟨kind, name, address, attributes, children, nextIndex⟩ := frame
  obtain ⟨kind', name', address', attributes', children', nextIndex'⟩ := frame'
  obtain ⟨hshell, hattributes, hchildren⟩ := h
  simp only [Frame.shell, Frame.mk.injEq] at hshell
  obtain ⟨rfl, rfl, rfl, -, -, rfl⟩ := hshell
  cases kind with
  | ofElement =>
    refine .child (by simp [piece, Encoding.markupClosed]) (by simp [piece, Encoding.markupClosed])
      ?_
    exact Piece.brackets_element hchildren (List.forall₂_reverse_iff.mpr hattributes) name
  | ofAttribute => exact .attr ⟨rfl, isSome_attributeValue hchildren.nil⟩
  | ofSection | ofPartial =>
    refine .child (by simp [piece, Encoding.markupClosed]) (by simp [piece, Encoding.markupClosed])
      ?_
    exact Piece.brackets_block hchildren _

/-! ## Assemblies -/

namespace Assembly

/-- Two assemblies with the same frames open, whose markup has the same brackets so far. -/
structure SameBrackets (voids : List String) (one other : Assembly Empty) : Prop where
  startId : one.startId = other.startId
  nextIndex : one.nextIndex = other.nextIndex
  pending : one.pending = other.pending
  stack : List.Forall₂ (Frame.SameBrackets voids) one.stack other.stack
  results : Piece.AllSameBrackets voids one.results.reverse other.results.reverse

theorem sameBrackets_start (voids : List String) (startId : String) :
    SameBrackets voids (start startId) (start startId) :=
  ⟨rfl, rfl, rfl, .nil, iff_of_true rfl rfl, rfl⟩

namespace SameBrackets

variable {one other : Assembly Empty}

theorem shells (h : one.SameBrackets voids other) : one.shells = other.shells := by
  have hstack := h.stack
  unfold Assembly.shells
  generalize one.stack = frames at hstack
  generalize other.stack = frames' at hstack
  induction hstack with
  | nil => rfl
  | cons hframe _ ih => rw [List.map_cons, List.map_cons, hframe.shell, ih]

theorem nextAddress (h : one.SameBrackets voids other) : one.nextAddress = other.nextAddress := by
  rw [nextAddress_eq, nextAddress_eq, h.shells, h.startId, h.nextIndex]

/-- What is logged has no bearing on brackets. -/
theorem withLog (h : one.SameBrackets voids other) (log log' : Log) :
    SameBrackets voids { one with log } { other with log := log' } := { h with }

theorem forget (h : one.SameBrackets voids other) (request : Closing) :
    (one.forget request).SameBrackets voids (other.forget request) := by
  unfold Assembly.forget
  split
  · exact { h with pending := congrArg (List.erase · _) h.pending }
  · exact h

theorem claimIndex (h : one.SameBrackets voids other) :
    one.claimIndex.SameBrackets voids other.claimIndex := by
  obtain ⟨startId, stack, results, nextIndex, pending, log⟩ := one
  obtain ⟨startId', stack', results', nextIndex', pending', log'⟩ := other
  have hstack : List.Forall₂ (Frame.SameBrackets voids) stack stack' := h.stack
  cases hstack with
  | nil => exact { h with nextIndex := congrArg (· + 1) h.nextIndex }
  | cons hframe houter =>
    have hcounted := congrArg
      (fun shell : Frame Empty => { shell with nextIndex := shell.nextIndex + 1 }) hframe.shell
    exact { h with stack := .cons { hframe with shell := hcounted } houter }

theorem openFrame (h : one.SameBrackets voids other) (kind : FrameKind) (name : String) :
    (one.openFrame kind name).1.Matches Eq (other.openFrame kind name).1 ∧
      (one.openFrame kind name).2.SameBrackets voids (other.openFrame kind name).2 := by
  have hclaimed := h.claimIndex
  refine ⟨?_, { hclaimed with stack := .cons ⟨?_, .nil, iff_of_true rfl rfl, rfl⟩ hclaimed.stack }⟩
  · rw [closing_openFrame, closing_openFrame, h.nextAddress]
    exact .refl _
  · exact congrArg (Frame.fresh kind name) h.nextAddress

theorem placeChild (h : one.SameBrackets voids other) {piece piece' : Piece Empty}
    (hbrackets : piece.brackets voids = piece'.brackets voids) :
    (one.placeChild piece).SameBrackets voids (other.placeChild piece') := by
  obtain ⟨startId, stack, results, nextIndex, pending, log⟩ := one
  obtain ⟨startId', stack', results', nextIndex', pending', log'⟩ := other
  have hstack : List.Forall₂ (Frame.SameBrackets voids) stack stack' := h.stack
  cases hstack with
  | nil => exact { h with results := h.results.push hbrackets }
  | cons hframe houter =>
    exact { h with
      stack := .cons { hframe with children := hframe.children.push hbrackets } houter }

theorem placeAttribute (h : one.SameBrackets voids other) {attr attr' : OutputAttribute}
    (hattr : attr.SameBrackets attr') :
    (one.placeAttribute attr).SameBrackets voids (other.placeAttribute attr') := by
  obtain ⟨startId, stack, results, nextIndex, pending, log⟩ := one
  obtain ⟨startId', stack', results', nextIndex', pending', log'⟩ := other
  have hstack : List.Forall₂ (Frame.SameBrackets voids) stack stack' := h.stack
  cases hstack with
  | nil => exact h.withLog _ _
  | @cons frame frame' outer outer' hframe houter =>
    have hkind := (Frame.Matches.ofShell hframe.shell).kind
    simp only [Assembly.placeAttribute]
    by_cases helement : frame.kind = .ofElement
    · rw [if_pos helement, if_pos (hkind.symm.trans helement)]
      exact { h with
        stack := .cons { hframe with attributes := .cons hattr hframe.attributes } houter }
    · rw [if_neg helement, if_neg fun hother => helement (hkind.trans hother)]
      exact h.withLog _ _

theorem place (h : one.SameBrackets voids other) {piece piece' : Piece Empty}
    (hpiece : piece.SameBrackets voids piece') :
    (one.place piece).SameBrackets voids (other.place piece') := by
  cases hpiece with
  | attr hattr => exact h.placeAttribute hattr
  | child hpiece hpiece' hbrackets =>
    rw [place_child one hpiece, place_child other hpiece']
    exact h.placeChild hbrackets

theorem pop (h : one.SameBrackets voids other) (render : Widget → Logged String) :
    (one.pop (.markup voids render)).SameBrackets voids (other.pop (.markup voids render)) := by
  obtain ⟨startId, stack, results, nextIndex, pending, log⟩ := one
  obtain ⟨startId', stack', results', nextIndex', pending', log'⟩ := other
  have hstack : List.Forall₂ (Frame.SameBrackets voids) stack stack' := h.stack
  cases hstack with
  | nil => exact h
  | @cons frame frame' outer outer' hframe houter =>
    have hbelow : SameBrackets voids ⟨startId, outer, results, nextIndex, pending, log⟩
        ⟨startId', outer', results', nextIndex', pending', log'⟩ := { h with stack := houter }
    exact hbelow.place hframe.closed

/-- Closing takes the same way in both, whatever their frames hold. -/
theorem inStep (voids : List String) (render : Widget → Logged String) :
    InStep (.markup voids render) (.markup voids render) Eq (SameBrackets voids) where
  oneToOne := Address.oneToOne_eq
  stack := fun h => h.stack.imp fun _ _ hframe => .ofShell hframe.shell
  isLate := by
    intro one other request request' h hrequest
    rw [hrequest.eq, isLate, isLate, h.pending]
  remember := fun h haddress =>
    haddress ▸ { h with pending := congrArg (List.insert _) h.pending }
  forget := fun h hrequest => hrequest.eq ▸ h.forget _
  stray := fun h _ => h.withLog _ _
  mismatch := fun h _ _ => h.withLog _ _
  pop := fun h => h.pop render
  paragraph := fun h _ => h.openFrame .ofElement "p"

/-- The same pieces, and texts whatever they say, go in with the same brackets. -/
theorem put (h : one.SameBrackets voids other) (render : Widget → Logged String)
    {piece piece' : Piece Widget} (hpiece : piece.SameButText piece') :
    (one.put (.markup voids render) piece).SameBrackets voids
      (other.put (.markup voids render) piece') := by
  have hencoded : Piece.SameBrackets voids (Encoding.markupLeaf voids render piece).value
      (Encoding.markupLeaf voids render piece').value := by
    cases hpiece with
    | same piece => exact .refl _
    | text s s' => exact .text s s'
  exact (h.claimIndex.withLog _ _).place hencoded

/-- Two scripts that are the same but for what their texts say have the same brackets. -/
theorem run (h : one.SameBrackets voids other) (render : Widget → Logged String)
    {script script' : Script} (hscript : Script.SameButText script script') :
    (Script.run (Assembly.sink (.markup voids render)) script one).SameBrackets voids
      (Script.run (Assembly.sink (.markup voids render)) script' other) :=
  (inStep voids render).run (fun kind name h => h.openFrame kind name)
    (fun h hpiece => h.put render hpiece) (fun _ h => h.withLog _ _) hscript h

/-- The markup that comes out has the same brackets. -/
theorem output (h : one.SameBrackets voids other) (render : Widget → Logged String) :
    Text.brackets (one.output (.markup voids render)).1 =
      Text.brackets (other.output (.markup voids render)).1 :=
  ((inStep voids render).closeAll h).results.brackets

end SameBrackets

end Assembly

end Stencil
