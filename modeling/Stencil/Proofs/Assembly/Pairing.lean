import Stencil.Proofs.Assembly.Tidy

/-!
# Requests and the frames they pair with

A close request pairs with the innermost frame, or with the nearest frame that fits it, or
with none.  This file says for each of these what the request closes, what becomes of the
frames it closes, and which warnings it raises about frames and requests that do not pair.

* `Contents.afterClosing` — what is left when the innermost frames have been closed.
* `Assembly.Pairing` — what a request does, by the frames that it finds.
* `Assembly.closeFrame_pairing` — every request that is not late does just that.
-/

namespace Stencil

variable {ω α : Type}

/-! ## What closed frames leave behind -/

/-- The piece that frames become, each closed into the one around it, the given frame first. -/
def Frame.gathered (encoding : Encoding ω α) : Frame ω → (around : List (Frame ω)) → Piece ω
  | frame, [] => encoding.closed frame.piece
  | frame, outer :: rest =>
      Frame.gathered encoding (outer.receive (encoding.closed frame.piece)) rest

namespace Contents

/-- The frames that are kept and the complete pieces, after the frames inside the kept ones
were closed: what those became is put into the innermost frame that is kept, or behind the
pieces if there is none. -/
def afterClosing (encoding : Encoding ω α) (closed kept : List (Frame ω))
    (results : List (Piece ω)) : Contents ω :=
  match closed with
  | [] => ⟨kept, results⟩
  | frame :: around => (Contents.mk kept results).place (frame.gathered encoding around)

/-- Closing frames one by one puts what they become into the frame around them. -/
theorem iterate_pop (encoding : Encoding ω α) (closed kept : List (Frame ω))
    (results : List (Piece ω)) :
    (Contents.pop encoding)^[closed.length] ⟨closed ++ kept, results⟩ =
      afterClosing encoding closed kept results := by
  cases closed with
  | nil => rfl
  | cons frame around =>
    rw [List.length_cons, Function.iterate_succ_apply, afterClosing]
    induction around generalizing frame with
    | nil => rfl
    | cons outer rest ih =>
      rw [List.length_cons, Function.iterate_succ_apply]
      exact ih (outer.receive (encoding.closed frame.piece))

end Contents

/-! ## Warnings about pairing -/

/-- Whether a warning is about a request that does not pair with the innermost frame, or with
no frame at all. -/
def Warning.isPairing (w : Warning) : Bool := w.kind == .tagMismatch || w.kind == .strayClose

/-- The warnings about requests that do not pair. -/
def Log.pairing (log : Log) : List Warning := log.warnings.filter Warning.isPairing

theorem Log.pairing_warn (log : Log) {w : Warning} (hw : w.isPairing = true) :
    (log.warn w).pairing = log.pairing ++ [w] := by
  simp [pairing, warn, hw]

namespace Assembly

variable {encoding : Encoding ω α} {assembly : Assembly ω} {path : List Nat}

/-- The open frames, innermost first, and the complete pieces. -/
def holdings (assembly : Assembly ω) : Contents ω := ⟨assembly.stack, assembly.results⟩

theorem holdings_place (assembly : Assembly ω) (piece : Piece ω) :
    (assembly.place piece).holdings = assembly.holdings.place piece := by
  cases hstack : assembly.stack with
  | nil =>
    cases piece <;> simp [place, placeAttribute, placeChild, warn, holdings, Contents.place, hstack]
  | cons frame outer =>
    cases piece with
    | attr attr =>
      by_cases hkind : frame.kind = .ofElement <;>
        simp [place, placeAttribute, warn, holdings, Contents.place, Frame.receive, hstack, hkind]
    | _ => simp [place, placeChild, holdings, Contents.place, Frame.receive, hstack]

theorem holdings_pop (encoding : Encoding ω α) (assembly : Assembly ω) :
    (assembly.pop encoding).holdings = assembly.holdings.pop encoding := by
  cases hstack : assembly.stack with
  | nil => simp only [pop, Contents.pop, holdings, hstack]
  | cons frame outer =>
    have hpop : assembly.pop encoding =
        { assembly with stack := outer }.place (encoding.closed frame.piece) := by
      rw [pop, hstack]
    rw [hpop, holdings_place, holdings, holdings, hstack]
    rfl

theorem holdings_unwind (encoding : Encoding ω α) (assembly : Assembly ω) (request : Closing) :
    (assembly.unwind encoding request).holdings =
      (Contents.pop encoding)^[(assembly.unfitting request).length] assembly.holdings := by
  rw [unwind_eq_foldl]
  generalize assembly.unfitting request = frames
  induction frames generalizing assembly with
  | nil => rfl
  | cons frame rest ih =>
    rw [List.foldl_cons, ih, unwindOne, holdings_pop]
    rfl

theorem holdings_closeFitting (encoding : Encoding ω α) (assembly : Assembly ω)
    (request : Closing) (top : Frame ω) :
    (assembly.closeFitting encoding request top).holdings = assembly.holdings.pop encoding := by
  unfold closeFitting
  split
  · exact holdings_pop encoding _
  · exact holdings_pop encoding _

theorem pairing_pop (encoding : Encoding ω α) (assembly : Assembly ω) :
    (assembly.pop encoding).log.pairing = assembly.log.pairing :=
  filter_warnings_pop (fun _ => rfl) encoding assembly

theorem pairing_unwind (encoding : Encoding ω α) (assembly : Assembly ω) (request : Closing) :
    (assembly.unwind encoding request).log.pairing = assembly.log.pairing := by
  rw [unwind_eq_foldl]
  generalize assembly.unfitting request = frames
  induction frames generalizing assembly with
  | nil => rfl
  | cons frame rest ih =>
    rw [List.foldl_cons, ih, unwindOne, pairing_pop]
    rfl

theorem pairing_closeFitting (encoding : Encoding ω α) (assembly : Assembly ω)
    (request : Closing) (top : Frame ω) :
    (assembly.closeFitting encoding request top).log.pairing = assembly.log.pairing := by
  unfold closeFitting
  split
  · exact pairing_pop encoding _
  · exact pairing_pop encoding _

/-- An empty paragraph is put in by opening a frame and making its own request. -/
theorem putParagraph_eq_closeFrame (encoding : Encoding ω α) (assembly : Assembly ω) :
    assembly.putParagraph encoding =
      (assembly.openFrame .ofElement "p").2.closeFrame encoding
        (assembly.openFrame .ofElement "p").1 := by
  have hmeant := (assembly.nextFrame .ofElement "p").isMeantBy_closing
  simp only [putParagraph, closeFrame, openFrame, hmeant]
  rfl

/-! ## What a request does -/

/-- The warning about a request that is not for the innermost frame; none if nothing is open. -/
def mismatches (assembly : Assembly ω) (request : Closing) : List Warning :=
  match assembly.stack with
  | [] => []
  | top :: _ => [⟨.tagMismatch, mismatchMessage request top⟩]

/-- What a request does, by the frames that it finds. -/
structure Pairing (encoding : Encoding ω α) (before : Assembly ω) (request : Closing)
    (after : Assembly ω) : Prop where
  /-- The frames that stay open are the outermost ones. -/
  openAddresses : after.openAddresses <+: before.openAddresses
  /-- A request that is for the innermost frame closes just that. -/
  meant : ∀ top outer, before.stack = top :: outer → top.isMeantBy request = true →
    after.holdings = .afterClosing encoding [top] outer before.results ∧
      after.log.pairing = before.log.pairing
  /-- Any other request closes the frames up to the nearest one that fits, and raises one
  warning. -/
  fitting : ∀ top outer, before.stack = top :: outer → top.isMeantBy request = false →
    ∀ inner nearest kept, before.stack = inner ++ nearest :: kept →
      (∀ frame ∈ inner, frame.fits request = false) → nearest.fits request = true →
        after.holdings = .afterClosing encoding (inner ++ [nearest]) kept before.results ∧
          after.log.pairing = before.log.pairing ++ before.mismatches request
  /-- If there is none, it closes all frames; the end of a paragraph then puts in an empty one,
  which its own request closes again as the innermost frame. -/
  paragraph : before.findsNothing request = true → request.isTag "p" = true →
    ∃ emptied : Assembly ω,
      emptied.holdings = .afterClosing encoding before.stack [] before.results ∧
        after = (emptied.openFrame .ofElement "p").2.closeFrame encoding
          (emptied.openFrame .ofElement "p").1 ∧
        (emptied.openFrame .ofElement "p").2.isLate
          (emptied.openFrame .ofElement "p").1 = false ∧
        after.holdings = emptied.holdings.place (encoding.closed (.element "p" [] none)) ∧
        after.stack = [] ∧
        after.log.pairing = before.log.pairing ++ before.mismatches request
  /-- And anything else raises one more warning, and puts in nothing. -/
  stray : before.findsNothing request = true → request.isTag "p" = false →
    after.holdings = .afterClosing encoding before.stack [] before.results ∧
      after.log.pairing = before.log.pairing ++ before.mismatches request ++
        [⟨.strayClose, strayMessage request⟩]

/-- The open frames are the outermost ones of those before. -/
theorem Tidy.openAddresses_closeFrame (h : assembly.Tidy path) (encoding : Encoding ω α)
    (request : Closing) :
    (assembly.closeFrame encoding request).openAddresses <+: assembly.openAddresses := by
  have heffect := h.closeFrame_effect encoding request
  generalize assembly.closeFrame encoding request = after at heffect
  rw [openAddresses_eq, openAddresses_eq, List.reverse_prefix]
  cases heffect with
  | closed count _ hcloses =>
    rw [hcloses.shells, List.map_drop]
    exact List.drop_suffix _ _
  | @paragraph emptied _ hcloses =>
    have hnone : emptied.shells = [] := shells_eq_nil hcloses.stack_eq_nil
    rw [shells_pop, shells_openFrame, List.tail_cons, addresses_claimIndex, hnone]
    exact List.nil_suffix

/-- A request that is for the innermost frame. -/
theorem closeFrame_of_meant (encoding : Encoding ω α) {request : Closing} {top : Frame ω}
    {outer : List (Frame ω)} (hlate : assembly.isLate request = false)
    (hstack : assembly.stack = top :: outer) (hmeant : top.isMeantBy request = true) :
    (assembly.closeFrame encoding request).holdings =
        .afterClosing encoding [top] outer assembly.results ∧
      (assembly.closeFrame encoding request).log.pairing = assembly.log.pairing := by
  have hholdings : assembly.holdings.pop encoding =
      .afterClosing encoding [top] outer assembly.results := by
    rw [holdings, hstack]
    rfl
  simp only [closeFrame, hlate, hstack, hmeant]
  cases request.explicit with
  | true => exact ⟨(holdings_pop encoding _).trans hholdings, pairing_pop encoding _⟩
  | false => exact ⟨(holdings_pop encoding _).trans hholdings, pairing_pop encoding _⟩

/-- A request that is not for the innermost frame, but fits another one or that. -/
theorem closeUnwinding_of_fits (encoding : Encoding ω α) {request : Closing}
    {inner kept : List (Frame ω)} {nearest : Frame ω}
    (hstack : assembly.stack = inner ++ nearest :: kept)
    (hinner : ∀ frame ∈ inner, frame.fits request = false)
    (hfits : nearest.fits request = true) :
    (assembly.closeUnwinding encoding request).holdings =
        .afterClosing encoding (inner ++ [nearest]) kept assembly.results ∧
      (assembly.closeUnwinding encoding request).log.pairing = assembly.log.pairing := by
  have hunfitting : assembly.unfitting request = inner := by
    rw [unfitting, hstack, List.takeWhile_append_of_pos (by simpa using hinner),
      List.takeWhile_cons_of_neg (by simp [hfits]), List.append_nil]
  have hholdings := holdings_unwind encoding assembly request
  unfold closeUnwinding
  cases hleft : (assembly.unwind encoding request).stack with
  | nil =>
    have hall := (shells_unwind_eq_nil encoding assembly request).mp (shells_eq_nil hleft)
    rw [hunfitting, hstack, List.self_eq_append_right] at hall
    cases hall
  | cons left rest =>
    simp only [hleft]
    refine ⟨?_, (pairing_closeFitting encoding _ request left).trans
      (pairing_unwind encoding assembly request)⟩
    have hsplit : assembly.holdings = ⟨(inner ++ [nearest]) ++ kept, assembly.results⟩ := by
      rw [holdings, hstack, List.append_assoc]
      rfl
    rw [holdings_closeFitting, hholdings, hunfitting, hsplit, ← Contents.iterate_pop,
      List.length_append, List.length_singleton, Function.iterate_succ_apply']

/-- A request that finds nothing closes all frames, and is then made with none open. -/
theorem Tidy.closeFrame_of_findsNothing (h : assembly.Tidy path) (encoding : Encoding ω α)
    {request : Closing} (hfinds : assembly.findsNothing request = true) :
    ∃ (emptied : Assembly ω) (path' : List Nat),
      assembly.closeFrame encoding request = emptied.closeNothing encoding request ∧
        emptied.Tidy path' ∧ emptied.stack = [] ∧
        emptied.holdings = .afterClosing encoding assembly.stack [] assembly.results ∧
        emptied.log.pairing = assembly.log.pairing ++ assembly.mismatches request := by
  have hlate : assembly.isLate request = false := by
    rw [findsNothing, Bool.and_eq_true, Bool.not_eq_true'] at hfinds
    exact hfinds.1
  cases hstack : assembly.stack with
  | nil =>
    refine ⟨assembly, path, ?_, h, hstack, ?_, ?_⟩
    · simp only [Assembly.closeFrame, hlate, hstack]
      rfl
    · rw [holdings, hstack]
      rfl
    · rw [mismatches, hstack, List.append_nil]
  | cons top outer =>
    have hmeant : top.isMeantBy request = false := by
      simp only [findsNothing, hstack, Bool.and_eq_true, Bool.not_eq_true'] at hfinds
      exact hfinds.2.1
    have hall := (findsNothing_iff hlate hstack hmeant).mp hfinds
    let warned := assembly.warn .tagMismatch (mismatchMessage request top)
    have hunwinds := unwind_closes encoding warned request
    obtain ⟨path', htidy, -⟩ :=
      (h.warn .tagMismatch (mismatchMessage request top)).shrinks hunwinds.toShrinks
    have hleft : (warned.unwind encoding request).stack = [] :=
      List.map_eq_nil_iff.mp ((shells_unwind_eq_nil encoding warned request).mpr hall)
    refine ⟨warned.unwind encoding request, path', ?_, htidy, hleft, ?_, ?_⟩
    · have hclose : assembly.closeFrame encoding request =
          warned.closeUnwinding encoding request := by
        simp only [Assembly.closeFrame, hlate, hstack, hmeant]
        rfl
      rw [hclose, closeUnwinding, hleft]
    · have hiterate := Contents.iterate_pop encoding assembly.stack [] assembly.results
      rw [List.append_nil] at hiterate
      rw [holdings_unwind, ← hstack, ← hiterate]
      exact congrArg (fun frames => (Contents.pop encoding)^[List.length frames] _) hall
    · rw [pairing_unwind, mismatches, hstack]
      exact Log.pairing_warn _ rfl

/-- With no frame open, an empty paragraph goes behind the complete pieces: the request of the
frame that is opened for it is not late, as the address is new. -/
theorem Tidy.putParagraph_of_empty (h : assembly.Tidy path) (encoding : Encoding ω α)
    (hstack : assembly.stack = []) :
    (assembly.openFrame .ofElement "p").2.isLate (assembly.openFrame .ofElement "p").1 = false ∧
      (assembly.putParagraph encoding).holdings =
        assembly.holdings.place (encoding.closed (.element "p" [] none)) ∧
      (assembly.putParagraph encoding).stack = [] ∧
      (assembly.putParagraph encoding).log.pairing = assembly.log.pairing := by
  have hlate : (assembly.openFrame .ofElement "p").2.isLate
      (assembly.openFrame .ofElement "p").1 = false := by
    simpa [Assembly.isLate, closing_openFrame] using h.next_unused.1
  have hput : assembly.putParagraph encoding =
      (assembly.openFrame .ofElement "p").2.pop encoding := by
    simp only [putParagraph, hlate]
    rfl
  have hopened : (assembly.openFrame .ofElement "p").2.holdings =
      ⟨[.fresh .ofElement "p" assembly.nextAddress], assembly.results⟩ := by
    simp only [holdings, Assembly.openFrame, claimIndex, hstack]
    rfl
  have hlog : (assembly.openFrame .ofElement "p").2.log = assembly.log := by
    simp only [Assembly.openFrame, claimIndex, hstack]
  have hshells : (assembly.putParagraph encoding).shells = [] := by
    have hclaimed : assembly.claimIndex.shells = [] := by
      simp only [claimIndex, hstack, shells, List.map_nil]
    rw [hput, shells_pop, shells_openFrame, List.tail_cons, hclaimed]
  refine ⟨hlate, ?_, List.map_eq_nil_iff.mp hshells, ?_⟩
  · rw [hput, holdings_pop, hopened, holdings, hstack]
    rfl
  · rw [hput, pairing_pop, hlog]

/-- What any close request does that is not late, whatever was opened, put in and closed
before. -/
theorem closeFrame_pairing {startId : String} (hreachable : assembly.Reachable encoding startId)
    (request : Closing) (hlate : assembly.isLate request = false) :
    Pairing encoding assembly request (assembly.closeFrame encoding request) := by
  obtain ⟨path, htidy⟩ := hreachable.tidy
  refine ⟨htidy.openAddresses_closeFrame encoding request, ?_, ?_, ?_, ?_⟩
  · exact fun top outer hstack hmeant => closeFrame_of_meant encoding hlate hstack hmeant
  · intro top outer hstack hmeant inner nearest kept hsplit hinner hfits
    let warned := assembly.warn .tagMismatch (mismatchMessage request top)
    have hclose : assembly.closeFrame encoding request =
        warned.closeUnwinding encoding request := by
      simp only [closeFrame, hlate, hstack, hmeant]
      rfl
    have hwarned : warned.stack = inner ++ nearest :: kept := hsplit
    obtain ⟨hholdings, hwarnings⟩ := closeUnwinding_of_fits encoding hwarned hinner hfits
    rw [hclose, mismatches, hstack]
    exact ⟨hholdings, hwarnings.trans (Log.pairing_warn _ rfl)⟩
  · intro hfinds htag
    obtain ⟨emptied, path', hclose, hemptied, hnone, hholdings, hwarnings⟩ :=
      htidy.closeFrame_of_findsNothing encoding hfinds
    have hparagraph : emptied.closeNothing encoding request = emptied.putParagraph encoding := by
      simp only [closeNothing, htag]
      rfl
    obtain ⟨hfresh, hputs, hleft, hpairing⟩ := hemptied.putParagraph_of_empty encoding hnone
    rw [hclose, hparagraph]
    exact ⟨emptied, hholdings, putParagraph_eq_closeFrame encoding emptied, hfresh, hputs, hleft,
      hpairing.trans hwarnings⟩
  · intro hfinds htag
    obtain ⟨emptied, path', hclose, -, -, hholdings, hwarnings⟩ :=
      htidy.closeFrame_of_findsNothing encoding hfinds
    have hstray : emptied.closeNothing encoding request =
        emptied.warn .strayClose (strayMessage request) := by
      simp only [closeNothing, htag]
      rfl
    rw [hclose, hstray, ← hwarnings]
    exact ⟨hholdings, Log.pairing_warn _ rfl⟩

/-- Bold text in a division, with nothing closed. -/
def openDivision : Assembly Widget :=
  Operation.run .tree
    [.openFrame .ofElement "div", .put (.text "x"), .openFrame .ofElement "b", .put (.text "y")]
    (.start "")

/-- The end of the division closes the bold text too, and raises one warning.  The end of a
paragraph fits neither, so both are closed and an empty paragraph is put behind them. -/
theorem closeFrame_openDivision :
    openDivision.Reachable .tree "" ∧
      openDivision.isLate (.ofTag none "DIV") = false ∧
      (openDivision.closeFrame .tree (.ofTag none "DIV")).log.pairing =
        [⟨.tagMismatch, "closing element 'DIV' expected at <unknown> but top of stack is 'b' at 0.1"⟩] ∧
      openDivision.isLate (.ofTag none "P") = false ∧
      (openDivision.closeFrame .tree (.ofTag none "P")).stack = [] := by
  have hreachable : openDivision.Reachable .tree "" := Reachable.start.run _
  have hdivision := (closeFrame_pairing hreachable (.ofTag none "DIV") rfl).fitting _ _ rfl
    (by decide +kernel) [_] _ [] rfl (by decide +kernel) (by decide +kernel)
  have hparagraph := (closeFrame_pairing hreachable (.ofTag none "P") rfl).paragraph
    (by decide +kernel) (by decide +kernel)
  obtain ⟨emptied, -, -, -, -, hstack, -⟩ := hparagraph
  exact ⟨hreachable, rfl, hdivision.2.trans (by decide +kernel), rfl, hstack⟩

end Assembly

end Stencil
