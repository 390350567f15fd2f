import Mathlib.Data.List.Forall2
import Stencil.Proofs.Assembly.Steps
import Stencil.Script.Basic

/-!
# Two assemblies in step

Which frames a request closes depends on the kinds, names and addresses of the open frames
and on the closes that are still to come, and on nothing that the frames hold.  So two
assemblies that agree on this much take the same way through every operation, and a relation
between them that each single move keeps is kept by whole scripts.

* `Closing.Matches`, `Frame.Matches` — requests and frames that are dealt with alike.
* `Assembly.InStep` — a relation that the moves of closing keep.
* `Assembly.InStep.closeFrame`, `Assembly.InStep.closeAll` — it is kept by whole closes.
* `Script.Parallel`, `Assembly.InStep.run` — and by scripts of the same shape.
-/

namespace Stencil

variable {ω ω' α α' : Type} {sameAddress : String → String → Prop}

/-! ## Requests and frames -/

/-- Two requests for frames of one kind and name, at addresses that stand for each other. -/
structure Closing.Matches (sameAddress : String → String → Prop) (request request' : Closing) :
    Prop where
  address : Option.Rel sameAddress request.address request'.address
  kind : request.kind = request'.kind
  name : request.name = request'.name
  explicit : request.explicit = request'.explicit

/-- Two frames of one kind and name, at addresses that stand for each other. -/
structure Frame.Matches (sameAddress : String → String → Prop) (frame : Frame ω)
    (frame' : Frame ω') : Prop where
  address : sameAddress frame.address frame'.address
  kind : frame.kind = frame'.kind
  name : frame.name = frame'.name

/-- Addresses stand for each other one to one. -/
def Address.OneToOne (sameAddress : String → String → Prop) : Prop :=
  ∀ first first' second second', sameAddress first first' → sameAddress second second' →
    (first = second ↔ first' = second')

theorem Address.oneToOne_eq : OneToOne Eq :=
  fun _ _ _ _ hfirst hsecond => by rw [hfirst, hsecond]

namespace Closing.Matches

theorem refl (request : Closing) : request.Matches Eq request := by
  refine ⟨?_, rfl, rfl, rfl⟩
  cases request.address with
  | none => exact .none
  | some address => exact .some rfl

/-- With one set of addresses, matching requests are the same. -/
theorem eq {request request' : Closing} (h : request.Matches Eq request') :
    request = request' := by
  obtain ⟨address, kind, name, explicit⟩ := request
  obtain ⟨address', kind', name', explicit'⟩ := request'
  obtain ⟨haddress, rfl, rfl, rfl⟩ := h
  cases haddress with
  | none => rfl
  | some haddress => rw [haddress]

end Closing.Matches

namespace Frame.Matches

variable {frame : Frame ω} {frame' : Frame ω'} {request request' : Closing}

/-- Frames that are the same but for what they hold match. -/
theorem ofShell (h : frame.shell = frame'.shell) : frame.Matches Eq frame' :=
  ⟨congrArg Frame.address h, congrArg Frame.kind h, congrArg Frame.name h⟩

/-- With one set of addresses, warnings about mismatches say the same of matching frames. -/
theorem mismatchMessage_eq (h : frame.Matches Eq frame') (hrequest : request.Matches Eq request') :
    Assembly.mismatchMessage request frame = Assembly.mismatchMessage request' frame' := by
  unfold Assembly.mismatchMessage
  rw [hrequest.eq, h.name, h.address]

theorem closing (h : frame.Matches sameAddress frame') :
    frame.closing.Matches sameAddress frame'.closing :=
  ⟨.some h.address, h.kind, h.name, rfl⟩

theorem fits (h : frame.Matches sameAddress frame')
    (hrequest : request.Matches sameAddress request') :
    frame.fits request = frame'.fits request' := by
  rw [Frame.fits, Frame.fits, h.kind, h.name, hrequest.kind, hrequest.name]

theorem isMeantBy (h : frame.Matches sameAddress frame')
    (hunique : Address.OneToOne sameAddress)
    (hrequest : request.Matches sameAddress request') :
    frame.isMeantBy request = frame'.isMeantBy request' := by
  unfold Frame.isMeantBy
  obtain ⟨address, kind, name, explicit⟩ := request
  obtain ⟨address', kind', name', explicit'⟩ := request'
  cases hrequest.address with
  | none => exact h.fits hrequest
  | some haddress =>
    rw [Bool.eq_iff_iff, beq_iff_eq, beq_iff_eq]
    exact hunique _ _ _ _ haddress h.address

end Frame.Matches

/-! ## Relations that closing keeps -/

namespace Assembly

/-- A relation between two assemblies, with frames that match, that every move of closing
keeps. -/
structure InStep (encoding : Encoding ω α) (encoding' : Encoding ω' α')
    (sameAddress : String → String → Prop) (related : Assembly ω → Assembly ω' → Prop) :
    Prop where
  oneToOne : Address.OneToOne sameAddress
  stack : ∀ {one other}, related one other →
    List.Forall₂ (Frame.Matches sameAddress) one.stack other.stack
  isLate : ∀ {one other request request'}, related one other →
    request.Matches sameAddress request' → one.isLate request = other.isLate request'
  remember : ∀ {one other address address'}, related one other → sameAddress address address' →
    related (one.remember address) (other.remember address')
  forget : ∀ {one other request request'}, related one other →
    request.Matches sameAddress request' → related (one.forget request) (other.forget request')
  stray : ∀ {one other request request'}, related one other →
    request.Matches sameAddress request' →
    related (one.warn .strayClose (strayMessage request))
      (other.warn .strayClose (strayMessage request'))
  mismatch : ∀ {one other request request'} {top : Frame ω} {top' : Frame ω'},
    related one other → request.Matches sameAddress request' → top.Matches sameAddress top' →
    related (one.warn .tagMismatch (mismatchMessage request top))
      (other.warn .tagMismatch (mismatchMessage request' top'))
  pop : ∀ {one other}, related one other → related (one.pop encoding) (other.pop encoding')
  paragraph : ∀ {one other}, related one other → one.stack = [] →
    (one.openFrame .ofElement "p").1.Matches sameAddress (other.openFrame .ofElement "p").1 ∧
      related (one.openFrame .ofElement "p").2 (other.openFrame .ofElement "p").2

/-- A step that is done for matching frames one after the other. -/
theorem InStep.foldl (related : Assembly ω → Assembly ω' → Prop) {one : Assembly ω}
    {other : Assembly ω'} {step : Assembly ω → Frame ω → Assembly ω}
    {step' : Assembly ω' → Frame ω' → Assembly ω'}
    (hstep : ∀ {one other} {frame : Frame ω} {frame' : Frame ω'},
      related one other → frame.Matches sameAddress frame' →
      related (step one frame) (step' other frame'))
    {frames : List (Frame ω)} {frames' : List (Frame ω')}
    (hframes : List.Forall₂ (Frame.Matches sameAddress) frames frames')
    (hrelated : related one other) :
    related (frames.foldl step one) (frames'.foldl step' other) := by
  induction hframes generalizing one other with
  | nil => exact hrelated
  | cons hframe hrest ih => exact ih (hstep hrelated hframe)

namespace InStep

variable {encoding : Encoding ω α} {encoding' : Encoding ω' α'}
  {related : Assembly ω → Assembly ω' → Prop} (h : InStep encoding encoding' sameAddress related)
  {one : Assembly ω} {other : Assembly ω'} {request request' : Closing}

include h

theorem unfitting (hrelated : related one other)
    (hrequest : request.Matches sameAddress request') :
    List.Forall₂ (Frame.Matches sameAddress) (one.unfitting request)
      (other.unfitting request') := by
  unfold Assembly.unfitting
  have hstack := h.stack hrelated
  generalize one.stack = frames at hstack
  generalize other.stack = frames' at hstack
  induction hstack with
  | nil => exact .nil
  | @cons frame frame' rest rest' hframe hrest ih =>
    rw [List.takeWhile_cons, List.takeWhile_cons, hframe.fits hrequest]
    split
    · exact .cons hframe ih
    · exact .nil

theorem unwind (hrelated : related one other)
    (hrequest : request.Matches sameAddress request') :
    related (one.unwind encoding request) (other.unwind encoding' request') :=
  foldl related (fun hrelated hframe => h.pop (h.remember hrelated hframe.address))
    (h.unfitting hrelated hrequest) hrelated

theorem putParagraph (hrelated : related one other) (hstack : one.stack = []) :
    related (one.putParagraph encoding) (other.putParagraph encoding') := by
  obtain ⟨hrequest, hopened⟩ := h.paragraph hrelated hstack
  simp only [Assembly.putParagraph, h.isLate hopened hrequest]
  split
  · exact h.forget hopened hrequest
  · exact h.pop hopened

theorem closeNothing (hrelated : related one other) (hstack : one.stack = [])
    (hrequest : request.Matches sameAddress request') :
    related (one.closeNothing encoding request) (other.closeNothing encoding' request') := by
  have htag : request.isTag "p" = request'.isTag "p" := by
    rw [Closing.isTag, Closing.isTag, hrequest.kind, hrequest.name]
  unfold Assembly.closeNothing
  rw [htag]
  split
  · exact h.putParagraph hrelated hstack
  · exact h.stray hrelated hrequest

theorem closeFitting (hrelated : related one other)
    (hrequest : request.Matches sameAddress request') {top : Frame ω} {top' : Frame ω'}
    (htop : top.Matches sameAddress top') :
    related (one.closeFitting encoding request top)
      (other.closeFitting encoding' request' top') := by
  have hown : (request.address != some top.address) =
      (request'.address != some top'.address) := by
    obtain ⟨address, kind, name, explicit⟩ := request
    obtain ⟨address', kind', name', explicit'⟩ := request'
    cases hrequest.address with
    | none => rfl
    | some haddress =>
      rw [Bool.eq_iff_iff, bne_iff_ne, bne_iff_ne, ne_eq, ne_eq, Option.some.injEq,
        Option.some.injEq]
      exact not_congr (h.oneToOne _ _ _ _ haddress htop.address)
  unfold Assembly.closeFitting
  rw [hrequest.explicit, hown]
  split
  · exact h.pop (h.remember hrelated htop.address)
  · exact h.pop hrelated

theorem closeUnwinding (hrelated : related one other)
    (hrequest : request.Matches sameAddress request') :
    related (one.closeUnwinding encoding request)
      (other.closeUnwinding encoding' request') := by
  have hunwound := h.unwind hrelated hrequest
  have hframes := h.stack hunwound
  unfold Assembly.closeUnwinding
  cases hone : (one.unwind encoding request).stack with
  | nil =>
    rw [hone, List.forall₂_nil_left_iff] at hframes
    simp only [hone, hframes]
    exact h.closeNothing hunwound hone hrequest
  | cons top outer =>
    rw [hone] at hframes
    obtain ⟨top', outer', htop, -, hother⟩ := List.forall₂_cons_left_iff.mp hframes
    simp only [hone, hother]
    exact h.closeFitting hunwound hrequest htop

/-- Matching requests of any kind keep the relation. -/
theorem closeFrame (hrelated : related one other)
    (hrequest : request.Matches sameAddress request') :
    related (one.closeFrame encoding request) (other.closeFrame encoding' request') := by
  unfold Assembly.closeFrame
  rw [h.isLate hrelated hrequest]
  split
  · exact h.forget hrelated hrequest
  · have hframes := h.stack hrelated
    cases hone : one.stack with
    | nil =>
      rw [hone, List.forall₂_nil_left_iff] at hframes
      simp only [hframes]
      exact h.closeNothing hrelated hone hrequest
    | cons top outer =>
      rw [hone] at hframes
      obtain ⟨top', outer', htop, -, hother⟩ := List.forall₂_cons_left_iff.mp hframes
      simp only [hother, htop.isMeantBy h.oneToOne hrequest, hrequest.explicit]
      split
      · split
        · exact h.pop (h.remember hrelated htop.address)
        · exact h.pop hrelated
      · exact h.closeUnwinding (h.mismatch hrelated hrequest htop) hrequest

theorem depth (hrelated : related one other) : one.depth = other.depth :=
  (h.stack hrelated).length_eq

theorem closeForced (hrelated : related one other) {frame : Frame ω} {frame' : Frame ω'}
    (hframe : frame.Matches sameAddress frame') :
    related (one.closeForced encoding frame) (other.closeForced encoding' frame') := by
  have hclosed := h.closeFrame hrelated hframe.closing
  simp only [Assembly.closeForced, h.depth hrelated, h.depth hclosed]
  split
  · exact h.pop hclosed
  · exact hclosed

theorem closeAll (hrelated : related one other) :
    related (one.closeAll encoding) (other.closeAll encoding') :=
  foldl related (fun hrelated hframe => h.closeForced hrelated hframe) (h.stack hrelated) hrelated

end InStep

end Assembly

/-! ## Scripts of the same shape -/

/-- Two scripts with the same frames and warnings, matching closing tags, and related pieces in
the same places. -/
inductive Script.Parallel (sameAddress : String → String → Prop)
    (leaf : Piece Widget → Piece Widget → Prop) : Script → Script → Prop
  | nil : Parallel sameAddress leaf [] []
  | frame (kind : FrameKind) (name : String) {body body' rest rest' : Script} :
      Parallel sameAddress leaf body body' → Parallel sameAddress leaf rest rest' →
      Parallel sameAddress leaf (.frame kind name body :: rest) (.frame kind name body' :: rest')
  | leaf {piece piece' : Piece Widget} {rest rest' : Script} :
      leaf piece piece' → Parallel sameAddress leaf rest rest' →
      Parallel sameAddress leaf (.leaf piece :: rest) (.leaf piece' :: rest')
  | closingTag {id id' : Option String} {tag tag' : String} {rest rest' : Script} :
      (Closing.ofTag id tag).Matches sameAddress (.ofTag id' tag') →
      Parallel sameAddress leaf rest rest' →
      Parallel sameAddress leaf (.closingTag id tag :: rest) (.closingTag id' tag' :: rest')
  | warning (w : Warning) {rest rest' : Script} : Parallel sameAddress leaf rest rest' →
      Parallel sameAddress leaf (.warning w :: rest) (.warning w :: rest')

namespace Script.Parallel

variable {leaf : Piece Widget → Piece Widget → Prop}

theorem append {first first' second second' : Script}
    (hfirst : Script.Parallel sameAddress leaf first first')
    (hsecond : Script.Parallel sameAddress leaf second second') :
    Script.Parallel sameAddress leaf (first ++ second) (first' ++ second') := by
  induction hfirst with
  | nil => exact hsecond
  | frame kind name hbody _ _ ih => exact .frame kind name hbody ih
  | leaf hpiece _ ih => exact .leaf hpiece ih
  | closingTag htag _ ih => exact .closingTag htag ih
  | warning w _ ih => exact .warning w ih

end Script.Parallel

/-- A relation that closing keeps is kept by scripts of the same shape, if opening frames and
putting in related pieces keep it. -/
theorem Assembly.InStep.run {encoding : Encoding ω α} {encoding' : Encoding ω' α'}
    {related : Assembly ω → Assembly ω' → Prop}
    (h : Assembly.InStep encoding encoding' sameAddress related)
    {leaf : Piece Widget → Piece Widget → Prop}
    (hopen : ∀ {one other} kind name, related one other →
      (one.openFrame kind name).1.Matches sameAddress (other.openFrame kind name).1 ∧
        related (one.openFrame kind name).2 (other.openFrame kind name).2)
    (hput : ∀ {one other piece piece'}, related one other → leaf piece piece' →
      related (one.put encoding piece) (other.put encoding' piece'))
    (hwarn : ∀ {one other} (w : Warning), related one other →
      related (one.warn w.kind w.message) (other.warn w.kind w.message))
    {script script' : Script} (hscript : Script.Parallel sameAddress leaf script script')
    {one : Assembly ω} {other : Assembly ω'} (hrelated : related one other) :
    related (Script.run (Assembly.sink encoding) script one)
      (Script.run (Assembly.sink encoding') script' other) := by
  induction hscript generalizing one other with
  | nil => exact hrelated
  | frame kind name _ _ ihbody ihrest =>
    obtain ⟨hrequest, hopened⟩ := hopen kind name hrelated
    exact ihrest (h.closeFrame (ihbody hopened) hrequest)
  | leaf hpiece _ ih => exact ih (hput hrelated hpiece)
  | closingTag htag _ ih => exact ih (h.closeFrame hrelated htag)
  | warning w _ ih => exact ih (hwarn w hrelated)

end Stencil
