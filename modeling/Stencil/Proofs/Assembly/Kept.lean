import Stencil.Proofs.Assembly.Contents
import Stencil.Proofs.Assembly.Steps
import Stencil.Proofs.Script.Contents

/-!
# What opening and closing keep

However its frames are closed, an assembly only ever moves pieces about and joins them.  So
a property of assemblies that each single move keeps is kept by whole scripts, even where
closing tags cross one another, and so is a property of the lists of pieces that an assembly
holds.

* `Assembly.Kept` — a property that every step of opening and closing keeps.
* `Assembly.Kept.run`, `Assembly.Kept.closeAll` — whole scripts, and the end, keep it.
* `Piece.Gathers`, `Assembly.Kept.ofGathers` — properties of the lists that are held.
-/

namespace Stencil

/-! ## Properties that closing keeps -/

namespace Assembly

variable {ω α : Type} {encoding : Encoding ω α} {test : Piece Widget → Prop}
  {holds : Assembly ω → Prop}

/-- The steps that all operations consist of keep a property, provided that the pieces put
in pass a test. -/
structure Kept (encoding : Encoding ω α) (test : Piece Widget → Prop)
    (holds : Assembly ω → Prop) : Prop where
  put : ∀ assembly piece, test piece → holds assembly → holds (assembly.put encoding piece)
  openFrame : ∀ assembly kind name, holds assembly → holds (assembly.openFrame kind name).2
  pop : ∀ assembly, holds assembly → holds (assembly.pop encoding)
  remember : ∀ assembly address, holds assembly → holds (assembly.remember address)
  forget : ∀ assembly request, holds assembly → holds (assembly.forget request)
  warn : ∀ assembly kind message, holds assembly → holds (assembly.warn kind message)

namespace Kept

theorem unwind (h : Kept encoding test holds) {assembly : Assembly ω}
    (hassembly : holds assembly) (request : Closing) :
    holds (assembly.unwind encoding request) := by
  rw [unwind_eq_foldl]
  generalize assembly.unfitting request = frames
  induction frames generalizing assembly with
  | nil => exact hassembly
  | cons frame rest ih => exact ih (h.pop _ (h.remember _ _ hassembly))

theorem putParagraph (h : Kept encoding test holds) {assembly : Assembly ω}
    (hassembly : holds assembly) : holds (assembly.putParagraph encoding) := by
  have hopened := h.openFrame assembly .ofElement "p" hassembly
  simp only [Assembly.putParagraph]
  split
  · exact h.forget _ _ hopened
  · exact h.pop _ hopened

theorem closeNothing (h : Kept encoding test holds) {assembly : Assembly ω}
    (hassembly : holds assembly) (request : Closing) :
    holds (assembly.closeNothing encoding request) := by
  unfold Assembly.closeNothing
  by_cases htag : request.isTag "p" = true
  · rw [if_pos htag]
    exact h.putParagraph hassembly
  · rw [if_neg htag]
    exact h.warn _ _ _ hassembly

theorem closeUnwinding (h : Kept encoding test holds) {assembly : Assembly ω}
    (hassembly : holds assembly) (request : Closing) :
    holds (assembly.closeUnwinding encoding request) := by
  have hunwound := h.unwind hassembly request
  unfold Assembly.closeUnwinding
  cases hstack : (assembly.unwind encoding request).stack with
  | nil =>
    simp only [hstack]
    exact h.closeNothing hunwound request
  | cons top outer =>
    simp only [hstack, closeFitting]
    split
    · exact h.pop _ (h.remember _ _ hunwound)
    · exact h.pop _ hunwound

theorem closeFrame (h : Kept encoding test holds) {assembly : Assembly ω}
    (hassembly : holds assembly) (request : Closing) :
    holds (assembly.closeFrame encoding request) := by
  have hstep := closeFrame_step encoding assembly request
  generalize assembly.closeFrame encoding request = closed at hstep
  cases hstep with
  | late _ => exact h.forget _ _ hassembly
  | nothing _ _ => exact h.closeNothing hassembly request
  | meant top outer _ _ _ =>
    refine h.pop _ ?_
    split
    · exact h.remember _ _ hassembly
    · exact hassembly
  | mismatch top outer _ _ _ => exact h.closeUnwinding (h.warn _ _ _ hassembly) request

theorem closeAll (h : Kept encoding test holds) {assembly : Assembly ω}
    (hassembly : holds assembly) : holds (assembly.closeAll encoding) := by
  unfold Assembly.closeAll
  generalize assembly.stack = frames
  induction frames generalizing assembly with
  | nil => exact hassembly
  | cons frame rest ih =>
    refine ih ?_
    have hclosed := h.closeFrame hassembly frame.closing
    simp only [closeForced]
    split
    · exact h.pop _ hclosed
    · exact hclosed

end Kept

end Assembly

/-! ## Running scripts -/

mutual
/-- The pieces that a step puts in itself. -/
def Directive.leaves : Directive → List (Piece Widget)
  | .frame _ _ body => Script.leaves body
  | .leaf piece => [piece]
  | _ => []
/-- The pieces that steps put in themselves. -/
def Script.leaves : List Directive → List (Piece Widget)
  | [] => []
  | step :: rest => step.leaves ++ Script.leaves rest
end

theorem Script.leaves_append (first second : Script) :
    Script.leaves (first ++ second) = Script.leaves first ++ Script.leaves second := by
  induction first with
  | nil => rfl
  | cons step rest ih => rw [List.cons_append, leaves, leaves, ih, List.append_assoc]

variable {ω α : Type} {encoding : Encoding ω α} {test : Piece Widget → Prop}
  {holds : Assembly ω → Prop}

mutual
theorem Assembly.Kept.step (h : Assembly.Kept encoding test holds) :
    ∀ step : Directive, (∀ piece ∈ step.leaves, test piece) → ∀ assembly, holds assembly →
      holds (step.run (Assembly.sink encoding) assembly)
  | .frame kind name body, hleaves, assembly, hassembly =>
    h.closeFrame
      (Assembly.Kept.run h body hleaves _ (h.openFrame assembly kind name hassembly)) _
  | .leaf piece, hleaves, assembly, hassembly =>
    h.put assembly piece (hleaves piece List.mem_cons_self) hassembly
  | .closingTag id tag, _, _, hassembly => h.closeFrame hassembly (.ofTag id tag)
  | .warning w, _, assembly, hassembly => h.warn assembly w.kind w.message hassembly
/-- What the steps keep, whole scripts keep. -/
theorem Assembly.Kept.run (h : Assembly.Kept encoding test holds) :
    ∀ script : Script, (∀ piece ∈ Script.leaves script, test piece) → ∀ assembly,
      holds assembly → holds (Script.run (Assembly.sink encoding) script assembly)
  | [], _, _, hassembly => hassembly
  | step :: rest, hleaves, _, hassembly => by
    have hfirst := Assembly.Kept.step h step
      (fun piece hpiece => hleaves piece (List.mem_append_left _ hpiece)) _ hassembly
    exact Assembly.Kept.run h rest
      (fun piece hpiece => hleaves piece (List.mem_append_right _ hpiece)) _ hfirst
end

/-! ## Lists of pieces -/

/-- A property of lists that are kept last piece first, and a test of pieces: the property
is kept as pieces that pass the test are put in, and a frame whose children have it becomes
a piece that passes. -/
structure Piece.Gathers (test : Piece Widget → Prop) (property : List (Piece Widget) → Prop) :
    Prop where
  nil : property []
  push : ∀ {pieces piece}, property pieces → test piece → (∀ attr, piece ≠ .attr attr) →
    property (pushJoined Piece.join? pieces piece)
  frame : ∀ {frame : Frame Widget}, property frame.children → test frame.piece

/-- The children of all open frames, and the complete pieces, have a property. -/
structure Contents.Holds (property : List (Piece Widget) → Prop) (contents : Contents Widget) :
    Prop where
  stack : ∀ frame ∈ contents.stack, property frame.children
  results : property contents.results

namespace Piece.Gathers

variable {test : Piece Widget → Prop} {property : List (Piece Widget) → Prop}
  {contents : Contents Widget} {piece : Piece Widget}

theorem receive (h : Piece.Gathers test property) {frame : Frame Widget}
    (hframe : property frame.children) (hpiece : test piece) :
    property (frame.receive piece).children := by
  cases piece with
  | attr attr =>
    rw [Frame.receive]
    split <;> exact hframe
  | _ => exact h.push hframe hpiece (by simp)

theorem place (h : Piece.Gathers test property) (hcontents : contents.Holds property)
    (hpiece : test piece) : (contents.place piece).Holds property := by
  obtain ⟨stack, results⟩ := contents
  cases stack with
  | nil =>
    cases piece with
    | attr attr => exact hcontents
    | _ => exact ⟨hcontents.stack, h.push hcontents.results hpiece (by simp)⟩
  | cons frame outer =>
    refine ⟨?_, hcontents.results⟩
    intro other hother
    rcases List.mem_cons.mp hother with rfl | houter
    · exact h.receive (hcontents.stack frame List.mem_cons_self) hpiece
    · exact hcontents.stack other (List.mem_cons_of_mem _ houter)

end Piece.Gathers

/-- What putting pieces in and closing frames keeps of lists holds of all that is held. -/
theorem Assembly.Kept.ofGathers {encoding : Encoding Widget α} (keeps : encoding.Keeps)
    {test : Piece Widget → Prop} {property : List (Piece Widget) → Prop}
    (h : Piece.Gathers test property) :
    Assembly.Kept encoding test (·.contents.Holds property) where
  put := by
    intro assembly piece hpiece hassembly
    rw [contents_put, keeps.leaf]
    exact h.place hassembly hpiece
  openFrame := by
    intro assembly kind name hassembly
    rw [contents_openFrame]
    refine ⟨?_, hassembly.results⟩
    intro frame hframe
    rcases List.mem_cons.mp hframe with rfl | houter
    · exact h.nil
    · exact hassembly.stack frame houter
  pop := by
    intro assembly hassembly
    cases hstack : assembly.stack with
    | nil =>
      rw [Assembly.pop, hstack]
      exact hassembly
    | cons frame outer =>
      have hcontents : assembly.contents =
          ⟨frame.unnumbered :: outer.map Frame.unnumbered, assembly.results⟩ := by
        rw [contents, hstack, List.map_cons]
      rw [hcontents] at hassembly
      rw [contents_pop encoding hstack, keeps.closed]
      have houter : Contents.Holds property ⟨outer.map Frame.unnumbered, assembly.results⟩ :=
        ⟨fun other hother => hassembly.stack other (List.mem_cons_of_mem _ hother),
          hassembly.results⟩
      have hframe : property frame.children :=
        hassembly.stack frame.unnumbered List.mem_cons_self
      exact h.place houter (h.frame hframe)
  remember := fun _ _ hassembly => hassembly
  forget := by
    intro assembly request hassembly
    rw [contents_forget]
    exact hassembly
  warn := fun _ _ _ hassembly => hassembly

/-- What comes out of a script has the property if the pieces that the script puts in pass
the test, however it closes its frames. -/
theorem Piece.Gathers.results {encoding : Encoding Widget α} (keeps : encoding.Keeps)
    {test : Piece Widget → Prop} {property : List (Piece Widget) → Prop}
    (h : Piece.Gathers test property) {script : Script}
    (hscript : ∀ piece ∈ Script.leaves script, test piece) (startId : String) :
    property ((Script.run (Assembly.sink encoding) script (.start startId)).closeAll
      encoding).results := by
  have hkept := Assembly.Kept.ofGathers keeps h
  have hstart : (Assembly.start startId : Assembly Widget).contents.Holds property :=
    ⟨fun _ hframe => absurd hframe List.not_mem_nil, h.nil⟩
  exact (hkept.closeAll (hkept.run script hscript _ hstart)).results

end Stencil
