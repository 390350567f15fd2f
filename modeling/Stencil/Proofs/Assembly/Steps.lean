import Mathlib.Data.List.Nodup
import Mathlib.Tactic.Tauto
import Stencil.Assembly.Basic

/-!
# What the operations on an assembly change

The shell of a frame is the frame without what it holds: its kind, its name, its
address and the count of what has begun in it.  Which frames are open, and which
closes are still to come, depends on shells alone, so this file says what each
operation does to the shells of the open frames and to the pending addresses.

* `Assembly.shells_pop`, `Assembly.shells_foldl_unwindOne` — closing takes frames off the top.
* `Assembly.mem_pending_foldl_unwindOne` — unwinding remembers exactly the frames it closes.
* `Assembly.closeFrame_step` — the four things that a close request can lead to.
-/

namespace Stencil

variable {ω α : Type}

/-! ## Shells -/

namespace Frame

/-- The frame without what it holds. -/
def shell (frame : Frame ω) : Frame Empty :=
  ⟨frame.kind, frame.name, frame.address, [], [], frame.nextIndex⟩

@[simp] theorem address_shell (frame : Frame ω) : frame.shell.address = frame.address := rfl

@[simp] theorem closing_shell (frame : Frame ω) : frame.shell.closing = frame.closing := rfl

@[simp] theorem isMeantBy_closing (frame : Frame ω) : frame.isMeantBy frame.closing = true := by
  simp [isMeantBy, closing]

end Frame

namespace Assembly

/-- The shells of the open frames, innermost first. -/
def shells (assembly : Assembly ω) : List (Frame Empty) := assembly.stack.map Frame.shell

theorem openAddresses_eq (assembly : Assembly ω) :
    assembly.openAddresses = (assembly.shells.map Frame.address).reverse := by
  simp only [openAddresses, shells, List.map_map]
  rfl

theorem depth_eq (assembly : Assembly ω) : assembly.depth = assembly.shells.length := by
  rw [depth, shells, List.length_map]

theorem shells_eq_nil {assembly : Assembly ω} (h : assembly.stack = []) :
    assembly.shells = [] := by
  rw [shells, h, List.map_nil]

theorem shells_eq_cons {assembly : Assembly ω} {frame : Frame ω} {outer : List (Frame ω)}
    (h : assembly.stack = frame :: outer) :
    assembly.shells = frame.shell :: outer.map Frame.shell := by
  rw [shells, h, List.map_cons]

/-- The next address depends on shells and counts alone. -/
theorem nextAddress_eq (assembly : Assembly ω) :
    assembly.nextAddress =
      match assembly.shells with
      | shell :: _ => shell.address ++ "." ++ toString shell.nextIndex
      | [] => assembly.startId ++ toString assembly.nextIndex := by
  unfold nextAddress shells
  cases assembly.stack with
  | nil => rfl
  | cons frame outer => rfl

/-! ## Placing pieces -/

theorem place_child (assembly : Assembly ω) {piece : Piece ω}
    (hpiece : ∀ attr, piece ≠ .attr attr) : assembly.place piece = assembly.placeChild piece := by
  cases piece with
  | attr attr => exact absurd rfl (hpiece attr)
  | _ => rfl

/-- Placing a piece changes what frames hold, and nothing else but results and the log. -/
theorem place_frame (assembly : Assembly ω) (piece : Piece ω) :
    (assembly.place piece).shells = assembly.shells ∧
      (assembly.place piece).pending = assembly.pending ∧
      (assembly.place piece).startId = assembly.startId ∧
      (assembly.place piece).nextIndex = assembly.nextIndex := by
  cases piece with
  | attr attr =>
    simp only [place, placeAttribute]
    cases hstack : assembly.stack with
    | nil => simp [warn, shells, hstack]
    | cons frame outer =>
      by_cases hkind : frame.kind = .ofElement
      · simp [hkind, shells, hstack, Frame.shell]
      · simp [hkind, shells, hstack, warn]
  | _ =>
    simp only [place, placeChild]
    cases hstack : assembly.stack with
    | nil => simp [shells, hstack]
    | cons frame outer => simp [shells, hstack, Frame.shell]

@[simp] theorem shells_place (assembly : Assembly ω) (piece : Piece ω) :
    (assembly.place piece).shells = assembly.shells := (place_frame assembly piece).1

@[simp] theorem pending_place (assembly : Assembly ω) (piece : Piece ω) :
    (assembly.place piece).pending = assembly.pending := (place_frame assembly piece).2.1

@[simp] theorem startId_place (assembly : Assembly ω) (piece : Piece ω) :
    (assembly.place piece).startId = assembly.startId := (place_frame assembly piece).2.2.1

@[simp] theorem nextIndex_place (assembly : Assembly ω) (piece : Piece ω) :
    (assembly.place piece).nextIndex = assembly.nextIndex := (place_frame assembly piece).2.2.2

/-! ## Using up an index -/

@[simp] theorem pending_claimIndex (assembly : Assembly ω) :
    assembly.claimIndex.pending = assembly.pending := by
  unfold claimIndex; split <;> rfl

@[simp] theorem startId_claimIndex (assembly : Assembly ω) :
    assembly.claimIndex.startId = assembly.startId := by
  unfold claimIndex; split <;> rfl

theorem closings_claimIndex (assembly : Assembly ω) :
    assembly.claimIndex.shells.map Frame.closing = assembly.shells.map Frame.closing := by
  unfold claimIndex
  split
  · rename_i frame outer hstack
    simp [shells, hstack, Frame.closing, Frame.shell]
  · rfl

theorem addresses_claimIndex (assembly : Assembly ω) :
    assembly.claimIndex.shells.map Frame.address = assembly.shells.map Frame.address := by
  unfold claimIndex
  split
  · rename_i frame outer hstack
    simp [shells, hstack]
  · rfl

/-! ## Opening frames and putting in pieces -/

@[simp] theorem pending_openFrame (assembly : Assembly ω) (kind : FrameKind) (name : String) :
    (assembly.openFrame kind name).2.pending = assembly.pending := pending_claimIndex assembly

@[simp] theorem startId_openFrame (assembly : Assembly ω) (kind : FrameKind) (name : String) :
    (assembly.openFrame kind name).2.startId = assembly.startId := startId_claimIndex assembly

theorem shells_openFrame (assembly : Assembly ω) (kind : FrameKind) (name : String) :
    (assembly.openFrame kind name).2.shells =
      (Frame.fresh kind name assembly.nextAddress : Frame Empty) :: assembly.claimIndex.shells :=
  rfl

theorem closing_openFrame (assembly : Assembly ω) (kind : FrameKind) (name : String) :
    (assembly.openFrame kind name).1 =
      ⟨some assembly.nextAddress, kind, name, false⟩ := rfl

@[simp] theorem pending_put (encoding : Encoding ω α) (assembly : Assembly ω)
    (piece : Piece Widget) : (assembly.put encoding piece).pending = assembly.pending := by
  simp [put]

@[simp] theorem startId_put (encoding : Encoding ω α) (assembly : Assembly ω)
    (piece : Piece Widget) : (assembly.put encoding piece).startId = assembly.startId := by
  simp [put]

theorem shells_put (encoding : Encoding ω α) (assembly : Assembly ω) (piece : Piece Widget) :
    (assembly.put encoding piece).shells = assembly.claimIndex.shells := by
  simp only [put, shells_place]
  rfl

/-! ## Closing frames -/

@[simp] theorem shells_remember (assembly : Assembly ω) (address : String) :
    (assembly.remember address).shells = assembly.shells := rfl

@[simp] theorem shells_forget (assembly : Assembly ω) (request : Closing) :
    (assembly.forget request).shells = assembly.shells := by
  unfold forget; split <;> rfl

@[simp] theorem shells_pop (encoding : Encoding ω α) (assembly : Assembly ω) :
    (assembly.pop encoding).shells = assembly.shells.tail := by
  unfold pop
  cases hstack : assembly.stack with
  | nil => simp [shells, hstack]
  | cons frame outer =>
    rw [shells_place, shells_eq_cons hstack, List.tail_cons]
    rfl

@[simp] theorem pending_pop (encoding : Encoding ω α) (assembly : Assembly ω) :
    (assembly.pop encoding).pending = assembly.pending := by
  unfold pop
  split
  · rw [pending_place]
  · rfl

@[simp] theorem startId_pop (encoding : Encoding ω α) (assembly : Assembly ω) :
    (assembly.pop encoding).startId = assembly.startId := by
  unfold pop
  split
  · rw [startId_place]
  · rfl

@[simp] theorem nextIndex_pop (encoding : Encoding ω α) (assembly : Assembly ω) :
    (assembly.pop encoding).nextIndex = assembly.nextIndex := by
  unfold pop
  split
  · rw [nextIndex_place]
  · rfl

@[simp] theorem pending_remember (assembly : Assembly ω) (address : String) :
    (assembly.remember address).pending = assembly.pending.insert address := rfl

/-! ## Warnings -/

section Warnings

variable {test : Warning → Bool} (htest : ∀ message, test ⟨.misplacedAttribute, message⟩ = false)

include htest

/-- Placing a piece raises no warning but that about attributes. -/
theorem filter_warnings_place (assembly : Assembly ω) (piece : Piece ω) :
    (assembly.place piece).log.warnings.filter test = assembly.log.warnings.filter test := by
  have hwarn : ∀ message,
      (assembly.warn .misplacedAttribute message).log.warnings.filter test =
        assembly.log.warnings.filter test := by
    intro message
    simp [warn, Log.warn, htest]
  cases piece with
  | attr attr =>
    simp only [place, placeAttribute]
    split
    · split
      · rfl
      · exact hwarn _
    · exact hwarn _
  | _ =>
    simp only [place, placeChild]
    split <;> rfl

/-- Neither does closing the innermost frame. -/
theorem filter_warnings_pop (encoding : Encoding ω α) (assembly : Assembly ω) :
    (assembly.pop encoding).log.warnings.filter test = assembly.log.warnings.filter test := by
  unfold pop
  split
  · exact filter_warnings_place htest _ _
  · rfl

end Warnings

/-! ## Unwinding -/

/-- One step of unwinding: the innermost frame is closed, and its address remembered. -/
def unwindOne (encoding : Encoding ω α) (assembly : Assembly ω) (frame : Frame ω) :
    Assembly ω := (assembly.remember frame.address).pop encoding

theorem unwind_eq_foldl (encoding : Encoding ω α) (assembly : Assembly ω) (request : Closing) :
    assembly.unwind encoding request =
      (assembly.unfitting request).foldl (unwindOne encoding) assembly := rfl

theorem shells_foldl_unwindOne (encoding : Encoding ω α) (frames : List (Frame ω))
    (assembly : Assembly ω) :
    (frames.foldl (unwindOne encoding) assembly).shells = assembly.shells.drop frames.length := by
  induction frames generalizing assembly with
  | nil => rfl
  | cons frame rest ih =>
    rw [List.foldl_cons, ih, unwindOne, shells_pop, shells_remember, List.drop_tail]
    rfl

theorem mem_pending_foldl_unwindOne (encoding : Encoding ω α) (frames : List (Frame ω))
    (assembly : Assembly ω) (address : String) :
    address ∈ (frames.foldl (unwindOne encoding) assembly).pending ↔
      address ∈ frames.map Frame.address ∨ address ∈ assembly.pending := by
  induction frames generalizing assembly with
  | nil => simp
  | cons frame rest ih =>
    rw [List.foldl_cons, ih, unwindOne, pending_pop, pending_remember, List.mem_insert_iff,
      List.map_cons, List.mem_cons]
    tauto

theorem nodup_pending_foldl_unwindOne (encoding : Encoding ω α) (frames : List (Frame ω))
    (assembly : Assembly ω) (h : assembly.pending.Nodup) :
    (frames.foldl (unwindOne encoding) assembly).pending.Nodup := by
  induction frames generalizing assembly with
  | nil => exact h
  | cons frame rest ih =>
    rw [List.foldl_cons]
    refine ih _ ?_
    rw [unwindOne, pending_pop, pending_remember]
    exact h.insert

theorem root_foldl_unwindOne (encoding : Encoding ω α) (frames : List (Frame ω))
    (assembly : Assembly ω) :
    (frames.foldl (unwindOne encoding) assembly).startId = assembly.startId ∧
      (frames.foldl (unwindOne encoding) assembly).nextIndex = assembly.nextIndex := by
  induction frames generalizing assembly with
  | nil => exact ⟨rfl, rfl⟩
  | cons frame rest ih =>
    rw [List.foldl_cons]
    refine ⟨(ih _).1.trans ?_, (ih _).2.trans ?_⟩
    · rw [unwindOne, startId_pop]
      rfl
    · rw [unwindOne, nextIndex_pop]
      rfl

/-! ## Close requests -/

/-- What a close request leads to: it is a late one, or nothing is open, or it is for the
innermost frame, or the frames inside the nearest fitting one are unwound. -/
inductive CloseStep (encoding : Encoding ω α) (assembly : Assembly ω) (request : Closing) :
    Assembly ω → Prop where
  | late (hlate : assembly.isLate request = true) :
      CloseStep encoding assembly request (assembly.forget request)
  | nothing (hlate : assembly.isLate request = false) (hstack : assembly.stack = []) :
      CloseStep encoding assembly request (assembly.closeNothing encoding request)
  | meant (top : Frame ω) (outer : List (Frame ω)) (hlate : assembly.isLate request = false)
      (hstack : assembly.stack = top :: outer) (hmeant : top.isMeantBy request = true) :
      CloseStep encoding assembly request
        ((if request.explicit then assembly.remember top.address else assembly).pop encoding)
  | mismatch (top : Frame ω) (outer : List (Frame ω)) (hlate : assembly.isLate request = false)
      (hstack : assembly.stack = top :: outer) (hmeant : top.isMeantBy request = false) :
      CloseStep encoding assembly request
        ((assembly.warn .tagMismatch (mismatchMessage request top)).closeUnwinding encoding
          request)

theorem closeFrame_step (encoding : Encoding ω α) (assembly : Assembly ω) (request : Closing) :
    CloseStep encoding assembly request (assembly.closeFrame encoding request) := by
  unfold closeFrame
  cases hlate : assembly.isLate request with
  | true => exact .late hlate
  | false =>
    cases hstack : assembly.stack with
    | nil => exact .nothing hlate hstack
    | cons top outer =>
      cases hmeant : top.isMeantBy request with
      | true =>
        have hstep : CloseStep encoding assembly request _ :=
          .meant top outer hlate hstack hmeant
        cases hexplicit : request.explicit <;> simpa [hmeant, hexplicit] using hstep
      | false => simpa [hmeant] using CloseStep.mismatch top outer hlate hstack hmeant

/-- A frame whose own close comes while it is the innermost one is closed by it. -/
theorem closeFrame_closing (encoding : Encoding ω α) {assembly : Assembly ω} {frame : Frame ω}
    {outer : List (Frame ω)} (hstack : assembly.stack = frame :: outer)
    (hlate : frame.address ∉ assembly.pending) :
    assembly.closeFrame encoding frame.closing = assembly.pop encoding := by
  have hnot : assembly.isLate frame.closing = false := by
    simpa [isLate, Frame.closing] using hlate
  simp only [closeFrame, hnot, hstack, Frame.isMeantBy_closing]
  rfl

end Assembly

end Stencil
