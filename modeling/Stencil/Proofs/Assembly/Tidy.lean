import Mathlib.Data.List.TakeWhile
import Mathlib.Logic.Function.Iterate
import Stencil.Proofs.Assembly.Contents
import Stencil.Proofs.Assembly.Operation
import Stencil.Proofs.Assembly.Recovery
import Stencil.Script.Basic

/-!
# Assemblies in good order

Whatever is opened, put in and closed from the start on, no two open frames have the same
address, and closes are pending only for frames that were opened before and are closed by
now.  In such an assembly a close request closes some of the innermost frames, and at most
puts in an empty paragraph after that.

* `Assembly.Tidy` — the order, which all operations keep.
* `Assembly.bringsParagraph` — the requests that put in an empty paragraph.
* `Assembly.Tidy.closeFrame_effect` — what any close request does.
* `Assembly.Tidy.drains`, `Assembly.Tidy.closeAll_closes` — closing all frames closes each of
  them once, by its own request.
* `Assembly.Reachable.tidy` — whatever can be reached is in good order.
* `Script.tidy_run` — scripts keep the order.
-/

namespace Stencil

variable {ω α : Type}

/-- The innermost frame closed, and its piece put where it belongs. -/
def Contents.pop (encoding : Encoding ω α) (contents : Contents ω) : Contents ω :=
  match contents.stack with
  | frame :: outer => (Contents.mk outer contents.results).place (encoding.closed frame.piece)
  | [] => contents

namespace Assembly

variable {encoding : Encoding ω α} {assembly : Assembly ω} {path : List Nat}

theorem contents_pop_eq (encoding : Encoding ω α) (assembly : Assembly ω) :
    (assembly.pop encoding).contents = assembly.contents.pop encoding := by
  cases hstack : assembly.stack with
  | nil => simp [pop, Contents.pop, contents, hstack]
  | cons frame outer =>
    rw [contents_pop encoding hstack, contents, hstack]
    rfl

/-! ## Closing the innermost frames -/

/-- The innermost `count` frames have been closed, one after the other, and nothing else
was put in. -/
structure Closes (encoding : Encoding ω α) (count : Nat) (before after : Assembly ω) : Prop
    extends Shrinks count before after where
  root : after.nextIndex = before.nextIndex
  contents : after.contents = (Contents.pop encoding)^[count] before.contents

theorem Shrinks.trans {count count' : Nat} {before middle after : Assembly ω}
    (h : Shrinks count before middle) (h' : Shrinks count' middle after) :
    Shrinks (count + count') before after where
  startId := h'.startId.trans h.startId
  nextIndex := le_trans h.nextIndex h'.nextIndex
  shells := by rw [h'.shells, h.shells, List.drop_drop]
  pending := by
    intro address hmem
    rw [List.take_add, List.map_append, List.mem_append, ← h.shells]
    rcases h'.pending address hmem with hclosed | hold
    · exact .inl (.inr hclosed)
    · exact (h.pending address hold).imp_left .inl
  nodup := fun hnodup => h'.nodup (h.nodup hnodup)

namespace Closes

variable {count : Nat} {before middle after : Assembly ω}

theorem refl (encoding : Encoding ω α) (assembly : Assembly ω) :
    Closes encoding 0 assembly assembly :=
  ⟨(Recovers.refl assembly).shrinks, rfl, rfl⟩

theorem trans {count' : Nat} (h : Closes encoding count before middle)
    (h' : Closes encoding count' middle after) : Closes encoding (count + count') before after where
  toShrinks := h.toShrinks.trans h'.toShrinks
  root := h'.root.trans h.root
  contents := by rw [h'.contents, h.contents, Nat.add_comm, Function.iterate_add_apply]

/-- What follows a warning follows without it. -/
theorem of_warn {kind : WarningKind} {message : String}
    (h : Closes encoding count (before.warn kind message) after) :
    Closes encoding count before after :=
  ⟨⟨h.startId, h.nextIndex, h.shells, h.pending, h.nodup⟩, h.root, h.contents⟩

end Closes

theorem forget_closes (encoding : Encoding ω α) (assembly : Assembly ω) (request : Closing) :
    Closes encoding 0 assembly (assembly.forget request) where
  toShrinks := forget_shrinks assembly request
  root := by unfold forget; split <;> rfl
  contents := contents_forget assembly request

theorem pop_closes (encoding : Encoding ω α) (assembly : Assembly ω) :
    Closes encoding 1 assembly (assembly.pop encoding) where
  toShrinks := pop_shrinks encoding assembly
  root := nextIndex_pop encoding assembly
  contents := contents_pop_eq encoding assembly

theorem remember_pop_closes (encoding : Encoding ω α) {top : Frame ω} {outer : List (Frame ω)}
    (hstack : assembly.stack = top :: outer) :
    Closes encoding 1 assembly ((assembly.remember top.address).pop encoding) where
  toShrinks := (remember_pop_recovers encoding hstack).shrinks
  root := nextIndex_pop encoding _
  contents := contents_pop_eq encoding _

theorem unwind_closes (encoding : Encoding ω α) (assembly : Assembly ω) (request : Closing) :
    Closes encoding (assembly.unfitting request).length assembly
      (assembly.unwind encoding request) where
  toShrinks := (unwind_recovers encoding assembly request).shrinks
  root := (root_foldl_unwindOne encoding _ assembly).2
  contents := by
    rw [unwind_eq_foldl]
    generalize assembly.unfitting request = frames
    induction frames generalizing assembly with
    | nil => rfl
    | cons frame rest ih =>
      rw [List.foldl_cons, ih, unwindOne, contents_pop_eq]
      rfl

theorem closeFitting_closes (encoding : Encoding ω α) (request : Closing) {top : Frame ω}
    {outer : List (Frame ω)} (hstack : assembly.stack = top :: outer) :
    Closes encoding 1 assembly (assembly.closeFitting encoding request top) := by
  unfold closeFitting
  split
  · exact remember_pop_closes encoding hstack
  · exact pop_closes encoding assembly

/-! ## The order of an assembly -/

/-- The open frames of an assembly are at a path, and the closes that are still to come are
those of frames that were opened before and are closed by now. -/
structure Tidy (assembly : Assembly ω) (path : List Nat) : Prop where
  isAt : assembly.IsAt path
  nodup : assembly.pending.Nodup
  apart : ∀ address ∈ assembly.pending, address ∉ assembly.shells.map Frame.address
  given : ∀ address ∈ assembly.pending,
    GivenBefore assembly.startId (assembly.nextPath path) address

theorem tidy_start (startId : String) : (start startId : Assembly ω).Tidy [] where
  isAt := isAt_start startId
  nodup := List.nodup_nil
  apart := by simp [start]
  given := by simp [start]

namespace Tidy

theorem warn (h : assembly.Tidy path) (kind : WarningKind) (message : String) :
    (assembly.warn kind message).Tidy path :=
  ⟨h.isAt, h.nodup, h.apart, h.given⟩

/-- Every address in use was given out before. -/
theorem used (h : assembly.Tidy path) {address : String}
    (hused : address ∈ assembly.pending ∨ address ∈ assembly.shells.map Frame.address) :
    GivenBefore assembly.startId (assembly.nextPath path) address := by
  rcases hused with hpending | hopen
  · exact h.given address hpending
  · obtain ⟨shell, hshell, rfl⟩ := List.mem_map.mp hopen
    exact h.isAt.givenBefore shell hshell

/-- So the next address is not in use. -/
theorem next_unused (h : assembly.Tidy path) :
    assembly.nextAddress ∉ assembly.pending ∧
      assembly.nextAddress ∉ assembly.shells.map Frame.address :=
  ⟨fun hmem => h.isAt.nextAddress_new (h.used (.inl hmem)),
    fun hmem => h.isAt.nextAddress_new (h.used (.inr hmem))⟩

/-- Opening a frame keeps the order. -/
theorem openFrame (h : assembly.Tidy path) (kind : FrameKind) (name : String) :
    (assembly.openFrame kind name).2.Tidy (assembly.nextPath path) := by
  obtain ⟨hat, hnext⟩ := h.isAt.openFrame kind name
  have hpending : (assembly.openFrame kind name).2.pending = assembly.pending :=
    pending_openFrame assembly kind name
  have haddresses : (assembly.openFrame kind name).2.shells.map Frame.address =
      assembly.nextAddress :: assembly.shells.map Frame.address := by
    rw [shells_openFrame, List.map_cons, addresses_claimIndex]
    rfl
  refine ⟨hat, hpending ▸ h.nodup, ?_, ?_⟩
  · intro address hmem
    rw [hpending] at hmem
    rw [haddresses, List.mem_cons, not_or]
    refine ⟨?_, h.apart address hmem⟩
    rintro rfl
    exact h.next_unused.1 hmem
  · intro address hmem
    rw [hpending] at hmem
    rw [startId_openFrame]
    exact (h.given address hmem).mono (le_of_lt hnext)

/-- Putting in a piece keeps the order. -/
theorem put (h : assembly.Tidy path) (encoding : Encoding ω α) (piece : Piece Widget) :
    (assembly.put encoding piece).Tidy path := by
  obtain ⟨hat, hnext⟩ := h.isAt.put encoding piece
  have hpending : (assembly.put encoding piece).pending = assembly.pending :=
    pending_put encoding assembly piece
  refine ⟨hat, hpending ▸ h.nodup, ?_, ?_⟩
  · intro address hmem
    rw [hpending] at hmem
    rw [shells_put, addresses_claimIndex]
    exact h.apart address hmem
  · intro address hmem
    rw [hpending] at hmem
    rw [startId_put]
    exact (h.given address hmem).mono hnext

/-- Closing some of the innermost frames keeps the order. -/
theorem shrinks (h : assembly.Tidy path) {count : Nat} {after : Assembly ω}
    (hshrinks : Shrinks count assembly after) :
    ∃ path', after.Tidy path' ∧ assembly.nextPath path ≤ after.nextPath path' := by
  obtain ⟨path', hat, hnext⟩ := hshrinks.isAt h.isAt
  refine ⟨path', ⟨hat, hshrinks.nodup h.nodup, hshrinks.apart h.isAt.nodup h.apart, ?_⟩, hnext⟩
  intro address hmem
  rw [hshrinks.startId]
  refine (h.used ?_).mono hnext
  rcases hshrinks.pending address hmem with hclosed | hold
  · exact .inr (List.map_subset _ (List.take_subset _ _) hclosed)
  · exact .inl hold

end Tidy

/-! ## Requests that find nothing to close -/

/-- Whether a request is not late and finds no frame to close: none is open, or it is not
for the innermost one and fits none at all. -/
def findsNothing (assembly : Assembly ω) (request : Closing) : Bool :=
  !assembly.isLate request &&
    match assembly.stack with
    | [] => true
    | top :: _ => !top.isMeantBy request && assembly.stack.all (!·.fits request)

/-- Whether a request is the end of a paragraph and finds nothing to close, so that an empty
paragraph is put in. -/
def bringsParagraph (assembly : Assembly ω) (request : Closing) : Bool :=
  request.isTag "p" && assembly.findsNothing request

/-- What a close request does: it closes some of the innermost frames, or all of them with
an empty paragraph after them. -/
inductive CloseEffect (encoding : Encoding ω α) (before : Assembly ω) (request : Closing) :
    Assembly ω → Prop
  | closed {after : Assembly ω} (count : Nat) (hparagraph : before.bringsParagraph request = false)
      (hcloses : Closes encoding count before after) : CloseEffect encoding before request after
  | paragraph {emptied : Assembly ω} (hparagraph : before.bringsParagraph request = true)
      (hcloses : Closes encoding before.depth before emptied) :
      CloseEffect encoding before request ((emptied.openFrame .ofElement "p").2.pop encoding)

theorem CloseEffect.of_warn {kind : WarningKind} {message : String} {request : Closing}
    {after : Assembly ω}
    (h : CloseEffect encoding (assembly.warn kind message) request after) :
    CloseEffect encoding assembly request after := by
  cases h with
  | closed count hparagraph hcloses => exact .closed count hparagraph hcloses.of_warn
  | paragraph hparagraph hcloses => exact .paragraph hparagraph hcloses.of_warn

/-- After all frames have been closed, the end of a paragraph puts in an empty one. -/
theorem Tidy.closeNothing_effect (h : assembly.Tidy path) {request : Closing}
    {emptied : Assembly ω} (hnothing : assembly.findsNothing request = true)
    (hcloses : Closes encoding assembly.depth assembly emptied) :
    CloseEffect encoding assembly request (emptied.closeNothing encoding request) := by
  cases htag : request.isTag "p" with
  | false =>
    have hparagraph : assembly.bringsParagraph request = false := by
      rw [bringsParagraph, htag, Bool.false_and]
    have hwarned : Closes encoding assembly.depth assembly
        (emptied.warn .strayClose (strayMessage request)) :=
      ⟨⟨hcloses.startId, hcloses.nextIndex, hcloses.shells, hcloses.pending, hcloses.nodup⟩,
        hcloses.root, hcloses.contents⟩
    simp only [closeNothing, htag]
    exact .closed assembly.depth hparagraph hwarned
  | true =>
    have hparagraph : assembly.bringsParagraph request = true := by
      rw [bringsParagraph, htag, hnothing, Bool.and_self]
    -- No close is pending for the address of a frame that has just been opened.
    obtain ⟨path', hemptied, -⟩ := h.shrinks hcloses.toShrinks
    have hlate : (emptied.openFrame .ofElement "p").2.isLate
        (emptied.openFrame .ofElement "p").1 = false := by
      simpa [isLate, closing_openFrame] using hemptied.next_unused.1
    simp only [closeNothing, htag, putParagraph, hlate]
    exact .paragraph hparagraph hcloses

/-- Unwinding closes all frames just if none fits. -/
theorem shells_unwind_eq_nil (encoding : Encoding ω α) (assembly : Assembly ω)
    (request : Closing) :
    (assembly.unwind encoding request).shells = [] ↔
      assembly.unfitting request = assembly.stack := by
  have hbegins : assembly.unfitting request <+: assembly.stack := List.takeWhile_prefix _
  rw [(unwind_closes encoding assembly request).shells, List.drop_eq_nil_iff, ← depth_eq, depth]
  exact ⟨hbegins.eq_of_length_le, fun hall => le_of_eq (congrArg List.length hall.symm)⟩

/-- A request that is not for the innermost frame finds nothing just if no frame fits it. -/
theorem findsNothing_iff {request : Closing} {top : Frame ω} {outer : List (Frame ω)}
    (hlate : assembly.isLate request = false) (hstack : assembly.stack = top :: outer)
    (hmeant : top.isMeantBy request = false) :
    assembly.findsNothing request = true ↔ assembly.unfitting request = assembly.stack := by
  have hfound : assembly.findsNothing request = assembly.stack.all (!·.fits request) := by
    simp [findsNothing, hlate, hstack, hmeant]
  rw [hfound, unfitting, List.takeWhile_eq_self_iff, List.all_eq_true]

/-- What a request that is not for the innermost frame does. -/
theorem Tidy.closeUnwinding_effect (h : assembly.Tidy path) {request : Closing} {top : Frame ω}
    {outer : List (Frame ω)} (hlate : assembly.isLate request = false)
    (hstack : assembly.stack = top :: outer) (hmeant : top.isMeantBy request = false) :
    CloseEffect encoding assembly request (assembly.closeUnwinding encoding request) := by
  have hunwound := unwind_closes encoding assembly request
  unfold closeUnwinding
  cases hleft : (assembly.unwind encoding request).stack with
  | nil =>
    have hall := (shells_unwind_eq_nil encoding assembly request).mp (shells_eq_nil hleft)
    rw [hall] at hunwound
    simp only [hleft]
    exact h.closeNothing_effect ((findsNothing_iff hlate hstack hmeant).mpr hall) hunwound
  | cons left rest =>
    have hfits : assembly.unfitting request ≠ assembly.stack := by
      rw [Ne, ← shells_unwind_eq_nil encoding, shells_eq_cons hleft]
      exact List.cons_ne_nil _ _
    have hparagraph : assembly.bringsParagraph request = false := by
      rw [bringsParagraph,
        Bool.eq_false_iff.mpr (mt (findsNothing_iff hlate hstack hmeant).mp hfits),
        Bool.and_false]
    simp only [hleft]
    exact .closed _ hparagraph (hunwound.trans (closeFitting_closes encoding request hleft))

/-- Whatever a close request is for, it closes some of the innermost frames, and puts in an
empty paragraph if it is the end of one and finds nothing to close. -/
theorem Tidy.closeFrame_effect (h : assembly.Tidy path) (encoding : Encoding ω α)
    (request : Closing) :
    CloseEffect encoding assembly request (assembly.closeFrame encoding request) := by
  have hquiet : ∀ {after : Assembly ω} {count : Nat}, assembly.findsNothing request = false →
      Closes encoding count assembly after → CloseEffect encoding assembly request after := by
    intro after count hfound hcloses
    exact .closed count (by rw [bringsParagraph, hfound, Bool.and_false]) hcloses
  have hstep := closeFrame_step encoding assembly request
  generalize assembly.closeFrame encoding request = after at hstep
  cases hstep with
  | late hlate =>
    exact hquiet (by rw [findsNothing, hlate]; rfl) (forget_closes encoding assembly request)
  | nothing hlate hstack =>
    have hdepth : assembly.depth = 0 := by rw [depth, hstack, List.length_nil]
    refine h.closeNothing_effect ?_ ?_
    · simp [findsNothing, hlate, hstack]
    · rw [hdepth]
      exact .refl encoding assembly
  | meant top outer hlate hstack hmeant =>
    have hfound : assembly.findsNothing request = false := by
      simp [findsNothing, hlate, hstack, hmeant]
    cases request.explicit with
    | true => exact hquiet hfound (remember_pop_closes encoding hstack)
    | false => exact hquiet hfound (pop_closes encoding assembly)
  | mismatch top outer hlate hstack hmeant =>
    exact ((h.warn _ _).closeUnwinding_effect hlate hstack hmeant).of_warn

/-- Closing a frame keeps the order, whatever the request. -/
theorem Tidy.closeFrame (h : assembly.Tidy path) (encoding : Encoding ω α) (request : Closing) :
    ∃ path', (assembly.closeFrame encoding request).Tidy path' ∧
      assembly.nextPath path ≤ (assembly.closeFrame encoding request).nextPath path' := by
  have heffect := h.closeFrame_effect encoding request
  generalize assembly.closeFrame encoding request = after at heffect
  cases heffect with
  | closed count _ hcloses => exact h.shrinks hcloses.toShrinks
  | @paragraph emptied _ hcloses =>
    obtain ⟨path', hemptied, hle⟩ := h.shrinks hcloses.toShrinks
    obtain ⟨path'', hafter, hle'⟩ :=
      (hemptied.openFrame .ofElement "p").shrinks (pop_shrinks encoding _)
    have hopen := (hemptied.isAt.openFrame .ofElement "p").2
    exact ⟨path'', hafter, le_trans hle (le_trans (le_of_lt hopen) hle')⟩

/-! ## Closing all frames -/

/-- Frames are closed one after the other, each as the innermost one and by its own request,
until none is open.  No request is late, and each closes its frame, so that no frame is left
to be closed in any case. -/
inductive Drains (encoding : Encoding ω α) : List Closing → Assembly ω → Assembly ω → Prop
  | nil {assembly : Assembly ω} (hstack : assembly.stack = []) :
      Drains encoding [] assembly assembly
  | cons {assembly after : Assembly ω} {top : Frame ω} {outer : List (Frame ω)}
      {requests : List Closing} (hstack : assembly.stack = top :: outer)
      (hlate : assembly.isLate top.closing = false)
      (hclose : assembly.closeFrame encoding top.closing = assembly.pop encoding)
      (hforced : assembly.closeForced encoding top = assembly.closeFrame encoding top.closing)
      (hdepth : (assembly.closeFrame encoding top.closing).depth < assembly.depth)
      (hrest : Drains encoding requests (assembly.pop encoding) after) :
      Drains encoding (top.closing :: requests) assembly after

/-- In good order, no close is pending for the innermost frame. -/
theorem Tidy.top_not_pending (h : assembly.Tidy path) {top : Frame ω} {outer : List (Frame ω)}
    (hstack : assembly.stack = top :: outer) : top.address ∉ assembly.pending := by
  intro hmem
  refine h.apart _ hmem ?_
  rw [shells_eq_cons hstack]
  exact List.mem_cons_self

theorem depth_pop_lt (encoding : Encoding ω α) {top : Frame ω} {outer : List (Frame ω)}
    (hstack : assembly.stack = top :: outer) :
    (assembly.pop encoding).depth < assembly.depth := by
  rw [depth_eq, depth_eq, shells_pop, shells_eq_cons hstack, List.tail_cons, List.length_cons]
  omega

/-- In good order, each frame is closed by its own request. -/
theorem Tidy.closeForced_eq (h : assembly.Tidy path) {frame top : Frame ω}
    {outer : List (Frame ω)} (hstack : assembly.stack = top :: outer)
    (hsame : top.closing = frame.closing) :
    assembly.closeForced encoding frame = assembly.pop encoding := by
  have hclose : assembly.closeFrame encoding frame.closing = assembly.pop encoding := by
    rw [← hsame]
    exact closeFrame_closing encoding hstack (h.top_not_pending hstack)
  simp only [closeForced, hclose, if_neg (not_le_of_gt (depth_pop_lt encoding hstack))]

/-- Closing all frames closes each of them once, by its own request. -/
theorem Tidy.drains (h : assembly.Tidy path) (encoding : Encoding ω α) :
    Drains encoding (assembly.stack.map Frame.closing) assembly (assembly.closeAll encoding) := by
  -- The frames are closed by the requests they had at first, whatever they hold by then.
  have hfold : ∀ (frames : List (Frame ω)) (assembly : Assembly ω) (path : List Nat),
      assembly.Tidy path → assembly.shells.map Frame.closing = frames.map Frame.closing →
        Drains encoding (frames.map Frame.closing) assembly
          (frames.foldl (closeForced encoding) assembly) := by
    intro frames
    induction frames with
    | nil =>
      intro assembly path _ hclosings
      exact .nil (List.map_eq_nil_iff.mp (List.map_eq_nil_iff.mp hclosings))
    | cons frame rest ih =>
      intro assembly path h hclosings
      cases hstack : assembly.stack with
      | nil => simp [shells_eq_nil hstack] at hclosings
      | cons top outer =>
        rw [shells_eq_cons hstack, List.map_cons, List.map_cons, List.cons.injEq,
          Frame.closing_shell] at hclosings
        obtain ⟨path', hpopped, -⟩ := h.shrinks (pop_shrinks encoding assembly)
        have hrest := ih (assembly.pop encoding) path' hpopped (by
          rw [shells_pop, shells_eq_cons hstack]
          exact hclosings.2)
        have hpending := h.top_not_pending hstack
        have hclose := closeFrame_closing encoding hstack hpending
        rw [List.foldl_cons, List.map_cons, h.closeForced_eq hstack hclosings.1, ← hclosings.1]
        refine .cons hstack ?_ hclose ?_ ?_ hrest
        · simpa [isLate, Frame.closing] using hpending
        · rw [h.closeForced_eq hstack rfl, hclose]
        · rw [hclose]
          exact depth_pop_lt encoding hstack
  refine hfold assembly.stack assembly path h ?_
  rw [shells, List.map_map]
  rfl

theorem Drains.closes {requests : List Closing} {before after : Assembly ω}
    (h : Drains encoding requests before after) :
    Closes encoding requests.length before after := by
  induction h with
  | nil _ => exact .refl encoding _
  | cons hstack _ _ _ _ _ ih =>
    rw [List.length_cons, Nat.add_comm]
    exact (pop_closes encoding _).trans ih

/-- Closing all frames closes each of them once, and does nothing else. -/
theorem Tidy.closeAll_closes (h : assembly.Tidy path) (encoding : Encoding ω α) :
    Closes encoding assembly.depth assembly (assembly.closeAll encoding) := by
  have hcloses := (h.drains encoding).closes
  rwa [List.length_map] at hcloses

/-- Nothing is open once all frames are closed. -/
theorem Closes.stack_eq_nil {after : Assembly ω}
    (h : Closes encoding assembly.depth assembly after) : after.stack = [] := by
  have hshells := h.shells
  rw [depth_eq, List.drop_length] at hshells
  exact List.map_eq_nil_iff.mp hshells

/-! ## What can be reached -/

/-- An operation keeps the order. -/
theorem Tidy.apply (h : assembly.Tidy path) (encoding : Encoding ω α) (operation : Operation) :
    ∃ path', (operation.apply encoding assembly).2.Tidy path' := by
  cases operation with
  | openFrame kind name => exact ⟨_, h.openFrame kind name⟩
  | put piece => exact ⟨path, h.put encoding piece⟩
  | closeFrame request =>
    obtain ⟨path', hafter, -⟩ := h.closeFrame encoding request
    exact ⟨path', hafter⟩

/-- What the start leads to by operations, by reading the output and by clearing.  Others may
write to the log at any time. -/
inductive Reachable (encoding : Encoding ω α) (startId : String) : Assembly ω → Prop
  | start : Reachable encoding startId (.start startId)
  | apply {assembly : Assembly ω} (h : Reachable encoding startId assembly)
      (operation : Operation) :
      Reachable encoding startId (operation.apply encoding assembly).2
  | output {assembly : Assembly ω} (h : Reachable encoding startId assembly) :
      Reachable encoding startId (assembly.output encoding).2
  | clear {assembly : Assembly ω} (h : Reachable encoding startId assembly) :
      Reachable encoding startId assembly.clear
  | logged {assembly : Assembly ω} (h : Reachable encoding startId assembly) (log : Log) :
      Reachable encoding startId { assembly with log := log }

/-- Operations lead on, one after the other. -/
theorem Reachable.run {startId : String} (h : Reachable encoding startId assembly)
    (operations : List Operation) :
    Reachable encoding startId (Operation.run encoding operations assembly) := by
  induction operations generalizing assembly with
  | nil => exact h
  | cons operation rest ih => exact ih (h.apply operation)

/-- Whatever can be reached is in good order. -/
theorem Reachable.tidy {startId : String} (h : Reachable encoding startId assembly) :
    ∃ path, assembly.Tidy path := by
  induction h with
  | start => exact ⟨[], tidy_start startId⟩
  | apply _ operation ih =>
    obtain ⟨path, hbefore⟩ := ih
    exact hbefore.apply encoding operation
  | @output assembly _ _ =>
    obtain ⟨hat, hnodup, hapart, hgiven⟩ :=
      @tidy_start ω (assembly.closeAll encoding).startId
    exact ⟨[], hat, hnodup, hapart, hgiven⟩
  | @clear assembly _ _ =>
    obtain ⟨hat, hnodup, hapart, hgiven⟩ := @tidy_start ω assembly.startId
    exact ⟨[], hat, hnodup, hapart, hgiven⟩
  | logged _ log ih =>
    obtain ⟨path, hat, hnodup, hapart, hgiven⟩ := ih
    exact ⟨path, hat, hnodup, hapart, hgiven⟩

end Assembly

variable {encoding : Encoding ω α}

mutual
theorem Directive.tidy_run :
    ∀ (step : Directive) (assembly : Assembly ω) (path : List Nat) (_ : assembly.Tidy path),
      ∃ path', (step.run (Assembly.sink encoding) assembly).Tidy path'
  | .frame kind name body, assembly, _, h => by
    obtain ⟨_, hbody⟩ := Script.tidy_run body _ _ (h.openFrame kind name)
    obtain ⟨path', hclosed, -⟩ := hbody.closeFrame encoding (assembly.openFrame kind name).1
    exact ⟨path', hclosed⟩
  | .leaf piece, _, path, h => ⟨path, h.put encoding piece⟩
  | .closingTag id tag, _, _, h => by
    obtain ⟨path', hclosed, -⟩ := h.closeFrame encoding (.ofTag id tag)
    exact ⟨path', hclosed⟩
  | .warning w, _, path, h => ⟨path, h.warn w.kind w.message⟩
/-- A script keeps the order, wherever its closing tags stand. -/
theorem Script.tidy_run :
    ∀ (script : Script) (assembly : Assembly ω) (path : List Nat) (_ : assembly.Tidy path),
      ∃ path', (Script.run (Assembly.sink encoding) script assembly).Tidy path'
  | [], _, path, h => ⟨path, h⟩
  | step :: rest, assembly, path, h => by
    obtain ⟨path', hstep⟩ := Directive.tidy_run step assembly path h
    exact Script.tidy_run rest _ path' hstep
end

end Stencil
