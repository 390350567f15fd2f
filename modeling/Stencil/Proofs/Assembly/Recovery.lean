import Stencil.Proofs.Assembly.Addresses

/-!
# What a close request can do

Whatever a close request is for, it closes some of the innermost frames and leaves the
others alone.  It remembers the frames it closed, unless the request is the own close of
the frame, and unless a close is late it forgets none.

* `Assembly.Shrinks`, `Assembly.Recovers` — the innermost frames closed, and remembered.
* `Assembly.Expects` — a frame that is open, or whose own close is still to come.
* `Assembly.closeFrame_recovers` — what any request does that is no late close, and not the
  own close of an open frame.
-/

namespace Stencil.Assembly

variable {ω α : Type}

/-- The innermost `count` frames have been closed; no other close became pending than theirs. -/
structure Shrinks (count : Nat) (before after : Assembly ω) : Prop where
  startId : after.startId = before.startId
  nextIndex : before.nextIndex ≤ after.nextIndex
  shells : after.shells = before.shells.drop count
  pending : ∀ address ∈ after.pending,
    address ∈ (before.shells.take count).map Frame.address ∨ address ∈ before.pending
  nodup : before.pending.Nodup → after.pending.Nodup

namespace Shrinks

variable {count : Nat} {before after : Assembly ω}

/-- Closing frames never takes the next path back. -/
theorem isAt (h : Shrinks count before after) {path : List Nat} (hat : before.IsAt path) :
    ∃ path', after.IsAt path' ∧ before.nextPath path ≤ after.nextPath path' := by
  obtain ⟨path', hnumbered, hle⟩ := Frame.Numbered.drop hat count
  refine ⟨path', ?_, le_trans hle ?_⟩
  · rw [IsAt, h.startId, h.shells]
    exact hnumbered.mono h.nextIndex
  · rw [nextPath, h.shells]
    exact path_le_of_index_le path' (Frame.upcoming_mono _ h.nextIndex)

/-- The frames that stay open were open before. -/
theorem openBefore (h : Shrinks count before after) :
    ∀ address ∈ after.shells.map Frame.address, address ∈ before.shells.map Frame.address := by
  intro address hmem
  rw [h.shells] at hmem
  exact List.map_subset _ (List.drop_subset _ _) hmem

/-- Closes are pending only for frames that are closed. -/
theorem apart (h : Shrinks count before after)
    (hnodup : (before.shells.map Frame.address).Nodup)
    (hapart : ∀ address ∈ before.pending, address ∉ before.shells.map Frame.address) :
    ∀ address ∈ after.pending, address ∉ after.shells.map Frame.address := by
  intro address hmem hopen
  rcases h.pending address hmem with hclosed | hold
  · rw [h.shells, List.map_drop] at hopen
    rw [List.map_take] at hclosed
    exact List.disjoint_take_drop hnodup (le_refl count) hclosed hopen
  · exact hapart address hold (h.openBefore address hopen)

end Shrinks

/-- The innermost `count` frames have been closed, and their own closes are still to come. -/
structure Recovers (count : Nat) (before after : Assembly ω) : Prop where
  startId : after.startId = before.startId
  nextIndex : before.nextIndex ≤ after.nextIndex
  shells : after.shells = before.shells.drop count
  pending : ∀ address, address ∈ after.pending ↔
    address ∈ (before.shells.take count).map Frame.address ∨ address ∈ before.pending
  nodup : before.pending.Nodup → after.pending.Nodup

namespace Recovers

variable {before middle after : Assembly ω}

theorem refl (assembly : Assembly ω) : Recovers 0 assembly assembly where
  startId := rfl
  nextIndex := le_refl _
  shells := rfl
  pending := by simp
  nodup := id

theorem trans {count count' : Nat} (h : Recovers count before middle)
    (h' : Recovers count' middle after) : Recovers (count + count') before after where
  startId := h'.startId.trans h.startId
  nextIndex := le_trans h.nextIndex h'.nextIndex
  shells := by rw [h'.shells, h.shells, List.drop_drop]
  pending := by
    intro address
    rw [h'.pending, h.pending, h.shells, List.take_add, List.map_append, List.mem_append]
    tauto
  nodup := fun hnodup => h'.nodup (h.nodup hnodup)

theorem shrinks {count : Nat} (h : Recovers count before after) :
    Shrinks count before after :=
  ⟨h.startId, h.nextIndex, h.shells, fun address => (h.pending address).mp, h.nodup⟩

/-- What follows a warning follows without it. -/
theorem of_warn {count : Nat} {kind : WarningKind} {message : String}
    (h : Recovers count (before.warn kind message) after) : Recovers count before after :=
  ⟨h.startId, h.nextIndex, h.shells, h.pending, h.nodup⟩

end Recovers

/-- The frame with an address is open, or its own close is still to come. -/
def Expects (assembly : Assembly ω) (address : String) : Prop :=
  address ∈ assembly.pending ∨ address ∈ assembly.shells.map Frame.address

namespace Expects

variable {before after : Assembly ω} {address : String}

/-- To close some of the innermost frames and remember them loses no frame. -/
theorem recovers (h : before.Expects address) {count : Nat}
    (hrecovers : Recovers count before after) : after.Expects address := by
  rcases h with hpending | hopen
  · exact .inl ((hrecovers.pending address).mpr (.inr hpending))
  · have hsplit : address ∈ (before.shells.take count).map Frame.address ++
        (before.shells.drop count).map Frame.address := by
      rw [← List.map_append, List.take_append_drop]
      exact hopen
    rcases List.mem_append.mp hsplit with hclosed | hstill
    · exact .inl ((hrecovers.pending address).mpr (.inl hclosed))
    · refine .inr ?_
      rw [hrecovers.shells]
      exact hstill

/-- A late close loses no frame but its own. -/
theorem forget (h : before.Expects address) {request : Closing}
    (hother : request.address ≠ some address) : (before.forget request).Expects address := by
  rcases h with hpending | hopen
  · refine .inl ?_
    unfold Assembly.forget
    split
    · rename_i late hlate
      have hne : address ≠ late := fun hsame => hother (by rw [hlate, hsame])
      exact (List.mem_erase_of_ne hne).mpr hpending
    · exact hpending
  · refine .inr ?_
    rw [shells_forget]
    exact hopen

/-- To close the innermost frame loses no frame but that. -/
theorem pop (h : before.Expects address) {top : Frame ω} {outer : List (Frame ω)}
    (hstack : before.stack = top :: outer) (hother : address ≠ top.address)
    (encoding : Encoding ω α) : (before.pop encoding).Expects address := by
  rcases h with hpending | hopen
  · refine .inl ?_
    rw [pending_pop]
    exact hpending
  · refine .inr ?_
    rw [shells_eq_cons hstack, List.map_cons] at hopen
    rw [shells_pop, shells_eq_cons hstack, List.tail_cons]
    exact List.mem_of_ne_of_mem hother hopen

end Expects

/-- Closing the innermost frame. -/
theorem pop_shrinks (encoding : Encoding ω α) (assembly : Assembly ω) :
    Shrinks 1 assembly (assembly.pop encoding) where
  startId := startId_pop encoding assembly
  nextIndex := le_of_eq (nextIndex_pop encoding assembly).symm
  shells := by rw [shells_pop, List.drop_one]
  pending := by
    intro address hmem
    rw [pending_pop] at hmem
    exact .inr hmem
  nodup := by
    intro hnodup
    rw [pending_pop]
    exact hnodup

/-- A late close. -/
theorem forget_shrinks (assembly : Assembly ω) (request : Closing) :
    Shrinks 0 assembly (assembly.forget request) := by
  cases haddress : request.address with
  | none =>
    simp only [forget, haddress]
    exact (Recovers.refl assembly).shrinks
  | some address =>
    simp only [forget, haddress]
    exact
      { startId := rfl
        nextIndex := le_refl _
        shells := rfl
        pending := fun other hmem => .inr (List.mem_of_mem_erase hmem)
        nodup := fun hnodup => hnodup.erase address }

/-- Closing the innermost frame and remembering it. -/
theorem remember_pop_recovers (encoding : Encoding ω α) {assembly : Assembly ω}
    {top : Frame ω} {outer : List (Frame ω)} (hstack : assembly.stack = top :: outer) :
    Recovers 1 assembly ((assembly.remember top.address).pop encoding) where
  startId := by rw [startId_pop]; rfl
  nextIndex := by rw [nextIndex_pop]; exact le_refl _
  shells := by rw [shells_pop, shells_remember, List.drop_one]
  pending := by
    intro address
    rw [pending_pop, pending_remember, List.mem_insert_iff, shells_eq_cons hstack,
      List.take_succ_cons, List.take_zero, List.map_singleton, List.mem_singleton,
      Frame.address_shell]
  nodup := by
    intro hnodup
    rw [pending_pop, pending_remember]
    exact hnodup.insert

theorem unwind_recovers (encoding : Encoding ω α) (assembly : Assembly ω) (request : Closing) :
    Recovers (assembly.unfitting request).length assembly (assembly.unwind encoding request) where
  startId := (root_foldl_unwindOne encoding _ assembly).1
  nextIndex := le_of_eq (root_foldl_unwindOne encoding _ assembly).2.symm
  shells := shells_foldl_unwindOne encoding _ assembly
  pending := by
    intro address
    have htake : (assembly.shells.take (assembly.unfitting request).length).map Frame.address =
        (assembly.unfitting request).map Frame.address := by
      have hstack : assembly.stack.take (assembly.unfitting request).length =
          assembly.unfitting request :=
        (List.prefix_iff_eq_take.mp (List.takeWhile_prefix _)).symm
      rw [shells, ← List.map_take, hstack, List.map_map]
      rfl
    rw [unwind_eq_foldl, mem_pending_foldl_unwindOne, htake]
  nodup := nodup_pending_foldl_unwindOne encoding _ assembly

/-- With no frame open, a close leaves none open, if the next address was not given out
before. -/
theorem closeNothing_recovers (encoding : Encoding ω α) {assembly : Assembly ω}
    (hstack : assembly.stack = [])
    (hnew : assembly.startId ++ toString assembly.nextIndex ∉ assembly.pending)
    (request : Closing) : Recovers 0 assembly (assembly.closeNothing encoding request) := by
  unfold closeNothing
  by_cases htag : request.isTag "p"
  · rw [if_pos htag, putParagraph]
    have hclaimed : (assembly.openFrame .ofElement "p").2.stack =
        [.fresh .ofElement "p" (assembly.startId ++ toString assembly.nextIndex)] := by
      simp only [openFrame, nextFrame, Assembly.nextAddress, Assembly.claimIndex, hstack]
    have hindex : (assembly.openFrame .ofElement "p").2.nextIndex = assembly.nextIndex + 1 := by
      simp only [openFrame, Assembly.claimIndex, hstack]
    have haddress : (assembly.openFrame .ofElement "p").1.address =
        some (assembly.startId ++ toString assembly.nextIndex) := by
      simp only [openFrame, nextFrame, Assembly.nextAddress, hstack]
      rfl
    have hlate : (assembly.openFrame .ofElement "p").2.isLate
        (assembly.openFrame .ofElement "p").1 = false := by
      simpa [isLate, haddress] using hnew
    simp only [hlate]
    exact
      { startId := by simp
        nextIndex := by simp [hindex]
        shells := by
          rw [if_neg (by simp), shells_pop, shells_eq_cons hclaimed, shells_eq_nil hstack]
          rfl
        pending := by simp
        nodup := by simp }
  · rw [if_neg htag]
    exact (Recovers.refl _).of_warn

/-- A request that its own frame does not make: a closing tag, or the close of a frame that
is not open any more. -/
def IsForeign (assembly : Assembly ω) (request : Closing) : Prop :=
  request.explicit = true ∨
    ∃ address, request.address = some address ∧ address ∉ assembly.shells.map Frame.address

theorem closeFitting_recovers (encoding : Encoding ω α) {assembly : Assembly ω}
    {request : Closing} (hforeign : assembly.IsForeign request) {top : Frame ω}
    {outer : List (Frame ω)} (hstack : assembly.stack = top :: outer) :
    Recovers 1 assembly (assembly.closeFitting encoding request top) := by
  have hremember : (request.explicit || request.address != some top.address) = true := by
    rcases hforeign with hexplicit | ⟨address, haddress, hclosed⟩
    · rw [hexplicit, Bool.true_or]
    · rw [shells_eq_cons hstack] at hclosed
      have hne : address ≠ top.address := by
        rintro rfl
        simp at hclosed
      simp [haddress, hne]
  rw [closeFitting, if_pos hremember]
  exact remember_pop_recovers encoding hstack

theorem closeUnwinding_recovers (encoding : Encoding ω α) {assembly : Assembly ω}
    {request : Closing} (hforeign : assembly.IsForeign request)
    (hpending : assembly.startId ++ toString assembly.nextIndex ∉ assembly.pending)
    (hopen : assembly.startId ++ toString assembly.nextIndex ∉
      assembly.shells.map Frame.address) :
    ∃ count, Recovers count assembly (assembly.closeUnwinding encoding request) := by
  have hunwound := unwind_recovers encoding assembly request
  unfold closeUnwinding
  cases hstack : (assembly.unwind encoding request).stack with
  | nil =>
    have hnew : (assembly.unwind encoding request).startId ++
        toString (assembly.unwind encoding request).nextIndex ∉
          (assembly.unwind encoding request).pending := by
      obtain ⟨hstart, hnext⟩ :=
        root_foldl_unwindOne encoding (assembly.unfitting request) assembly
      rw [unwind_eq_foldl, hstart, hnext, ← unwind_eq_foldl, hunwound.pending]
      rintro (hmem | hmem)
      · exact hopen (List.map_subset _ (List.take_subset _ _) hmem)
      · exact hpending hmem
    simp only [hstack]
    exact ⟨_, hunwound.trans (closeNothing_recovers encoding hstack hnew request)⟩
  | cons top outer =>
    have hforeign' : (assembly.unwind encoding request).IsForeign request := by
      rcases hforeign with hexplicit | ⟨address, haddress, hclosed⟩
      · exact .inl hexplicit
      · refine .inr ⟨address, haddress, fun hmem => hclosed ?_⟩
        rw [hunwound.shells] at hmem
        exact List.map_subset _ (List.drop_subset _ _) hmem
    simp only [hstack]
    exact ⟨_, hunwound.trans (closeFitting_recovers encoding hforeign' hstack)⟩

/-- A request that is no late close, and that no open frame makes for itself, closes some of
the innermost frames and remembers just these. -/
theorem closeFrame_recovers (encoding : Encoding ω α) {assembly : Assembly ω}
    {request : Closing} (hforeign : assembly.IsForeign request)
    (hlate : assembly.isLate request = false)
    (hpending : assembly.startId ++ toString assembly.nextIndex ∉ assembly.pending)
    (hopen : assembly.startId ++ toString assembly.nextIndex ∉
      assembly.shells.map Frame.address) :
    ∃ count, Recovers count assembly (assembly.closeFrame encoding request) := by
  have hstep := closeFrame_step encoding assembly request
  generalize assembly.closeFrame encoding request = after at hstep
  cases hstep with
  | late hlate' => rw [hlate] at hlate'; cases hlate'
  | nothing _ hstack => exact ⟨0, closeNothing_recovers encoding hstack hpending request⟩
  | meant top outer _ hstack hmeant =>
    have hexplicit : request.explicit = true := by
      rcases hforeign with hexplicit | ⟨address, haddress, hclosed⟩
      · exact hexplicit
      · rw [shells_eq_cons hstack] at hclosed
        simp only [Frame.isMeantBy, haddress, beq_iff_eq] at hmeant
        rw [hmeant] at hclosed
        simp at hclosed
    rw [if_pos hexplicit]
    exact ⟨1, remember_pop_recovers encoding hstack⟩
  | mismatch top outer _ _ _ =>
    have hwarned : (assembly.warn .tagMismatch (mismatchMessage request top)).IsForeign request :=
      hforeign
    obtain ⟨count, hrecovers⟩ := closeUnwinding_recovers encoding hwarned hpending hopen
    exact ⟨count, hrecovers.of_warn⟩

end Stencil.Assembly
