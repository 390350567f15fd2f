import Stencil.Proofs.Assembly.Tidy

/-!
# Closing frames by their handles

Opening a frame returns a handle, the request that closes the frame.  Where frames are closed
by handles alone, each used at most once and in whatever order, an unused handle always finds
its frame open or its own close pending: recovery remembers the frames it closes on behalf of
others, and only their own handles make it forget them.  So a handle whose frame is gone does
nothing, however crossed the closes before it were.

* `Assembly.Handled` — runs that close frames by unused handles.
* `Assembly.Tidy.expects_closeFrame` — a close loses no frame but the one it is for.
* `Assembly.Handled.ledger` — what holds of the unused handles throughout a run.
* `Assembly.Handled.closeFrame_of_closed` — the handle of a frame that is gone does nothing.
-/

namespace Stencil.Assembly

variable {ω α : Type} {encoding : Encoding ω α} {assembly : Assembly ω} {path : List Nat}

/-! ## A close loses no other frame -/

/-- The next address at top level is not in use. -/
theorem Tidy.root_unused (h : assembly.Tidy path) :
    assembly.startId ++ toString assembly.nextIndex ∉ assembly.pending :=
  fun hmem => h.isAt.rootAddress_new (h.used (.inl hmem))

/-- Closing the frame that fits a request loses no frame but the one the request is for. -/
theorem Expects.closeFitting {address own : String} (h : assembly.Expects address)
    {request : Closing} (hown : request.address = some own) (hother : address ≠ own)
    {top : Frame ω} {outer : List (Frame ω)} (hstack : assembly.stack = top :: outer)
    (encoding : Encoding ω α) : (assembly.closeFitting encoding request top).Expects address := by
  unfold Assembly.closeFitting
  split
  · exact h.recovers (remember_pop_recovers encoding hstack)
  · rename_i hforgotten
    have htop : top.address = own := by
      simp only [hown, Bool.or_eq_true, bne_iff_ne, ne_eq, Option.some.injEq, not_or,
        Decidable.not_not] at hforgotten
      exact hforgotten.2.symm
    exact h.pop hstack (htop ▸ hother) encoding

theorem Tidy.expects_closeUnwinding (h : assembly.Tidy path) (encoding : Encoding ω α)
    {request : Closing} {address own : String} (hown : request.address = some own)
    (hother : address ≠ own) (hexpects : assembly.Expects address) :
    (assembly.closeUnwinding encoding request).Expects address := by
  have hunwinds := unwind_recovers encoding assembly request
  have hunwound := hexpects.recovers hunwinds
  unfold closeUnwinding
  cases hstack : (assembly.unwind encoding request).stack with
  | nil =>
    obtain ⟨path', htidy, -⟩ := h.shrinks hunwinds.shrinks
    simp only [hstack]
    exact hunwound.recovers (closeNothing_recovers encoding hstack htidy.root_unused request)
  | cons top outer =>
    simp only [hstack]
    exact hunwound.closeFitting hown hother hstack encoding

/-- Whatever a request with an address closes, all other frames stay open or have their own
closes still to come. -/
theorem Tidy.expects_closeFrame (h : assembly.Tidy path) (encoding : Encoding ω α)
    {request : Closing} {address own : String} (hown : request.address = some own)
    (hother : address ≠ own) (hexpects : assembly.Expects address) :
    (assembly.closeFrame encoding request).Expects address := by
  have hstep := closeFrame_step encoding assembly request
  generalize assembly.closeFrame encoding request = after at hstep
  cases hstep with
  | late _ =>
    refine hexpects.forget ?_
    rw [hown]
    exact fun hsame => hother (Option.some.inj hsame).symm
  | nothing _ hstack =>
    exact hexpects.recovers (closeNothing_recovers encoding hstack h.root_unused request)
  | meant top outer _ hstack hmeant =>
    have htop : top.address = own := by
      simp only [Frame.isMeantBy, hown, beq_iff_eq] at hmeant
      exact hmeant.symm
    cases request.explicit with
    | true => exact hexpects.recovers (remember_pop_recovers encoding hstack)
    | false => exact hexpects.pop hstack (htop ▸ hother) encoding
  | mismatch top outer _ _ _ =>
    exact (h.warn _ _).expects_closeUnwinding encoding hown hother hexpects

/-! ## Runs by handles -/

/-- What the start leads to by opening frames, by putting in pieces, and by closing frames with
the handles that opening them returned, each at most once.  `unused` are the handles that were
returned and have not been used. -/
inductive Handled (encoding : Encoding ω α) (startId : String) :
    (unused : List Closing) → Assembly ω → Prop
  | start : Handled encoding startId [] (.start startId)
  | openFrame {unused : List Closing} {assembly : Assembly ω}
      (h : Handled encoding startId unused assembly) (kind : FrameKind) (name : String) :
      Handled encoding startId ((assembly.openFrame kind name).1 :: unused)
        (assembly.openFrame kind name).2
  | put {unused : List Closing} {assembly : Assembly ω}
      (h : Handled encoding startId unused assembly) (piece : Piece Widget) :
      Handled encoding startId unused (assembly.put encoding piece)
  | closeFrame {unused : List Closing} {assembly : Assembly ω}
      (h : Handled encoding startId unused assembly) {handle : Closing} (hmem : handle ∈ unused) :
      Handled encoding startId (unused.erase handle) (assembly.closeFrame encoding handle)

/-- The unused handles of a run have addresses of their own, and each is for a frame that is
open or whose own close is still to come. -/
structure Ledger (unused : List Closing) (assembly : Assembly ω) : Prop where
  tidy : ∃ path, assembly.Tidy path
  distinct : (unused.map Closing.address).Nodup
  expected : ∀ handle ∈ unused, ∃ address, handle.address = some address ∧
    assembly.Expects address

namespace Ledger

variable {unused : List Closing}

theorem openFrame (h : Ledger unused assembly) (kind : FrameKind) (name : String) :
    Ledger ((assembly.openFrame kind name).1 :: unused) (assembly.openFrame kind name).2 := by
  obtain ⟨path, htidy⟩ := h.tidy
  have haddresses : (assembly.openFrame kind name).2.shells.map Frame.address =
      assembly.nextAddress :: assembly.shells.map Frame.address := by
    rw [shells_openFrame, List.map_cons, addresses_claimIndex]
    rfl
  refine ⟨⟨_, htidy.openFrame kind name⟩, ?_, ?_⟩
  · rw [List.map_cons, List.nodup_cons]
    refine ⟨fun hmem => ?_, h.distinct⟩
    -- The address of the new frame is not in use, and those of unused handles are.
    obtain ⟨handle, hhandle, hsame⟩ := List.mem_map.mp hmem
    obtain ⟨address, haddress, hexpects⟩ := h.expected handle hhandle
    obtain rfl : address = assembly.nextAddress :=
      Option.some.inj (haddress.symm.trans hsame)
    exact hexpects.elim htidy.next_unused.1 htidy.next_unused.2
  · intro handle hmem
    rcases List.mem_cons.mp hmem with rfl | hold
    · refine ⟨assembly.nextAddress, rfl, .inr ?_⟩
      rw [haddresses]
      exact List.mem_cons_self
    · obtain ⟨address, haddress, hexpects⟩ := h.expected handle hold
      refine ⟨address, haddress, ?_⟩
      rw [Expects, pending_openFrame, haddresses]
      exact hexpects.imp id (List.mem_cons_of_mem _)

theorem put (h : Ledger unused assembly) (encoding : Encoding ω α) (piece : Piece Widget) :
    Ledger unused (assembly.put encoding piece) := by
  obtain ⟨path, htidy⟩ := h.tidy
  refine ⟨⟨path, htidy.put encoding piece⟩, h.distinct, ?_⟩
  intro handle hmem
  obtain ⟨address, haddress, hexpects⟩ := h.expected handle hmem
  refine ⟨address, haddress, ?_⟩
  rw [Expects, pending_put, shells_put, addresses_claimIndex]
  exact hexpects

theorem closeFrame (h : Ledger unused assembly) (encoding : Encoding ω α) {handle : Closing}
    (hmem : handle ∈ unused) :
    Ledger (unused.erase handle) (assembly.closeFrame encoding handle) := by
  obtain ⟨path, htidy⟩ := h.tidy
  obtain ⟨path', hafter, -⟩ := htidy.closeFrame encoding handle
  refine ⟨⟨path', hafter⟩, h.distinct.sublist (List.erase_sublist.map _), ?_⟩
  intro other hother
  have hnodup : unused.Nodup := h.distinct.of_map _
  obtain ⟨hne, hold⟩ := hnodup.mem_erase_iff.mp hother
  obtain ⟨own, hown, -⟩ := h.expected handle hmem
  obtain ⟨address, haddress, hexpects⟩ := h.expected other hold
  refine ⟨address, haddress, htidy.expects_closeFrame encoding hown ?_ hexpects⟩
  rintro rfl
  exact hne (List.inj_on_of_nodup_map h.distinct hold hmem (haddress.trans hown.symm))

end Ledger

namespace Handled

variable {startId : String} {unused : List Closing}

/-- What holds of unused handles holds throughout a run. -/
theorem ledger (h : Handled encoding startId unused assembly) : Ledger unused assembly := by
  induction h with
  | start => exact ⟨⟨[], tidy_start startId⟩, List.nodup_nil, by simp⟩
  | openFrame _ kind name ih => exact ih.openFrame kind name
  | put _ piece ih => exact ih.put encoding piece
  | closeFrame _ hmem ih => exact ih.closeFrame encoding hmem

/-- An unused handle whose frame is not open any more is remembered as one whose close is still
to come.  Using it forgets that and changes nothing else: the open frames and what they hold,
the results, the counts and the log stay as they are. -/
theorem closeFrame_of_closed (h : Handled encoding startId unused assembly) {handle : Closing}
    (hmem : handle ∈ unused)
    (hclosed : ∀ address ∈ assembly.openAddresses, handle.address ≠ some address) :
    ∃ address ∈ assembly.pending, handle.address = some address ∧
      assembly.closeFrame encoding handle =
        { assembly with pending := assembly.pending.erase address } := by
  obtain ⟨address, haddress, hexpects⟩ := h.ledger.expected handle hmem
  have hpending : address ∈ assembly.pending := by
    refine hexpects.resolve_right fun hopen => hclosed address ?_ haddress
    rwa [openAddresses_eq, List.mem_reverse]
  have hlate : assembly.isLate handle = true := by
    simpa [isLate, haddress] using hpending
  refine ⟨address, hpending, haddress, ?_⟩
  simp only [Assembly.closeFrame, hlate, forget, haddress, if_true]

/-- The handle of an item in a list. -/
def itemHandle (address : String) : Closing := ⟨some address, .ofElement, "li", false⟩

/-- An item within an item of a list.  The handle of the outer item has been used, and has closed
the inner one, which has the same name. -/
def crossedItems : Assembly Widget :=
  Operation.run .tree
    [.openFrame .ofElement "ul", .openFrame .ofElement "li", .openFrame .ofElement "li",
      .put (.text "x"), .closeFrame (itemHandle "0.0")] (.start "")

theorem handled_crossedItems :
    Handled .tree "" [itemHandle "0.0.0", ⟨some "0", .ofElement, "ul", false⟩] crossedItems := by
  have hopened : Handled .tree ""
      [itemHandle "0.0.0", itemHandle "0.0", ⟨some "0", .ofElement, "ul", false⟩] _ :=
    (((Handled.start.openFrame .ofElement "ul").openFrame .ofElement "li").openFrame .ofElement
      "li").put (.text "x")
  have hmem : itemHandle "0.0" ∈
      [itemHandle "0.0.0", itemHandle "0.0", ⟨some "0", .ofElement, "ul", false⟩] := by decide
  exact hopened.closeFrame hmem

/-- The handle of the inner item finds its frame gone, and does nothing. -/
theorem closeFrame_crossedItems :
    crossedItems.openAddresses = ["0", "0.0"] ∧
      crossedItems.closeFrame .tree (itemHandle "0.0.0") = { crossedItems with pending := [] } := by
  have hopen : crossedItems.openAddresses = ["0", "0.0"] := by decide +kernel
  have hclosed : ∀ address ∈ crossedItems.openAddresses,
      (itemHandle "0.0.0").address ≠ some address := by
    rw [hopen]
    decide
  obtain ⟨address, -, haddress, hclose⟩ :=
    handled_crossedItems.closeFrame_of_closed (by decide) hclosed
  obtain rfl : "0.0.0" = address := Option.some.inj haddress
  have hpending : crossedItems.pending.erase "0.0.0" = [] := by decide +kernel
  rw [hpending] at hclose
  exact ⟨hopen, hclose⟩

end Handled

end Stencil.Assembly
