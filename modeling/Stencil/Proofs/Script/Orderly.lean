import Stencil.Proofs.Script.Chronicle

/-!
# Runs keep order

A frame that was opened is open, or closed with its own close still to come, or taken by
a closing tag, and nothing but its own close ends that.  A script leaves some of the
frames around it open, from the outside in, and all that it opened itself closed.

* `Chronicle.Continues` — what is left after steps of the frames that were open before.
* `Chronicle.Orderly.closeTag`, `Chronicle.Orderly.closeOwn` — the two kinds of closes.
* `Script.orderly_run` — a run keeps a chronicle orderly.
-/

namespace Stencil

variable {ω α : Type}

namespace Chronicle

variable {encoding : Encoding ω α} {chronicle : Chronicle ω} {path : List Nat}

/-! ## Closing tags and own closes -/

/-- The requests of the open frames, innermost first. -/
def closings (chronicle : Chronicle ω) : List Closing :=
  chronicle.assembly.shells.map Frame.closing

theorem mem_addresses {address : String} :
    address ∈ chronicle.addresses ↔
      ∃ request ∈ chronicle.closings, request.address = some address := by
  simp [addresses, closings, Frame.closing]

/-- A chronicle with one more close. -/
def afterClose (chronicle : Chronicle ω) (request : Closing) (after : Assembly ω) :
    Chronicle ω :=
  ⟨after, chronicle.opened, ⟨request, chronicle.assembly, after⟩ :: chronicle.closes⟩

theorem closeFrame_late {request : Closing} (hlate : chronicle.assembly.isLate request = true) :
    (Chronicle.sink encoding).closeFrame request chronicle =
      chronicle.afterClose request (chronicle.assembly.forget request) := by
  simp only [Chronicle.sink, afterClose, Assembly.closeFrame, hlate, if_true]

theorem Taken.afterClose {address : String} (h : chronicle.Taken address) (request : Closing)
    (after : Assembly ω) : (chronicle.afterClose request after).Taken address := by
  obtain ⟨tag, htag, htakes⟩ := h
  exact ⟨tag, List.mem_cons_of_mem _ htag, htakes⟩

theorem awaits_iff {address : String} :
    chronicle.Awaits address ↔
      chronicle.assembly.Expects address ∨ chronicle.Taken address := by
  rw [Awaits, Assembly.Expects, addresses]
  tauto

/-- What closes some of the innermost frames and remembers them loses no close that is still
to come. -/
theorem Awaits.afterRecovery {address : String} (h : chronicle.Awaits address) {count : Nat}
    {after : Assembly ω} (hrecovers : Assembly.Recovers count chronicle.assembly after)
    (request : Closing) : (chronicle.afterClose request after).Awaits address := by
  rcases awaits_iff.mp h with hexpects | htaken
  · exact awaits_iff.mpr (.inl (hexpects.recovers hrecovers))
  · exact awaits_iff.mpr (.inr (htaken.afterClose request after))

/-- A late close loses the close of no other address. -/
theorem Awaits.afterForget {address : String} (h : chronicle.Awaits address)
    (request : Closing) (hother : request.address ≠ some address) :
    (chronicle.afterClose request (chronicle.assembly.forget request)).Awaits address := by
  rcases awaits_iff.mp h with hexpects | htaken
  · exact awaits_iff.mpr (.inl (hexpects.forget hother))
  · exact awaits_iff.mpr (.inr (htaken.afterClose request _))

/-- Closing the innermost frame loses the close of no other address. -/
theorem Awaits.afterPop {address : String} (h : chronicle.Awaits address) {frame : Frame ω}
    {outer : List (Frame ω)} (hstack : chronicle.assembly.stack = frame :: outer)
    (hother : address ≠ frame.address) (encoding : Encoding ω α) (request : Closing) :
    (chronicle.afterClose request (chronicle.assembly.pop encoding)).Awaits address := by
  rcases awaits_iff.mp h with hexpects | htaken
  · exact awaits_iff.mpr (.inl (hexpects.pop hstack hother encoding))
  · exact awaits_iff.mpr (.inr (htaken.afterClose request _))

/-- What is left after steps of the frames that were open before, and that no close that was
still to come is lost. -/
structure Continues (before after : Chronicle ω) : Prop where
  closings : ∃ count, after.closings = before.closings.drop count
  awaits : ∀ address, before.Awaits address → after.Awaits address

theorem Continues.trans {before middle after : Chronicle ω} (h : Continues before middle)
    (h' : Continues middle after) : Continues before after := by
  obtain ⟨count, hcount⟩ := h.closings
  obtain ⟨count', hcount'⟩ := h'.closings
  refine ⟨⟨count + count', ?_⟩, fun address hawaits => h'.awaits address (h.awaits address hawaits)⟩
  rw [hcount', hcount, List.drop_drop]

namespace Orderly

/-- The address that comes next at top level is not in use. -/
theorem root_unused (h : chronicle.Orderly encoding path) :
    chronicle.assembly.startId ++ toString chronicle.assembly.nextIndex ∉
        chronicle.assembly.pending ∧
      chronicle.assembly.startId ++ toString chronicle.assembly.nextIndex ∉
        chronicle.assembly.shells.map Frame.address :=
  ⟨fun hmem => h.not_awaits_root (.inl hmem), fun hmem => h.not_awaits_root (.inr (.inr hmem))⟩

/-- A request that no open frame makes for itself, and that is not late. -/
theorem closeForeign (h : chronicle.Orderly encoding path) (request : Closing)
    (hforeign : chronicle.assembly.IsForeign request)
    (hlate : chronicle.assembly.isLate request = false)
    (hsettled : (Close.mk request chronicle.assembly
      (chronicle.assembly.closeFrame encoding request)).IsSettled encoding chronicle.closes) :
    ∃ path', ((Chronicle.sink encoding).closeFrame request chronicle).Orderly encoding path' ∧
      chronicle.Continues ((Chronicle.sink encoding).closeFrame request chronicle) := by
  obtain ⟨hpending, hopen⟩ := h.root_unused
  obtain ⟨count, hrecovers⟩ :=
    Assembly.closeFrame_recovers encoding hforeign hlate hpending hopen
  obtain ⟨path', horderly, -⟩ := h.close hrecovers.shrinks request
    (fun address _ hlate' => by rw [hlate] at hlate'; cases hlate') hsettled
  refine ⟨path', horderly, ⟨count, ?_⟩, fun address hawaits =>
    hawaits.afterRecovery hrecovers request⟩
  show (chronicle.assembly.closeFrame encoding request).shells.map Frame.closing = _
  rw [hrecovers.shells, List.map_drop]
  rfl

/-- A late request. -/
theorem closeLate (h : chronicle.Orderly encoding path) (request : Closing)
    (hlate : chronicle.assembly.isLate request = true)
    (hsettled : (Close.mk request chronicle.assembly
      (chronicle.assembly.forget request)).IsSettled encoding chronicle.closes) :
    (∃ path', ((Chronicle.sink encoding).closeFrame request chronicle).Orderly encoding path') ∧
      ((Chronicle.sink encoding).closeFrame request chronicle).closings = chronicle.closings := by
  rw [closeFrame_late hlate]
  refine ⟨?_, ?_⟩
  · have htakes : ∀ address, request.address = some address →
        chronicle.assembly.isLate request = true →
          address ∉ (chronicle.assembly.forget request).pending := by
      intro address haddress _ hmem
      simp only [Assembly.forget, haddress] at hmem
      exact h.nodup.not_mem_erase hmem
    obtain ⟨path', horderly, -⟩ :=
      h.close (Assembly.forget_shrinks _ request) request htakes hsettled
    exact ⟨path', horderly⟩
  · show (chronicle.assembly.forget request).shells.map Frame.closing = _
    rw [Assembly.shells_forget]
    rfl

/-- A closing tag keeps a chronicle orderly, and closes frames from the inside out. -/
theorem closeTag (h : chronicle.Orderly encoding path) (request : Closing)
    (hexplicit : request.explicit = true) :
    ∃ path', ((Chronicle.sink encoding).closeFrame request chronicle).Orderly encoding path' ∧
      chronicle.Continues ((Chronicle.sink encoding).closeFrame request chronicle) := by
  have hsettled : ∀ after, (Close.mk request chronicle.assembly after).IsSettled encoding
      chronicle.closes := by
    intro after himplicit
    rw [hexplicit] at himplicit
    cases himplicit
  cases hlate : chronicle.assembly.isLate request with
  | false => exact h.closeForeign request (.inl hexplicit) hlate (hsettled _)
  | true =>
    obtain ⟨⟨path', horderly⟩, hclosings⟩ := h.closeLate request hlate (hsettled _)
    refine ⟨path', horderly, ⟨0, hclosings⟩, ?_⟩
    intro address hawaits
    rw [closeFrame_late hlate]
    by_cases hsame : request.address = some address
    · exact .inr (.inl ⟨_, List.mem_cons_self, hexplicit, hsame, hlate⟩)
    · exact hawaits.afterForget request hsame

/-- The close of an address that is neither pending nor open misfires. -/
theorem misfires (encoding : Encoding ω α) {request : Closing} {address : String}
    (hlate : chronicle.assembly.isLate request = false)
    (haddress : request.address = some address) (hclosed : address ∉ chronicle.addresses) :
    Close.Misfires encoding (Close.mk request chronicle.assembly
      (chronicle.assembly.closeFrame encoding request)) := by
  have hstep := Assembly.closeFrame_step encoding chronicle.assembly request
  generalize chronicle.assembly.closeFrame encoding request = after at hstep
  cases hstep with
  | late hlate' => rw [hlate] at hlate'; cases hlate'
  | nothing _ hstack => exact .nothing hlate hstack rfl
  | meant top outer _ hstack hmeant =>
    simp only [Frame.isMeantBy, haddress, beq_iff_eq] at hmeant
    rw [addresses, Assembly.shells_eq_cons hstack, List.map_cons, hmeant] at hclosed
    exact absurd List.mem_cons_self hclosed
  | mismatch top outer _ hstack hmeant => exact .mismatch hlate hstack hmeant rfl

/-- The own close of a frame, with the frame and those inside it gone or the frame innermost.
It is proper unless a closing tag has taken it. -/
theorem closeOwn (h : chronicle.Orderly encoding path) {request : Closing} {address : String}
    (haddress : request.address = some address)
    (hawaits : chronicle.Awaits address) {outer : List Closing} {count : Nat}
    (hclosings : chronicle.closings = (request :: outer).drop count)
    (houter : ∀ other ∈ outer, other.address ≠ some address) :
    ∃ path', ((Chronicle.sink encoding).closeFrame request chronicle).Orderly encoding path' ∧
      (∃ count, ((Chronicle.sink encoding).closeFrame request chronicle).closings =
        outer.drop count) ∧
      ∀ other, other ≠ address → chronicle.Awaits other →
        ((Chronicle.sink encoding).closeFrame request chronicle).Awaits other := by
  have hinside : address ∉ chronicle.addresses →
      ∃ count, chronicle.closings = outer.drop count := by
    intro hclosed
    cases count with
    | zero =>
      refine absurd (mem_addresses.mpr ⟨request, ?_, haddress⟩) hclosed
      rw [hclosings]
      exact List.mem_cons_self
    | succ count => exact ⟨count, hclosings⟩
  rcases hawaits with hpending | htaken | hopen
  · -- The frame was closed on behalf of others, and its own close is late.
    have hlate : chronicle.assembly.isLate request = true := by
      simpa [Assembly.isLate, haddress] using hpending
    have hnotTaken : ¬ chronicle.Taken address :=
      fun htaken => (h.taken address htaken).2.1 hpending
    obtain ⟨⟨path', horderly⟩, hsame⟩ := h.closeLate request hlate
      (fun _ => .inl ⟨.late hlate rfl, by rw [haddress]; exact hnotTaken⟩)
    obtain ⟨count', hcount'⟩ := hinside (h.apart address hpending)
    refine ⟨path', horderly, ⟨count', hsame.trans hcount'⟩, fun other hother hawaits => ?_⟩
    rw [closeFrame_late hlate]
    refine hawaits.afterForget request ?_
    rw [haddress]
    exact fun hsame => hother (Option.some.inj hsame).symm
  · -- A closing tag took the address: the frame is closed, and nobody remembers it.
    obtain ⟨-, hnotPending, hnotOpen⟩ := h.taken address htaken
    have hlate : chronicle.assembly.isLate request = false := by
      simpa [Assembly.isLate, haddress] using hnotPending
    have hmisfires := misfires encoding hlate haddress hnotOpen
    obtain ⟨path', horderly, ⟨closed, hclosed⟩, hawaits⟩ := h.closeForeign request
      (.inr ⟨address, haddress, hnotOpen⟩) hlate
      (fun _ => .inr ⟨hmisfires, by rw [haddress]; exact htaken⟩)
    obtain ⟨count', hcount'⟩ := hinside hnotOpen
    refine ⟨path', horderly, ⟨count' + closed, ?_⟩, fun other _ => hawaits other⟩
    rw [hclosed, hcount', List.drop_drop]
  · -- The frame is open, so it is the innermost one.
    have hnotPending : address ∉ chronicle.assembly.pending :=
      fun hmem => h.apart address hmem hopen
    have hnotTaken : ¬ chronicle.Taken address := fun htaken => (h.taken address htaken).2.2 hopen
    have hinnermost : chronicle.closings = request :: outer := by
      cases count with
      | zero => exact hclosings
      | succ count =>
        obtain ⟨other, hother, hsame⟩ := mem_addresses.mp hopen
        rw [hclosings] at hother
        exact absurd hsame (houter other (List.drop_subset _ _ hother))
    obtain ⟨frame, frames, hstack⟩ : ∃ frame frames,
        chronicle.assembly.stack = frame :: frames := by
      cases hstack : chronicle.assembly.stack with
      | nil => simp [closings, Assembly.shells, hstack] at hinnermost
      | cons frame frames => exact ⟨frame, frames, rfl⟩
    rw [closings, Assembly.shells_eq_cons hstack, List.map_cons, Frame.closing_shell] at hinnermost
    obtain ⟨hown, hframes⟩ := List.cons.inj hinnermost
    have haddress' : frame.address = address := by
      rw [← hown] at haddress
      exact Option.some.inj haddress
    have hclose : chronicle.assembly.closeFrame encoding request =
        chronicle.assembly.pop encoding := by
      rw [← hown]
      exact Assembly.closeFrame_closing encoding hstack (by rw [haddress']; exact hnotPending)
    have hafter : (Chronicle.sink encoding).closeFrame request chronicle =
        chronicle.afterClose request (chronicle.assembly.pop encoding) := by
      simp only [Chronicle.sink, afterClose, hclose]
    obtain ⟨path', horderly, -⟩ := h.close (Assembly.pop_shrinks encoding _) request
      (fun other hother hlate => by
        rw [haddress] at hother
        rw [← Option.some.inj hother, Assembly.pending_pop]
        exact hnotPending)
      (fun _ => .inl ⟨.own hstack hown rfl, by rw [haddress]; exact hnotTaken⟩)
    rw [hafter]
    refine ⟨path', horderly, ⟨0, ?_⟩, fun other hother hawaits => ?_⟩
    · show (chronicle.assembly.pop encoding).shells.map Frame.closing = outer
      rw [Assembly.shells_pop, Assembly.shells_eq_cons hstack, List.tail_cons, hframes]
    · have hne : other ≠ frame.address := fun hsame => hother (hsame.trans haddress')
      exact hawaits.afterPop hstack hne encoding request

end Orderly

/-! ## Runs -/

theorem closings_openFrame (kind : FrameKind) (name : String) :
    ((Chronicle.sink encoding).openFrame kind name chronicle).2.closings =
      (chronicle.assembly.openFrame kind name).1 :: chronicle.closings := by
  show (chronicle.assembly.openFrame kind name).2.shells.map Frame.closing = _
  rw [Assembly.shells_openFrame, List.map_cons, Assembly.closings_claimIndex]
  rfl

/-- Opening a frame loses no close that is still to come. -/
theorem Awaits.afterOpen {address : String} (h : chronicle.Awaits address) (kind : FrameKind)
    (name : String) :
    ((Chronicle.sink encoding).openFrame kind name chronicle).2.Awaits address := by
  rcases h with hpending | htaken | hopen
  · refine .inl ?_
    show address ∈ (chronicle.assembly.openFrame kind name).2.pending
    rw [Assembly.pending_openFrame]
    exact hpending
  · exact .inr (.inl htaken)
  · obtain ⟨request, hrequest, haddress⟩ := mem_addresses.mp hopen
    refine .inr (.inr (mem_addresses.mpr ⟨request, ?_, haddress⟩))
    rw [closings_openFrame]
    exact List.mem_cons_of_mem _ hrequest

/-- Putting in a piece leaves the open frames and the pending closes as they are. -/
theorem continues_put (piece : Piece Widget) :
    chronicle.Continues ((Chronicle.sink encoding).put piece chronicle) := by
  have hclosings : ((Chronicle.sink encoding).put piece chronicle).closings =
      chronicle.closings := by
    show (chronicle.assembly.put encoding piece).shells.map Frame.closing = _
    rw [Assembly.shells_put, Assembly.closings_claimIndex]
    rfl
  refine ⟨⟨0, hclosings⟩, ?_⟩
  rintro address (hpending | htaken | hopen)
  · refine .inl ?_
    show address ∈ (chronicle.assembly.put encoding piece).pending
    rw [Assembly.pending_put]
    exact hpending
  · exact .inr (.inl htaken)
  · rw [mem_addresses, ← hclosings, ← mem_addresses] at hopen
    exact .inr (.inr hopen)

/-- A frame keeps a chronicle orderly, if its body does. -/
theorem Orderly.frame (h : chronicle.Orderly encoding path) (kind : FrameKind) (name : String)
    {body : Chronicle ω → Chronicle ω}
    (hbody : ∀ (inner : Chronicle ω) (path : List Nat), inner.Orderly encoding path →
      ∃ path', (body inner).Orderly encoding path' ∧ inner.Continues (body inner)) :
    ∃ path', ((Chronicle.sink encoding).closeFrame (chronicle.assembly.openFrame kind name).1
        (body ((Chronicle.sink encoding).openFrame kind name chronicle).2)).Orderly encoding
        path' ∧
      chronicle.Continues
        ((Chronicle.sink encoding).closeFrame (chronicle.assembly.openFrame kind name).1
          (body ((Chronicle.sink encoding).openFrame kind name chronicle).2)) := by
  obtain ⟨path', hinner, ⟨count, hcount⟩, hawaits⟩ := hbody _ _ (h.openFrame kind name)
  have haddress : (chronicle.assembly.openFrame kind name).1.address =
      some chronicle.assembly.nextAddress := rfl
  have hopen : ((Chronicle.sink encoding).openFrame kind name chronicle).2.Awaits
      chronicle.assembly.nextAddress := by
    refine .inr (.inr (mem_addresses.mpr ⟨_, ?_, haddress⟩))
    rw [closings_openFrame]
    exact List.mem_cons_self
  have houter : ∀ other ∈ chronicle.closings,
      other.address ≠ some chronicle.assembly.nextAddress := fun other hother hsame =>
    h.not_awaits_next (.inr (.inr (mem_addresses.mpr ⟨other, hother, hsame⟩)))
  rw [closings_openFrame] at hcount
  obtain ⟨path'', horderly, hclosings, hothers⟩ :=
    hinner.closeOwn haddress (hawaits _ hopen) hcount houter
  refine ⟨path'', horderly, hclosings, fun address hbefore => ?_⟩
  have hne : address ≠ chronicle.assembly.nextAddress := by
    rintro rfl
    exact h.not_awaits_next hbefore
  exact hothers address hne (hawaits address (hbefore.afterOpen kind name))

end Chronicle

variable {encoding : Encoding ω α}

mutual
theorem Directive.orderly_run :
    ∀ (step : Directive) (chronicle : Chronicle ω) (path : List Nat)
      (_ : chronicle.Orderly encoding path),
      ∃ path', (step.run (Chronicle.sink encoding) chronicle).Orderly encoding path' ∧
        chronicle.Continues (step.run (Chronicle.sink encoding) chronicle)
  | .frame kind name body, _, _, h => h.frame kind name (Script.orderly_run body)
  | .leaf piece, _, path, h => ⟨path, h.put piece, Chronicle.continues_put piece⟩
  | .closingTag id tag, _, _, h => h.closeTag (.ofTag id tag) rfl
  | .warning w, _, path, h => ⟨path, h.warn w, ⟨0, rfl⟩, fun _ => id⟩
/-- A run keeps a chronicle orderly: it never opens two frames with one address, and every
own close in it is proper unless a closing tag has taken it. -/
theorem Script.orderly_run :
    ∀ (script : Script) (chronicle : Chronicle ω) (path : List Nat)
      (_ : chronicle.Orderly encoding path),
      ∃ path', (Script.run (Chronicle.sink encoding) script chronicle).Orderly encoding path' ∧
        chronicle.Continues (Script.run (Chronicle.sink encoding) script chronicle)
  | [], _, path, h => ⟨path, h, ⟨0, rfl⟩, fun _ => id⟩
  | step :: rest, chronicle, path, h => by
    obtain ⟨path', hstep, hfirst⟩ := Directive.orderly_run step chronicle path h
    obtain ⟨path'', hrest, hlater⟩ := Script.orderly_run rest _ path' hstep
    exact ⟨path'', hrest, hfirst.trans hlater⟩
end

end Stencil
