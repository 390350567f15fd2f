import Stencil.Proofs.Assembly.Tidy

/-!
# The closes of a run

Every frame of a script ends with its own close.  By then the frame may have been closed
already, by a closing tag or by the recovery from one, and its own close is to do nothing.
This works by remembering the address of the frame until its own close comes, but a
closing tag with just that address is taken for the own close as well.  A chronicle of a
run keeps every close, so that it can be told which ones found what they were for.

* `Chronicle` — an assembly, the frames it opened, and the closes made to it.
* `Close.IsProper` — a close that closes the innermost frame, its own, or does nothing.
* `Close.Misfires` — a close that is treated like the end of something else.
* `Chronicle.Orderly` — what holds of a chronicle throughout a run.
* `Chronicle.Orderly.openFrame`, `Chronicle.Orderly.close` — opening frames and closing them
  keeps a chronicle orderly.
-/

namespace Stencil

/-! ## Chronicles -/

/-- A close request, with the assembly before and after it. -/
structure Close (ω : Type) where
  request : Closing
  before : Assembly ω
  after : Assembly ω

/-- An assembly and what was done to it, last one first. -/
structure Chronicle (ω : Type) where
  assembly : Assembly ω
  /-- The requests of the frames that a script opened. -/
  opened : List Closing
  closes : List (Close ω)

variable {ω α : Type}

/-- An assembly with nothing in it, before anything was done to it. -/
def Chronicle.start (startId : String) : Chronicle ω := ⟨.start startId, [], []⟩

/-- An assembly that keeps a chronicle of what a script does to it. -/
def Chronicle.sink (encoding : Encoding ω α) : Sink (Chronicle ω) where
  openFrame := fun kind name chronicle =>
    let (request, assembly) := chronicle.assembly.openFrame kind name
    (request, ⟨assembly, request :: chronicle.opened, chronicle.closes⟩)
  put := fun piece chronicle =>
    { chronicle with assembly := chronicle.assembly.put encoding piece }
  closeFrame := fun request chronicle =>
    let after := chronicle.assembly.closeFrame encoding request
    ⟨after, chronicle.opened, ⟨request, chronicle.assembly, after⟩ :: chronicle.closes⟩
  warn := fun warning chronicle =>
    { chronicle with assembly := chronicle.assembly.warn warning.kind warning.message }

mutual
theorem Directive.assembly_run (encoding : Encoding ω α) :
    ∀ (step : Directive) (chronicle : Chronicle ω),
      (step.run (Chronicle.sink encoding) chronicle).assembly =
        step.run (Assembly.sink encoding) chronicle.assembly
  | .frame kind name body, chronicle => by
    have hbody := Script.assembly_run encoding body
      ((Chronicle.sink encoding).openFrame kind name chronicle).2
    exact congrArg (Assembly.closeFrame encoding · (chronicle.assembly.openFrame kind name).1)
      hbody
  | .leaf _, _ => rfl
  | .closingTag _ _, _ => rfl
  | .warning _, _ => rfl
/-- The assembly of a chronicle is the one that the script makes anyway. -/
theorem Script.assembly_run (encoding : Encoding ω α) :
    ∀ (script : Script) (chronicle : Chronicle ω),
      (Script.run (Chronicle.sink encoding) script chronicle).assembly =
        Script.run (Assembly.sink encoding) script chronicle.assembly
  | [], _ => rfl
  | step :: rest, chronicle => by
    rw [Script.run, Script.run, Script.assembly_run encoding rest,
      Directive.assembly_run encoding step]
end

/-! ## Closes that find what they are for -/

namespace Close

/-- A close that closes its own frame, which is the innermost one, or that is late and does
nothing but to forget the frame. -/
inductive IsProper (encoding : Encoding ω α) (close : Close ω) : Prop
  | own {frame : Frame ω} {outer : List (Frame ω)}
      (hstack : close.before.stack = frame :: outer) (hown : frame.closing = close.request)
      (hafter : close.after = close.before.pop encoding)
  | late (hlate : close.before.isLate close.request = true)
      (hafter : close.after = close.before.forget close.request)

/-- A close that finds neither its own frame innermost nor its address remembered, and is
treated like the end of something else. -/
inductive Misfires (encoding : Encoding ω α) (close : Close ω) : Prop
  | mismatch {top : Frame ω} {outer : List (Frame ω)}
      (hlate : close.before.isLate close.request = false)
      (hstack : close.before.stack = top :: outer) (hother : top.isMeantBy close.request = false)
      (hafter : close.after =
        (close.before.warn .tagMismatch
          (Assembly.mismatchMessage close.request top)).closeUnwinding encoding close.request)
  | nothing (hlate : close.before.isLate close.request = false) (hstack : close.before.stack = [])
      (hafter : close.after = close.before.closeNothing encoding close.request)

theorem Misfires.not_isProper {encoding : Encoding ω α} {close : Close ω}
    (h : close.Misfires encoding) : ¬ close.IsProper encoding := by
  intro hproper
  cases hproper with
  | late hlate hafter =>
    cases h with
    | mismatch hnot _ _ _ => rw [hlate] at hnot; cases hnot
    | nothing hnot _ _ => rw [hlate] at hnot; cases hnot
  | own hstack hown hafter =>
    cases h with
    | mismatch _ hstack' hother _ =>
      rw [hstack] at hstack'
      obtain ⟨rfl, rfl⟩ := List.cons.inj hstack'
      rw [← hown, Frame.isMeantBy_closing] at hother
      cases hother
    | nothing _ hstack' _ => rw [hstack] at hstack'; cases hstack'

/-- A closing tag with an address that is still to be closed by its own frame, and is
forgotten on behalf of the tag. -/
def Takes (tag : Close ω) (address : Option String) : Prop :=
  tag.request.explicit = true ∧ tag.request.address = address ∧
    tag.before.isLate tag.request = true

/-- The own close of a frame is proper, or else an earlier closing tag has taken it. -/
def IsSettled (encoding : Encoding ω α) (earlier : List (Close ω)) (close : Close ω) : Prop :=
  close.request.explicit = false →
    (close.IsProper encoding ∧ ¬ ∃ tag ∈ earlier, tag.Takes close.request.address) ∨
      (close.Misfires encoding ∧ ∃ tag ∈ earlier, tag.Takes close.request.address)

end Close

namespace Chronicle

/-- The addresses of the open frames, innermost first. -/
def addresses (chronicle : Chronicle ω) : List String :=
  chronicle.assembly.shells.map Frame.address

/-- An address that was still to be closed until a closing tag took it. -/
def Taken (chronicle : Chronicle ω) (address : String) : Prop :=
  ∃ tag ∈ chronicle.closes, tag.Takes (some address)

/-- An address whose own close is still to come: the frame is open, or was closed on behalf
of others. -/
def Awaits (chronicle : Chronicle ω) (address : String) : Prop :=
  address ∈ chronicle.assembly.pending ∨ chronicle.Taken address ∨
    address ∈ chronicle.addresses

/-- What holds throughout a run: the open frames are at a path, no address is given out
twice, an address is open or pending or taken but no two of these, and every frame's own
close was proper unless it had been taken. -/
structure Orderly (encoding : Encoding ω α) (chronicle : Chronicle ω) (path : List Nat) :
    Prop where
  isAt : chronicle.assembly.IsAt path
  nodup : chronicle.assembly.pending.Nodup
  apart : ∀ address ∈ chronicle.assembly.pending, address ∉ chronicle.addresses
  pending : ∀ address ∈ chronicle.assembly.pending,
    GivenBefore chronicle.assembly.startId (chronicle.assembly.nextPath path) address
  taken : ∀ address, chronicle.Taken address →
    GivenBefore chronicle.assembly.startId (chronicle.assembly.nextPath path) address ∧
      address ∉ chronicle.assembly.pending ∧ address ∉ chronicle.addresses
  opened : ∀ request ∈ chronicle.opened, ∃ address, request.address = some address ∧
    GivenBefore chronicle.assembly.startId (chronicle.assembly.nextPath path) address
  once : (chronicle.opened.map Closing.address).Nodup
  settled : ∀ close earlier, close :: earlier <:+ chronicle.closes →
    close.IsSettled encoding earlier

variable {encoding : Encoding ω α} {chronicle chronicle' : Chronicle ω} {path path' : List Nat}

/-- An assembly in good order is orderly before anything is done to it. -/
theorem orderly_of_tidy {assembly : Assembly ω} (h : assembly.Tidy path)
    (encoding : Encoding ω α) : Orderly encoding ⟨assembly, [], []⟩ path where
  isAt := h.isAt
  nodup := h.nodup
  apart := h.apart
  pending := h.given
  taken := by simp [Taken]
  opened := by simp
  once := List.nodup_nil
  settled := by simp

theorem orderly_start (encoding : Encoding ω α) (startId : String) :
    (start startId : Chronicle ω).Orderly encoding [] :=
  orderly_of_tidy (Assembly.tidy_start startId) encoding

namespace Orderly

/-- The assembly of an orderly chronicle is in good order. -/
theorem tidy (h : chronicle.Orderly encoding path) : chronicle.assembly.Tidy path :=
  ⟨h.isAt, h.nodup, h.apart, h.pending⟩

/-- Every address that is still to be closed was given out before. -/
theorem given (h : chronicle.Orderly encoding path) {address : String}
    (hawaits : chronicle.Awaits address) :
    GivenBefore chronicle.assembly.startId (chronicle.assembly.nextPath path) address := by
  rcases hawaits with hpending | htaken | hopen
  · exact h.tidy.used (.inl hpending)
  · exact (h.taken address htaken).1
  · exact h.tidy.used (.inr hopen)

/-- So the next address is not among them. -/
theorem not_awaits_next (h : chronicle.Orderly encoding path) :
    ¬ chronicle.Awaits chronicle.assembly.nextAddress :=
  fun hawaits => h.isAt.nextAddress_new (h.given hawaits)

/-- Neither is the next address at top level. -/
theorem not_awaits_root (h : chronicle.Orderly encoding path) :
    ¬ chronicle.Awaits (chronicle.assembly.startId ++ toString chronicle.assembly.nextIndex) :=
  fun hawaits => h.isAt.rootAddress_new (h.given hawaits)

/-- A step keeps a chronicle orderly if it keeps the order of the assembly, moves the next path
on at most, opens no frame, makes closes pending only for frames it closes, and lets tags take
only what was pending. -/
theorem next (h : chronicle.Orderly encoding path) (htidy : chronicle'.assembly.Tidy path')
    (hstart : chronicle'.assembly.startId = chronicle.assembly.startId)
    (hnext : chronicle.assembly.nextPath path ≤ chronicle'.assembly.nextPath path')
    (hpending : ∀ address ∈ chronicle'.assembly.pending,
      address ∈ chronicle.assembly.pending ∨ address ∈ chronicle.addresses)
    (hopen : ∀ address ∈ chronicle'.addresses, address ∈ chronicle.addresses)
    (htaken : ∀ address, chronicle'.Taken address → chronicle.Taken address ∨
      address ∈ chronicle.assembly.pending ∧ address ∉ chronicle'.assembly.pending)
    (hopened : chronicle'.opened = chronicle.opened)
    (hsettled : ∀ close earlier, close :: earlier <:+ chronicle'.closes →
      close.IsSettled encoding earlier) :
    chronicle'.Orderly encoding path' := by
  have hmono : ∀ address, chronicle.Awaits address →
      GivenBefore chronicle'.assembly.startId (chronicle'.assembly.nextPath path') address := by
    intro address hawaits
    rw [hstart]
    exact (h.given hawaits).mono hnext
  refine ⟨htidy.isAt, htidy.nodup, htidy.apart, htidy.given, ?_, ?_, ?_, hsettled⟩
  · intro address hmem
    rcases htaken address hmem with hold | ⟨hold, hgone⟩
    · obtain ⟨-, hnotPending, hnotOpen⟩ := h.taken address hold
      refine ⟨hmono address (.inr (.inl hold)), fun hnow => ?_, fun hnow => ?_⟩
      · rcases hpending address hnow with hbefore | hbefore
        · exact hnotPending hbefore
        · exact hnotOpen hbefore
      · exact hnotOpen (hopen address hnow)
    · exact ⟨hmono address (.inl hold), hgone,
        fun hnow => h.apart address hold (hopen address hnow)⟩
  · intro request hmem
    rw [hopened] at hmem
    obtain ⟨address, haddress, hgiven⟩ := h.opened request hmem
    refine ⟨address, haddress, ?_⟩
    rw [hstart]
    exact hgiven.mono hnext
  · rw [hopened]
    exact h.once

/-- Opening a frame keeps a chronicle orderly. -/
theorem openFrame (h : chronicle.Orderly encoding path) (kind : FrameKind) (name : String) :
    ((Chronicle.sink encoding).openFrame kind name chronicle).2.Orderly encoding
      (chronicle.assembly.nextPath path) := by
  have htidy := h.tidy.openFrame kind name
  have hnext := (h.isAt.openFrame kind name).2
  have hstart : (chronicle.assembly.openFrame kind name).2.startId =
      chronicle.assembly.startId := Assembly.startId_openFrame _ kind name
  have hpending : (chronicle.assembly.openFrame kind name).2.pending =
      chronicle.assembly.pending := Assembly.pending_openFrame _ kind name
  have haddresses : (chronicle.assembly.openFrame kind name).2.shells.map Frame.address =
      chronicle.assembly.nextAddress :: chronicle.addresses := by
    rw [Assembly.shells_openFrame, List.map_cons, Assembly.addresses_claimIndex]
    rfl
  have hmono : ∀ address,
      GivenBefore chronicle.assembly.startId (chronicle.assembly.nextPath path) address →
        GivenBefore (chronicle.assembly.openFrame kind name).2.startId
          ((chronicle.assembly.openFrame kind name).2.nextPath (chronicle.assembly.nextPath path))
          address := by
    intro address hgiven
    rw [hstart]
    exact hgiven.mono (le_of_lt hnext)
  have hself := htidy.isAt.givenBefore _ (List.mem_cons_self)
  refine ⟨htidy.isAt, htidy.nodup, htidy.apart, htidy.given, ?_, ?_, ?_, h.settled⟩
  · intro address hmem
    obtain ⟨hgiven, hnotPending, hnotOpen⟩ := h.taken address hmem
    refine ⟨hmono address hgiven, fun hnow => hnotPending (hpending ▸ hnow), fun hnow => ?_⟩
    have hnow' : address ∈ chronicle.assembly.nextAddress :: chronicle.addresses :=
      haddresses ▸ hnow
    rcases List.mem_cons.mp hnow' with rfl | hold
    · exact h.not_awaits_next (.inr (.inl hmem))
    · exact hnotOpen hold
  · intro request hmem
    rcases List.mem_cons.mp hmem with rfl | hold
    · exact ⟨_, rfl, hself⟩
    · obtain ⟨address, haddress, hgiven⟩ := h.opened request hold
      exact ⟨address, haddress, hmono address hgiven⟩
  · show (List.map Closing.address (_ :: chronicle.opened)).Nodup
    rw [List.map_cons, List.nodup_cons]
    refine ⟨fun hmem => ?_, h.once⟩
    obtain ⟨request, hrequest, hsame⟩ := List.mem_map.mp hmem
    obtain ⟨address, haddress, hgiven⟩ := h.opened request hrequest
    have hnew : address = chronicle.assembly.nextAddress :=
      Option.some.inj (haddress.symm.trans hsame)
    rw [hnew] at hgiven
    exact h.isAt.nextAddress_new hgiven

theorem put (h : chronicle.Orderly encoding path) (piece : Piece Widget) :
    ((Chronicle.sink encoding).put piece chronicle).Orderly encoding path := by
  have hpending : (chronicle.assembly.put encoding piece).pending =
      chronicle.assembly.pending := Assembly.pending_put encoding _ piece
  have haddresses : (chronicle.assembly.put encoding piece).shells.map Frame.address =
      chronicle.addresses := by
    rw [Assembly.shells_put, Assembly.addresses_claimIndex]
    rfl
  refine h.next (h.tidy.put encoding piece) (Assembly.startId_put encoding _ piece)
    (h.isAt.put encoding piece).2 ?_ ?_ (fun _ hmem => .inl hmem) rfl h.settled
  · exact fun address hmem => .inl (hpending ▸ hmem)
  · exact fun address hmem => haddresses ▸ hmem

/-- A warning changes nothing that matters to the order of a chronicle. -/
theorem warn (h : chronicle.Orderly encoding path) (warning : Warning) :
    ((Chronicle.sink encoding).warn warning chronicle).Orderly encoding path :=
  ⟨h.isAt, h.nodup, h.apart, h.pending, h.taken, h.opened, h.once, h.settled⟩

/-- A close that closes some of the innermost frames keeps a chronicle orderly, if it is
settled itself, and if what it takes is not pending any more. -/
theorem close (h : chronicle.Orderly encoding path) {count : Nat} {after : Assembly ω}
    (hshrinks : Assembly.Shrinks count chronicle.assembly after) (request : Closing)
    (htakes : ∀ address, request.address = some address →
      chronicle.assembly.isLate request = true → address ∉ after.pending)
    (hsettled : (Close.mk request chronicle.assembly after).IsSettled encoding
      chronicle.closes) :
    ∃ path', Chronicle.Orderly encoding
        ⟨after, chronicle.opened, ⟨request, chronicle.assembly, after⟩ :: chronicle.closes⟩
        path' ∧
      chronicle.assembly.nextPath path ≤ after.nextPath path' := by
  obtain ⟨path', htidy, hnext⟩ := h.tidy.shrinks hshrinks
  refine ⟨path', h.next htidy hshrinks.startId hnext ?_ hshrinks.openBefore ?_ rfl ?_, hnext⟩
  · intro address hmem
    rcases hshrinks.pending address hmem with hclosed | hold
    · exact .inr (List.map_subset _ (List.take_subset _ _) hclosed)
    · exact .inl hold
  · rintro address ⟨tag, htag, htakes'⟩
    rcases List.mem_cons.mp htag with rfl | hold
    · obtain ⟨-, haddress, hlate⟩ := htakes'
      refine .inr ⟨?_, htakes address haddress hlate⟩
      simp only [Assembly.isLate] at hlate haddress
      simpa [haddress] using hlate
    · exact .inl ⟨tag, hold, htakes'⟩
  · intro close earlier hsuffix
    rcases List.suffix_cons_iff.mp hsuffix with hsame | hold
    · obtain ⟨rfl, rfl⟩ := List.cons.inj hsame
      exact hsettled
    · exact h.settled close earlier hold

end Orderly

end Chronicle

end Stencil
