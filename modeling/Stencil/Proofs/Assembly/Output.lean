import Stencil.Proofs.Assembly.Pairing
import Stencil.Proofs.Assembly.Renamed

/-!
# Reading the output

To read the output closes all frames that are still open, and starts over.  The closes go
through the requests that the frames were opened with, and each of them is for the innermost
frame when its turn comes, so none of what mends wrong closes is ever used.

* `Assembly.Drains.run`, `Assembly.Drains.pairing` — closing the frames by hand comes to the
  same, and raises no warning about pairing.
* `Assembly.output_after`, `Operation.observe_after` — what was logged before makes no
  difference.
* `Assembly.Finishing` — what reading the output does.
* `Assembly.Reachable.output_finishing` — it does so whatever was done before.
-/

namespace Stencil

variable {ω α : Type}

/-! ## What was logged before -/

/-- The same with an earlier log before its own. -/
def Observation.after (earlier : Log) (observation : Observation) : Observation :=
  { observation with log := earlier ++ observation.log }

namespace Assembly

/-- The same with an earlier log before its own. -/
def after (earlier : Log) (assembly : Assembly ω) : Assembly ω :=
  { assembly with log := earlier ++ assembly.log }

/-- An earlier log stays before all that is logged later. -/
theorem renaming_after (startId : String) (earlier : Log) :
    Address.Renaming startId startId Eq fun log log' => log' = earlier ++ log where
  oneToOne := Address.oneToOne_eq
  root := fun _ => rfl
  inner := fun haddress _ => by rw [haddress]
  append := fun hlog later => by rw [hlog, Log.append_assoc]
  stray := fun hlog hrequest => by
    rw [hrequest.eq, hlog, Log.warn_eq_append, Log.warn_eq_append, Log.append_assoc]
  mismatch := fun hlog hrequest htop => by
    rw [htop.mismatchMessage_eq hrequest, hlog, Log.warn_eq_append, Log.warn_eq_append,
      Log.append_assoc]

theorem renamed_after (earlier : Log) (assembly : Assembly ω) :
    Renamed assembly.startId assembly.startId Eq (fun log log' => log' = earlier ++ log) assembly
      (assembly.after earlier) where
  startId := rfl
  startId' := rfl
  stack := List.forall₂_same.mpr fun _ _ => ⟨rfl, rfl⟩
  results := rfl
  nextIndex := rfl
  pending := List.forall₂_same.mpr fun _ _ => rfl
  log := rfl

theorem Renamed.eq_after {startId : String} {earlier : Log} {one other : Assembly ω}
    (h : Renamed startId startId Eq (fun log log' => log' = earlier ++ log) one other) :
    other = one.after earlier := by
  obtain ⟨hstart, hstart', hstack, hresults, hindex, hpending, hlog⟩ := h
  have hframes : List.Forall₂ Eq one.stack other.stack := by
    refine hstack.imp fun frame frame' hframe => ?_
    rw [hframe.same, ← hframe.address]
  rw [List.forall₂_eq_eq_eq] at hframes hpending
  rw [after, hframes, hpending, hstart, ← hstart', hresults, hindex, ← hlog]

variable (encoding : Encoding ω α) (earlier : Log) (assembly : Assembly ω)

/-- What was logged before makes no difference to the output. -/
theorem output_after :
    (assembly.after earlier).output encoding =
      ((assembly.output encoding).1, (assembly.output encoding).2.after earlier) := by
  obtain ⟨hvalue, hleft⟩ := Renamed.output (renaming_after assembly.startId earlier) encoding
    (renamed_after earlier assembly)
  exact Prod.ext hvalue.symm hleft.eq_after

end Assembly

namespace Operation

variable (encoding : Encoding ω α) (earlier : Log)

/-- Neither does it to what an operation does, -/
theorem apply_after (assembly : Assembly ω) (operation : Operation) :
    operation.apply encoding (assembly.after earlier) =
      ((operation.apply encoding assembly).1,
        (operation.apply encoding assembly).2.after earlier) := by
  have hrenaming := Assembly.renaming_after assembly.startId earlier
  have hbefore := Assembly.renamed_after earlier assembly
  cases operation with
  | openFrame kind name =>
    obtain ⟨hrequest, hopened⟩ := hbefore.openFrame hrenaming kind name
    exact Prod.ext (congrArg some hrequest.eq.symm) hopened.eq_after
  | put piece => exact Prod.ext rfl (hbefore.put hrenaming encoding piece).eq_after
  | closeFrame request =>
    have hclosed := (Assembly.Renamed.inStep hrenaming encoding).closeFrame hbefore (.refl request)
    exact Prod.ext rfl hclosed.eq_after

/-- nor to what is seen of several. -/
theorem observe_after (operations : List Operation) (assembly : Assembly ω) :
    observe encoding operations (assembly.after earlier) =
      ((observe encoding operations assembly).1.map (.after earlier),
        (observe encoding operations assembly).2.after earlier) := by
  induction operations generalizing assembly with
  | nil => rfl
  | cons operation rest ih =>
    simp only [observe, apply_after, ih]
    rfl

end Operation

/-! ## Closing all frames -/

namespace Assembly

variable {encoding : Encoding ω α} {before after assembly : Assembly ω} {path : List Nat}
  {requests : List Closing}

/-- Closing the frames by hand comes to the same. -/
theorem Drains.run (h : Drains encoding requests before after) :
    Operation.run encoding (requests.map .closeFrame) before = after := by
  induction h with
  | nil _ => rfl
  | cons _ _ hclose _ _ _ ih =>
    rw [List.map_cons, Operation.run, Operation.apply, hclose]
    exact ih

theorem Drains.pairing (h : Drains encoding requests before after) :
    after.log.pairing = before.log.pairing := by
  induction h with
  | nil _ => rfl
  | cons _ _ _ _ _ _ ih => rw [ih, pairing_pop]

theorem Drains.stack_eq_nil (h : Drains encoding requests before after) : after.stack = [] := by
  induction h with
  | nil hstack => exact hstack
  | cons _ _ _ _ _ _ ih => exact ih

/-- With all frames closed, the output is what it was to be. -/
theorem output_closeAll (hstack : (assembly.closeAll encoding).stack = []) :
    (assembly.closeAll encoding).output encoding = assembly.output encoding := by
  have hagain : (assembly.closeAll encoding).closeAll encoding = assembly.closeAll encoding := by
    rw [closeAll, hstack]
    rfl
  simp only [output, hagain]

theorem Tidy.startId_apply (h : assembly.Tidy path) (operation : Operation) :
    (operation.apply encoding assembly).2.startId = assembly.startId := by
  cases operation with
  | openFrame kind name => exact startId_openFrame assembly kind name
  | put piece => exact startId_put encoding assembly piece
  | closeFrame request =>
    have heffect := h.closeFrame_effect encoding request
    simp only [Operation.apply]
    generalize assembly.closeFrame encoding request = after at heffect
    cases heffect with
    | closed _ _ hcloses => exact hcloses.startId
    | paragraph _ hcloses => rw [startId_pop, startId_openFrame, hcloses.startId]

/-- The start of addresses never changes. -/
theorem Reachable.startId {startId : String} (h : Reachable encoding startId assembly) :
    assembly.startId = startId := by
  induction h with
  | start => rfl
  | apply hbefore operation ih =>
    obtain ⟨path, htidy⟩ := hbefore.tidy
    rw [htidy.startId_apply, ih]
  | output hbefore ih =>
    obtain ⟨path, htidy⟩ := hbefore.tidy
    exact (htidy.closeAll_closes encoding).startId.trans ih
  | clear _ ih => exact ih
  | logged _ _ ih => exact ih

/-! ## What reading the output does -/

/-- What reading the output does. -/
structure Finishing (encoding : Encoding ω α) (startId : String) (assembly : Assembly ω) :
    Prop where
  /-- Each open frame is closed once, innermost first, by the request it was opened with. -/
  drains : Drains encoding (assembly.stack.map Frame.closing) assembly (assembly.closeAll encoding)
  /-- This raises no warning about pairing, -/
  pairing : (assembly.closeAll encoding).log.pairing = assembly.log.pairing
  /-- and only what the pieces log when they are encoded comes after it. -/
  encoded : (assembly.output encoding).2.log = (assembly.closeAll encoding).log ++
    (encoding.finish (assembly.closeAll encoding).results.reverse).log
  /-- The output is the same if all frames are closed by their own requests before. -/
  closed : (Operation.run encoding ((assembly.stack.map Frame.closing).map .closeFrame)
    assembly).output encoding = assembly.output encoding
  /-- Whatever is done afterwards looks as it does from the start, but for the log so far, -/
  observed : ∀ operations : List Operation,
    Operation.observe encoding operations (assembly.output encoding).2 =
      ((Operation.observe encoding operations (start startId)).1.map
          (.after (assembly.output encoding).2.log),
        (Operation.observe encoding operations (start startId)).2.after
          (assembly.output encoding).2.log)
  /-- and so does what comes out in the end. -/
  outputs : ∀ operations : List Operation,
    (Operation.observe encoding operations (assembly.output encoding).2).2.output encoding =
      (((Operation.observe encoding operations (start startId)).2.output encoding).1,
        ((Operation.observe encoding operations (start startId)).2.output encoding).2.after
          (assembly.output encoding).2.log)

/-- Reading the output does so whatever was opened, put in and closed before. -/
theorem Reachable.output_finishing {startId : String}
    (hreachable : assembly.Reachable encoding startId) :
    Finishing encoding startId assembly := by
  obtain ⟨path, htidy⟩ := hreachable.tidy
  have hdrains := htidy.drains encoding
  have hleft : (assembly.output encoding).2 =
      (Assembly.start startId).after (assembly.output encoding).2.log := by
    have hstart : (assembly.closeAll encoding).startId = startId :=
      (htidy.closeAll_closes encoding).startId.trans hreachable.startId
    rw [← hstart, after, Assembly.start, Log.append_empty]
    rfl
  have hobserved := fun operations =>
    (congrArg (Operation.observe encoding operations) hleft).trans
      (Operation.observe_after encoding _ operations _)
  exact
    { drains := hdrains
      pairing := hdrains.pairing
      encoded := rfl
      closed := by rw [hdrains.run, output_closeAll hdrains.stack_eq_nil]
      observed := hobserved
      outputs := fun operations => by rw [hobserved, output_after] }

/-- A division with a paragraph, whose end tag has closed the bold text in it as well, and an
image after it. -/
def openFigure : Assembly Widget :=
  Operation.run .tree
    [.openFrame .ofElement "div", .openFrame .ofElement "p", .openFrame .ofElement "b",
      .put (.text "x"), .closeFrame (.ofTag none "P"), .openFrame .ofElement "img"]
    (.start "")

/-- Two closes are still to come there, and neither gets in the way: the image and the division
are closed, and then addresses start over. -/
theorem output_openFigure :
    openFigure.Reachable .tree "" ∧
      openFigure.pending = ["0.0", "0.0.0"] ∧ openFigure.openAddresses = ["0", "0.1"] ∧
      (openFigure.closeAll .tree).log.pairing.map Warning.kind = [.tagMismatch] ∧
      (openFigure.closeAll .tree).stack = [] ∧
      (Operation.observe .tree [.openFrame .ofElement "p"] (openFigure.output .tree).2).1.map
        Observation.handle = [some ⟨some "0", .ofElement, "p", false⟩] := by
  have hreachable : openFigure.Reachable .tree "" := Reachable.start.run _
  have hfinishing := hreachable.output_finishing
  have hpairing := congrArg (List.map Warning.kind) hfinishing.pairing
  have hobserved := congrArg (fun seen => seen.1.map Observation.handle)
    (hfinishing.observed [.openFrame .ofElement "p"])
  exact ⟨hreachable, by decide +kernel, by decide +kernel, hpairing.trans (by decide +kernel),
    hfinishing.drains.stack_eq_nil, hobserved.trans (by decide +kernel)⟩

end Assembly

end Stencil
