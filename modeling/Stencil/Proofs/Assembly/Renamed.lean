import Stencil.Proofs.Assembly.Parallel

/-!
# Assemblies whose addresses are renamed

Addresses and what is logged have no bearing on what frames hold.  Two assemblies that are
the same but for these go through all operations in step: addresses that stand for each other
one to one lead to the same frames being closed, and the same pieces come out.

* `Address.Renaming` — addresses and logs that stand for each other.
* `Assembly.Renamed` — assemblies that are the same but for these.
* `Assembly.Renamed.inStep` — closing keeps them so.
* `Assembly.Renamed.output` — the same comes out.
-/

namespace Stencil

variable {ω α : Type} {startId startId' : String} {sameAddress : String → String → Prop}
  {sameLog : Log → Log → Prop}

/-! ## Addresses and logs -/

/-- Addresses that stand for each other one to one, in assemblies whose addresses start with
one text or the other, and logs that stand for each other. -/
structure Address.Renaming (startId startId' : String) (sameAddress : String → String → Prop)
    (sameLog : Log → Log → Prop) : Prop where
  oneToOne : OneToOne sameAddress
  root : ∀ index : Nat, sameAddress (startId ++ toString index) (startId' ++ toString index)
  inner : ∀ {address address'}, sameAddress address address' → ∀ index : Nat,
    sameAddress (address ++ "." ++ toString index) (address' ++ "." ++ toString index)
  append : ∀ {log log'}, sameLog log log' → ∀ later, sameLog (log ++ later) (log' ++ later)
  stray : ∀ {log log' request request'}, sameLog log log' →
    Closing.Matches sameAddress request request' →
    sameLog (log.warn ⟨.strayClose, Assembly.strayMessage request⟩)
      (log'.warn ⟨.strayClose, Assembly.strayMessage request'⟩)
  mismatch : ∀ {ω : Type} {log log' request request'} {top top' : Frame ω}, sameLog log log' →
    Closing.Matches sameAddress request request' → top.Matches sameAddress top' →
    sameLog (log.warn ⟨.tagMismatch, Assembly.mismatchMessage request top⟩)
      (log'.warn ⟨.tagMismatch, Assembly.mismatchMessage request' top'⟩)

/-- A warning is a log of its own. -/
theorem Log.warn_eq_append (log : Log) (w : Warning) : log.warn w = log ++ ⟨[w], false⟩ := by
  rw [append_def, Bool.or_false]
  rfl

namespace Address

variable {pending pending' : List String} {address address' : String}

theorem contains_eq (hunique : OneToOne sameAddress)
    (hpending : List.Forall₂ sameAddress pending pending')
    (haddress : sameAddress address address') :
    pending.contains address = pending'.contains address' := by
  induction hpending with
  | nil => rfl
  | cons hfirst _ ih =>
    rw [List.contains_cons, List.contains_cons, ih]
    congr 1
    rw [Bool.eq_iff_iff, beq_iff_eq, beq_iff_eq]
    exact hunique _ _ _ _ haddress hfirst

theorem forall₂_insert (hunique : OneToOne sameAddress)
    (hpending : List.Forall₂ sameAddress pending pending')
    (haddress : sameAddress address address') :
    List.Forall₂ sameAddress (pending.insert address) (pending'.insert address') := by
  have hcontains := contains_eq hunique hpending haddress
  simp only [List.insert, hcontains]
  split
  · exact hpending
  · exact .cons haddress hpending

theorem forall₂_erase (hunique : OneToOne sameAddress)
    (hpending : List.Forall₂ sameAddress pending pending')
    (haddress : sameAddress address address') :
    List.Forall₂ sameAddress (pending.erase address) (pending'.erase address') := by
  induction hpending with
  | nil => exact .nil
  | @cons first first' rest rest' hfirst hrest ih =>
    have hsame : first = address ↔ first' = address' := hunique _ _ _ _ hfirst haddress
    by_cases hfound : first = address
    · rw [hfound, hsame.mp hfound, List.erase_cons_head, List.erase_cons_head]
      exact hrest
    · rw [List.erase_cons_tail (by simpa using hfound),
        List.erase_cons_tail (by simpa using mt hsame.mpr hfound)]
      exact .cons hfirst ih

end Address

/-! ## Frames -/

/-- Two open frames that are the same but for their addresses, which stand for each other. -/
structure Frame.Renamed (sameAddress : String → String → Prop) (frame frame' : Frame ω) :
    Prop where
  address : sameAddress frame.address frame'.address
  same : frame' = { frame with address := frame'.address }

theorem Frame.Matches.ofRenamed {frame frame' : Frame ω} (h : frame.Renamed sameAddress frame') :
    frame.Matches sameAddress frame' :=
  ⟨h.address, by rw [h.same], by rw [h.same]⟩

/-- They become the same piece. -/
theorem Frame.Renamed.piece {frame frame' : Frame ω} (h : frame.Renamed sameAddress frame') :
    frame.piece = frame'.piece := by
  rw [h.same]
  rfl

/-! ## Assemblies -/

namespace Assembly

/-- Two assemblies that are the same but for addresses and logs, which stand for each other. -/
structure Renamed (startId startId' : String) (sameAddress : String → String → Prop)
    (sameLog : Log → Log → Prop) (one other : Assembly ω) : Prop where
  startId : one.startId = startId
  startId' : other.startId = startId'
  stack : List.Forall₂ (Frame.Renamed sameAddress) one.stack other.stack
  results : one.results = other.results
  nextIndex : one.nextIndex = other.nextIndex
  pending : List.Forall₂ sameAddress one.pending other.pending
  log : sameLog one.log other.log

theorem renamed_start {log log' : Log} (hlog : sameLog log log') :
    Renamed startId startId' sameAddress sameLog
      ({ start startId with log } : Assembly ω) { start startId' with log := log' } :=
  ⟨rfl, rfl, .nil, rfl, rfl, .nil, hlog⟩

namespace Renamed

variable {one other : Assembly ω}
  (h : Renamed startId startId' sameAddress sameLog one other)
  (hrenaming : Address.Renaming startId startId' sameAddress sameLog)

include h

theorem withLog {log log' : Log} (hlog : sameLog log log') :
    Renamed startId startId' sameAddress sameLog { one with log } { other with log := log' } :=
  { h with log := hlog }

theorem claimIndex :
    Renamed startId startId' sameAddress sameLog one.claimIndex other.claimIndex := by
  obtain ⟨start, stack, results, nextIndex, pending, log⟩ := one
  obtain ⟨start', stack', results', nextIndex', pending', log'⟩ := other
  have hstack : List.Forall₂ (Frame.Renamed sameAddress) stack stack' := h.stack
  cases hstack with
  | nil => exact { h with nextIndex := congrArg (· + 1) h.nextIndex }
  | @cons frame frame' outer outer' hframe houter =>
    have hcounted := congrArg
      (fun frame : Frame ω => { frame with nextIndex := frame.nextIndex + 1 }) hframe.same
    exact { h with stack := .cons ⟨hframe.address, hcounted⟩ houter }

include hrenaming

theorem nextAddress : sameAddress one.nextAddress other.nextAddress := by
  obtain ⟨start, stack, results, nextIndex, pending, log⟩ := one
  obtain ⟨start', stack', results', nextIndex', pending', log'⟩ := other
  obtain ⟨rfl, rfl, hstack, -, rfl, -, -⟩ := h
  cases hstack with
  | nil => exact hrenaming.root nextIndex
  | cons hframe _ =>
    simp only [Assembly.nextAddress]
    rw [hframe.same]
    exact hrenaming.inner hframe.address _

theorem openFrame (kind : FrameKind) (name : String) :
    (one.openFrame kind name).1.Matches sameAddress (other.openFrame kind name).1 ∧
      Renamed startId startId' sameAddress sameLog (one.openFrame kind name).2
        (other.openFrame kind name).2 := by
  have haddress := h.nextAddress hrenaming
  have hclaimed := h.claimIndex
  exact ⟨⟨.some haddress, rfl, rfl, rfl⟩,
    { hclaimed with stack := .cons ⟨haddress, rfl⟩ hclaimed.stack }⟩

theorem warn (kind : WarningKind) (message : String) :
    Renamed startId startId' sameAddress sameLog (one.warn kind message)
      (other.warn kind message) := by
  refine h.withLog ?_
  rw [Log.warn_eq_append, Log.warn_eq_append]
  exact hrenaming.append h.log _

theorem remember {address address' : String} (haddress : sameAddress address address') :
    Renamed startId startId' sameAddress sameLog (one.remember address)
      (other.remember address') :=
  { h with pending := Address.forall₂_insert hrenaming.oneToOne h.pending haddress }

theorem forget {request request' : Closing} (hrequest : request.Matches sameAddress request') :
    Renamed startId startId' sameAddress sameLog (one.forget request) (other.forget request') := by
  obtain ⟨address, kind, name, explicit⟩ := request
  obtain ⟨address', kind', name', explicit'⟩ := request'
  cases hrequest.address with
  | none => exact h
  | some haddress =>
    exact { h with pending := Address.forall₂_erase hrenaming.oneToOne h.pending haddress }

theorem isLate {request request' : Closing} (hrequest : request.Matches sameAddress request') :
    one.isLate request = other.isLate request' := by
  obtain ⟨address, kind, name, explicit⟩ := request
  obtain ⟨address', kind', name', explicit'⟩ := request'
  cases hrequest.address with
  | none => rfl
  | some haddress => exact Address.contains_eq hrenaming.oneToOne h.pending haddress

theorem placeAttribute (attr : OutputAttribute) :
    Renamed startId startId' sameAddress sameLog (one.placeAttribute attr)
      (other.placeAttribute attr) := by
  have hdropped := h.warn hrenaming .misplacedAttribute (misplacedMessage attr.name)
  obtain ⟨start, stack, results, nextIndex, pending, log⟩ := one
  obtain ⟨start', stack', results', nextIndex', pending', log'⟩ := other
  have hstack : List.Forall₂ (Frame.Renamed sameAddress) stack stack' := h.stack
  cases hstack with
  | nil => exact hdropped
  | @cons frame frame' outer outer' hframe houter =>
    have hkind : frame.kind = frame'.kind := (Frame.Matches.ofRenamed hframe).kind
    have hreceived := congrArg
      (fun frame : Frame ω => { frame with attributes := attr :: frame.attributes }) hframe.same
    simp only [Assembly.placeAttribute] at hdropped ⊢
    by_cases helement : frame.kind = .ofElement
    · rw [if_pos helement, if_pos (hkind.symm.trans helement)]
      exact { h with stack := .cons ⟨hframe.address, hreceived⟩ houter }
    · rw [if_neg helement, if_neg fun hother => helement (hkind.trans hother)]
      exact hdropped

omit hrenaming in
theorem placeChild (piece : Piece ω) :
    Renamed startId startId' sameAddress sameLog (one.placeChild piece)
      (other.placeChild piece) := by
  obtain ⟨start, stack, results, nextIndex, pending, log⟩ := one
  obtain ⟨start', stack', results', nextIndex', pending', log'⟩ := other
  have hstack : List.Forall₂ (Frame.Renamed sameAddress) stack stack' := h.stack
  cases hstack with
  | nil => exact { h with results := congrArg (pushJoined Piece.join? · piece) h.results }
  | @cons frame frame' outer outer' hframe houter =>
    have hreceived := congrArg (fun frame : Frame ω =>
      { frame with children := pushJoined Piece.join? frame.children piece }) hframe.same
    exact { h with stack := .cons ⟨hframe.address, hreceived⟩ houter }

theorem place (piece : Piece ω) :
    Renamed startId startId' sameAddress sameLog (one.place piece) (other.place piece) := by
  cases piece with
  | attr attr => exact h.placeAttribute hrenaming attr
  | _ => exact h.placeChild _

theorem pop (encoding : Encoding ω α) :
    Renamed startId startId' sameAddress sameLog (one.pop encoding) (other.pop encoding) := by
  obtain ⟨start, stack, results, nextIndex, pending, log⟩ := one
  obtain ⟨start', stack', results', nextIndex', pending', log'⟩ := other
  have hstack : List.Forall₂ (Frame.Renamed sameAddress) stack stack' := h.stack
  cases hstack with
  | nil => exact h
  | @cons frame frame' outer outer' hframe houter =>
    have hbelow : Renamed startId startId' sameAddress sameLog
        ⟨start, outer, results, nextIndex, pending, log⟩
        ⟨start', outer', results', nextIndex', pending', log'⟩ := { h with stack := houter }
    simp only [Assembly.pop, ← hframe.piece]
    exact hbelow.place hrenaming _

theorem put (encoding : Encoding ω α) (piece : Piece Widget) :
    Renamed startId startId' sameAddress sameLog (one.put encoding piece)
      (other.put encoding piece) :=
  (h.claimIndex.withLog (hrenaming.append h.claimIndex.log _)).place hrenaming _

end Renamed

section InStep

variable (hrenaming : Address.Renaming startId startId' sameAddress sameLog)
  (encoding : Encoding ω α) {one other : Assembly ω}

include hrenaming

/-- Closing takes the same way in both. -/
theorem Renamed.inStep :
    InStep encoding encoding sameAddress
      (Renamed startId startId' sameAddress sameLog : Assembly ω → Assembly ω → Prop) where
  oneToOne := hrenaming.oneToOne
  stack := fun h => h.stack.imp fun _ _ hframe => .ofRenamed hframe
  isLate := fun h => h.isLate hrenaming
  remember := fun h => h.remember hrenaming
  forget := fun h => h.forget hrenaming
  stray := fun h hrequest => h.withLog (hrenaming.stray h.log hrequest)
  mismatch := fun h hrequest htop => h.withLog (hrenaming.mismatch h.log hrequest htop)
  pop := fun h => h.pop hrenaming encoding
  paragraph := fun h _ => h.openFrame hrenaming .ofElement "p"

/-- So do scripts whose closing tags stand for each other. -/
theorem Renamed.run (h : Renamed startId startId' sameAddress sameLog one other)
    {script script' : Script} (hscript : Script.Parallel sameAddress Eq script script') :
    Renamed startId startId' sameAddress sameLog
      (Script.run (Assembly.sink encoding) script one)
      (Script.run (Assembly.sink encoding) script' other) := by
  refine (inStep hrenaming encoding).run (fun kind name h => h.openFrame hrenaming kind name) ?_
    (fun w h => h.warn hrenaming w.kind w.message) hscript h
  rintro one other piece _ h rfl
  exact h.put hrenaming encoding piece

/-- The same comes out, and what is left can be used in step again. -/
theorem Renamed.output (h : Renamed startId startId' sameAddress sameLog one other) :
    (one.output encoding).1 = (other.output encoding).1 ∧
      Renamed startId startId' sameAddress sameLog (one.output encoding).2
        (other.output encoding).2 := by
  have hclosed := (inStep hrenaming encoding).closeAll h
  have hstart : (one.closeAll encoding).startId = startId := hclosed.startId
  have hstart' : (other.closeAll encoding).startId = startId' := hclosed.startId'
  simp only [Assembly.output, clear, hclosed.results, hstart, hstart']
  exact ⟨trivial, renamed_start (hrenaming.append hclosed.log _)⟩

end InStep

end Assembly

end Stencil
