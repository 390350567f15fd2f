import Stencil.Proofs.Assembly.Tidy

/-!
# What a script without closing tags puts in

Where nothing but a frame's own request closes it, every close is for the innermost
frame.  Running such a script then comes to putting in the pieces of its steps one
after the other, and the piece of a frame is made from the pieces of its body.  This
holds whatever frames are open before, and whatever closes are still to come.

* `Directive.pieces`, `Script.pieces` — the pieces of steps, read off the script alone.
* `Directive.encoded`, `Script.encoded` — the same with an encoding.
* `Script.contents_run_encoded`, `Script.contents_run` — running a script puts in just these
  pieces.
-/

namespace Stencil

variable {α : Type}

mutual
/-- The pieces that a step puts in, if every frame is closed by its own request. -/
def Directive.pieces : Directive → List (Piece Widget)
  | .frame kind name body => [Piece.ofFrame kind name (Script.pieces body)]
  | .leaf piece => [piece]
  | .closingTag _ _ => []
  | .warning _ => []
/-- The pieces that steps put in. -/
def Script.pieces : List Directive → List (Piece Widget)
  | [] => []
  | step :: rest => step.pieces ++ Script.pieces rest
end

theorem Script.pieces_append (first second : Script) :
    Script.pieces (first ++ second) = Script.pieces first ++ Script.pieces second := by
  induction first with
  | nil => rfl
  | cons step rest ih => rw [List.cons_append, pieces, pieces, ih, List.append_assoc]

theorem Script.pieces_flatMap {β : Type} (items : List β) (steps : β → Script) :
    Script.pieces (items.flatMap steps) = items.flatMap fun item => Script.pieces (steps item) := by
  induction items with
  | nil => rfl
  | cons item rest ih => rw [List.flatMap_cons, List.flatMap_cons, pieces_append, ih]

mutual
/-- Whether a step holds no closing tag. -/
def Directive.tagFree : Directive → Bool
  | .frame _ _ body => Script.tagFree body
  | .closingTag _ _ => false
  | _ => true
/-- Whether steps hold no closing tag. -/
def Script.tagFree : List Directive → Bool
  | [] => true
  | step :: rest => step.tagFree && Script.tagFree rest
end

theorem Script.tagFree_append (first second : Script) :
    Script.tagFree (first ++ second) = (Script.tagFree first && Script.tagFree second) := by
  induction first with
  | nil => rfl
  | cons step rest ih => rw [List.cons_append, tagFree, tagFree, ih, Bool.and_assoc]

mutual
/-- The warnings that a step raises itself. -/
def Directive.warnings : Directive → List Warning
  | .frame _ _ body => Script.warnings body
  | .warning w => [w]
  | _ => []
/-- The warnings that steps raise themselves. -/
def Script.warnings : List Directive → List Warning
  | [] => []
  | step :: rest => step.warnings ++ Script.warnings rest
end

theorem Script.warnings_append (first second : Script) :
    Script.warnings (first ++ second) = Script.warnings first ++ Script.warnings second := by
  induction first with
  | nil => rfl
  | cons step rest ih => rw [List.cons_append, warnings, warnings, ih, List.append_assoc]

theorem Script.warnings_flatMap {β : Type} (items : List β) (steps : β → Script) :
    Script.warnings (items.flatMap steps) =
      items.flatMap fun item => Script.warnings (steps item) := by
  induction items with
  | nil => rfl
  | cons item rest ih => rw [List.flatMap_cons, List.flatMap_cons, warnings_append, ih]

/-! ## With an encoding -/

section Encoded

variable {ω : Type} (encoding : Encoding ω α)

mutual
/-- The pieces that a step puts in, encoded as they come in and as frames are closed. -/
def Directive.encoded : Directive → List (Piece ω)
  | .frame kind name body =>
      [encoding.closed (Piece.ofFrame kind name (Script.encoded body))]
  | .leaf piece => [(encoding.leaf piece).value]
  | .closingTag _ _ => []
  | .warning _ => []
/-- The pieces that steps put in, encoded as they come in and as frames are closed. -/
def Script.encoded : List Directive → List (Piece ω)
  | [] => []
  | step :: rest => step.encoded ++ Script.encoded rest
end

/-- A frame that is opened and filled with pieces is the innermost one then, and is about to
become the piece that these make. -/
theorem Assembly.exists_filled (assembly after : Assembly ω) (kind : FrameKind) (name : String)
    (pieces : List (Piece ω))
    (hcontents : after.contents =
      (assembly.openFrame kind name).2.contents.placeAll pieces) :
    ∃ frame outer, after.stack = frame :: outer ∧
      frame.closing = (assembly.openFrame kind name).1 ∧
      frame.piece = Piece.ofFrame kind name pieces ∧
      outer.map Frame.unnumbered = assembly.contents.stack ∧
      after.results = assembly.contents.results := by
  rw [contents_openFrame, Contents.placeAll_cons] at hcontents
  obtain ⟨frame, outer, hstack⟩ : ∃ frame outer, after.stack = frame :: outer := by
    cases hstack : after.stack with
    | nil => simp [contents, hstack] at hcontents
    | cons frame outer => exact ⟨frame, outer, rfl⟩
  simp only [contents, hstack, List.map_cons, Contents.mk.injEq, List.cons.injEq] at hcontents
  obtain ⟨⟨hframe, houter⟩, hresults⟩ := hcontents
  refine ⟨frame, outer, hstack, ?_, ?_, houter, hresults⟩
  · rw [← Frame.closing_unnumbered, hframe, Frame.closing_receiveAll]
    rfl
  · rw [← Frame.piece_receiveAll_fresh kind name assembly.nextAddress, ← hframe,
      Frame.piece_unnumbered]

/-- Such a frame is closed by its own request and becomes a piece. -/
theorem Assembly.contents_closeOwn (assembly after : Assembly ω) (kind : FrameKind)
    (name : String) (pieces : List (Piece ω)) (hpending : assembly.nextAddress ∉ after.pending)
    (hcontents : after.contents =
      (assembly.openFrame kind name).2.contents.placeAll pieces) :
    (after.closeFrame encoding (assembly.openFrame kind name).1).pending = after.pending ∧
      (after.closeFrame encoding (assembly.openFrame kind name).1).contents =
        assembly.contents.place (encoding.closed (Piece.ofFrame kind name pieces)) := by
  obtain ⟨frame, outer, hstack, hclosing, hpiece, houter, hresults⟩ :=
    assembly.exists_filled after kind name pieces hcontents
  have haddress : frame.address = assembly.nextAddress :=
    Option.some.inj (congrArg Closing.address hclosing)
  have hclose : after.closeFrame encoding (assembly.openFrame kind name).1 =
      after.pop encoding := by
    rw [← hclosing]
    exact closeFrame_closing encoding hstack (haddress ▸ hpending)
  rw [hclose]
  refine ⟨pending_pop encoding after, ?_⟩
  rw [contents_pop encoding hstack, hpiece, houter, hresults]

mutual
theorem Directive.contents_run_encoded :
    ∀ (step : Directive) (_ : step.tagFree = true) (assembly : Assembly ω)
      (path : List Nat) (_ : assembly.Tidy path),
      (step.run (Assembly.sink encoding) assembly).pending = assembly.pending ∧
        (step.run (Assembly.sink encoding) assembly).contents =
          assembly.contents.placeAll (step.encoded encoding)
  | .frame kind name body, hfree, assembly, path, h => by
    obtain ⟨hbody, hcontents⟩ := Script.contents_run_encoded body hfree
      (assembly.openFrame kind name).2 _ (h.openFrame kind name)
    rw [Assembly.pending_openFrame] at hbody
    obtain ⟨hclosed, hplaced⟩ := Assembly.contents_closeOwn encoding assembly _ kind name _
      (hbody ▸ h.next_unused.1) hcontents
    exact ⟨hclosed.trans hbody, hplaced⟩
  | .leaf piece, _, assembly, _, _ =>
    ⟨Assembly.pending_put encoding assembly piece,
      Assembly.contents_put encoding assembly piece⟩
  | .closingTag id tag, hfree, _, _, _ => by simp [Directive.tagFree] at hfree
  | .warning w, _, _, _, _ => ⟨rfl, rfl⟩
/-- Running a script without closing tags puts in the pieces of its steps, encoded. -/
theorem Script.contents_run_encoded :
    ∀ (script : Script) (_ : Script.tagFree script = true) (assembly : Assembly ω)
      (path : List Nat) (_ : assembly.Tidy path),
      (Script.run (Assembly.sink encoding) script assembly).pending = assembly.pending ∧
        (Script.run (Assembly.sink encoding) script assembly).contents =
          assembly.contents.placeAll (Script.encoded encoding script)
  | [], _, _, _, _ => ⟨rfl, rfl⟩
  | step :: rest, hfree, assembly, path, h => by
    rw [Script.tagFree, Bool.and_eq_true] at hfree
    obtain ⟨hstep, hcontents⟩ := Directive.contents_run_encoded step hfree.1 assembly path h
    obtain ⟨path', hafter⟩ := Directive.tidy_run (α := α) step assembly path h
    obtain ⟨hrest, hall⟩ := Script.contents_run_encoded rest hfree.2 _ path' hafter
    refine ⟨hrest.trans hstep, ?_⟩
    rw [Script.encoded, Contents.placeAll_append, ← hcontents]
    exact hall
end

end Encoded

/-! ## With an encoding that keeps pieces -/

section Kept

variable {encoding : Encoding Widget α}

mutual
theorem Directive.encoded_of_keeps (keeps : encoding.Keeps) :
    ∀ step : Directive, step.encoded encoding = step.pieces
  | .frame kind name body => by
    rw [Directive.encoded, Directive.pieces, keeps.closed, Script.encoded_of_keeps keeps body]
  | .leaf piece => by
    rw [Directive.encoded, Directive.pieces, keeps.leaf]
    rfl
  | .closingTag _ _ => rfl
  | .warning _ => rfl
/-- An encoding that keeps pieces leaves those of a script as they are. -/
theorem Script.encoded_of_keeps (keeps : encoding.Keeps) :
    ∀ script : Script, Script.encoded encoding script = Script.pieces script
  | [] => rfl
  | step :: rest => by
    rw [Script.encoded, Script.pieces, Directive.encoded_of_keeps keeps step,
      Script.encoded_of_keeps keeps rest]
end

theorem Directive.contents_run (keeps : encoding.Keeps) (step : Directive)
    (hfree : step.tagFree = true) (assembly : Assembly Widget) (path : List Nat)
    (h : assembly.Tidy path) :
    (step.run (Assembly.sink encoding) assembly).pending = assembly.pending ∧
      (step.run (Assembly.sink encoding) assembly).contents =
        assembly.contents.placeAll step.pieces := by
  rw [← step.encoded_of_keeps keeps]
  exact step.contents_run_encoded encoding hfree assembly path h

/-- Running a script without closing tags puts in the pieces of its steps. -/
theorem Script.contents_run (keeps : encoding.Keeps) (script : Script)
    (hfree : Script.tagFree script = true) (assembly : Assembly Widget) (path : List Nat)
    (h : assembly.Tidy path) :
    (Script.run (Assembly.sink encoding) script assembly).pending = assembly.pending ∧
      (Script.run (Assembly.sink encoding) script assembly).contents =
        assembly.contents.placeAll (Script.pieces script) := by
  rw [← Script.encoded_of_keeps keeps]
  exact Script.contents_run_encoded encoding script hfree assembly path h

end Kept

end Stencil
