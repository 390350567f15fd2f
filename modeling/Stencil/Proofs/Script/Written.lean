import Stencil.Proofs.Dom.Bare
import Stencil.Proofs.Script.Balance
import Stencil.Proofs.Script.Placed

/-!
# Well-placed scripts are written the same both ways

Outside of attribute values a script may do anything but put in widgets, so closing tags may
close frames in any order.  No attribute is open then, and no void element, as both are closed
before the next tag can come.  So markup is written just as a tree grows, and the tree holds
nothing that its markup and the fragment made from it differ on.

* `Script.alike_run` — a well-placed script leaves a tree and markup alike.
* `Script.bare_run` — it puts nothing into void elements, and no widget anywhere.
* `Script.output_written` — the markup that comes out is that of the fragment.
-/

namespace Stencil

/-! ## Markup and trees -/

/-- If no attribute is open before a script, none is open after it. -/
theorem Assembly.Tidy.outside_run {ω α : Type} {assembly : Assembly ω} {path : List Nat}
    (h : assembly.Tidy path) (encoding : Encoding ω α) (script : Script)
    (houtside : Frame.withinAttribute assembly.stack = false) :
    Frame.withinAttribute (Script.run (Assembly.sink encoding) script assembly).stack =
      false := by
  have hprefix := (h.openFrames_run encoding script).subset
  rw [Frame.withinAttribute, List.any_eq_false] at houtside ⊢
  intro frame hframe
  have hopen : frame.closing ∈ assembly.openFrames :=
    hprefix (List.mem_reverse.mpr (List.mem_map_of_mem hframe))
  obtain ⟨before, hbefore, hsame⟩ := List.mem_map.mp (List.mem_reverse.mp hopen)
  have hkind : before.kind = frame.kind := congrArg Closing.kind hsame
  rw [← hkind]
  exact houtside before hbefore

section Alike

variable {voids : List String} {hole : Widget → String} (render : Widget → Logged String)

/-- A frame is closed by the same request in both. -/
theorem Directive.alike_frame {grown : Assembly Widget} {written : Assembly Empty}
    {kind : FrameKind} {name : String} {body : Script}
    (hrequest : (grown.openFrame kind name).1 = (written.openFrame kind name).1)
    (hbody : (Script.run (Assembly.sink .tree) body (grown.openFrame kind name).2).Alike
      voids hole (Script.run (Assembly.sink (.markup voids render)) body
        (written.openFrame kind name).2)) :
    (Directive.run (Assembly.sink .tree) (.frame kind name body) grown).Alike voids hole
      (Directive.run (Assembly.sink (.markup voids render)) (.frame kind name body) written) := by
  have hclosed := hbody.closeFrame render (grown.openFrame kind name).1
  rw [hrequest] at hclosed
  simp only [Directive.run]
  exact hrequest ▸ hclosed

mutual
theorem Directive.alike_value :
    ∀ (step : Directive) (_ : step.isValue = true) (grown : Assembly Widget)
      (written : Assembly Empty) (_ : grown.Alike voids hole written),
      (step.run (Assembly.sink .tree) grown).Alike voids hole
        (step.run (Assembly.sink (.markup voids render)) written)
  | .frame kind name body, hvalue, grown, written, h => by
    rw [Directive.isValue, Bool.and_eq_true] at hvalue
    have hkind : kind = .ofSection ∨ kind = .ofPartial := by simpa using hvalue.1
    obtain ⟨hrequest, hopened⟩ := h.openFrame kind name fun _ => hkind
    have hbody := Script.alike_value body hvalue.2 _ _ hopened
    exact Directive.alike_frame render hrequest hbody
  | .leaf piece, hvalue, _, _, h => by
    have hfree : piece.widgetFree = true := by
      cases piece with
      | text _ => rfl
      | raw _ => rfl
      | _ => cases hvalue
    exact h.put render piece hfree fun _ => hvalue
  | .warning w, _, _, _, h => h.warn w.kind w.message
/-- Parts of an attribute value go in alike, whether the attribute is still open or not. -/
theorem Script.alike_value :
    ∀ (script : Script) (_ : Script.isValue script = true) (grown : Assembly Widget)
      (written : Assembly Empty) (_ : grown.Alike voids hole written),
      (Script.run (Assembly.sink .tree) script grown).Alike voids hole
        (Script.run (Assembly.sink (.markup voids render)) script written)
  | [], _, _, _, h => h
  | step :: rest, hvalue, grown, written, h => by
    rw [Script.isValue, Bool.and_eq_true] at hvalue
    exact Script.alike_value rest hvalue.2 _ _
      (Directive.alike_value step hvalue.1 grown written h)
end

mutual
theorem Directive.alike_run :
    ∀ (step : Directive) (_ : step.isPlaced voids = true) (grown : Assembly Widget)
      (written : Assembly Empty) (path : List Nat) (_ : grown.Tidy path)
      (_ : Frame.withinAttribute grown.stack = false) (_ : grown.Alike voids hole written),
      (step.run (Assembly.sink .tree) grown).Alike voids hole
        (step.run (Assembly.sink (.markup voids render)) written)
  | .frame kind name body, hplaced, grown, written, path, htidy, houtside, h => by
    obtain ⟨hrequest, hopened⟩ := h.openFrame kind name (by simp [houtside])
    have hbody : (Script.run (Assembly.sink .tree) body (grown.openFrame kind name).2).Alike
        voids hole (Script.run (Assembly.sink (.markup voids render)) body
          (written.openFrame kind name).2) := by
      -- Within the attribute there are no tags, and in all else no attribute is open.
      have hother : kind ≠ .ofAttribute → Script.isPlaced voids body = true →
          (Script.run (Assembly.sink .tree) body (grown.openFrame kind name).2).Alike
            voids hole (Script.run (Assembly.sink (.markup voids render)) body
              (written.openFrame kind name).2) := by
        intro hkind hbody
        refine Script.alike_run body hbody _ _ _ (htidy.openFrame kind name) ?_ hopened
        have hinner : Frame.withinAttribute (grown.openFrame kind name).2.stack =
            Frame.withinAttribute grown.claimIndex.stack := Frame.withinAttribute_cons hkind _
        rw [hinner, Assembly.withinAttribute_claimIndex, houtside]
      cases kind with
      | ofAttribute => exact Script.alike_value render body hplaced _ _ hopened
      | ofElement =>
        rw [Directive.isPlaced, Bool.and_eq_true] at hplaced
        exact hother (by decide) hplaced.2
      | ofSection => exact hother (by decide) hplaced
      | ofPartial => exact hother (by decide) hplaced
    exact Directive.alike_frame render hrequest hbody
  | .leaf piece, hplaced, _, _, _, _, houtside, h => by
    have hfree : piece.widgetFree = true := by
      cases piece with
      | text _ => rfl
      | raw _ => rfl
      | comment _ => rfl
      | _ => cases hplaced
    exact h.put render piece hfree (by simp [houtside])
  | .closingTag id tag, _, _, _, _, _, _, h => h.closeFrame render (.ofTag id tag)
  | .warning w, _, _, _, _, _, _, h => h.warn w.kind w.message
/-- A well-placed script that starts outside of attributes leaves a tree and markup alike. -/
theorem Script.alike_run :
    ∀ (script : Script) (_ : Script.isPlaced voids script = true) (grown : Assembly Widget)
      (written : Assembly Empty) (path : List Nat) (_ : grown.Tidy path)
      (_ : Frame.withinAttribute grown.stack = false) (_ : grown.Alike voids hole written),
      (Script.run (Assembly.sink .tree) script grown).Alike voids hole
        (Script.run (Assembly.sink (.markup voids render)) script written)
  | [], _, _, _, _, _, _, h => h
  | step :: rest, hplaced, grown, written, path, htidy, houtside, h => by
    rw [Script.isPlaced, Bool.and_eq_true] at hplaced
    have hstep := Directive.alike_run step hplaced.1 grown written path htidy houtside h
    obtain ⟨path', hafter⟩ := Script.tidy_run [step] grown path htidy
    exact Script.alike_run rest hplaced.2 _ _ path' hafter
      (htidy.outside_run .tree [step] houtside) hstep
end

end Alike

/-! ## Bare contents -/

variable {voids : List String}

/-- A frame that is no void element, and holds bare pieces. -/
structure Frame.IsBare (voids : List String) (frame : Frame Widget) : Prop where
  tag : frame.kind = .ofElement → isVoidTag voids frame.name = false
  children : ∀ piece ∈ frame.children, piece.isBare voids = true

/-- All pieces are bare, and no void element is open. -/
structure Contents.IsBare (voids : List String) (contents : Contents Widget) : Prop where
  stack : ∀ frame ∈ contents.stack, frame.IsBare voids
  results : ∀ piece ∈ contents.results, piece.isBare voids = true

theorem Frame.IsBare.piece {frame : Frame Widget} (h : frame.IsBare voids) :
    frame.piece.isBare voids = true := by
  have hchildren : Piece.areBare voids frame.children.reverse = true :=
    Piece.areBare_iff.mpr fun piece hpiece => h.children piece (List.mem_reverse.mp hpiece)
  unfold Frame.piece
  cases hkind : frame.kind with
  | ofElement =>
    refine Piece.isBare_element hchildren fun hvoid => ?_
    rw [h.tag hkind] at hvoid
    cases hvoid
  | ofAttribute => rfl
  | ofSection => exact Piece.isBare_block .ofSection hchildren
  | ofPartial => exact Piece.isBare_block (.ofPartial frame.name) hchildren

theorem Frame.IsBare.receive {frame : Frame Widget} (h : frame.IsBare voids)
    {piece : Piece Widget} (hpiece : piece.isBare voids = true) :
    (frame.receive piece).IsBare voids := by
  cases piece with
  | attr attr =>
    rw [Frame.receive]
    split
    · exact ⟨h.tag, h.children⟩
    · exact h
  | _ => exact ⟨h.tag, Piece.areBare_pushJoined h.children hpiece⟩

namespace Contents.IsBare

variable {contents : Contents Widget} {piece : Piece Widget}

theorem place (h : contents.IsBare voids) (hpiece : piece.isBare voids = true) :
    (contents.place piece).IsBare voids := by
  obtain ⟨stack, results⟩ := contents
  cases stack with
  | nil =>
    cases piece with
    | attr attr => exact h
    | _ => exact ⟨h.stack, Piece.areBare_pushJoined h.results hpiece⟩
  | cons frame outer =>
    refine ⟨?_, h.results⟩
    intro other hother
    rcases List.mem_cons.mp hother with rfl | houter
    · exact (h.stack frame List.mem_cons_self).receive hpiece
    · exact h.stack other (List.mem_cons_of_mem _ houter)

theorem pop (h : contents.IsBare voids) : (contents.pop .tree).IsBare voids := by
  obtain ⟨stack, results⟩ := contents
  cases stack with
  | nil => exact h
  | cons frame outer =>
    have hrest : IsBare voids ⟨outer, results⟩ :=
      ⟨fun other hother => h.stack other (List.mem_cons_of_mem _ hother), h.results⟩
    exact hrest.place (h.stack frame List.mem_cons_self).piece

theorem iterate_pop (h : contents.IsBare voids) (count : Nat) :
    ((Contents.pop .tree)^[count] contents).IsBare voids := by
  induction count generalizing contents with
  | zero => exact h
  | succ count ih => exact ih h.pop

end Contents.IsBare

/-- A close of any kind keeps what an assembly holds bare. -/
theorem Assembly.Tidy.bare_closeFrame {assembly : Assembly Widget} {path : List Nat}
    (h : assembly.Tidy path) (hbare : assembly.contents.IsBare voids) (request : Closing) :
    (assembly.closeFrame .tree request).contents.IsBare voids := by
  have heffect := h.closeFrame_effect .tree request
  generalize assembly.closeFrame .tree request = after at heffect
  cases heffect with
  | closed count _ hcloses =>
    rw [hcloses.contents]
    exact hbare.iterate_pop count
  | @paragraph emptied _ hcloses =>
    have hemptied : emptied.contents.IsBare voids := by
      rw [hcloses.contents]
      exact hbare.iterate_pop assembly.depth
    -- The paragraph holds nothing, so it may even be void.
    rw [contents_pop_eq, contents_openFrame]
    exact hemptied.place rfl

/-! ## Bare scripts -/

/-- A step that makes an attribute puts in just that. -/
theorem Directive.pieces_of_isAttribute (step : Directive) (h : step.isAttribute = true) :
    step.tagFree = true ∧ ∃ attr, step.pieces = [.attr attr] := by
  unfold isAttribute at h
  split at h
  · exact ⟨Script.tagFree_of_isValue _ h, _, rfl⟩
  · cases h

/-- So steps that make attributes put in no children. -/
theorem Script.joined_of_isAttribute {script : Script}
    (h : script.all Directive.isAttribute = true) :
    Script.tagFree script = true ∧ Piece.joined (Script.pieces script) = [] := by
  have hpieces : Script.tagFree script = true ∧ Piece.children (Script.pieces script) = [] := by
    induction script with
    | nil => exact ⟨rfl, rfl⟩
    | cons step rest ih =>
      rw [List.all_cons, Bool.and_eq_true] at h
      obtain ⟨hfree, attr, hstep⟩ := Directive.pieces_of_isAttribute step h.1
      obtain ⟨hrest, hnothing⟩ := ih h.2
      refine ⟨by rw [tagFree, hfree, hrest, Bool.and_self], ?_⟩
      rw [Script.pieces, hstep]
      exact hnothing
  refine ⟨hpieces.1, ?_⟩
  rw [Piece.joined, hpieces.2]
  rfl

/-- A frame without closing tags puts in one piece, which may be a void element. -/
theorem Directive.bare_run_tagFree (step : Directive) (hfree : step.tagFree = true)
    {piece : Piece Widget} (hpieces : step.pieces = [piece])
    (hpiece : piece.isBare voids = true) {assembly : Assembly Widget} {path : List Nat}
    (h : assembly.Tidy path) (hbare : assembly.contents.IsBare voids) :
    (step.run (Assembly.sink .tree) assembly).contents.IsBare voids := by
  obtain ⟨-, hcontents⟩ := Directive.contents_run Encoding.keeps_tree step hfree assembly path h
  rw [hcontents, hpieces]
  exact hbare.place hpiece

mutual
theorem Directive.bare_run :
    ∀ (step : Directive) (_ : step.isPlaced voids = true) (assembly : Assembly Widget)
      (path : List Nat) (_ : assembly.Tidy path) (_ : assembly.contents.IsBare voids),
      (step.run (Assembly.sink .tree) assembly).contents.IsBare voids
  | .frame kind name body, hplaced, assembly, path, h, hbare => by
    have hother : (kind = .ofElement → isVoidTag voids name = false) →
        Script.isPlaced voids body = true →
          (Directive.run (Assembly.sink .tree) (.frame kind name body)
            assembly).contents.IsBare voids := by
      intro htag hbody
      have hopened : (assembly.openFrame kind name).2.contents.IsBare voids := by
        rw [Assembly.contents_openFrame]
        refine ⟨?_, hbare.results⟩
        intro frame hframe
        rcases List.mem_cons.mp hframe with rfl | houter
        · exact ⟨htag, by simp [Frame.fresh]⟩
        · exact hbare.stack frame houter
      have hfilled := Script.bare_run body hbody _ _ (h.openFrame kind name) hopened
      obtain ⟨path', hinner⟩ := Script.tidy_run body _ _ (h.openFrame kind name)
      exact hinner.bare_closeFrame hfilled (assembly.openFrame kind name).1
    cases kind with
    | ofAttribute =>
      obtain ⟨hfree, attr, hpieces⟩ :=
        Directive.pieces_of_isAttribute (.frame .ofAttribute name body) hplaced
      exact Directive.bare_run_tagFree _ hfree hpieces rfl h hbare
    | ofElement =>
      rw [Directive.isPlaced, Bool.and_eq_true, Bool.or_eq_true, Bool.not_eq_true'] at hplaced
      rcases hplaced.1 with htag | hattributes
      · exact hother (fun _ => htag) hplaced.2
      · obtain ⟨hfree, hnothing⟩ := Script.joined_of_isAttribute hattributes
        refine Directive.bare_run_tagFree (.frame .ofElement name body) hfree rfl ?_ h hbare
        rw [Piece.ofFrame, hnothing]
        rfl
    | ofSection => exact hother (by simp) hplaced
    | ofPartial => exact hother (by simp) hplaced
  | .leaf piece, hplaced, assembly, _, _, hbare => by
    have hpiece : piece.isBare voids = true := by
      cases piece with
      | text _ => rfl
      | raw _ => rfl
      | comment _ => rfl
      | _ => cases hplaced
    have hput := Assembly.contents_put .tree assembly piece
    exact hput ▸ hbare.place hpiece
  | .closingTag id tag, _, _, _, h, hbare => h.bare_closeFrame hbare (.ofTag id tag)
  | .warning _, _, _, _, _, hbare => hbare
/-- A well-placed script puts nothing into void elements, and no widget anywhere. -/
theorem Script.bare_run :
    ∀ (script : Script) (_ : Script.isPlaced voids script = true) (assembly : Assembly Widget)
      (path : List Nat) (_ : assembly.Tidy path) (_ : assembly.contents.IsBare voids),
      (Script.run (Assembly.sink .tree) script assembly).contents.IsBare voids
  | [], _, _, _, _, hbare => hbare
  | step :: rest, hplaced, assembly, path, h, hbare => by
    rw [Script.isPlaced, Bool.and_eq_true] at hplaced
    have hstep := Directive.bare_run step hplaced.1 assembly path h hbare
    obtain ⟨path', hafter⟩ := Script.tidy_run [step] assembly path h
    exact Script.bare_run rest hplaced.2 _ path' hafter hstep
end

/-! ## Output -/

/-- Bare contents come out as bare pieces. -/
theorem Assembly.Tidy.bare_output {assembly : Assembly Widget} {path : List Nat}
    (h : assembly.Tidy path) (hbare : assembly.contents.IsBare voids) :
    Piece.areBare voids (assembly.output .tree).1.pieces = true := by
  have hpieces : (assembly.output .tree).1.pieces = (assembly.closeAll .tree).results.reverse :=
    Tree.pieces_ofPieces _
  have hclosed : (assembly.closeAll .tree).contents.IsBare voids := by
    rw [(h.closeAll_closes .tree).contents]
    exact hbare.iterate_pop assembly.depth
  rw [hpieces, Piece.areBare_iff]
  exact fun piece hpiece => hclosed.results piece (List.mem_reverse.mp hpiece)

/-- The markup that a well-placed script makes is that of the fragment made from its tree. -/
theorem Script.output_written {script : Script} (hplaced : Script.isPlaced voids script = true)
    (render : Widget → Logged String) (nodes : Widget → List Dom.Node) (startId : String) :
    ((Script.run (Assembly.sink (.markup voids render)) script (.start startId)).output
        (.markup voids render)).1 =
      (Piece.shownAll voids nodes
        ((Script.run (Assembly.sink .tree) script
          (.start startId)).output .tree).1.pieces).html := by
  have hstart : (Assembly.start startId : Assembly Widget).Tidy [] := Assembly.tidy_start startId
  have hempty : (Assembly.start startId : Assembly Widget).contents.IsBare voids :=
    ⟨by simp [Assembly.contents, Assembly.start], by simp [Assembly.contents, Assembly.start]⟩
  have halike := Script.alike_run render script hplaced _ _ [] hstart rfl
    (Assembly.alike_start voids (fun _ => "") startId)
  obtain ⟨path, htidy⟩ := Script.tidy_run script _ [] hstart
  have hbare := htidy.bare_output (Script.bare_run script hplaced _ [] hstart hempty)
  rw [(halike.output render).1]
  exact Piece.markupAll_eq_shown _ nodes hbare

end Stencil
