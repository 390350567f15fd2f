import Stencil.Host.Render
import Stencil.Proofs.Assembly.Kept

/-!
# What a rendering logs

What has been logged stays, however frames are opened and closed afterwards.  So a rendering
raises all warnings that its script raises, and it is cut off just where a piece that the script
puts in is, or the output as a whole.

* `Script.mem_warnings_run` — the warnings of a script are among those of its run.
* `Script.endless_run` — a run is cut off where one of its pieces is.
* `Host.warnings_subset_render`, `Host.endless_render` — the same for renderings.
-/

namespace Stencil

variable {ω α : Type}

/-! ## Single moves -/

/-- A log after which only warnings have been raised. -/
def Log.ContinuedBy (before after : Log) : Prop := ∃ raised, after = before ++ ⟨raised, false⟩

namespace Log.ContinuedBy

variable {before after : Log}

theorem refl (log : Log) : log.ContinuedBy log := ⟨[], (Log.append_empty log).symm⟩

theorem warn (log : Log) (warning : Warning) : log.ContinuedBy (log.warn warning) :=
  ⟨[warning], by rw [Log.append_def, Bool.or_false]; rfl⟩

theorem warnings_subset (h : before.ContinuedBy after) : before.warnings ⊆ after.warnings := by
  obtain ⟨raised, rfl⟩ := h
  exact List.subset_append_left _ _

theorem endless_eq (h : before.ContinuedBy after) : after.endless = before.endless := by
  obtain ⟨raised, rfl⟩ := h
  exact Bool.or_false _

end Log.ContinuedBy

namespace Assembly

theorem log_place (assembly : Assembly ω) (piece : Piece ω) :
    assembly.log.ContinuedBy (assembly.place piece).log := by
  cases piece with
  | attr attr =>
    simp only [place, placeAttribute]
    split
    · split
      · exact .refl _
      · exact .warn _ _
    · exact .warn _ _
  | _ =>
    simp only [place, placeChild]
    split <;> exact .refl _

theorem log_claimIndex (assembly : Assembly ω) : assembly.claimIndex.log = assembly.log := by
  unfold claimIndex
  split <;> rfl

/-- Putting in a piece adds what its encoding logs. -/
theorem log_put (encoding : Encoding ω α) (assembly : Assembly ω) (piece : Piece Widget) :
    (assembly.log ++ (encoding.leaf piece).log).ContinuedBy (assembly.put encoding piece).log := by
  rw [← log_claimIndex assembly]
  exact log_place _ _

theorem log_pop (encoding : Encoding ω α) (assembly : Assembly ω) :
    assembly.log.ContinuedBy (assembly.pop encoding).log := by
  unfold pop
  split
  · exact log_place _ _
  · exact .refl _

theorem log_forget (assembly : Assembly ω) (request : Closing) :
    (assembly.forget request).log = assembly.log := by
  unfold forget
  split <;> rfl

/-! ## What stays in the log -/

/-- A warning that has been raised stays raised. -/
theorem kept_warning (encoding : Encoding ω α) (warning : Warning) :
    Kept encoding (fun _ => True) (warning ∈ ·.log.warnings) where
  put := fun assembly piece _ hmem =>
    (log_put encoding assembly piece).warnings_subset (List.mem_append_left _ hmem)
  openFrame := by
    intro assembly kind name hmem
    rw [← log_claimIndex] at hmem
    exact hmem
  pop := fun assembly hmem => (log_pop encoding assembly).warnings_subset hmem
  remember := fun _ _ hmem => hmem
  forget := by
    intro assembly request hmem
    rw [log_forget]
    exact hmem
  warn := fun _ _ _ hmem => List.mem_append_left _ hmem

/-- Nothing but a piece that is cut off has a run cut off. -/
theorem kept_endless (encoding : Encoding ω α) (endless : Bool) :
    Kept encoding (fun piece => (encoding.leaf piece).log.endless = false)
      (·.log.endless = endless) where
  put := by
    intro assembly piece hpiece h
    rw [(log_put encoding assembly piece).endless_eq, Log.append_def, hpiece, Bool.or_false]
    exact h
  openFrame := by
    intro assembly kind name h
    rw [← log_claimIndex] at h
    exact h
  pop := fun assembly h => (log_pop encoding assembly).endless_eq.trans h
  remember := fun _ _ h => h
  forget := by
    intro assembly request h
    rw [log_forget]
    exact h
  warn := fun _ _ _ h => h

theorem endless_closeFrame (encoding : Encoding ω α) (assembly : Assembly ω) (request : Closing) :
    (assembly.closeFrame encoding request).log.endless = assembly.log.endless :=
  (kept_endless encoding assembly.log.endless).closeFrame rfl request

end Assembly

/-! ## Runs -/

section Runs

variable (encoding : Encoding ω α)

mutual
theorem Directive.mem_warnings_run {warning : Warning} :
    ∀ (step : Directive) (_ : warning ∈ step.warnings) (assembly : Assembly ω),
      warning ∈ (step.run (Assembly.sink encoding) assembly).log.warnings
  | .frame kind name body, hmem, assembly =>
    (Assembly.kept_warning encoding warning).closeFrame
      (Script.mem_warnings_run body hmem (assembly.openFrame kind name).2) _
  | .warning _, hmem, _ => List.mem_append_right _ hmem
/-- The warnings that a script raises are among those of its run. -/
theorem Script.mem_warnings_run {warning : Warning} :
    ∀ (script : Script) (_ : warning ∈ Script.warnings script) (assembly : Assembly ω),
      warning ∈ (Script.run (Assembly.sink encoding) script assembly).log.warnings
  | step :: rest, hmem, assembly => by
    rcases List.mem_append.mp hmem with hstep | hrest
    · exact (Assembly.kept_warning encoding warning).run rest (fun _ _ => trivial) _
        (Directive.mem_warnings_run step hstep assembly)
    · exact Script.mem_warnings_run rest hrest _
end

mutual
theorem Directive.endless_run :
    ∀ (step : Directive) (assembly : Assembly ω),
      (step.run (Assembly.sink encoding) assembly).log.endless =
        (assembly.log.endless || step.leaves.any fun piece => (encoding.leaf piece).log.endless)
  | .frame kind name body, assembly => by
    have hopened : (assembly.openFrame kind name).2.log.endless = assembly.log.endless :=
      congrArg Log.endless (Assembly.log_claimIndex assembly)
    rw [← hopened]
    exact (Assembly.endless_closeFrame encoding _ _).trans
      (Script.endless_run body (assembly.openFrame kind name).2)
  | .leaf piece, assembly => by
    have hput := (Assembly.log_put encoding assembly piece).endless_eq
    simp only [Directive.leaves, List.any_cons, List.any_nil, Bool.or_false]
    exact hput
  | .closingTag id tag, assembly =>
    (Assembly.endless_closeFrame encoding assembly _).trans (Bool.or_false _).symm
  | .warning _, _ => (Bool.or_false _).symm
/-- A run is cut off where one of the pieces is that it puts in. -/
theorem Script.endless_run :
    ∀ (script : Script) (assembly : Assembly ω),
      (Script.run (Assembly.sink encoding) script assembly).log.endless =
        (assembly.log.endless ||
          (Script.leaves script).any fun piece => (encoding.leaf piece).log.endless)
  | [], assembly => by
    rw [Script.leaves, List.any_nil, Bool.or_false]
    rfl
  | step :: rest, assembly => by
    rw [Script.run, Script.endless_run rest, Directive.endless_run step, Script.leaves,
      List.any_append, Bool.or_assoc]
end

end Runs

/-! ## Renderings -/

namespace Host

variable (host : Host) (encoding : Encoding ω α) (template : Template) (graph : Graph)
  (data : Json)

/-- The warnings that the script of a graph raises are among those of its rendering. -/
theorem warnings_subset_render :
    Script.warnings (host.scriptOf template graph data) ⊆
      (host.render encoding template graph data).log.warnings := by
  intro warning hmem
  have hrun := Script.mem_warnings_run encoding _ hmem (.start template.config.startId)
  exact List.mem_append_left _ ((Assembly.kept_warning encoding warning).closeAll hrun)

/-- A rendering that is not cut off as a whole is cut off where one of its pieces is. -/
theorem endless_render
    (hfinish : ∀ pieces, (encoding.finish pieces).log.endless = false) :
    (host.render encoding template graph data).log.endless =
      (Script.leaves (host.scriptOf template graph data)).any fun piece =>
        (encoding.leaf piece).log.endless := by
  have hrun := Script.endless_run encoding (host.scriptOf template graph data)
    (.start template.config.startId)
  have hclosed := (Assembly.kept_endless encoding _).closeAll hrun
  refine (congrArg₂ (· || ·) hclosed (hfinish _)).trans ?_
  rw [Bool.or_false]
  rfl

end Host

end Stencil
