import Stencil.Host.Render
import Stencil.Proofs.Template.Attach
import Stencil.Proofs.Template.Expansion

/-!
# Names that come up within themselves

Attaching tells a partial that includes itself by its name alone: it leaves out a name that
comes up within itself.  Names are looked up in the partials of the body that they stand in,
though, so a name may come up within itself and mean another partial there, and attaching
leaves that out too.

* `Stop.Repeats`, `Stop.Shadows` — a name comes up within itself and leads to what is being
  expanded, or elsewhere.
* `Attachment.acyclic_attach_iff` — when attaching warns of no cycle.
* `Attachment.expands_attach` — where no partial includes itself, attaching expands all there
  is, in the only way, if no name is shadowed within itself, and warns of a cycle if one is.
-/

namespace Stencil

/-! ## Stops within themselves -/

namespace Stop

variable {attachment : Attachment} {stop : Stop}

/-- Whether a stop is at a name that is being expanded. -/
def recurs (stop : Stop) : Bool :=
  match stop.node with
  | .partialRef name _ => stop.names.contains name
  | _ => false

/-- A name comes up within itself and leads to what is being expanded. -/
def Repeats (attachment : Attachment) (stop : Stop) : Prop :=
  match stop.node with
  | .partialRef name _ => ∃ outer, (name, outer) ∈ stop.within ∧
      resolve name stop.partials attachment.registry = some outer
  | _ => False

/-- A name comes up within itself and leads to something else, or nowhere. -/
def Shadows (attachment : Attachment) (stop : Stop) : Prop :=
  match stop.node with
  | .partialRef name _ => ∃ outer, (name, outer) ∈ stop.within ∧
      resolve name stop.partials attachment.registry ≠ some outer
  | _ => False

theorem recurs_iff (attachment : Attachment) (stop : Stop) :
    stop.recurs = true ↔ stop.Repeats attachment ∨ stop.Shadows attachment := by
  obtain ⟨within, partials, node⟩ := stop
  cases node with
  | partialRef name fallback =>
    simp only [recurs, Repeats, Shadows, names, List.contains_iff_mem, List.mem_map]
    constructor
    · rintro ⟨⟨inner, outer⟩, hmem, rfl⟩
      by_cases hsame : resolve inner partials attachment.registry = some outer
      · exact .inl ⟨outer, hmem, hsame⟩
      · exact .inr ⟨outer, hmem, hsame⟩
    · rintro (⟨outer, hmem, -⟩ | ⟨outer, hmem, -⟩) <;> exact ⟨_, hmem, rfl⟩
  | _ => exact iff_of_false Bool.false_ne_true (not_or.mpr ⟨not_false, not_false⟩)

/-- The warning at a stop is about a cycle if a name comes up within itself there. -/
theorem acyclic_warning?_iff :
    Warning.Acyclic (stop.warning? attachment).toList ↔ stop.recurs = false := by
  obtain ⟨within, partials, node⟩ := stop
  cases node with
  | partialRef name fallback =>
    simp only [warning?, recurs]
    cases (names ⟨within, partials, .partialRef name fallback⟩).contains name with
    | true => exact iff_of_false (List.cons_ne_nil _ _) (Ne.symm Bool.false_ne_true)
    | false =>
      refine iff_of_true ?_ rfl
      cases resolve name partials attachment.registry <;> rfl
  | _ => exact iff_of_true rfl rfl

/-- Where no name comes up within itself, it makes no difference if those are left out. -/
theorem next_never (h : stop.recurs = false) :
    stop.next attachment Attachment.never = stop.next attachment Attachment.withinItself := by
  obtain ⟨within, partials, node⟩ := stop
  cases node with
  | partialRef name fallback =>
    have hnew : Attachment.withinItself
        (names ⟨within, partials, .partialRef name fallback⟩) name = false := h
    simp only [next, hnew, Attachment.never, Bool.false_eq_true, if_false]
  | _ => rfl

theorem next_subset (attachment : Attachment) (stop : Stop) :
    stop.next attachment Attachment.withinItself ⊆ stop.next attachment Attachment.never := by
  cases h : stop.recurs with
  | false =>
    rw [next_never h]
    exact List.Subset.refl _
  | true =>
    obtain ⟨within, partials, node⟩ := stop
    cases node with
    | partialRef name fallback =>
      have hold : Attachment.withinItself
          (names ⟨within, partials, .partialRef name fallback⟩) name = true := h
      simp only [next, hold, if_true]
      exact List.nil_subset _
    | _ => cases h

end Stop

/-! ## Ways without repetition -/

namespace Attachment

variable {attachment : Attachment} {stops trail : List Stop} {stop : Stop} {after : Graph}

theorem Meets.uncut (h : attachment.Meets withinItself stops stop) :
    attachment.Meets never stops stop := by
  induction h with
  | start hmem => exact .start hmem
  | @step stop later _ hnext ih => exact .step ih (stop.next_subset attachment hnext)

/-- No name comes up within itself on the way through stops if none does on the way on which
nothing is left out: up to the first such name the two are one. -/
theorem forall_meets_iff :
    (∀ stop, attachment.Meets withinItself stops stop → stop.recurs = false) ↔
      ∀ stop, attachment.Meets never stops stop → stop.recurs = false := by
  refine ⟨fun hnew stop hstop => hnew stop ?_, fun hnew stop hstop => hnew stop hstop.uncut⟩
  induction hstop with
  | start hmem => exact .start hmem
  | @step stop later _ hnext ih =>
    rw [Stop.next_never (hnew stop ih)] at hnext
    exact .step ih hnext

theorem Expands.uncut (h : attachment.Expands withinItself stops after trail)
    (hnew : ∀ stop ∈ trail, stop.recurs = false) : attachment.Expands never stops after trail := by
  induction h with
  | nil => exact .nil
  | @cons stop rest inner later inside after _ _ ihnext ihrest =>
    obtain ⟨hstop, hothers⟩ := List.forall_mem_cons.mp hnew
    obtain ⟨hinner, hlater⟩ := List.forall_mem_append.mp hothers
    have hnext := ihnext hinner
    rw [← Stop.next_never hstop] at hnext
    exact .cons hnext (ihrest hlater)

/-- The warnings at stops are about no cycle if no name comes up within itself at them. -/
theorem acyclic_filterMap_iff :
    Warning.Acyclic (trail.filterMap (Stop.warning? attachment)) ↔
      ∀ stop ∈ trail, stop.recurs = false := by
  induction trail with
  | nil => exact ⟨fun _ _ hstop => absurd hstop List.not_mem_nil, fun _ => rfl⟩
  | cons stop rest ih =>
    rw [Stop.filterMap_warning?_cons, Warning.acyclic_append, Stop.acyclic_warning?_iff, ih,
      List.forall_mem_cons]

/-! ## When attaching warns of a cycle -/

/-- A partial is come to while it is being expanded. -/
def Reenters (attachment : Attachment) (body : PartialBody) : Prop :=
  ∃ stop, attachment.Meets never body.stops stop ∧ stop.Repeats attachment

/-- A name comes up within itself, but means something else there. -/
def ShadowsWithin (attachment : Attachment) (body : PartialBody) : Prop :=
  ∃ stop, attachment.Meets never body.stops stop ∧ stop.Shadows attachment

theorem reenters_or_shadowsWithin_iff {body : PartialBody} :
    (attachment.Reenters body ∨ attachment.ShadowsWithin body) ↔
      ∃ stop, attachment.Meets never body.stops stop ∧ stop.recurs = true := by
  simp only [Reenters, ShadowsWithin, Stop.recurs_iff attachment, and_or_left, exists_or]

/-- Attaching warns of no cycle if no partial includes itself and no name is shadowed within
itself, and then it leaves nothing out. -/
theorem acyclic_attach_iff (attachment : Attachment) (body : PartialBody) :
    (Warning.Acyclic (attachment.attach body).log.warnings ↔
      ¬ attachment.Reenters body ∧ ¬ attachment.ShadowsWithin body) ∧
    (Warning.Acyclic (attachment.attach body).log.warnings →
      ∃ trail, attachment.Expands never body.stops (attachment.attach body).value trail) := by
  obtain ⟨trail, hexpands, hwarnings⟩ := attachment.accounts_attach body
  rw [hwarnings, acyclic_filterMap_iff]
  refine ⟨?_, fun hnew => ⟨trail, hexpands.uncut hnew⟩⟩
  rw [← not_or, reenters_or_shadowsWithin_iff]
  simp only [hexpands.mem_trail_iff, forall_meets_iff, not_exists, not_and, Bool.not_eq_true]

/-- Where no partial includes itself, attaching warns of a cycle exactly if some name is
shadowed within itself; if none is, it expands every partial that it comes to, and there is no
other way to expand them all. -/
theorem expands_attach {attachment : Attachment} {body : PartialBody}
    (h : ¬ attachment.Reenters body) :
    (Warning.Acyclic (attachment.attach body).log.warnings ↔
      ¬ attachment.ShadowsWithin body) ∧
    (¬ attachment.ShadowsWithin body →
      ∃ trail, attachment.Expands never body.stops (attachment.attach body).value trail ∧
        ∀ after trail', attachment.Expands never body.stops after trail' →
          after = (attachment.attach body).value ∧ trail' = trail) := by
  obtain ⟨hacyclic, hexpands⟩ := attachment.acyclic_attach_iff body
  rw [and_iff_right h] at hacyclic
  refine ⟨hacyclic, fun hnone => ?_⟩
  obtain ⟨trail, htrail⟩ := hexpands (hacyclic.mpr hnone)
  exact ⟨trail, htrail, fun after trail' hother => hother.unique htrail⟩

/-- What a graph is attached with if there are no children and no partials that are shared. -/
def bare : Attachment := ⟨⟨"Child", 0⟩, [], .injected, [], {}⟩

/-- A row with a cell of its own, next to another cell. -/
def cellBody : PartialBody :=
  ⟨[.partialRef "row" [], .partialRef "cell" []],
    [⟨"row", [.text "-", .partialRef "cell" []], [⟨"cell", [.text "own"], []⟩]⟩,
      ⟨"cell", [.text "other"], []⟩]⟩

/-- The two cells do not come up within one another, and each is expanded to what it means, and
to nothing else. -/
theorem expands_attach_cell :
    ¬ bare.Reenters cellBody ∧ ¬ bare.ShadowsWithin cellBody ∧
      Warning.Acyclic (bare.attach cellBody).log.warnings ∧
      ∃ trail, bare.Expands never cellBody.stops [.text "-", .text "own", .text "other"] trail ∧
        ∀ after trail', bare.Expands never cellBody.stops after trail' →
          after = [.text "-", .text "own", .text "other"] ∧ trail' = trail := by
  have hcalm : ¬ bare.Reenters cellBody ∧ ¬ bare.ShadowsWithin cellBody :=
    (bare.acyclic_attach_iff cellBody).1.mp (by decide +kernel)
  obtain ⟨hacyclic, hexpands⟩ := expands_attach hcalm.1
  exact ⟨hcalm.1, hcalm.2, hacyclic.mpr hcalm.2, hexpands hcalm.2⟩

/-- A note that holds another note of its own. -/
def noteBody : PartialBody :=
  ⟨[.partialRef "note" []],
    [⟨"note", [.partialRef "note" []], [⟨"note", [.text "x"], []⟩]⟩]⟩

/-- The inner note is not the outer one, and following both leads to a text, which is what is
rendered; but attaching warns that the note includes itself, and leaves the inner one out. -/
theorem cycle_noteBody :
    ¬ bare.Reenters noteBody ∧
      (∃ trail, bare.Expands never noteBody.stops [.text "x"] trail) ∧
      (Host.empty.html (.ofGraph noteBody.graph noteBody.partials .injected {}) .null).value =
        "x" ∧
      (bare.attach noteBody).value = [] ∧
      (bare.attach noteBody).log.warnings = [⟨.partialCycle, "partial cycle: note -> note"⟩] := by
  have hexpands : bare.Expands never noteBody.stops _ _ :=
    .cons (.cons (.cons .nil .nil) .nil) .nil
  refine ⟨?_, ⟨_, hexpands⟩, by decide +kernel, rfl, by decide +kernel⟩
  rintro ⟨stop, hstop, hrepeats⟩
  have hmem := hexpands.mem_trail_iff.mpr hstop
  rcases List.mem_cons.mp hmem with rfl | hmem
  · obtain ⟨outer, houter, -⟩ := hrepeats
    cases houter
  · rcases List.mem_cons.mp hmem with rfl | hmem
    · -- What is being expanded here is the outer note, and the name leads to the inner one.
      obtain ⟨outer, houter, hresolve⟩ := hrepeats
      cases List.mem_singleton.mp houter
      cases hresolve
    · cases List.mem_singleton.mp hmem
      exact hrepeats

end Attachment

end Stencil
