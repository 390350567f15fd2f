import Mathlib.Data.List.Dedup
import Stencil.Proofs.Template.Expansion

/-!
# The names that are being expanded

Attaching can be done with one list of the names that are being expanded, shared by all that is
done: a name is put behind the others before the body of its partial is gone through, and the
last one is taken off afterwards.  Nothing counts levels here, and nothing says that this comes to
an end, or that the name taken off is the one put there.  Yet it always comes to an end, whatever
partials include one another, with what attaching makes.  All along no name stands in the list
twice, and after each node the list is what it was before.

* `Attachment.Progress` — the list, all that it has been, and the warnings so far.
* `Attachment.Runs` — attaching nodes one after the other, from one state to the next.
* `Attachment.Runs.restores`, `Attachment.Runs.hasDistinct` — what happens to the list.
* `Attachment.runs_attach` — there is one run only, and it makes what attaching makes.
-/

namespace Stencil

/-- Whether attaching leaves a node as it is, whatever it is done with. -/
def Node.isKept : Node → Bool
  | .element _ | .sectionBlock _ _ | .unlessBlock _ _ | .partialRef _ _ => false
  | _ => true

namespace Attachment

/-! ## Runs -/

/-- How far attaching has come. -/
structure Progress where
  /-- The names that are being expanded, outermost first. -/
  expanding : List String
  /-- All that these names have been, last ones first. -/
  past : List (List String)
  /-- The warnings, in the order they were raised. -/
  warnings : List Warning

namespace Progress

/-- Nothing has been done. -/
def start : Progress := ⟨[], [[]], []⟩

/-- Other names are being expanded. -/
def expand (progress : Progress) (names : List String) : Progress :=
  { progress with expanding := names, past := names :: progress.past }

/-- Put a name behind those that are being expanded. -/
def enter (progress : Progress) (name : String) : Progress :=
  progress.expand (progress.expanding ++ [name])

/-- Take off the last of the names that are being expanded. -/
def leave (progress : Progress) : Progress :=
  progress.expand progress.expanding.dropLast

/-- Raise a warning. -/
def warn (progress : Progress) (warning : Warning) : Progress :=
  { progress with warnings := progress.warnings ++ [warning] }

end Progress

/-- Attaching nodes one after the other makes a graph, on the way from one state to another. -/
inductive Runs (attachment : Attachment) :
    Partials → List Node → Progress → Graph → Progress → Prop
  | nil {partials : Partials} (progress : Progress) :
      Runs attachment partials [] progress [] progress
  | widget {partials : Partials} {el : Element} {child : ComponentId} {rest : List Node}
      {progress later : Progress} {after : Graph}
      (hchild : attachment.childFor? el = some child)
      (hrest : Runs attachment partials rest progress after later) :
      Runs attachment partials (.element el :: rest) progress
        (.widget (attachment.widgetFor partials child el) :: after) later
  | element {partials : Partials} {el : Element} {rest : List Node}
      {progress within later : Progress} {inside after : Graph}
      (hnone : attachment.childFor? el = none)
      (hinside : Runs attachment partials el.children progress inside within)
      (hrest : Runs attachment partials rest within after later) :
      Runs attachment partials (.element el :: rest) progress
        (.element { el with children := inside } :: after) later
  | sectionBlock {partials : Partials} {path : Path} {children rest : List Node}
      {progress within later : Progress} {inside after : Graph}
      (hinside : Runs attachment partials children progress inside within)
      (hrest : Runs attachment partials rest within after later) :
      Runs attachment partials (.sectionBlock path children :: rest) progress
        (.sectionBlock path inside :: after) later
  | unlessBlock {partials : Partials} {path : Path} {children rest : List Node}
      {progress within later : Progress} {inside after : Graph}
      (hinside : Runs attachment partials children progress inside within)
      (hrest : Runs attachment partials rest within after later) :
      Runs attachment partials (.unlessBlock path children :: rest) progress
        (.unlessBlock path inside :: after) later
  | cycle {partials : Partials} {name : String} {fallback rest : List Node}
      {progress later : Progress} {after : Graph}
      (hold : name ∈ progress.expanding)
      (hrest : Runs attachment partials rest
        (progress.warn (cycleWarning progress.expanding name)) after later) :
      Runs attachment partials (.partialRef name fallback :: rest) progress after later
  | expand {partials : Partials} {name : String} {fallback rest : List Node} {body : PartialBody}
      {progress within later : Progress} {inside after : Graph}
      (hnew : name ∉ progress.expanding)
      (hresolve : resolve name partials attachment.registry = some body)
      (hinside : Runs attachment body.partials body.graph (progress.enter name) inside within)
      (hrest : Runs attachment partials rest within.leave after later) :
      Runs attachment partials (.partialRef name fallback :: rest) progress (inside ++ after) later
  | fallback {partials : Partials} {name : String} {fallback rest : List Node}
      {progress within later : Progress} {inside after : Graph}
      (hnew : name ∉ progress.expanding)
      (hresolve : resolve name partials attachment.registry = none)
      (hinside : Runs attachment partials fallback (progress.warn (unresolvedWarning name))
        inside within)
      (hrest : Runs attachment partials rest within after later) :
      Runs attachment partials (.partialRef name fallback :: rest) progress (inside ++ after) later
  | kept {partials : Partials} {node : Node} {rest : List Node} {progress later : Progress}
      {after : Graph}
      (hkept : node.isKept = true)
      (hrest : Runs attachment partials rest progress after later) :
      Runs attachment partials (node :: rest) progress (node :: after) later

variable {attachment : Attachment} {partials : Partials} {nodes : List Node}
  {progress later : Progress} {after : Graph}

/-- After nodes the same names are being expanded as before. -/
theorem Runs.restores (h : attachment.Runs partials nodes progress after later) :
    later.expanding = progress.expanding := by
  induction h with
  | nil => rfl
  | widget _ _ ih | kept _ _ ih => exact ih
  | element _ _ _ ihinside ihrest => exact ihrest.trans ihinside
  | sectionBlock _ _ ihinside ihrest | unlessBlock _ _ ihinside ihrest =>
    exact ihrest.trans ihinside
  | cycle _ _ ih => exact ih
  | @expand _ name _ _ _ progress within _ _ _ _ _ _ _ ihinside ihrest =>
    -- What is taken off is the name that was put behind the others.
    calc _ = within.expanding.dropLast := ihrest
      _ = (progress.expanding ++ [name]).dropLast := congrArg List.dropLast ihinside
      _ = progress.expanding := List.dropLast_concat
  | fallback _ _ _ _ ihinside ihrest => exact ihrest.trans ihinside

/-- Attaching nodes is attaching the first of them, and then the others. -/
theorem Runs.uncons {node : Node} {rest : List Node}
    (h : attachment.Runs partials (node :: rest) progress after later) :
    ∃ made beyond between, attachment.Runs partials [node] progress made between ∧
      attachment.Runs partials rest between beyond later ∧ after = made ++ beyond := by
  cases h with
  | widget hchild hrest => exact ⟨_, _, _, .widget hchild (.nil _), hrest, rfl⟩
  | element hnone hinside hrest => exact ⟨_, _, _, .element hnone hinside (.nil _), hrest, rfl⟩
  | sectionBlock hinside hrest => exact ⟨_, _, _, .sectionBlock hinside (.nil _), hrest, rfl⟩
  | unlessBlock hinside hrest => exact ⟨_, _, _, .unlessBlock hinside (.nil _), hrest, rfl⟩
  | cycle hold hrest => exact ⟨_, _, _, .cycle hold (.nil _), hrest, rfl⟩
  | @expand _ _ _ _ _ _ _ _ inside _ hnew hresolve hinside hrest =>
    refine ⟨inside ++ [], _, _, .expand hnew hresolve hinside (.nil _), hrest, ?_⟩
    rw [List.append_nil]
  | @fallback _ _ _ _ _ _ _ inside _ hnew hresolve hinside hrest =>
    refine ⟨inside ++ [], _, _, .fallback hnew hresolve hinside (.nil _), hrest, ?_⟩
    rw [List.append_nil]
  | kept hkept hrest => exact ⟨_, _, _, .kept hkept (.nil _), hrest, rfl⟩

/-- There is one run only. -/
theorem Runs.deterministic {after' : Graph} {later' : Progress}
    (h : attachment.Runs partials nodes progress after later)
    (h' : attachment.Runs partials nodes progress after' later') :
    after = after' ∧ later = later' := by
  induction h generalizing after' later' with
  | nil =>
    cases h'
    exact ⟨rfl, rfl⟩
  | widget hchild _ ih =>
    cases h' with
    | widget hchild' hrest' =>
      obtain rfl := Option.some.inj (hchild.symm.trans hchild')
      obtain ⟨rfl, rfl⟩ := ih hrest'
      exact ⟨rfl, rfl⟩
    | element hnone _ _ =>
      rw [hchild] at hnone
      cases hnone
    | kept hkept _ => cases hkept
  | element hnone _ _ ihinside ihrest =>
    cases h' with
    | widget hchild' _ =>
      rw [hnone] at hchild'
      cases hchild'
    | element _ hinside' hrest' =>
      obtain ⟨rfl, rfl⟩ := ihinside hinside'
      obtain ⟨rfl, rfl⟩ := ihrest hrest'
      exact ⟨rfl, rfl⟩
    | kept hkept _ => cases hkept
  | sectionBlock _ _ ihinside ihrest =>
    cases h' with
    | sectionBlock hinside' hrest' =>
      obtain ⟨rfl, rfl⟩ := ihinside hinside'
      obtain ⟨rfl, rfl⟩ := ihrest hrest'
      exact ⟨rfl, rfl⟩
    | kept hkept _ => cases hkept
  | unlessBlock _ _ ihinside ihrest =>
    cases h' with
    | unlessBlock hinside' hrest' =>
      obtain ⟨rfl, rfl⟩ := ihinside hinside'
      obtain ⟨rfl, rfl⟩ := ihrest hrest'
      exact ⟨rfl, rfl⟩
    | kept hkept _ => cases hkept
  | cycle hold _ ih =>
    cases h' with
    | cycle _ hrest' => exact ih hrest'
    | expand hnew _ _ _ | fallback hnew _ _ _ => exact absurd hold hnew
    | kept hkept _ => cases hkept
  | expand hnew hresolve _ _ ihinside ihrest =>
    cases h' with
    | cycle hold _ => exact absurd hold hnew
    | expand _ hresolve' hinside' hrest' =>
      obtain rfl := Option.some.inj (hresolve.symm.trans hresolve')
      obtain ⟨rfl, rfl⟩ := ihinside hinside'
      obtain ⟨rfl, rfl⟩ := ihrest hrest'
      exact ⟨rfl, rfl⟩
    | fallback _ hnone _ _ =>
      rw [hresolve] at hnone
      cases hnone
    | kept hkept _ => cases hkept
  | fallback hnew hresolve _ _ ihinside ihrest =>
    cases h' with
    | cycle hold _ => exact absurd hold hnew
    | expand _ hresolve' _ _ =>
      rw [hresolve] at hresolve'
      cases hresolve'
    | fallback _ _ hinside' hrest' =>
      obtain ⟨rfl, rfl⟩ := ihinside hinside'
      obtain ⟨rfl, rfl⟩ := ihrest hrest'
      exact ⟨rfl, rfl⟩
    | kept hkept _ => cases hkept
  | kept hkept _ ih =>
    cases h' with
    | kept _ hrest' =>
      obtain ⟨rfl, rfl⟩ := ih hrest'
      exact ⟨rfl, rfl⟩
    | _ => cases hkept

/-! ## Names in the list -/

/-- All names that have been expanded at one time are distinct and among given ones, and so are
those that are being expanded. -/
structure Progress.HasDistinct (names : List String) (progress : Progress) : Prop where
  now : progress.expanding.Nodup ∧ progress.expanding ⊆ names
  before : ∀ expanding ∈ progress.past, expanding.Nodup ∧ expanding ⊆ names

theorem Progress.HasDistinct.expand {names expanding : List String}
    (h : progress.HasDistinct names) (hexpanding : expanding.Nodup ∧ expanding ⊆ names) :
    (progress.expand expanding).HasDistinct names :=
  ⟨hexpanding, List.forall_mem_cons.mpr ⟨hexpanding, h.before⟩⟩

/-- If all names that are bound are among given ones, no name is put in the list that stands
there already or is none of these. -/
theorem Runs.hasDistinct {names : List String}
    (hregistry : Partials.boundNames attachment.registry ⊆ names)
    (h : attachment.Runs partials nodes progress after later)
    (hpartials : Partials.boundNames partials ⊆ names) (hprogress : progress.HasDistinct names) :
    later.HasDistinct names := by
  induction h with
  | nil => exact hprogress
  | widget _ _ ih | kept _ _ ih => exact ih hpartials hprogress
  | element _ _ _ ihinside ihrest => exact ihrest hpartials (ihinside hpartials hprogress)
  | sectionBlock _ _ ihinside ihrest | unlessBlock _ _ ihinside ihrest =>
    exact ihrest hpartials (ihinside hpartials hprogress)
  | cycle _ _ ih => exact ih hpartials ⟨hprogress.now, hprogress.before⟩
  | @expand _ name _ _ _ progress within _ _ _ hnew hresolve _ _ ihinside ihrest =>
    obtain ⟨hmem, hown⟩ := boundNames_of_resolve hpartials hregistry hresolve
    obtain ⟨hnodup, hsub⟩ := hprogress.now
    have hentered : (progress.enter name).HasDistinct names := by
      refine hprogress.expand ⟨?_, List.append_subset.mpr ⟨hsub, ?_⟩⟩
      · exact hnodup.append (List.nodup_singleton name) (List.disjoint_singleton.mpr hnew)
      · exact List.cons_subset.mpr ⟨hmem, List.nil_subset _⟩
    have hwithin := ihinside hown hentered
    have hfewer := List.dropLast_sublist within.expanding
    have hleft : within.leave.HasDistinct names :=
      hwithin.expand ⟨hwithin.now.1.sublist hfewer, List.Subset.trans hfewer.subset hwithin.now.2⟩
    exact ihrest hpartials hleft
  | fallback _ _ _ _ ihinside ihrest =>
    exact ihrest hpartials (ihinside hpartials ⟨hprogress.now, hprogress.before⟩)

/-! ## Runs come to an end -/

/-- From any progress in which given names are being expanded, attaching nodes comes to an end,
with the graph and the warnings that are given. -/
def Completes (attachment : Attachment) (partials : Partials) (nodes : List Node)
    (expanding : List String) (after : Graph) (warnings : List Warning) : Prop :=
  ∀ progress : Progress, progress.expanding = expanding →
    ∃ later, attachment.Runs partials nodes progress after later ∧
      later.warnings = progress.warnings ++ warnings

section Completes

variable {rest inner other : List Node} {own : Partials} {name : String} {inside : Graph}
  {expanding deeper : List String} {warnings ahead : List Warning}

/-- Nothing comes of no nodes. -/
theorem Completes.of_nil (h : attachment.Completes partials [] expanding inside ahead) :
    inside = [] ∧ ahead = [] := by
  obtain ⟨later, hruns, hwarnings⟩ := h ⟨expanding, [], []⟩ rfl
  cases hruns
  exact ⟨rfl, hwarnings.symm⟩

/-- After nodes that lie within, others are gone on with, once what was put in the list for
those within has been taken off. -/
theorem Completes.followed (hinside : attachment.Completes own inner deeper inside ahead)
    (hrest : attachment.Completes partials rest expanding after warnings)
    (leave : Progress → Progress)
    (hleave : ∀ within : Progress, within.expanding = deeper →
      (leave within).expanding = expanding ∧ (leave within).warnings = within.warnings)
    (hprogress : progress.expanding = deeper) :
    ∃ within later, attachment.Runs own inner progress inside within ∧
      attachment.Runs partials rest (leave within) after later ∧
        later.warnings = progress.warnings ++ (ahead ++ warnings) := by
  obtain ⟨within, hruns, hwithin⟩ := hinside progress hprogress
  obtain ⟨hexpanding, hwarnings⟩ := hleave within (hruns.restores.trans hprogress)
  obtain ⟨later, hlater, hall⟩ := hrest (leave within) hexpanding
  refine ⟨within, later, hruns, hlater, ?_⟩
  rw [hall, hwarnings, hwithin, List.append_assoc]

/-- A node within which the names are the same comes to an end if what lies within it does. -/
theorem Completes.around {node made : Node}
    (hruns : ∀ {progress within later : Progress},
      attachment.Runs partials inner progress inside within →
        attachment.Runs partials rest within after later →
          attachment.Runs partials (node :: rest) progress (made :: after) later)
    (hinside : attachment.Completes partials inner expanding inside ahead)
    (hrest : attachment.Completes partials rest expanding after warnings) :
    attachment.Completes partials (node :: rest) expanding (made :: after)
      (ahead ++ warnings) := by
  intro progress hprogress
  obtain ⟨within, later, hwithin, hlater, hall⟩ :=
    hinside.followed hrest id (fun _ h => ⟨h, rfl⟩) hprogress
  exact ⟨later, hruns hwithin hlater, hall⟩

theorem Completes.cycle (hold : name ∈ expanding)
    (hrest : attachment.Completes partials rest expanding after warnings) :
    attachment.Completes partials (.partialRef name other :: rest) expanding after
      (cycleWarning expanding name :: warnings) := by
  rintro progress rfl
  obtain ⟨later, hlater, hall⟩ := hrest (progress.warn (cycleWarning progress.expanding name)) rfl
  refine ⟨later, .cycle hold hlater, ?_⟩
  rw [hall, Progress.warn, List.append_assoc, List.singleton_append]

theorem Completes.expand {body : PartialBody} (hnew : name ∉ expanding)
    (hresolve : resolve name partials attachment.registry = some body)
    (hinside : attachment.Completes body.partials body.graph (expanding ++ [name]) inside ahead)
    (hrest : attachment.Completes partials rest expanding after warnings) :
    attachment.Completes partials (.partialRef name other :: rest) expanding (inside ++ after)
      (ahead ++ warnings) := by
  rintro progress rfl
  have hleave : ∀ within : Progress, within.expanding = progress.expanding ++ [name] →
      within.leave.expanding = progress.expanding ∧ within.leave.warnings = within.warnings :=
    fun within hwithin => ⟨(congrArg List.dropLast hwithin).trans List.dropLast_concat, rfl⟩
  have hentered : (progress.enter name).expanding = progress.expanding ++ [name] := rfl
  obtain ⟨within, later, hwithin, hlater, hall⟩ :=
    hinside.followed hrest Progress.leave hleave hentered
  exact ⟨later, .expand hnew hresolve hwithin hlater, hall⟩

theorem Completes.fallback (hnew : name ∉ expanding)
    (hresolve : resolve name partials attachment.registry = none)
    (hinside : attachment.Completes partials other expanding inside ahead)
    (hrest : attachment.Completes partials rest expanding after warnings) :
    attachment.Completes partials (.partialRef name other :: rest) expanding (inside ++ after)
      (unresolvedWarning name :: (ahead ++ warnings)) := by
  rintro progress rfl
  have hwarned : (progress.warn (unresolvedWarning name)).expanding = progress.expanding := rfl
  obtain ⟨within, later, hwithin, hlater, hall⟩ :=
    hinside.followed hrest id (fun _ h => ⟨h, rfl⟩) hwarned
  refine ⟨later, .fallback hnew hresolve hwithin hlater, ?_⟩
  rw [hall, Progress.warn, List.append_assoc, List.singleton_append]

/-- If attaching comes to an end with what lies right beyond a stop, and with the nodes behind
it, it does with all of them. -/
theorem Completes.cons {stop : Stop}
    (hnext : ∀ within partials nodes, stop.next attachment withinItself =
      Graph.stops within partials nodes →
        attachment.Completes partials nodes (within.map Prod.fst) inside ahead)
    (hrest : attachment.Completes stop.partials rest stop.names after warnings) :
    attachment.Completes stop.partials (stop.node :: rest) stop.names
      (stop.becomes attachment inside ++ after)
      ((stop.warning? attachment).toList ++ (ahead ++ warnings)) := by
  obtain ⟨within, partials, node⟩ := stop
  cases node with
  | element el =>
    cases hchild : attachment.childFor? el with
    | some child =>
      simp only [Stop.next, hchild] at hnext
      obtain ⟨rfl, rfl⟩ := (hnext [] [] [] rfl).of_nil
      simp only [Stop.becomes, hchild]
      intro progress hprogress
      obtain ⟨later, hlater, hall⟩ := hrest progress hprogress
      exact ⟨later, .widget hchild hlater, hall⟩
    | none =>
      simp only [Stop.next, hchild] at hnext
      simp only [Stop.becomes, Stop.warning?, hchild, Option.toList_none, List.nil_append]
      exact .around (.element hchild) (hnext within partials _ rfl) hrest
  | sectionBlock path children =>
    simp only [Stop.warning?, Option.toList_none, List.nil_append]
    exact .around .sectionBlock (hnext within partials children rfl) hrest
  | unlessBlock path children =>
    simp only [Stop.warning?, Option.toList_none, List.nil_append]
    exact .around .unlessBlock (hnext within partials children rfl) hrest
  | partialRef name fallback =>
    simp only [Stop.next, withinItself] at hnext
    simp only [Stop.becomes, Stop.warning?]
    by_cases hold : name ∈ Stop.names ⟨within, partials, .partialRef name fallback⟩
    · have hcontains := List.contains_iff_mem.mpr hold
      simp only [hcontains, if_true] at hnext ⊢
      obtain ⟨rfl, rfl⟩ := (hnext [] [] [] rfl).of_nil
      exact .cycle hold hrest
    · have hcontains := Bool.eq_false_iff.mpr (mt List.contains_iff_mem.mp hold)
      simp only [hcontains, Bool.false_eq_true, if_false] at hnext ⊢
      cases hresolve : resolve name partials attachment.registry with
      | some body =>
        simp only [hresolve, Option.toList_none, List.nil_append] at hnext ⊢
        have hinside := hnext (within ++ [(name, body)]) body.partials body.graph rfl
        rw [List.map_append] at hinside
        exact .expand hold hresolve hinside hrest
      | none =>
        simp only [hresolve, Option.toList_some, List.singleton_append] at hnext ⊢
        exact .fallback hold hresolve (hnext within partials fallback rfl) hrest
  | text _ | interpolator _ | reference _ | triple _ | comment _ | widget _ | closingTag _ _ =>
    obtain ⟨rfl, rfl⟩ := (hnext [] [] [] rfl).of_nil
    intro progress hprogress
    obtain ⟨later, hlater, hall⟩ := hrest progress hprogress
    exact ⟨later, .kept rfl hlater, hall⟩

end Completes

/-- Where stops expand, attaching comes to an end, with the warnings of all stops on the way. -/
theorem Expands.completes {stops trail : List Stop}
    (h : attachment.Expands withinItself stops after trail) :
    ∀ within partials nodes, stops = Graph.stops within partials nodes →
      attachment.Completes partials nodes (within.map Prod.fst) after
        (trail.filterMap (Stop.warning? attachment)) := by
  induction h with
  | nil =>
    intro within partials nodes hstops progress hprogress
    obtain rfl : nodes = [] := List.map_eq_nil_iff.mp hstops.symm
    exact ⟨progress, .nil progress, (List.append_nil _).symm⟩
  | @cons stop rest inner later inside after _ _ ihnext ihrest =>
    intro within partials nodes hstops
    cases nodes with
    | nil => cases hstops
    | cons node nodes =>
      obtain ⟨rfl, rfl⟩ := List.cons.inj hstops
      have hall := Completes.cons ihnext (ihrest within partials nodes rfl)
      rw [Stop.filterMap_warning?_cons, List.filterMap_append]
      exact hall

/-- No name is being expanded yet. -/
theorem Progress.hasDistinct_start (names : List String) : Progress.start.HasDistinct names where
  now := ⟨List.nodup_nil, List.nil_subset names⟩
  before := List.forall_mem_singleton.mpr ⟨List.nodup_nil, List.nil_subset names⟩

/-- Attaching a body comes to an end, whatever partials include one another, in one run only and
with what attaching makes.  All along the names that are being expanded are distinct, so they
are no more than there are names that are bound.  After each node that is come to on the way,
they are what they were before. -/
theorem runs_attach (attachment : Attachment) (body : PartialBody) :
    (∃ later,
      attachment.Runs body.partials body.graph .start (attachment.attach body).value later ∧
      later.warnings = (attachment.attach body).log.warnings ∧
      (∀ expanding ∈ later.past, expanding.Nodup ∧ expanding.length ≤
        (Partials.boundNames attachment.registry ++
          Partials.boundNames body.partials).dedup.length) ∧
      ∀ after' later', attachment.Runs body.partials body.graph .start after' later' →
        after' = (attachment.attach body).value ∧ later' = later) ∧
    ∀ partials node rest progress after later,
      attachment.Runs partials (node :: rest) progress after later →
        ∃ made beyond between, attachment.Runs partials [node] progress made between ∧
          between.expanding = progress.expanding ∧
          attachment.Runs partials rest between beyond later ∧ after = made ++ beyond := by
  refine ⟨?_, ?_⟩
  · obtain ⟨trail, hexpands, hwarnings⟩ := attachment.accounts_attach body
    obtain ⟨later, hruns, hlater⟩ := hexpands.completes [] body.partials body.graph rfl .start rfl
    refine ⟨later, hruns, hlater.trans hwarnings.symm, ?_, fun _ _ h => h.deterministic hruns⟩
    intro expanding hmem
    have hdistinct := hruns.hasDistinct (List.subset_append_left _ _)
      (List.subset_append_right _ _) (Progress.hasDistinct_start _)
    obtain ⟨hnodup, hsub⟩ := hdistinct.before expanding hmem
    refine ⟨hnodup, (hnodup.subperm fun name hname => ?_).length_le⟩
    exact List.mem_dedup.mpr (hsub hname)
  · intro partials node rest progress after later h
    obtain ⟨made, beyond, between, hnode, hrest, hafter⟩ := h.uncons
    exact ⟨made, beyond, between, hnode, hnode.restores, hrest, hafter⟩

end Attachment

end Stencil
