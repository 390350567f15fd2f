import Stencil.Proofs.Template.Expansion
import Stencil.Proofs.Template.Mounted

/-!
# The top of a view

Roots are marked before partials are expanded.  So the elements that a template holds itself
come to be roots of its view, but what a partial puts at the top is left as it was in the body
of the partial: an element there is no root, and it even becomes a widget if it makes place for
a child.

* `Node.isRooted` — no widget, and a root if it is an element.
* `Stop.opened` — the stops that come to stand in the place of a partial.
* `Attachment.Expands.all_isRooted_iff` — when all nodes at the top are as they should be.
* `Host.isRooted_attachView` — the same for views.
-/

namespace Stencil

/-! ## Nodes at the top -/

/-- Whether a node may stand at the top of a view: it is no widget, and if it is an element, it
is a root. -/
def Node.isRooted : Node → Bool
  | .element el => el.isRoot
  | .widget _ => false
  | _ => true

/-- Whether a node is a widget. -/
def Node.isWidget : Node → Bool
  | .widget _ => true
  | _ => false

theorem Node.isRooted_markRoot {node : Node} (h : node.isWidget = false) :
    node.markRoot.isRooted = true := by
  cases node with
  | widget widget => cases h
  | _ => rfl

/-! ## What comes to stand at the top -/

namespace Stop

variable {attachment : Attachment} {cut : List String → String → Bool} {stop : Stop}

/-- The stops that come to stand in the place of a partial. -/
def opened (attachment : Attachment) (cut : List String → String → Bool) (stop : Stop) :
    List Stop :=
  match stop.node with
  | .partialRef _ _ => stop.next attachment cut
  | _ => []

/-- What is reached from stops is one of them, or is reached from right beyond them. -/
theorem reached_iff {beyond : Stop → List Stop} {stops : List Stop} :
    Reached beyond stops stop ↔ stop ∈ stops ∨ Reached beyond (stops.flatMap beyond) stop := by
  constructor
  · intro h
    induction h with
    | start hmem => exact .inl hmem
    | @step middle later _ hbeyond ih =>
      rcases ih with hmem | hmiddle
      · exact .inr (.start (List.mem_flatMap.mpr ⟨middle, hmem, hbeyond⟩))
      · exact .inr (.step hmiddle hbeyond)
  · rintro (hmem | h)
    · exact .start hmem
    · induction h with
      | start hmem =>
        obtain ⟨first, hfirst, hbeyond⟩ := List.mem_flatMap.mp hmem
        exact .step (.start hfirst) hbeyond
      | step _ hbeyond ih => exact .step ih hbeyond

theorem forall_reached_iff {beyond : Stop → List Stop} {stops : List Stop} {p : Stop → Prop} :
    (∀ stop, Reached beyond stops stop → p stop) ↔
      (∀ stop ∈ stops, p stop) ∧ ∀ stop, Reached beyond (stops.flatMap beyond) stop → p stop := by
  constructor
  · intro h
    exact ⟨fun stop hstop => h stop (reached_iff.mpr (.inl hstop)),
      fun stop hstop => h stop (reached_iff.mpr (.inr hstop))⟩
  · rintro ⟨hstops, hbeyond⟩ stop hstop
    exact (reached_iff.mp hstop).elim (hstops stop) (hbeyond stop)

theorem opened_markRoot (within : List (String × PartialBody)) (partials : Partials)
    (node : Node) :
    opened attachment cut ⟨within, partials, node.markRoot⟩ =
      opened attachment cut ⟨within, partials, node⟩ := by
  cases node <;> rfl

/-- What a stop becomes may stand at the top if the stop may, and all that comes to stand in
its place. -/
theorem all_isRooted_becomes {inside : Graph}
    (hinside : inside.all Node.isRooted = true ↔
      ∀ later, Reached (opened attachment cut) (stop.next attachment cut) later →
        later.node.isRooted = true) :
    (stop.becomes attachment inside).all Node.isRooted = true ↔
      stop.node.isRooted = true ∧
        ∀ later, Reached (opened attachment cut) (stop.opened attachment cut) later →
          later.node.isRooted = true := by
  obtain ⟨within, partials, node⟩ := stop
  have hnone : ∀ later, Reached (opened attachment cut) [] later →
      later.node.isRooted = true := fun _ hlater => absurd hlater not_reached_nil
  cases node with
  | partialRef name fallback => exact hinside.trans (and_iff_right rfl).symm
  | element el =>
    refine Iff.trans ?_ (and_iff_left hnone).symm
    simp only [becomes]
    cases hchild : attachment.childFor? el with
    | some child =>
      have hplain : el.isRoot = false := by
        by_contra hroot
        rw [Attachment.childFor?, if_pos (by simpa using hroot)] at hchild
        cases hchild
      simp only [List.all_cons, List.all_nil, Node.isRooted, hplain, Bool.and_true]
    | none => simp only [List.all_cons, List.all_nil, Node.isRooted, Bool.and_true]
  | _ =>
    refine Iff.trans ?_ (and_iff_left hnone).symm
    simp only [becomes, List.all_cons, List.all_nil, Node.isRooted, Bool.and_true]

end Stop

namespace Attachment

variable {attachment : Attachment} {cut : List String → String → Bool} {stops trail : List Stop}
  {after : Graph}

/-- All nodes at the top of an attached graph are as they should be if those are that come to
stand there. -/
theorem Expands.all_isRooted_iff (h : attachment.Expands cut stops after trail) :
    after.all Node.isRooted = true ↔
      ∀ stop, Stop.Reached (Stop.opened attachment cut) stops stop →
        stop.node.isRooted = true := by
  induction h with
  | nil => exact iff_of_true rfl fun _ hstop => absurd hstop Stop.not_reached_nil
  | cons _ _ ihnext ihrest =>
    rw [List.all_append, Bool.and_eq_true, ihrest, Stop.all_isRooted_becomes ihnext]
    simp only [Stop.reached_cons_iff, or_imp, forall_and, forall_eq, and_assoc]

/-- What each of the stops becomes is found in the attached graph. -/
theorem Expands.exists_becomes_subset (h : attachment.Expands cut stops after trail) :
    ∀ stop ∈ stops, ∃ inside, stop.becomes attachment inside ⊆ after := by
  induction h with
  | nil => exact fun _ hstop => absurd hstop List.not_mem_nil
  | cons _ _ _ ihrest =>
    refine List.forall_mem_cons.mpr ⟨⟨_, List.subset_append_left _ _⟩, fun stop hstop => ?_⟩
    obtain ⟨inside, hinside⟩ := ihrest stop hstop
    exact ⟨inside, List.subset_append_of_subset_right _ hinside⟩

end Attachment

/-! ## Views -/

/-- What a partial opens up does not depend on which elements are marked as roots. -/
theorem Graph.flatMap_opened_markRoot (attachment : Attachment)
    (cut : List String → String → Bool) (partials : Partials) (graph : Graph) :
    (Graph.stops [] partials (graph.map Node.markRoot)).flatMap (Stop.opened attachment cut) =
      (Graph.stops [] partials graph).flatMap (Stop.opened attachment cut) := by
  induction graph with
  | nil => rfl
  | cons node rest ih =>
    have hrest := congrArg (Stop.opened attachment cut ⟨[], partials, node⟩ ++ ·) ih
    simpa only [stops, List.map_cons, List.flatMap_cons, Stop.opened_markRoot] using hrest

namespace Host

/-- The elements of a template without widgets come to be roots of its view.  The view has
nothing but roots at its top if it is within a mount element, or if all that partials put
there may stand there. -/
theorem isRooted_attachView (host : Host) (id : ComponentId) (component : Component)
    (wrapper : Wrapper) {template : Template}
    (hplain : ∀ node ∈ template.graph, node.isWidget = false) :
    let view := (host.attachView id component wrapper template).value
    let opened := Stop.opened
      (host.attachment component wrapper template.registry template.config)
      Attachment.withinItself
    (host.needsMount id template = false → ∀ element, .element element ∈ template.graph →
      ∃ children, .element { element.asRoot with children } ∈ view.graph) ∧
    (view.graph.all Node.isRooted = true ↔
      host.needsMount id template = true ∨
        ∀ stop, Stop.Reached opened
          ((Graph.stops [] template.partials template.graph).flatMap opened) stop →
            stop.node.isRooted = true) := by
  intro view opened
  cases hmount : host.needsMount id template with
  | true =>
    obtain ⟨children, hgraph⟩ := host.attachView_of_needsMount id component wrapper hmount
    refine ⟨nofun, iff_of_true ?_ (.inl rfl)⟩
    rw [show view.graph = _ from hgraph]
    rfl
  | false =>
    have hrooted : host.rootedGraph id component template = template.graph.map Node.markRoot := by
      rw [rootedGraph, hmount]
      rfl
    obtain ⟨trail, hexpands⟩ := host.expands_attachView id component wrapper template
    rw [hrooted] at hexpands
    constructor
    · intro _ element helement
      obtain ⟨inside, hinside⟩ := hexpands.exists_becomes_subset
        ⟨[], template.partials, .element element.asRoot⟩
        (List.mem_map_of_mem (List.mem_map_of_mem helement))
      exact ⟨inside, hinside List.mem_cons_self⟩
    · have htop : ∀ stop ∈ Graph.stops [] template.partials (template.graph.map Node.markRoot),
          stop.node.isRooted = true := by
        intro stop hstop
        obtain ⟨-, -, hnode⟩ := Graph.mem_stops hstop
        obtain ⟨node, hmem, hmarked⟩ := List.mem_map.mp hnode
        rw [← hmarked]
        exact Node.isRooted_markRoot (hplain node hmem)
      rw [hexpands.all_isRooted_iff, Stop.forall_reached_iff, and_iff_right htop,
        Graph.flatMap_opened_markRoot]
      exact (or_iff_right Bool.false_ne_true).symm

/-! ### A row of cells -/

/-- A row on a shelf, with a place for a label. -/
def shelfRow : Component :=
  { Component.ofView "row" "div" .null with
    parent := some ⟨0⟩
    children := [("label", ⟨2⟩)] }

/-- A host with a shelf, its row and the label of the row. -/
def shelf : Host :=
  ⟨[(⟨0⟩, { Component.ofView "shelf" "ul" .null with children := [("row", ⟨1⟩)] }),
      (⟨1⟩, shelfRow),
      (⟨2⟩, { Component.ofView "label" "b" .null with parent := some ⟨1⟩ })], 3, [], []⟩

/-- A head and cells that are a partial. -/
def rowTemplate (cells : Graph) : Template :=
  .ofGraph [.element ⟨"h1", [], [.text "x"], false⟩, .partialRef "cells" []]
    [⟨"cells", cells, []⟩] .injected {}

/-- The view of the row. -/
def rowView (cells : Graph) : Template :=
  (shelf.attachView ⟨1⟩ shelfRow ⟨"ComponentWidget", 0⟩ (rowTemplate cells)).value

/-- Cells that are text and a section. -/
def plainCells : Graph := [.text "-", .sectionBlock ⟨"cells"⟩ [.element (.ofChildren "li" [])]]

/-- With text and sections from the partial, the view has nothing but roots at its top. -/
theorem isRooted_plainCells :
    (∀ node ∈ (rowTemplate plainCells).graph, node.isWidget = false) ∧
      shelf.needsMount ⟨1⟩ (rowTemplate plainCells) = false ∧
      (rowView plainCells).graph.all Node.isRooted = true := by
  have hplain : ∀ node ∈ (rowTemplate plainCells).graph, node.isWidget = false := by decide
  refine ⟨hplain, rfl, ?_⟩
  refine (shelf.isRooted_attachView ⟨1⟩ shelfRow ⟨"ComponentWidget", 0⟩ hplain).2.mpr (.inr ?_)
  intro stop hstop
  rcases Stop.reached_cons_iff.mp hstop with rfl | htext | hrest
  · rfl
  · exact absurd htext Stop.not_reached_nil
  · rcases Stop.reached_cons_iff.mp hrest with rfl | hsection | hnone
    · rfl
    · exact absurd hsection Stop.not_reached_nil
    · exact absurd hnone Stop.not_reached_nil

/-- Cells that are elements, one of which makes place for the label. -/
def elementCells : Graph :=
  [.element (.ofChildren "li" []), .element ⟨"b", [⟨"class", .literal "label"⟩], [], false⟩]

/-- With elements from the partial, one at the top of the view is no root, and the other one has
given way to a widget. -/
theorem isRooted_elementCells :
    (∀ node ∈ (rowTemplate elementCells).graph, node.isWidget = false) ∧
      (rowView elementCells).graph =
        [.element ⟨"h1", [], [.text "x"], true⟩, .element ⟨"li", [], [], false⟩,
          .widget ⟨⟨"ComponentWidget", 0⟩, ⟨2⟩,
            ⟨"b", [⟨"class", .literal "label"⟩], [], false⟩, [], .injected, {}⟩] ∧
      (rowView elementCells).graph.all Node.isRooted = false :=
  ⟨by decide, rfl, rfl⟩

end Host

end Stencil
