import Stencil.Proofs.Render.Mounted
import Stencil.Proofs.Template.Expansion

/-!
# What references mean in a view

A view refers to partials within attribute values only: all others have been expanded.  Those
names were written with the partials of the body that they came from, but the view looks them
up in the partials of the template.  Names that the template itself holds keep their meaning;
a name that has come from a partial keeps it if it means the same in both places.

* `Stop.scope` — the partials that a node was written with.
* `Stop.carried` — the names that an element still refers to once it has been attached.
* `Attachment.Expands.references` — what an attached graph refers to.
* `Host.references_attachView` — when the references of a view keep their meaning.
-/

namespace Stencil

/-! ## Where names were written -/

namespace Stop

variable {attachment : Attachment} {cut : List String → String → Bool} {stop later : Stop}
  {own : Partials}

/-- The partials that a node was written with: those of the innermost body that is being
expanded, or else the given ones. -/
def scope (own : Partials) (stop : Stop) : Partials :=
  match stop.within.getLast? with
  | some (_, found) => found.partials
  | none => own

/-- What lies beyond a stop has the same surroundings, or is in the body that a name leads to. -/
theorem next_cases (h : later ∈ stop.next attachment cut) :
    (later.within = stop.within ∧ later.partials = stop.partials) ∨
      ∃ name found, resolve name stop.partials attachment.registry = some found ∧
        later.within = stop.within ++ [(name, found)] ∧ later.partials = found.partials := by
  obtain ⟨within, partials, node⟩ := stop
  cases node with
  | element el =>
    simp only [next] at h
    cases hchild : attachment.childFor? el with
    | some child =>
      rw [hchild] at h
      cases h
    | none =>
      rw [hchild] at h
      obtain ⟨hwithin, hpartials, -⟩ := Graph.mem_stops h
      exact .inl ⟨hwithin, hpartials⟩
  | sectionBlock path children | unlessBlock path children =>
    obtain ⟨hwithin, hpartials, -⟩ := Graph.mem_stops h
    exact .inl ⟨hwithin, hpartials⟩
  | partialRef name fallback =>
    simp only [next] at h
    split at h
    · cases h
    · split at h
      · rename_i found hresolve
        obtain ⟨hwithin, hpartials, -⟩ := Graph.mem_stops h
        exact .inr ⟨name, found, hresolve, hwithin, hpartials⟩
      · obtain ⟨hwithin, hpartials, -⟩ := Graph.mem_stops h
        exact .inl ⟨hwithin, hpartials⟩
  | _ => cases h

/-- Where the partials in scope are those that the node was written with, they are so right
beyond, too. -/
theorem scope_of_mem_next (h : stop.partials = stop.scope own)
    (hlater : later ∈ stop.next attachment cut) : later.partials = later.scope own := by
  rcases next_cases hlater with ⟨hwithin, hpartials⟩ | ⟨name, found, -, hwithin, hpartials⟩
  · rw [hpartials, h, scope, scope, hwithin]
  · rw [hpartials, scope, hwithin, List.getLast?_append_of_ne_nil _ (List.cons_ne_nil _ _)]
    rfl

end Stop

/-- On the way through a graph, the partials in scope are those that each node was written
with. -/
theorem Attachment.Meets.partials_eq {attachment : Attachment}
    {cut : List String → String → Bool} {own : Partials} {graph : Graph} {stop : Stop}
    (h : attachment.Meets cut (Graph.stops [] own graph) stop) :
    stop.partials = stop.scope own := by
  induction h with
  | start hmem =>
    obtain ⟨hwithin, hpartials, -⟩ := Graph.mem_stops hmem
    rw [hpartials, Stop.scope, hwithin]
    rfl
  | step _ hnext ih => exact Stop.scope_of_mem_next ih hnext

/-! ## What attached graphs refer to -/

/-- The names that a stop still refers to once the graph has been attached: those within the
attributes of an element that stays. -/
def Stop.carried (attachment : Attachment) (stop : Stop) : List String :=
  match stop.node with
  | .element el =>
      match attachment.childFor? el with
      | some _ => []
      | none => Attribute.references el.attributes
  | _ => []

theorem Stop.references_becomes {attachment : Attachment} {cut : List String → String → Bool}
    {stop : Stop} {inside : Graph} {inner : List Stop}
    (h : attachment.Expands cut (stop.next attachment cut) inside inner) :
    Graph.references (stop.becomes attachment inside) =
      stop.carried attachment ++ Graph.references inside := by
  obtain ⟨within, partials, node⟩ := stop
  cases node with
  | element el =>
    simp only [next, becomes, carried] at h ⊢
    cases hchild : attachment.childFor? el with
    | some child =>
      rw [hchild] at h
      cases h
      rfl
    | none =>
      simp only [Graph.references, Node.references, Element.references, List.append_nil]
  | sectionBlock path children | unlessBlock path children =>
    simp only [becomes, carried, Graph.references, Node.references, List.append_nil,
      List.nil_append]
  | partialRef name fallback => rfl
  | _ =>
    cases h
    rfl

/-- An attached graph refers to what the elements that stay refer to, and to nothing else. -/
theorem Attachment.Expands.references {attachment : Attachment}
    {cut : List String → String → Bool} {stops trail : List Stop} {after : Graph}
    (h : attachment.Expands cut stops after trail) :
    Graph.references after = trail.flatMap (Stop.carried attachment) := by
  induction h with
  | nil => rfl
  | cons hnext _ ihnext ihrest =>
    rw [Graph.references_append, Stop.references_becomes hnext, ihnext, ihrest,
      List.flatMap_cons, List.flatMap_append, List.append_assoc]

/-! ## Views -/

namespace Host

/-- A view has the partials of the template, and refers to partials within the attributes of the
elements that stay.  All those names lead to what they led to where they were written if the
names do so that have come from partials. -/
theorem references_attachView (host : Host) (id : ComponentId) (component : Component)
    (wrapper : Wrapper) (template : Template) :
    let view := (host.attachView id component wrapper template).value
    let registry := host.registry template.registry
    let attachment := host.attachment component wrapper template.registry template.config
    let stops := Graph.stops [] template.partials (host.rootedGraph id component template)
    view.partials = template.partials ∧ view.registry = template.registry ∧
      ∃ trail, attachment.Expands Attachment.withinItself stops view.graph trail ∧
        Graph.references view.graph = trail.flatMap (Stop.carried attachment) ∧
        ((∀ stop ∈ trail, ∀ name ∈ stop.carried attachment,
            resolve name view.partials registry =
              resolve name (stop.scope template.partials) registry) ↔
          ∀ stop, attachment.Meets Attachment.withinItself stops stop → stop.within ≠ [] →
            ∀ name ∈ stop.carried attachment,
              resolve name template.partials registry = resolve name stop.partials registry) := by
  intro view registry attachment stops
  obtain ⟨trail, hexpands⟩ := host.expands_attachView id component wrapper template
  refine ⟨rfl, rfl, trail, hexpands, hexpands.references, ?_, ?_⟩
  · intro hsame stop hstop _ name hname
    rw [hstop.partials_eq]
    exact hsame stop (hexpands.mem_trail_iff.mpr hstop) name hname
  · intro hsame stop hstop name hname
    have hmeets := hexpands.mem_trail_iff.mp hstop
    by_cases hwithin : stop.within = []
    · -- What the template itself refers to was written with the partials that the view has.
      rw [Stop.scope, hwithin]
      rfl
    · rw [← hmeets.partials_eq]
      exact hsame stop hmeets hwithin name hname

/-- The title of a caption is a note of the caption, but in the view it is the note next to the
caption. -/
theorem references_captionedView :
    (captionedView [.text "other"]).graph =
        [mountElement "div" (captionBinding.graph ++ [.text "tail"])] ∧
      Graph.references (captionedView [.text "other"]).graph = ["note"] ∧
      Graph.references captionBinding.graph = ["note"] ∧
      resolve "note" captionBinding.partials gallery.injected = some ⟨[.text "own"], []⟩ ∧
      resolve "note" (captionedView [.text "other"]).partials gallery.injected =
        some ⟨[.text "other"], []⟩ ∧
      (gallery.html (captioned [.text "other"]) .null).value = "<i title=\"own\"></i>tail" ∧
      (gallery.html (captionedView [.text "other"]) .null).value =
        "<div><i title=\"other\"></i>tail</div>" := by
  refine ⟨rfl, rfl, rfl, rfl, rfl, ?_, ?_⟩ <;> decide +kernel

end Host

end Stencil
