import Stencil.Proofs.Render.Inner
import Stencil.Proofs.Render.Layers
import Stencil.Proofs.Script.Congruence

/-!
# What is rendered of the partials in scope

A graph is rendered with partials in scope, and the bodies of these in partials of their own.  So
nothing is seen of the partials in scope but what the names lead to that stand in the graph
itself, however deep bodies refer to further names.

* `Partials.AgreeOn` — partials that bind the same names to the same.
* `Host.scriptOf_congr` — the script depends on nothing else.
* `Host.matches_withPartials` — neither do markup, trees and fragments.
-/

namespace Stencil

/-- Two sets of partials bind given names to the same, or leave them unbound. -/
def Partials.AgreeOn (partials partials' : Partials) (names : List String) : Prop :=
  ∀ name ∈ names, partials.get? name = partials'.get? name

theorem Partials.AgreeOn.mono {partials partials' : Partials} {names more : List String}
    (h : partials.AgreeOn partials' more) (hsub : names ⊆ more) :
    partials.AgreeOn partials' names :=
  fun name hname => h name (hsub hname)

/-- A template with other partials in scope. -/
def Template.withPartials (template : Template) (partials : Partials) : Template :=
  { template with partials }

namespace Host

variable {host : Host} {template : Template} {graph : Graph} {partials : Partials} {data : Json}

/-- The script of a graph depends on what the names in it are bound to, and not on what other
names are. -/
theorem scriptOf_congr (h : partials.AgreeOn template.partials (Graph.references graph)) :
    host.scriptOf (template.withPartials partials) graph data =
      host.scriptOf template graph data := by
  have hagree : (Surroundings.ofPartials (host.registry template.registry)
      template.config.maxPartialDepth template.config.maxPartialDepth partials).AgreeOn
        (Surroundings.ofPartials (host.registry template.registry)
          template.config.maxPartialDepth template.config.maxPartialDepth template.partials)
        (Graph.references graph) := by
    intro name hname fallback
    have hresolve : resolve name partials (host.registry template.registry) =
        resolve name template.partials (host.registry template.registry) := by
      rw [resolve, resolve, h name hname]
    simp only [Surroundings.partialWalk, Surroundings.ofPartials, hresolve]
  have hwalk := Graph.walk_congr graph hagree
  rw [← PartialBody.walk_eq_ofPartials, ← PartialBody.walk_eq_ofPartials] at hwalk
  exact congrArg (fun walk => (walk (.ofData data)).1) hwalk

/-- Neither does a rendering with one encoding, -/
theorem render_withPartials {ω α : Type} (encoding : Encoding ω α)
    (h : partials.AgreeOn template.partials (Graph.references graph)) :
    host.render encoding (template.withPartials partials) graph data =
      host.render encoding template graph data := by
  rw [render, render, scriptOf_congr h]
  rfl

/-! ## Widgets -/

/-- nor markup, where the partials decide how many widgets may be within one another. -/
theorem matches_markup (h : partials.AgreeOn template.partials (Graph.references graph))
    (hgraph : Graph.allWidgets graph ⊆ Graph.allWidgets template.graph) :
    (host.render (host.markupEncoding (template.withPartials partials))
        (template.withPartials partials) graph data).Matches
      (host.render (host.markupEncoding template) template graph data) := by
  rw [render_withPartials _ h]
  refine matches_render_markup fun w hw => ?_
  have hw' : w ∈ host.scriptWidgets (template.withPartials partials) graph data := by
    rwa [scriptWidgets, scriptOf_congr h]
  have hgraph' : Graph.allWidgets graph ⊆
      Graph.allWidgets (template.withPartials partials).graph := hgraph
  exact host.layered_widgetMarkup.matches_of_length (fun _ => writtenWithin_subset)
    (fun _ => writtenWithin_subset) (scriptWidgets_subset hgraph' hw')
    (scriptWidgets_subset hgraph hw) (host.length_widgetsAround_le _)
    (host.length_widgetsAround_le _)

theorem tree_withPartials
    (h : partials.AgreeOn template.partials (Graph.references template.graph)) :
    host.tree (template.withPartials partials) data = host.tree template data :=
  render_withPartials .tree h

/-- Nor do fragments. -/
theorem matches_fragment
    (h : partials.AgreeOn template.partials (Graph.references template.graph)) :
    (host.fragment (template.withPartials partials) data).Matches
      (host.fragment template data) := by
  have hwidgets : ∀ w ∈ Piece.widgetsAll (host.tree template data).value.pieces,
      (host.widgetNodes (host.nestingBound (template.withPartials partials)) w).Matches
        (host.widgetNodes (host.nestingBound template) w) := by
    intro w hw
    have hw' : w ∈ Piece.widgetsAll
        (host.tree (template.withPartials partials) data).value.pieces := by
      rwa [tree_withPartials h]
    exact host.layered_widgetNodes.matches_of_length (fun _ => holes_subset)
      (fun _ => holes_subset) (Piece.showOnly_iff.mp (host.showOnly_tree _ data) hw')
      (Piece.showOnly_iff.mp (host.showOnly_tree _ data) hw) (host.length_widgetsAround_le _)
      (host.length_widgetsAround_le _)
  have hrender := Logged.Matches.of_parts hwidgets host.render_fragment_congr
    (host.ends_render_fragment _ template data) (host.ends_render_fragment _ template data)
  rw [← render_withPartials _ h] at hrender
  exact hrender.andThen (host.mounted template)

/-! ## All renderings -/

/-- What a graph is rendered as depends on what the names in the graph itself are bound to.  The
bodies that these lead to, however deep, see nothing of the partials in scope. -/
theorem matches_withPartials (host : Host) (template : Template) (partials : Partials)
    (data : Json) (h : partials.AgreeOn template.partials (Graph.references template.graph)) :
    (host.html (template.withPartials partials) data).Matches (host.html template data) ∧
      (host.outerHtml (template.withPartials partials) data).Matches
        (host.outerHtml template data) ∧
      host.tree (template.withPartials partials) data = host.tree template data ∧
      (host.fragment (template.withPartials partials) data).Matches
        (host.fragment template data) := by
  have hinner := h.mono (host.references_innerGraph template)
  exact ⟨matches_markup hinner (host.allWidgets_innerGraph template),
    matches_markup h (List.Subset.refl _), tree_withPartials h, matches_fragment h⟩

/-- A host whose registry binds a card, which shows a title that is bound nowhere. -/
def untitledCards : Host :=
  empty.register .injected "card"
    ⟨[.element ⟨"b", [], [.partialRef "title" [.text "untitled"]], false⟩], []⟩

/-- A template that shows a card. -/
def oneCard : Template := .ofGraph [.partialRef "card" []] [] .injected {}

/-- Partials that bind a title. -/
def titles : Partials := [⟨"title", [.text "secret"], []⟩]

/-- The card does not see the title that is in scope where it is shown. -/
theorem html_oneCard :
    titles.AgreeOn oneCard.partials (Graph.references oneCard.graph) ∧
      (untitledCards.html (oneCard.withPartials titles) .null).value = "<b>untitled</b>" := by
  have hagree : titles.AgreeOn oneCard.partials (Graph.references oneCard.graph) := by
    intro name hname
    obtain rfl : name = "card" := List.mem_singleton.mp hname
    rfl
  have hends : (untitledCards.html oneCard .null).Ends := by decide +kernel
  have hvalue : (untitledCards.html oneCard .null).value = "<b>untitled</b>" := by decide +kernel
  have hmatches := (untitledCards.matches_withPartials oneCard titles .null hagree).1
  have hsame := hmatches.resolve_right fun hnot => hnot.2 hends
  exact ⟨hagree, by rw [hsame, hvalue]⟩

end Host

end Stencil
