import Stencil.Host.Attach
import Stencil.Proofs.Render.Inner
import Stencil.Proofs.Render.Tree
import Stencil.Proofs.Script.EndTagged

/-!
# Renderings with end tags

Templates are written without end tags for their elements.  One may put them in, for some
elements or for all of them, in a template, in its partials and in the registries.  No
rendering changes by that, and neither do the warnings.

There is one place where this is not so.  The view of a component that has a parent is
rendered as markup without its root element, and then an end tag of this element is left over.

* `Host.render_eq_of_runsAs` — scripts that do the same are rendered to the same.
* `Host.widgetMarkup_withRegistries`, `Host.widgetNodes_withRegistries` — widgets show the
  same if registries get end tags.
* `Host.html_endTagged` — a root element that is left out must not get one,
* `Host.renderings_endTagged` — and then templates that get some show the same.
-/

namespace Stencil

variable {ω α : Type}

/-- End tags leave the widgets of partials as they are. -/
theorem Partials.MayEnd.allWidgets {partials partials' : Partials}
    (h : Partials.MayEnd partials partials') :
    Binding.allWidgets partials' = Binding.allWidgets partials := by
  cases h with
  | same => rfl
  | ended _ hended => exact Binding.allWidgets_endTagged hended

/-- The second template is the first one with end tags in some elements of its graph and of its
partials. -/
structure Template.EndTagged (template template' : Template) : Prop where
  graph : Graph.EndTagged template.graph template'.graph
  partials : Partials.EndTagged template.partials template'.partials
  registry : template'.registry = template.registry
  config : template'.config = template.config
  component : template'.component = template.component

namespace Template.EndTagged

variable {host : Host} {injected processWide : Partials} {template template' : Template}

theorem componentOf? (h : template.EndTagged template') :
    host.componentOf? template' = host.componentOf? template := by
  rw [Host.componentOf?, Host.componentOf?, h.component]

/-- What is rendered as markup has got end tags only, if no end tag of a root element that is
left out is left in it. -/
theorem innerGraph (h : template.EndTagged template')
    (hroot : host.isNested template = true →
      Graph.EndTagged (host.innerGraph template) (host.innerGraph template')) :
    Graph.EndTagged (host.innerGraph template) (host.innerGraph template') := by
  cases hnested : host.isNested template with
  | true => exact hroot hnested
  | false =>
    have hnested' : host.isNested template' = false := by
      rw [← hnested, Host.isNested, Host.isNested, h.componentOf?]
    simp only [Host.innerGraph, hnested, hnested']
    exact h.graph

end Template.EndTagged

namespace Host

/-- Scripts that do the same are rendered to the same. -/
theorem render_eq_of_runsAs {host host' : Host} (encoding : Encoding ω α)
    {template template' : Template} {graph graph' : Graph} {data : Json}
    (hconfig : template'.config = template.config)
    (hscript : (host.scriptOf template graph data).RunsAs
      (host'.scriptOf template' graph' data)) :
    host'.render encoding template' graph' data = host.render encoding template graph data := by
  have hrun := hscript encoding _ _ (Assembly.tidy_start template.config.startId)
  simp only [render, hconfig, hrun]

/-! ## Registries -/

/-- A host with other registries. -/
def withRegistries (host : Host) (injected processWide : Partials) : Host :=
  { host with injected, processWide }

section Registries

variable {host : Host} {injected processWide : Partials}
  (hinjected : Partials.MayEnd host.injected injected)
  (hprocessWide : Partials.MayEnd host.processWide processWide)

include hinjected hprocessWide

theorem registry_withRegistries (name : RegistryName) :
    Partials.MayEnd (host.registry name)
      ((host.withRegistries injected processWide).registry name) := by
  cases name with
  | injected => exact hinjected
  | processWide => exact hprocessWide

/-- A template shows the same if only the registries get end tags, whatever closing tags it
holds itself. -/
theorem scriptOf_withRegistries (template : Template) (graph : Graph) (data : Json) :
    (host.scriptOf template graph data).RunsAs
      ((host.withRegistries injected processWide).scriptOf template graph data) := by
  have hregistry := registry_withRegistries hinjected hprocessWide template.registry
  unfold scriptOf
  generalize (host.withRegistries injected processWide).registry template.registry = registry'
    at hregistry ⊢
  cases hregistry with
  | same => exact .refl _
  | ended hfree hended =>
    exact (PartialBody.walk_mayEnd hfree (.ended hfree hended) _ _ (.same _)).steps (.ofData data)

theorem nestingBound_withRegistries (template : Template) :
    (host.withRegistries injected processWide).nestingBound template =
      host.nestingBound template := by
  simp only [nestingBound, allWidgets, withRegistries, hinjected.allWidgets,
    hprocessWide.allWidgets]

/-- Widgets show the same markup. -/
theorem widgetMarkup_withRegistries (depth : Nat) :
    (host.withRegistries injected processWide).widgetMarkup depth = host.widgetMarkup depth := by
  induction depth with
  | zero => rfl
  | succ depth ih =>
    funext widget
    have hscript := scriptOf_withRegistries hinjected hprocessWide (host.viewOf widget)
      (host.viewOf widget).graph (host.dataOf widget.child)
    rw [widgetMarkup, widgetMarkup, ih]
    exact render_eq_of_runsAs _ rfl hscript

/-- Widgets show the same nodes. -/
theorem widgetNodes_withRegistries (depth : Nat) :
    (host.withRegistries injected processWide).widgetNodes depth = host.widgetNodes depth := by
  induction depth with
  | zero => rfl
  | succ depth ih =>
    funext widget
    have hscript := scriptOf_withRegistries hinjected hprocessWide (host.viewOf widget)
      (host.viewOf widget).graph (host.dataOf widget.child)
    rw [widgetNodes, widgetNodes, ih]
    exact congrArg (· >>= _) (render_eq_of_runsAs _ rfl hscript)

end Registries

/-! ## Templates -/

section Templates

variable {host : Host} {injected processWide : Partials} {template template' : Template}
  (hinjected : Partials.MayEnd host.injected injected)
  (hprocessWide : Partials.MayEnd host.processWide processWide)
  (hregistry : Partials.tagFree (host.registry template.registry) = true)
  (hpartials : Partials.tagFree template.partials = true)
  (h : template.EndTagged template')

include hinjected hprocessWide h

theorem nestingBound_endTagged :
    (host.withRegistries injected processWide).nestingBound template' =
      host.nestingBound template := by
  rw [nestingBound_withRegistries hinjected hprocessWide]
  simp only [nestingBound, widgetsOfTemplate, Graph.allWidgets_endTagged h.graph,
    Binding.allWidgets_endTagged h.partials]

include hregistry hpartials

/-- A graph that has got end tags does the same as before. -/
theorem scriptOf_endTagged (data : Json) {graph graph' : Graph}
    (hgraph : Graph.tagFree graph = true) (hgraph' : Graph.EndTagged graph graph') :
    (host.scriptOf template graph data).RunsAs
      ((host.withRegistries injected processWide).scriptOf template' graph' data) := by
  have hbody : PartialBody.MayEnd ⟨graph, template.partials⟩ ⟨graph', template'.partials⟩ :=
    .ended hgraph hpartials ⟨hgraph', h.partials⟩
  have hregistries := registry_withRegistries hinjected hprocessWide template.registry
  have hwalk := PartialBody.walk_mayEnd hregistry hregistries template.config.maxPartialDepth
    template.config.maxPartialDepth hbody
  simp only [scriptOf, interpret, h.config, h.registry]
  exact hwalk.steps (.ofData data)

/-- As a fragment, a template shows the same. -/
theorem fragment_endTagged (hgraph : Graph.tagFree template.graph = true) (data : Json) :
    (host.withRegistries injected processWide).fragment template' data =
      host.fragment template data := by
  have hrender := render_eq_of_runsAs
    (.fragment (host.widgetNodes (host.nestingBound template))) h.config
    (scriptOf_endTagged hinjected hprocessWide hregistry hpartials h data hgraph h.graph)
  have hmounted : (host.withRegistries injected processWide).mounted template' =
      host.mounted template := by
    funext fragment
    show host.mounted template' fragment = host.mounted template fragment
    rw [mounted, mounted, isTopLevel, isTopLevel, h.componentOf?]
  rw [fragment, fragment, widgetNodes_withRegistries hinjected hprocessWide,
    nestingBound_endTagged hinjected hprocessWide h, hrender, hmounted]

/-- As markup, it does so if the root element gets no end tag where it is left out. -/
theorem html_endTagged (hgraph : Graph.tagFree template.graph = true)
    (hroot : host.isNested template = true →
      Graph.EndTagged (host.innerGraph template) (host.innerGraph template')) (data : Json) :
    (host.withRegistries injected processWide).html template' data = host.html template data := by
  have hrender := fun encoding : Encoding Empty String =>
    render_eq_of_runsAs encoding h.config (scriptOf_endTagged hinjected hprocessWide hregistry
      hpartials h data (host.every_innerGraph template hgraph) (h.innerGraph hroot))
  have hencoding : (host.withRegistries injected processWide).markupEncoding template' =
      host.markupEncoding template := by
    rw [markupEncoding, markupEncoding, widgetMarkup_withRegistries hinjected hprocessWide,
      nestingBound_endTagged hinjected hprocessWide h, h.config]
  rw [html, html, hencoding]
  exact hrender _

end Templates

/-- End tags change no rendering of a template, and no warning, if there were no closing tags in
its graph, in its partials and in the registry it shares.  Only where a root element is left out,
in the markup of a view whose component has a parent, this element must not get one. -/
theorem renderings_endTagged {host : Host} {injected processWide : Partials}
    {template template' : Template}
    (hinjected : Partials.MayEnd host.injected injected)
    (hprocessWide : Partials.MayEnd host.processWide processWide)
    (hregistry : Partials.tagFree (host.registry template.registry) = true)
    (hpartials : Partials.tagFree template.partials = true)
    (hgraph : Graph.tagFree template.graph = true)
    (h : template.EndTagged template') (data : Json) :
    (host.withRegistries injected processWide).tree template' data = host.tree template data ∧
      (host.withRegistries injected processWide).fragment template' data =
        host.fragment template data ∧
      ((host.isNested template = true →
          Graph.EndTagged (host.innerGraph template) (host.innerGraph template')) →
        (host.withRegistries injected processWide).html template' data =
          host.html template data) := by
  have hscript := scriptOf_endTagged hinjected hprocessWide hregistry hpartials h data hgraph
    h.graph
  exact ⟨render_eq_of_runsAs .tree h.config hscript,
    fragment_endTagged hinjected hprocessWide hregistry hpartials h hgraph data,
    fun hroot => html_endTagged hinjected hprocessWide hregistry hpartials h hgraph hroot data⟩

/-! ## A menu -/

/-- A menu with an entry for each item, an element in its title and a hint after the items.  The
elements get tags behind all else. -/
def menu (tagsFor : String → Graph) : Template :=
  .ofGraph
    [.element ⟨"ul",
      [⟨"title", .mixed [.element ⟨"b", [], [.reference ⟨"name"⟩] ++ tagsFor "B", false⟩]⟩],
      [.sectionBlock ⟨"items"⟩
          [.element ⟨"li", [], [.interpolator ⟨"."⟩] ++ tagsFor "Li", false⟩],
        .partialRef "hint" []] ++ tagsFor "UL", false⟩]
    [] .injected {}

/-- A host whose registry binds the hint. -/
def menuHost (tagsFor : String → Graph) : Host :=
  empty.withRegistries [⟨"hint", [.element ⟨"p", [], [.text "none"] ++ tagsFor "P", false⟩], []⟩] []

/-- No tag. -/
def noTag (_ : String) : Graph := []

/-- An end tag. -/
def endTag (tag : String) : Graph := [.closingTag none tag]

theorem endTagged_menu : (menu noTag).EndTagged (menu endTag) where
  graph := by
    have hmark : Graph.EndTagged [.element ⟨"b", [], [.reference ⟨"name"⟩], false⟩]
        [.element ⟨"b", [], [.reference ⟨"name"⟩] ++ endTag "B", false⟩] :=
      .cons (.element (.ended "b" false (by decide +kernel) .nil (.refl _))) .nil
    have hentry : Graph.EndTagged [.element ⟨"li", [], [.interpolator ⟨"."⟩], false⟩]
        [.element ⟨"li", [], [.interpolator ⟨"."⟩] ++ endTag "Li", false⟩] :=
      .cons (.element (.ended "li" false (by decide +kernel) .nil (.refl _))) .nil
    exact .cons (.element (.ended "ul" false (by decide +kernel)
      (.cons "title" (.mixed hmark) .nil)
      (.cons (.sectionBlock _ hentry) (.cons (.same _) .nil)))) .nil
  partials := .nil
  registry := rfl
  config := rfl
  component := rfl

theorem endTagged_menuHost :
    Partials.EndTagged (menuHost noTag).injected (menuHost endTag).injected :=
  .cons (.mk "hint" (.cons (.element (.ended "p" false (by decide +kernel) .nil (.refl _))) .nil)
    .nil) .nil

/-- A list of two items. -/
def menuData : Json :=
  .object [("items", .array [.string "x", .string "y"]), ("name", .string "n")]

/-- The menu with all end tags comes out as the one without. -/
theorem html_menu :
    ((menuHost endTag).html (menu endTag) menuData).value =
        "<ul title=\"&lt;b&gt;n&lt;/b&gt;\"><li>x</li><li>y</li><p>none</p></ul>" ∧
      ((menuHost endTag).html (menu endTag) menuData).log = .empty := by
  have hinjected : Partials.MayEnd (menuHost noTag).injected (menuHost endTag).injected :=
    .ended (by decide +kernel) endTagged_menuHost
  have hnested : (menuHost noTag).isNested (menu noTag) = false := rfl
  have hsame := (renderings_endTagged hinjected (.same []) (by decide +kernel) rfl
    (by decide +kernel) endTagged_menu menuData).2.2 fun htrue => by
      rw [hnested] at htrue
      cases htrue
  have hhost : (menuHost noTag).withRegistries (menuHost endTag).injected [] = menuHost endTag :=
    rfl
  rw [hhost] at hsame
  rw [hsame]
  decide +kernel

/-! ## The root element of a view -/

/-- An entry that has been put into a list. -/
def listEntry : Component := { Component.ofView "entry" "li" .null with parent := some ⟨0⟩ }

/-- A host with the list and its entry. -/
def listHost : Host :=
  ⟨[(⟨0⟩, { Component.ofView "list" "ul" .null with children := [("entry", ⟨1⟩)] }),
      (⟨1⟩, listEntry)], 2, [], []⟩

/-- A paragraph as the view of the entry. -/
def entryView (tagsFor : String → Graph) : Template :=
  (listHost.attachView ⟨1⟩ listEntry ⟨"ComponentWidget", 0⟩
    (.ofGraph [.element ⟨"p", [], [.text "x"] ++ tagsFor "p", false⟩] [] .injected {})).value

/-- In the markup of the view the paragraph is left out.  Its end tag is not, and makes an empty
paragraph of its own. -/
theorem html_entryView :
    Partials.tagFree (listHost.registry (entryView noTag).registry) = true ∧
      Partials.tagFree (entryView noTag).partials = true ∧
      Graph.tagFree (entryView noTag).graph = true ∧
      (entryView noTag).EndTagged (entryView endTag) ∧
      (listHost.html (entryView noTag) .null).value = "x" ∧
      (listHost.html (entryView endTag) .null).value = "x<p></p>" := by
  have hended : (entryView noTag).EndTagged (entryView endTag) :=
    { graph := .cons (.element (.ended "p" true (by decide +kernel) .nil (.refl [.text "x"]))) .nil
      partials := .nil
      registry := rfl
      config := rfl
      component := rfl }
  exact ⟨rfl, rfl, by decide +kernel, hended, by decide +kernel, by decide +kernel⟩

end Host

end Stencil
