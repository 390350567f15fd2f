import Stencil.Host.Attach
import Stencil.Proofs.Render.Nesting
import Stencil.Proofs.Render.Tree
import Stencil.Proofs.Template.Attach

/-!
# Attached graphs are rendered as the graphs they come from

Attaching looks ahead: it puts in the children of a component and expands the partials
before there are any data.  What an attached graph is rendered to is what the graph itself
comes to when it is interpreted with the children put in on the way, and where no element
makes place for a child, attaching makes no difference at all.

* `Host.fragmentMatching` — a graph interpreted with the children put in on the way.
* `Host.htmlWith_attached` — the attached graph is rendered to the same markup.
-/

namespace Stencil

namespace Host

/-- The script of a graph with the children of a component put in on the way. -/
def scriptMatching (host : Host) (component : Component) (wrapper : Wrapper)
    (registry : RegistryName) (config : Config) (body : PartialBody) (data : Json) : Script :=
  (host.attachment component wrapper registry config).interpret body data

/-- A graph as a fragment, with the children of a component put in on the way.  Each widget
shows what it shows by itself. -/
def fragmentMatching (host : Host) (component : Component) (wrapper : Wrapper)
    (registry : RegistryName) (config : Config) (body : PartialBody) (data : Json) :
    Logged Fragment :=
  let encoding : Encoding Widget Fragment := .fragment fun widget => do
    let fragment ← host.fragmentOf widget
    return fragment.nodes
  let script := host.scriptMatching component wrapper registry config body data
  let assembly := Script.run (Assembly.sink encoding) script (.start config.startId)
  let (value, assembly) := assembly.output encoding
  ⟨value, assembly.log⟩

/-- What pieces are shown as, with what each widget shows by itself. -/
def shownPieces (host : Host) (voids : List String) (pieces : List (Piece Widget)) : Shown :=
  Piece.shownAll voids (fun widget => (host.fragmentOf widget).value.nodes) pieces

theorem shownPieces_joined (host : Host) (voids : List String) (pieces : List (Piece Widget)) :
    host.shownPieces voids (Piece.joined pieces) = host.shownPieces voids pieces := by
  rw [shownPieces, shownPieces, Piece.shownAll_eq_total, Piece.shownAll_eq_total,
    (Piece.reading_shown voids _).total_joined]

variable {host : Host}

/-- The markup of an unbound template without closing tags is that of the pieces of its
script. -/
theorem htmlWith_fragment_eq {template : Template} (hunbound : template.component = none)
    {data : Json} (htags : Script.tagFree (host.scriptOf template template.graph data) = true)
    (hfinishes : ∀ w ∈ Piece.widgetsAll (Script.pieces
      (host.scriptOf template template.graph data)), host.Finishes w)
    (voids : List String) :
    (host.fragment template data).value.htmlWith voids =
      (host.shownPieces voids
        (Script.pieces (host.scriptOf template template.graph data))).html := by
  have hpieces : (host.tree template data).value.pieces =
      Piece.joined (Script.pieces (host.scriptOf template template.graph data)) := by
    rw [tree, host.value_render Encoding.keeps_tree template template.graph data htags]
    exact Tree.pieces_ofPieces _
  have hwidgets : Piece.widgetsAll (host.tree template data).value.pieces =
      Piece.widgetsAll (Script.pieces (host.scriptOf template template.graph data)) := by
    rw [hpieces, Piece.widgetsAll_eq_total, Piece.widgetsAll_eq_total,
      Piece.reading_widgets.total_joined]
  rw [← hwidgets] at hfinishes
  rw [htmlWith_fragment hunbound data hfinishes voids, hpieces, ← shownPieces,
    shownPieces_joined]

section Attached

variable {component : Component} {wrapper : Wrapper} {registry : RegistryName} {config : Config}
  {body : PartialBody} {data : Json}

theorem htmlWith_fragmentMatching
    (htags : Script.tagFree
      (host.scriptMatching component wrapper registry config body data) = true)
    (voids : List String) :
    (host.fragmentMatching component wrapper registry config body data).value.htmlWith voids =
      (host.shownPieces voids (Script.pieces
        (host.scriptMatching component wrapper registry config body data))).html := by
  have hkeeps : ∀ showWidget, (Encoding.fragment showWidget).Keeps :=
    fun _ => ⟨fun _ => rfl, fun _ => rfl⟩
  have hvalue := Assembly.value_output (hkeeps fun widget => do
    let fragment ← host.fragmentOf widget
    return fragment.nodes) htags config.startId
  rw [← shownPieces_joined]
  exact (congrArg (·.htmlWith voids) hvalue).trans (Fragment.htmlWith_ofPieces voids _ _)

/-- The script of the attached graph is that of the graph with the children put in on the
way, with the partials opened up. -/
theorem unwraps_scriptMatching
    (hevery : ∀ reached, body.Reaches (host.registry registry) reached →
      Graph.every Node.isAttachable Node.isNoTag reached.graph = true)
    (hattach : Warning.Acyclic
      (host.attachGraph component wrapper registry config body).log.warnings)
    (hinterpret : Warning.Acyclic (Script.warnings
      (host.scriptMatching component wrapper registry config body data))) (graph : Graph)
    (hgraph : graph = (host.attachGraph component wrapper registry config body).value) :
    Script.Unwraps (host.scriptMatching component wrapper registry config body data)
      (host.scriptOf (.ofGraph graph body.partials registry config) graph data) := by
  obtain ⟨around, hsteady, hwalk⟩ := PartialBody.walk_around (host.registry registry)
    config.maxPartialDepth config.maxPartialDepth body.partials
  have hscript : host.scriptOf (.ofGraph graph body.partials registry config) graph data =
      (Graph.walk around graph).steps (.ofData data) := by
    rw [← hwalk graph]
    rfl
  rw [hscript, hgraph]
  exact Attachment.unwraps_attach hsteady hevery hattach hinterpret

/-- Where no element makes place for a child, putting in the children on the way is plain
interpreting. -/
theorem scriptMatching_of_leaves {value : Node → Bool} (data : Json)
    (hleaves : ∀ reached, body.Reaches (host.registry registry) reached →
      Graph.every (host.attachment component wrapper registry config).leaves value
        reached.graph = true) :
    host.scriptMatching component wrapper registry config body data =
      host.scriptOf (.ofGraph body.graph body.partials registry config) body.graph data := by
  have hwalk : body.walkMatching (host.attachment component wrapper registry config)
        config.maxPartialDepth =
      body.walk (host.registry registry) config.maxPartialDepth config.maxPartialDepth :=
    PartialBody.walkMatching_of_leaves config.maxPartialDepth body hleaves
  exact congrArg (Walk.steps · (.ofData data)) hwalk

end Attached

/-- An attached graph is rendered to the markup of the graph itself, interpreted with the
children of the component put in on the way.  Where no element makes place for a child, that
is the markup of the graph as it was. -/
theorem htmlWith_attached (host : Host) (component : Component) (wrapper : Wrapper)
    (registry : RegistryName) (config : Config) (body : PartialBody) (data : Json)
    (hevery : ∀ reached, body.Reaches (host.registry registry) reached →
      Graph.every Node.isAttachable Node.isNoTag reached.graph = true)
    (hattach : Warning.Acyclic
      (host.attachGraph component wrapper registry config body).log.warnings)
    (hinterpret : Warning.Acyclic (Script.warnings
      (host.scriptMatching component wrapper registry config body data)))
    (hfinishes : ∀ w ∈ Piece.widgetsAll (Script.pieces
      (host.scriptMatching component wrapper registry config body data)), host.Finishes w) :
    (host.fragment
        (.ofGraph (host.attachGraph component wrapper registry config body).value body.partials
          registry config) data).value.htmlWith config.voidElements =
      (host.fragmentMatching component wrapper registry config body data).value.htmlWith
        config.voidElements ∧
    ((∀ reached, body.Reaches (host.registry registry) reached →
        Graph.every (host.attachment component wrapper registry config).leaves (fun _ => true)
          reached.graph = true) →
      (host.fragment
          (.ofGraph (host.attachGraph component wrapper registry config body).value body.partials
            registry config) data).value.htmlWith config.voidElements =
        (host.fragment (.ofGraph body.graph body.partials registry config) data).value.htmlWith
          config.voidElements) := by
  have hunwraps := unwraps_scriptMatching hevery hattach hinterpret _ rfl
  obtain ⟨htags, htags'⟩ := hunwraps.tagFree
  have hwidgets := hunwraps.total_pieces Piece.reading_widgets
  rw [← Piece.widgetsAll_eq_total, ← Piece.widgetsAll_eq_total] at hwidgets
  have hshown := hunwraps.total_pieces (Piece.reading_shown config.voidElements
    fun widget => (host.fragmentOf widget).value.nodes)
  rw [← Piece.shownAll_eq_total, ← Piece.shownAll_eq_total] at hshown
  have hattached := htmlWith_fragment_eq rfl htags' (hwidgets ▸ hfinishes) config.voidElements
  have hmarkup := hattached.trans (congrArg Shown.html hshown.symm)
  refine ⟨hmarkup.trans (htmlWith_fragmentMatching htags _).symm, fun hleaves => ?_⟩
  have hplain := scriptMatching_of_leaves data hleaves
  rw [hplain] at htags hfinishes hmarkup
  exact hmarkup.trans (htmlWith_fragment_eq rfl htags hfinishes config.voidElements).symm

/-- A host with a child that has a view and one that has none. -/
def slotHost : Host :=
  ⟨[(⟨0⟩, { Component.ofView "shown" "i" (.object [("n", .string "v")]) with
        view := some (.ofGraph [.element (.ofChildren "i" [.interpolator ⟨"n"⟩])] []
          .injected {}) }),
      (⟨1⟩, Component.ofView "bare" "b" (.object [("n", .string "w")]))], 2, [], []⟩

/-- A component with both children. -/
def slotComponent : Component := .ofChildren "list" [("slot", ⟨0⟩), ("own", ⟨1⟩)]

/-- A list that makes place for one child itself, and for the other within a partial of a
partial. -/
def slotBody : PartialBody :=
  ⟨[.element ⟨"ul", [],
      [.sectionBlock ⟨"items"⟩
        [.element ⟨"li", [⟨"class", .literal "slot"⟩], [.interpolator ⟨"."⟩], false⟩,
          .partialRef "row" []]], false⟩],
    [⟨"row", [.text "-", .partialRef "cell" [.text "z"]],
      [⟨"cell", [.element ⟨"b", [⟨"class", .literal "own"⟩], [.interpolator ⟨"n"⟩], false⟩], []⟩]⟩]⟩

/-- Two items, and a name that the children do not see. -/
def slotData : Json :=
  .object [("items", .array [.string "p", .string "q"]), ("n", .string "x")]

/-- What shows a child. -/
def slotWrapper : Wrapper := ⟨"Child", 0⟩

/-- The children of the list show in both places, each with its own data; a child that no
class selects leaves the list as it is. -/
theorem htmlWith_attached_slots :
    (slotHost.fragment
        (.ofGraph (slotHost.attachGraph slotComponent slotWrapper .injected {} slotBody).value
          slotBody.partials .injected {}) slotData).value.htmlWith ({} : Config).voidElements =
      "<ul><i>v</i>-<b class=\"own\">w</b><i>v</i>-<b class=\"own\">w</b></ul>" ∧
    (slotHost.fragment
        (.ofGraph (slotHost.attachGraph (.ofChildren "list" [("other", ⟨0⟩)]) slotWrapper
          .injected {} slotBody).value slotBody.partials .injected {}) slotData).value.htmlWith
          ({} : Config).voidElements =
      "<ul><li class=\"slot\">p</li>-<b class=\"own\">x</b>" ++
        "<li class=\"slot\">q</li>-<b class=\"own\">x</b></ul>" := by
  have hevery : ∀ reached, slotBody.Reaches (slotHost.registry .injected) reached →
      Graph.every Node.isAttachable Node.isNoTag reached.graph = true :=
    fun reached hreached => (hreached.every rfl rfl rfl).1
  have hselected := slotHost.htmlWith_attached slotComponent slotWrapper .injected {} slotBody
    slotData hevery (by decide +kernel) (by decide +kernel)
    (finishes_of_all 1 (by decide +kernel))
  have hother := slotHost.htmlWith_attached (.ofChildren "list" [("other", ⟨0⟩)]) slotWrapper
    .injected {} slotBody slotData hevery (by decide +kernel) (by decide +kernel)
    (finishes_of_all 1 (by decide +kernel))
  refine ⟨hselected.1.trans (by decide +kernel), (hother.2 ?_).trans (by decide +kernel)⟩
  exact fun reached hreached => (hreached.every (by decide +kernel) (by decide +kernel) rfl).1

end Host

end Stencil
