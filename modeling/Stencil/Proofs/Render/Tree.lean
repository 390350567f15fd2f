import Stencil.Host.Render
import Stencil.Proofs.Render.Direct
import Stencil.Proofs.Script.TagFree

/-!
# The tree of a template without closing tags

A template from which no closing tag can be reached is rendered frame by frame, and each
frame is closed by its own request alone.  The builder, with its stack of frames, their
addresses and the closes that are still to come, then makes the same tree as a recursion
over the graph.

* `Assembly.value_output`, `Host.value_render` — what a rendering finishes with.
* `Host.tree_eq_direct` — the tree of a template is what its graph shows.
-/

namespace Stencil

/-- Whether a graph holds no closing tag, also within attribute values. -/
def Graph.tagFree (graph : Graph) : Bool := Graph.every Node.isNoTag Node.isNoTag graph

/-- Whether partials, and the partials of their own, hold no closing tag. -/
def Partials.tagFree (partials : Partials) : Bool :=
  Binding.everyAll Node.isNoTag Node.isNoTag partials

/-- An assembly that a script without closing tags has been run on from the start has no
frame open, and holds the pieces of the script. -/
theorem Assembly.run_start {α : Type} {encoding : Encoding Widget α} (keeps : encoding.Keeps)
    {script : Script} (htags : Script.tagFree script = true) (startId : String) :
    (Script.run (Assembly.sink encoding) script (.start startId)).stack = [] ∧
      (Script.run (Assembly.sink encoding) script (.start startId)).results.reverse =
        Piece.joined (Script.pieces script) := by
  obtain ⟨-, hcontents⟩ :=
    Script.contents_run keeps script htags _ _ (Assembly.tidy_start startId)
  have hstart : (Assembly.start startId : Assembly Widget).contents = ⟨[], []⟩ := rfl
  rw [hstart, Contents.placeAll_nil] at hcontents
  simp only [contents, Contents.mk.injEq, List.map_eq_nil_iff] at hcontents
  refine ⟨hcontents.1, ?_⟩
  rw [hcontents.2]
  rfl

/-- The output of a script without closing tags is made from its pieces. -/
theorem Assembly.value_output {α : Type} {encoding : Encoding Widget α} (keeps : encoding.Keeps)
    {script : Script} (htags : Script.tagFree script = true) (startId : String) :
    ((Script.run (Assembly.sink encoding) script (.start startId)).output encoding).1 =
      (encoding.finish (Piece.joined (Script.pieces script))).value := by
  obtain ⟨hstack, hresults⟩ := Assembly.run_start keeps htags startId
  simp only [Assembly.output, Assembly.closeAll, hstack, List.foldl_nil, hresults]

namespace Host

variable {α : Type}

theorem value_render (host : Host) {encoding : Encoding Widget α} (keeps : encoding.Keeps)
    (template : Template) (graph : Graph) (data : Json)
    (htags : Script.tagFree (host.scriptOf template graph data) = true) :
    (host.render encoding template graph data).value =
      (encoding.finish
        (Piece.joined (Script.pieces (host.scriptOf template graph data)))).value :=
  Assembly.value_output keeps htags template.config.startId

/-- The tree of a template without closing tags is what its graph shows: neither the frames
on the builder's stack nor their addresses leave a mark on it. -/
theorem tree_eq_direct (host : Host) (template : Template) (data : Json)
    (hgraph : Graph.tagFree template.graph = true)
    (hpartials : Partials.tagFree template.partials = true)
    (hregistry : Partials.tagFree (host.registry template.registry) = true) :
    (host.tree template data).value =
      .ofPieces (Piece.merged
        (template.body.direct (host.registry template.registry) template.config.maxPartialDepth
          (.ofData data))) := by
  have hwalk := PartialBody.walk_tagFree (host.registry template.registry)
    template.config.maxPartialDepth template.config.maxPartialDepth template.body
    fun reached hreached => (hreached.every hgraph hpartials hregistry).1
  have hkeeps : Encoding.tree.Keeps := ⟨fun _ => rfl, fun _ => rfl⟩
  have hrender := host.value_render hkeeps template template.graph data (hwalk (.ofData data))
  have hpieces : Script.pieces (host.scriptOf template template.graph data) =
      template.body.direct (host.registry template.registry) template.config.maxPartialDepth
        (.ofData data) := template.body.pieces_steps _ _ _ _
  have hsettled := template.body.direct_settled (host.registry template.registry)
    template.config.maxPartialDepth (.ofData data)
  rw [tree, hrender, hpieces, hsettled.joined_eq]
  rfl

/-- A list with a partial after its items. -/
def listTemplate : Template :=
  .ofGraph
    [.element ⟨"ul", [⟨"class", .mixed [.text "a ", .interpolator ⟨"kind"⟩]⟩],
      [.sectionBlock ⟨"items"⟩ [.element ⟨"li", [], [.interpolator ⟨"."⟩, .text "!"], false⟩],
        .partialRef "row" [], .partialRef "gone" [.text "z"]], false⟩]
    [⟨"row", [.text "x", .text "y"], []⟩] .injected {}

/-- Two items, and the class of their list. -/
def listData : Json :=
  .object [("items", .array [.string "p", .string "q"]), ("kind", .string "k")]

theorem tree_listTemplate :
    (empty.tree listTemplate listData).value =
      .ofPieces
        [.element "ul" [⟨"class", some "a k"⟩]
          (some
            [.block .ofSection
                (some [.element "li" [] (some [.text "p!"]), .element "li" [] (some [.text "q!"])]),
              .block (.ofPartial "row") (some [.text "xy"]), .text "z"])] := by
  have hdirect := empty.tree_eq_direct listTemplate listData rfl rfl rfl
  rw [hdirect]
  rfl

end Host

end Stencil
