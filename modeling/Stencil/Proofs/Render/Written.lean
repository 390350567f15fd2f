import Stencil.Proofs.Render.Nesting
import Stencil.Proofs.Script.Written

/-!
# Markup and fragments of templates

A template can be rendered as markup, or as a fragment that is then written as markup.  The
first writes each element when it is closed; the second makes a tree, opens its blocks, joins
text across them, and writes the nodes.  Both come out the same for a template whose nodes
stand where they may, whatever its closing tags do.

* `Host.html_eq_fragment` — the markup of a template is that of its fragment.
-/

namespace Stencil.Host

variable (host : Host) (template : Template) (data : Json)

/-- The fragment of a template that is bound to no component is made from its tree. -/
theorem fragment_of_unbound (hunbound : host.componentOf? template = none) (voids : List String) :
    (host.fragment template data).value.htmlWith voids =
      (Piece.shownAll voids
        (fun w => (host.widgetNodes (host.nestingBound template) w).value)
        (host.tree template data).value.pieces).html := by
  have hmounted : ∀ fragment, host.mounted template fragment = fragment := by
    intro fragment
    simp [mounted, isTopLevel, hunbound]
  rw [fragment, Logged.value_bind, Logged.value_pure, hmounted, render_fragment,
    Logged.value_bind, Logged.value_bind, Logged.value_pure, Fragment.htmlWith_ofPieces]

/-- Whatever its closing tags do, a template comes out the same as markup and as a fragment that
is written as markup.  Its attribute values are made of text, bound values, blocks and partials
of such, its void elements have no children, and there are no widgets, wherever its rendering
can get to. -/
theorem html_eq_fragment (hunbound : host.componentOf? template = none)
    (hplaced : template.body.WellPlaced template.config.voidElements
      (host.registry template.registry)) :
    (host.html template data).value =
      (host.fragment template data).value.htmlWith template.config.voidElements := by
  have hscript : Script.isPlaced template.config.voidElements
      (host.scriptOf template template.graph data) = true :=
    (template.body.walk_places _ _).2 hplaced (.ofData data)
  have hinner : host.innerGraph template = template.graph := by
    simp [innerGraph, isNested, hunbound]
  rw [host.fragment_of_unbound template data hunbound, html, hinner]
  exact Script.output_written hscript _ _ template.config.startId

/-! ## A list closed across -/

/-- Part of an attribute value. -/
def toneBinding : Binding :=
  ⟨"tone", [.unlessBlock ⟨"plain"⟩ [.text "\"", .reference ⟨"tone"⟩]], []⟩

/-- A void element, and a tag with the address of the list around. -/
def ruleBinding : Binding :=
  ⟨"rule",
    [.element ⟨"HR", [⟨"id", .literal "x"⟩, ⟨"hidden", .empty⟩], [], false⟩,
      .closingTag (some "0") "ul", .text "<z"], []⟩

/-- A list that is closed within its items, with a partial in its title and one after them. -/
def crossedList : Template :=
  .ofGraph
    [.element ⟨"ul", [⟨"title", .mixed [.text "a<", .partialRef "tone" []]⟩],
        [.sectionBlock ⟨"items"⟩
            [.element ⟨"li", [], [.interpolator ⟨"."⟩, .closingTag none "UL", .text "&"], false⟩],
          .partialRef "rule" []], false⟩,
      .closingTag none "p", .text "end"]
    [toneBinding, ruleBinding] .injected {}

/-- Two items. -/
def crossedData : Json :=
  .object [("items", .array [.string "p<", .string "q"]), ("tone", .string "k&")]

/-- The bodies that the list gets to are its own and those of its two partials. -/
theorem reaches_crossedList {reached : PartialBody}
    (h : crossedList.body.Reaches [] reached) :
    reached = crossedList.body ∨ reached = toneBinding.body ∨ reached = ruleBinding.body := by
  induction h with
  | start => exact .inl rfl
  | @step reached inner name _ hname hresolve ih =>
    rcases ih with rfl | rfl | rfl
    · have hnames : name = "tone" ∨ name = "rule" := by
        simpa [crossedList, Template.body, Template.ofGraph, Graph.references, Node.references,
          Element.references, Attribute.references, AttributeValue.references] using hname
      rcases hnames with rfl | rfl
      · exact .inr (.inl (Option.some.inj hresolve).symm)
      · exact .inr (.inr (Option.some.inj hresolve).symm)
    · simp [toneBinding, Binding.body, Graph.references, Node.references] at hname
    · simp [ruleBinding, Binding.body, Graph.references, Node.references, Element.references,
        Attribute.references, AttributeValue.references] at hname

theorem wellPlaced_crossedList :
    crossedList.body.WellPlaced crossedList.config.voidElements [] where
  parts := by
    intro reached hreached
    rcases reaches_crossedList hreached with rfl | rfl | rfl <;> decide +kernel
  values := by
    intro reached hreached name hname inner hresolve
    rcases reaches_crossedList hreached with rfl | rfl | rfl
    · have hname : name = "tone" := by
        simpa [crossedList, Template.body, Template.ofGraph, Graph.valueReferences,
          Node.valueReferences, Element.valueReferences, Attribute.references,
          AttributeValue.references, Graph.references, Node.references] using hname
      subst hname
      obtain rfl := (Option.some.inj hresolve).symm
      exact fun innermost hinnermost => (hinnermost.every (by decide +kernel) rfl rfl).1
    · simp [toneBinding, Binding.body, Graph.valueReferences, Node.valueReferences] at hname
    · simp [ruleBinding, Binding.body, Graph.valueReferences, Node.valueReferences,
        Element.valueReferences, Attribute.references, AttributeValue.references] at hname

theorem html_crossedList :
    (empty.html crossedList crossedData).value =
        "<ul title=\"a&lt;&quot;k&amp;\"><li>p&lt;</li></ul>&amp;<li>q</li>&amp;" ++
          "<HR id=\"x\" hidden>&lt;z<p></p>end" ∧
      (empty.fragment crossedList crossedData).value.htmlWith crossedList.config.voidElements =
        (empty.html crossedList crossedData).value := by
  have hsame := empty.html_eq_fragment crossedList crossedData rfl wellPlaced_crossedList
  exact ⟨by decide +kernel, hsame.symm⟩

end Stencil.Host
