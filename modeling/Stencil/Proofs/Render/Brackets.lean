import Stencil.Proofs.Assembly.Brackets
import Stencil.Proofs.Render.Inner

/-!
# Data cannot break tags

Where no value is shown as markup, the angle brackets in the markup of a template do not
depend on what the strings in the data say: neither by way of text, attributes, blocks,
partials nor compound values can data add a tag or a comment, take one away or break one.

* `Host.brackets_html` — the markup for data that resemble each other has the same brackets.
-/

namespace Stencil.Host

/-- Whatever the non-empty strings in the data say, the markup of a template has the same angle
brackets in the same order, if no value that can be reached is shown as markup. -/
theorem brackets_html (host : Host) (template : Template) {data data' : Json}
    (hdata : data.resembles data' = true)
    (htext : ∀ reached, template.body.Reaches (host.registry template.registry) reached →
      Graph.every Node.isNoTriple Node.isNoTriple reached.graph = true) :
    Text.brackets (host.html template data).value =
      Text.brackets (host.html template data').value := by
  have hwalk := PartialBody.walk_uniform _ template.config.maxPartialDepth
    template.config.maxPartialDepth _ (host.every_of_reaches_innerGraph template htext)
  have hscript : Script.SameButText
      (host.scriptOf template (host.innerGraph template) data)
      (host.scriptOf template (host.innerGraph template) data') :=
    hwalk.2 _ _ (Scopes.ofData_resemble hdata)
  have hstart := Assembly.sameBrackets_start template.config.voidElements template.config.startId
  exact (hstart.run _ hscript).output _

/-! ## A greeting -/

/-- A name in an attribute, there also within an element, and in a partial within a section;
the paragraph is closed twice. -/
def greeting : Template :=
  .ofGraph
    [.element ⟨"p",
      [⟨"title", .mixed
        [.interpolator ⟨"name"⟩, .element ⟨"b", [], [.reference ⟨"name"⟩], false⟩]⟩],
      [.sectionBlock ⟨"name"⟩ [.partialRef "shout" [], .element ⟨"br", [], [], false⟩],
        .closingTag none "P", .interpolator ⟨"."⟩], false⟩]
    [⟨"shout", [.interpolator ⟨"name"⟩, .text "!"], []⟩] .injected {}

/-- The data for a greeting. -/
def greetingData (name : String) : Json := .object [("name", .string name)]

/-- The greeting gets to itself and to its partial. -/
theorem reaches_greeting {reached : PartialBody} (h : greeting.body.Reaches [] reached) :
    Graph.every Node.isNoTriple Node.isNoTriple reached.graph = true :=
  (h.every (by decide +kernel) (by decide +kernel) rfl).1

theorem brackets_greeting :
    (empty.html greeting (greetingData "<i>")).value =
        "<p title=\"&lt;i&gt;&lt;b&gt;&amp;lt;i&amp;gt;&lt;/b&gt;\">&lt;i&gt;!<br></p>" ++
          "\x7b\"name\":\"&lt;i&gt;\"\x7d" ∧
      Text.brackets (empty.html greeting (greetingData "<i>")).value =
        Text.brackets (empty.html greeting (greetingData "x")).value := by
  have hsame := empty.brackets_html greeting
    (show (greetingData "<i>").resembles (greetingData "x") = true by decide +kernel)
    (fun _ hreached => reaches_greeting hreached)
  exact ⟨by decide +kernel, hsame⟩

end Stencil.Host
