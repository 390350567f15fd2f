import Stencil.Proofs.Assembly.Logs
import Stencil.Proofs.Script.Limited

/-!
# How deep partials may be nested

The configuration of a template limits how deep partials may be nested.  However they refer to
one another, a rendering comes to an end and has no more of them open than that.  Where no
warning says that the limit was exceeded, it has no bearing on what comes out.

* `Template.nestingTo` — a template with another limit.
* `Host.render_nestingTo` — any rendering of a graph, with a larger limit.
* `Host.limited` — both for markup, trees and fragments.
-/

namespace Stencil

variable {ω α : Type}

/-- A template whose partials may be nested to another depth. -/
def Template.nestingTo (template : Template) (limit : Nat) : Template :=
  template.withConfig { template.config with maxPartialDepth := limit }

theorem Warning.Acyclic.mono {some all : List Warning} (h : Acyclic all) (hsub : some ⊆ all) :
    Acyclic some := by
  rw [Acyclic, ofKind, List.filter_eq_nil_iff] at h ⊢
  exact fun warning hmem => h warning (hsub hmem)

namespace Host

variable {host : Host} {template : Template} {graph : Graph} {data : Json} {more : Nat}

/-- If no partial is nested too deep, the script is the same with a larger limit. -/
theorem scriptOf_nestingTo (hle : template.config.maxPartialDepth ≤ more)
    (h : Warning.Acyclic (Script.warnings (host.scriptOf template graph data))) :
    host.scriptOf (template.nestingTo more) graph data = host.scriptOf template graph data :=
  (PartialBody.widens_walk (host.registry template.registry) template.config.maxPartialDepth more
    _ _ ⟨graph, template.partials⟩ hle).steps (.ofData data) h

/-- So is any rendering of a graph. -/
theorem render_nestingTo (encoding : Encoding ω α)
    (hle : template.config.maxPartialDepth ≤ more)
    (h : Warning.Acyclic (host.render encoding template graph data).log.warnings) :
    host.render encoding (template.nestingTo more) graph data =
      host.render encoding template graph data := by
  have hscript := scriptOf_nestingTo hle
    (h.mono (host.warnings_subset_render encoding template graph data))
  rw [render, render, hscript]
  rfl

/-- The script of a graph is made to its end, and a run of it never has more partials open than
the limit allows.  If none of its warnings is about partials nested too deep, all larger limits
give the same output and the same warnings. -/
theorem limited (host : Host) (template : Template) (data : Json) :
    (∀ {ω α : Type} (encoding : Encoding ω α) (graph : Graph), ∃ script,
      interpret template.config (host.registry template.registry) ⟨graph, template.partials⟩ data =
        (script, .ofData data) ∧
      ∀ assembly ∈ Script.states (Assembly.sink encoding) script (.start template.config.startId),
        assembly.openPartials ≤ template.config.maxPartialDepth) ∧
    ∀ more, template.config.maxPartialDepth ≤ more →
      (Warning.Acyclic (host.html template data).log.warnings →
        host.html (template.nestingTo more) data = host.html template data) ∧
      (Warning.Acyclic (host.outerHtml template data).log.warnings →
        host.outerHtml (template.nestingTo more) data = host.outerHtml template data) ∧
      (Warning.Acyclic (host.tree template data).log.warnings →
        host.tree (template.nestingTo more) data = host.tree template data) ∧
      (Warning.Acyclic (host.fragment template data).log.warnings →
        host.fragment (template.nestingTo more) data = host.fragment template data) ∧
      ∀ {ω α : Type} (encoding : Encoding ω α) (graph : Graph),
        Warning.Acyclic (host.render encoding template graph data).log.warnings →
          host.render encoding (template.nestingTo more) graph data =
            host.render encoding template graph data := by
  refine ⟨fun encoding graph => ⟨host.scriptOf template graph data, ?_, ?_⟩,
    fun more hle => ⟨render_nestingTo _ hle, render_nestingTo _ hle, render_nestingTo _ hle, ?_,
      fun encoding _ => render_nestingTo encoding hle⟩⟩
  · exact Prod.ext rfl (PartialBody.walk_steady _ _ _ _ (.ofData data))
  · exact openPartials_interpret encoding _ _ _ data _
  · intro h
    rw [fragment, Logged.log_bind, Logged.log_pure, Log.append_empty] at h
    exact congrArg (· >>= fun fragment => pure (host.mounted template fragment))
      (render_nestingTo _ hle h)

/-- A host whose registry binds a list, whose items may hold such lists again. -/
def nestedLists : Host :=
  empty.register .injected "list"
    ⟨[.sectionBlock ⟨"items"⟩ [.element ⟨"li", [], [.interpolator ⟨"name"⟩, .partialRef "list" []],
      false⟩]], []⟩

/-- A template that shows a list, down to the items within the items. -/
def listsWithin : Template :=
  .ofGraph [.partialRef "list" []] [] .injected { maxPartialDepth := 3 }

/-- An item that holds another one. -/
def nestedItems : Json :=
  .object [("items", .array [.object [("name", .string "a"), ("items", .array
    [.object [("name", .string "b"), ("items", .array [])]])]])]

/-- The partial refers to itself, but the items end before the limit is exceeded. -/
theorem html_listsWithin :
    (nestedLists.html listsWithin nestedItems).log.warnings = [] ∧
      (nestedLists.html (listsWithin.nestingTo 64) nestedItems).value =
        "<li>a<li>b</li></li>" := by
  have hlarger := ((nestedLists.limited listsWithin nestedItems).2 64 (by decide)).1
  have hvalue : (nestedLists.html listsWithin nestedItems).value = "<li>a<li>b</li></li>" := by
    decide +kernel
  have hwarnings : (nestedLists.html listsWithin nestedItems).log.warnings = [] := by
    decide +kernel
  refine ⟨hwarnings, ?_⟩
  rw [hlarger (by rw [hwarnings]; rfl), hvalue]

end Host

end Stencil
