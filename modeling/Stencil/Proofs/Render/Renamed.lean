import Stencil.Proofs.Assembly.Addresses
import Stencil.Proofs.Assembly.Renamed
import Stencil.Proofs.Render.Inner

/-!
# What addresses start with

The configuration of a template says what all addresses in a rendering start with.  Closing
tags may name an address, but where none does, the start of addresses has no bearing on what
comes out, however the tags cross one another.

* `Address.SamePath` — the addresses of one path, with two starts.
* `Logged.SameKinds` — the same value, with warnings of the same kinds.
* `Host.render_startingAt` — any rendering of a graph, with another start.
* `Host.sameKinds_startingAt` — so it is for markup, trees and fragments.
-/

namespace Stencil

variable {ω α : Type} {startId startId' : String}

/-! ## Addresses of one path -/

/-- The addresses of one path, with two starts. -/
def Address.SamePath (startId startId' address address' : String) : Prop :=
  ∃ path, path ≠ [] ∧ address = addressAt startId path ∧ address' = addressAt startId' path

theorem Address.oneToOne_samePath (startId startId' : String) :
    OneToOne (SamePath startId startId') := by
  rintro first first' second second' ⟨path, hpath, rfl, rfl⟩ ⟨other, hother, rfl, rfl⟩
  constructor
  · intro hsame
    rw [addressAt_inj startId hpath hother hsame]
  · intro hsame
    rw [addressAt_inj startId' hpath hother hsame]

/-- Two logs with warnings of the same kinds, in the same order. -/
structure Log.SameKinds (log log' : Log) : Prop where
  kinds : log.warnings.map Warning.kind = log'.warnings.map Warning.kind
  endless : log.endless = log'.endless

namespace Log.SameKinds

variable {log log' : Log}

theorem append (h : log.SameKinds log') (later : Log) : (log ++ later).SameKinds (log' ++ later) :=
  ⟨by simp only [append_def, List.map_append, h.kinds], by simp only [append_def, h.endless]⟩

/-- What a warning says may depend on addresses. -/
theorem warn (h : log.SameKinds log') (kind : WarningKind) (message message' : String) :
    (log.warn ⟨kind, message⟩).SameKinds (log'.warn ⟨kind, message'⟩) :=
  ⟨by simp only [Log.warn, List.map_append, h.kinds, List.map_cons, List.map_nil], h.endless⟩

end Log.SameKinds

/-- Each address of an assembly stands for the one at the same path of the other. -/
theorem Address.renaming_samePath (startId startId' : String) :
    Renaming startId startId' (SamePath startId startId') Log.SameKinds where
  oneToOne := oneToOne_samePath startId startId'
  root := fun index => ⟨[index], by simp, rfl, rfl⟩
  inner := by
    rintro address address' ⟨path, hpath, rfl, rfl⟩ index
    exact ⟨path ++ [index], by simp, (addressAt_inner startId hpath index).symm,
      (addressAt_inner startId' hpath index).symm⟩
  append := fun hlog later => hlog.append later
  stray := fun hlog _ => hlog.warn _ _ _
  mismatch := fun hlog _ _ => hlog.warn _ _ _

/-! ## Scripts whose closing tags name no address -/

/-- A script whose closing tags name no address stands for itself, whatever addresses stand
for each other. -/
theorem Script.parallel_self {sameAddress : String → String → Prop} :
    ∀ script : List Directive, (∀ request ∈ Script.tags script, request.address = none) →
      Script.Parallel sameAddress Eq script script
  | [], _ => .nil
  | .frame kind name body :: rest, htags => by
    obtain ⟨hbody, hrest⟩ := List.forall_mem_append.mp htags
    exact .frame kind name (Script.parallel_self body hbody) (Script.parallel_self rest hrest)
  | .leaf piece :: rest, htags => .leaf rfl (Script.parallel_self rest htags)
  | .closingTag id tag :: rest, htags => by
    obtain ⟨htag, hrest⟩ := List.forall_mem_cons.mp htags
    obtain rfl : id = none := htag
    exact .closingTag ⟨.none, rfl, rfl, rfl⟩ (Script.parallel_self rest hrest)
  | .warning w :: rest, htags => .warning w (Script.parallel_self rest htags)

/-! ## Renderings -/

/-- The same value, with warnings of the same kinds in the same order. -/
structure Logged.SameKinds (one other : Logged α) : Prop where
  value : one.value = other.value
  log : one.log.SameKinds other.log

/-- A template whose addresses start with another text. -/
def Template.startingAt (template : Template) (startId : String) : Template :=
  template.withConfig { template.config with startId }

namespace Host

/-- A rendering of a graph with another start of addresses. -/
theorem render_startingAt (host : Host) (encoding : Encoding ω α) (template : Template)
    (startId : String) (graph : Graph) (data : Json)
    (htags : ∀ request,
      PartialBody.HasTag (host.registry template.registry) ⟨graph, template.partials⟩ request →
        request.address = none) :
    (host.render encoding template graph data).SameKinds
      (host.render encoding (template.startingAt startId) graph data) := by
  have hrenaming := Address.renaming_samePath template.config.startId startId
  have hscript : Script.Parallel (Address.SamePath template.config.startId startId) Eq
      (host.scriptOf template graph data)
      (host.scriptOf (template.startingAt startId) graph data) :=
    Script.parallel_self _ fun request hrequest =>
      htags request (PartialBody.tags_walk _ _ _ _ _ request hrequest)
  have hstart : Assembly.Renamed template.config.startId startId
      (Address.SamePath template.config.startId startId) Log.SameKinds
      (.start template.config.startId : Assembly ω) (.start startId) :=
    Assembly.renamed_start ⟨rfl, rfl⟩
  obtain ⟨hvalue, hleft⟩ := (hstart.run hrenaming encoding hscript).output hrenaming encoding
  exact ⟨hvalue, hleft.log⟩

/-- What addresses start with has no bearing on markup, trees and fragments, nor on the kinds
of warnings, if no closing tag that a rendering can get to names an address. -/
theorem sameKinds_startingAt (host : Host) (template : Template) (startId : String)
    (data : Json)
    (htags : ∀ request, template.body.HasTag (host.registry template.registry) request →
      request.address = none) :
    (host.html template data).SameKinds (host.html (template.startingAt startId) data) ∧
      (host.tree template data).SameKinds (host.tree (template.startingAt startId) data) ∧
      (host.fragment template data).SameKinds
        (host.fragment (template.startingAt startId) data) := by
  refine ⟨?_, host.render_startingAt .tree template startId template.graph data htags, ?_⟩
  · exact host.render_startingAt _ template startId _ data
      fun request hrequest => htags request (host.hasTag_innerGraph template hrequest)
  · obtain ⟨hvalue, hlog⟩ := host.render_startingAt
      (.fragment (host.widgetNodes (host.nestingBound template))) template startId template.graph
      data htags
    exact ⟨congrArg (host.mounted template) hvalue, hlog.append .empty⟩

/-- Bold text with the end tag of a division in it. -/
def strayBody : PartialBody :=
  ⟨[.element ⟨"b", [], [.closingTag none "DIV", .text "x"], false⟩], []⟩

/-- A host whose registry binds that text. -/
def strayHost : Host := empty.register .injected "bold" strayBody

/-- A division that refers to it, with the end tags of two paragraphs. -/
def strayTags : Template :=
  .ofGraph
    [.element ⟨"div", [], [.partialRef "bold" [], .closingTag none "p", .text "y"], false⟩,
      .closingTag none "P"]
    [] .injected {}

/-- No closing tag in the division or in the text names an address. -/
theorem address_strayTags {request : Closing}
    (h : strayTags.body.HasTag (strayHost.registry strayTags.registry) request) :
    request.address = none := by
  obtain ⟨reached, hreached, hrequest⟩ := h
  have hbodies : reached = strayTags.body ∨ reached = strayBody := by
    rcases hreached.cases_first with rfl | ⟨name, hname, inner, hinner, hreached⟩
    · exact .inl rfl
    · obtain rfl : name = "bold" := List.mem_singleton.mp hname
      obtain rfl : strayBody = inner := Option.some.inj hinner
      rcases hreached.cases_first with rfl | ⟨name, hname, -⟩
      · exact .inr rfl
      · exact absurd hname List.not_mem_nil
  rcases hbodies with rfl | rfl
  · exact (show ∀ request ∈ Graph.tags strayTags.graph, request.address = none by decide +kernel)
      request hrequest
  · exact (show ∀ request ∈ Graph.tags strayBody.graph, request.address = none by decide +kernel)
      request hrequest

/-- With another start, here one that looks like an address itself, the same markup comes
out. -/
theorem html_strayTags :
    (strayHost.html strayTags .null).value = "<div><b></b></div>x<p></p>y<p></p>" ∧
      (strayHost.html (strayTags.startingAt "0.") .null).value =
        "<div><b></b></div>x<p></p>y<p></p>" ∧
      (strayHost.html (strayTags.startingAt "0.") .null).log.warnings.map Warning.kind =
        [.tagMismatch] := by
  have hsame := (strayHost.sameKinds_startingAt strayTags "0." .null fun _ => address_strayTags).1
  have hvalue : (strayHost.html strayTags .null).value = "<div><b></b></div>x<p></p>y<p></p>" := by
    decide +kernel
  refine ⟨hvalue, hsame.value.symm.trans hvalue, ?_⟩
  rw [← hsame.log.kinds]
  decide +kernel

end Host

end Stencil
