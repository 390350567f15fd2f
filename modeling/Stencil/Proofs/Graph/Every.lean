import Stencil.Graph.Partials

/-!
# Tests that hold throughout a graph

A graph is tested node by node, with one test for the nodes in the place of children
and another for the nodes within attribute values.  Elements that widgets have taken
are no part of the graph.  The graphs that a rendering can get to are the graph itself
and the bodies of the partials that it refers to, each in its own partials.

* `Graph.every` — all nodes of a graph pass the tests.
* `Graph.references` — the names of the partials that a graph refers to.
* `PartialBody.Reaches` — the bodies that a rendering can get to.
-/

namespace Stencil

/-! ## Tests -/

mutual
/-- Whether a node and all nodes below it pass the test for their place. -/
def Node.every (child value : Node → Bool) : Node → Bool
  | .element el => child (.element el) && el.every child value
  | .sectionBlock path children =>
      child (.sectionBlock path children) && Graph.every child value children
  | .unlessBlock path children =>
      child (.unlessBlock path children) && Graph.every child value children
  | .partialRef name fallback =>
      child (.partialRef name fallback) && Graph.every child value fallback
  | node => child node
/-- Whether all nodes of an element pass the test for their place. -/
def Element.every (child value : Node → Bool) : Element → Bool
  | ⟨_, attributes, children, _⟩ =>
      Attribute.everyAll value attributes && Graph.every child value children
/-- Whether all nodes within attributes pass a test. -/
def Attribute.everyAll (value : Node → Bool) : List Attribute → Bool
  | [] => true
  | ⟨_, contents⟩ :: rest => contents.every value && Attribute.everyAll value rest
/-- Whether all nodes within the value of an attribute pass a test. -/
def AttributeValue.every (value : Node → Bool) : AttributeValue → Bool
  | .mixed parts => Graph.every value value parts
  | _ => true
/-- Whether all nodes of a graph pass the test for their place. -/
def Graph.every (child value : Node → Bool) : List Node → Bool
  | [] => true
  | node :: rest => node.every child value && Graph.every child value rest
end

mutual
theorem Node.every_true : ∀ node : Node, node.every (fun _ => true) (fun _ => true) = true
  | .element el => by rw [Node.every, Bool.true_and, Element.every_true el]
  | .sectionBlock _ children | .unlessBlock _ children | .partialRef _ children => by
    rw [Node.every, Bool.true_and, Graph.every_true children]
  | .text _ | .interpolator _ | .triple _ | .reference _ | .comment _ | .closingTag _ _
  | .widget _ => by simp only [Node.every]
theorem Element.every_true :
    ∀ element : Element, element.every (fun _ => true) (fun _ => true) = true
  | ⟨_, attributes, children, _⟩ => by
    rw [Element.every, Attribute.everyAll_true attributes, Graph.every_true children,
      Bool.and_self]
theorem Attribute.everyAll_true :
    ∀ attributes : List Attribute, Attribute.everyAll (fun _ => true) attributes = true
  | [] => by rw [Attribute.everyAll]
  | ⟨_, value⟩ :: rest => by
    rw [Attribute.everyAll, AttributeValue.every_true value, Attribute.everyAll_true rest,
      Bool.and_self]
theorem AttributeValue.every_true :
    ∀ value : AttributeValue, value.every (fun _ => true) = true
  | .mixed parts => by rw [AttributeValue.every, Graph.every_true parts]
  | .empty | .literal _ => by simp only [AttributeValue.every]
/-- Every graph passes the test that every node passes. -/
theorem Graph.every_true :
    ∀ graph : List Node, Graph.every (fun _ => true) (fun _ => true) graph = true
  | [] => by rw [Graph.every]
  | node :: rest => by rw [Graph.every, Node.every_true node, Graph.every_true rest, Bool.and_self]
end

theorem Graph.every_append (child value : Node → Bool) (first second : List Node) :
    Graph.every child value (first ++ second) =
      (Graph.every child value first && Graph.every child value second) := by
  induction first with
  | nil => rw [List.nil_append, Graph.every, Bool.true_and]
  | cons node rest ih => rw [List.cons_append, Graph.every, Graph.every, ih, Bool.and_assoc]

mutual
/-- Whether all nodes of partials, and of the partials of their own, pass the tests. -/
def Binding.every (child value : Node → Bool) : Binding → Bool
  | ⟨_, graph, partials⟩ => Graph.every child value graph && Binding.everyAll child value partials
/-- Whether all nodes of all partials pass the tests. -/
def Binding.everyAll (child value : Node → Bool) : List Binding → Bool
  | [] => true
  | binding :: rest => binding.every child value && Binding.everyAll child value rest
end

theorem Binding.every_of_mem {child value : Node → Bool} {partials : Partials} {binding : Binding}
    (hevery : Binding.everyAll child value partials = true) (hmem : binding ∈ partials) :
    binding.every child value = true := by
  induction partials with
  | nil => cases hmem
  | cons first rest ih =>
    rw [everyAll, Bool.and_eq_true] at hevery
    rcases List.mem_cons.mp hmem with rfl | hrest
    · exact hevery.1
    · exact ih hevery.2 hrest

/-- What a name leads to is what it is bound to. -/
theorem Partials.exists_binding_of_get? {partials : Partials} {name : String} {body : PartialBody}
    (hget : partials.get? name = some body) :
    ∃ binding ∈ partials, binding.name = name ∧ binding.body = body := by
  rw [get?, Option.map_eq_some_iff] at hget
  obtain ⟨binding, hfind, hbody⟩ := hget
  exact ⟨binding, List.mem_of_find?_eq_some hfind, by simpa using List.find?_some hfind, hbody⟩

theorem exists_binding_of_resolve {inner registry : Partials} {name : String} {body : PartialBody}
    (hresolve : resolve name inner registry = some body) :
    ∃ binding, (binding ∈ inner ∨ binding ∈ registry) ∧ binding.name = name ∧
      binding.body = body := by
  unfold resolve at hresolve
  cases hget : inner.get? name with
  | none =>
    obtain ⟨binding, hmem, hbinding⟩ :=
      Partials.exists_binding_of_get? (by simpa [hget] using hresolve)
    exact ⟨binding, .inr hmem, hbinding⟩
  | some found =>
    have hfound : found = body := by simpa [hget] using hresolve
    rw [hfound] at hget
    obtain ⟨binding, hmem, hbinding⟩ := Partials.exists_binding_of_get? hget
    exact ⟨binding, .inl hmem, hbinding⟩

/-- Partials that pass the tests are bound to graphs that do, in partials that do. -/
theorem every_of_resolve {child value : Node → Bool} {inner registry : Partials} {name : String}
    {body : PartialBody} (hinner : Binding.everyAll child value inner = true)
    (hregistry : Binding.everyAll child value registry = true)
    (hresolve : resolve name inner registry = some body) :
    Graph.every child value body.graph = true ∧
      Binding.everyAll child value body.partials = true := by
  obtain ⟨binding, hmem, -, hbody⟩ := exists_binding_of_resolve hresolve
  have hbinding : binding.every child value = true := by
    rcases hmem with hmem | hmem
    · exact Binding.every_of_mem hinner hmem
    · exact Binding.every_of_mem hregistry hmem
  obtain ⟨bound, graph, partials⟩ := binding
  rw [Binding.every, Bool.and_eq_true] at hbinding
  rw [← hbody]
  exact hbinding

/-! ## References -/

mutual
/-- The names of the partials that a node refers to, also within attribute values. -/
def Node.references : Node → List String
  | .element el => el.references
  | .sectionBlock _ children => Graph.references children
  | .unlessBlock _ children => Graph.references children
  | .partialRef name fallback => name :: Graph.references fallback
  | _ => []
/-- The names of the partials that an element refers to. -/
def Element.references : Element → List String
  | ⟨_, attributes, children, _⟩ => Attribute.references attributes ++ Graph.references children
/-- The names of the partials that attributes refer to. -/
def Attribute.references : List Attribute → List String
  | [] => []
  | ⟨_, value⟩ :: rest => value.references ++ Attribute.references rest
/-- The names of the partials that the value of an attribute refers to. -/
def AttributeValue.references : AttributeValue → List String
  | .mixed parts => Graph.references parts
  | _ => []
/-- The names of the partials that a graph refers to. -/
def Graph.references : List Node → List String
  | [] => []
  | node :: rest => node.references ++ Graph.references rest
end

theorem Graph.references_append (first second : List Node) :
    Graph.references (first ++ second) = Graph.references first ++ Graph.references second := by
  induction first with
  | nil => rfl
  | cons node rest ih => rw [List.cons_append, references, references, ih, List.append_assoc]

/-- The bodies that a rendering of a body can get to: the body itself, and what the names
in a reached body lead to in its own partials. -/
inductive PartialBody.Reaches (registry : Partials) (body : PartialBody) : PartialBody → Prop where
  | start : Reaches registry body body
  | step {reached inner : PartialBody} {name : String} :
      Reaches registry body reached → name ∈ Graph.references reached.graph →
      resolve name reached.partials registry = some inner → Reaches registry body inner

theorem PartialBody.Reaches.trans {registry : Partials} {body middle reached : PartialBody}
    (hfirst : body.Reaches registry middle) (hsecond : middle.Reaches registry reached) :
    body.Reaches registry reached := by
  induction hsecond with
  | start => exact hfirst
  | step _ hname hresolve ih => exact .step ih hname hresolve

/-- What is reached is the body itself or is reached from what one of its names leads to. -/
theorem PartialBody.Reaches.cases_first {registry : Partials} {body reached : PartialBody}
    (h : body.Reaches registry reached) :
    reached = body ∨ ∃ name ∈ Graph.references body.graph, ∃ inner,
      resolve name body.partials registry = some inner ∧ inner.Reaches registry reached := by
  induction h with
  | start => exact .inl rfl
  | step _ hname hresolve ih =>
    rcases ih with rfl | ⟨first, hfirst, inner, hinner, hreached⟩
    · exact .inr ⟨_, hname, _, hresolve, .start⟩
    · exact .inr ⟨first, hfirst, inner, hinner, .step hreached hname hresolve⟩

/-- From a part of a graph, no more can be reached than from the graph, but for the part
itself. -/
theorem PartialBody.Reaches.of_part {registry partials : Partials} {graph part : Graph}
    {reached : PartialBody} (hpart : Graph.references part ⊆ Graph.references graph)
    (h : Reaches registry ⟨part, partials⟩ reached) :
    reached = ⟨part, partials⟩ ∨ Reaches registry ⟨graph, partials⟩ reached := by
  induction h with
  | start => exact .inl rfl
  | step _ hname hresolve ih =>
    rcases ih with rfl | hreached
    · exact .inr (.step .start (hpart hname) hresolve)
    · exact .inr (.step hreached hname hresolve)

/-- Every body that can be reached from partials that pass the tests passes them. -/
theorem PartialBody.Reaches.every {child value : Node → Bool} {registry : Partials}
    {body reached : PartialBody} (hreach : body.Reaches registry reached)
    (hgraph : Graph.every child value body.graph = true)
    (hpartials : Binding.everyAll child value body.partials = true)
    (hregistry : Binding.everyAll child value registry = true) :
    Graph.every child value reached.graph = true ∧
      Binding.everyAll child value reached.partials = true := by
  induction hreach with
  | start => exact ⟨hgraph, hpartials⟩
  | step _ _ hresolve ih => exact every_of_resolve ih.2 hregistry hresolve

end Stencil
