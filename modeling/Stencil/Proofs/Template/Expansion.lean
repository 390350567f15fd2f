import Mathlib.Data.List.Nodup
import Mathlib.Data.List.Perm.Subperm
import Stencil.Host.Attach
import Stencil.Proofs.Graph.Every

/-!
# How attaching goes through a graph

Attaching goes from node to node, into elements and sections and into what partials lead to,
as far as no name comes up within itself; the levels it counts are always enough for that.
So what it makes can be said without them, by the stops on its way: what each of them leads
to, what it becomes, and what warning is raised there.

* `Stop.next`, `Stop.becomes`, `Stop.warning?` — what a stop leads to, becomes and is warned of.
* `Attachment.Expands` — what stops become, and all stops on the way.  There is one way only.
* `Stop.Reached`, `Attachment.Meets` — the stops that stops lead to, one step after the other.
* `PartialBody.HasRoom` — there are levels enough for every name that may come up.
* `Attachment.accounts_attach` — attaching expands a graph, and warns at the stops.
-/

namespace Stencil

/-! ## Stops -/

/-- A node that is come to on the way through a graph. -/
structure Stop where
  /-- The names that are being expanded there, outermost first, with what they led to. -/
  within : List (String × PartialBody)
  /-- The partials in scope. -/
  partials : Partials
  node : Node

/-- The stops at the nodes of a graph. -/
def Graph.stops (within : List (String × PartialBody)) (partials : Partials) (graph : Graph) :
    List Stop :=
  graph.map (Stop.mk within partials)

theorem Graph.mem_stops {within : List (String × PartialBody)} {partials : Partials}
    {graph : Graph} {stop : Stop} (h : stop ∈ Graph.stops within partials graph) :
    stop.within = within ∧ stop.partials = partials ∧ stop.node ∈ graph := by
  obtain ⟨node, hnode, rfl⟩ := List.mem_map.mp h
  exact ⟨rfl, rfl, hnode⟩

/-- The stops at the nodes of a body, before any name is expanded. -/
def PartialBody.stops (body : PartialBody) : List Stop := Graph.stops [] body.partials body.graph

namespace Stop

/-- The names that are being expanded. -/
def names (stop : Stop) : List String := stop.within.map Prod.fst

/-- The stops right beyond a stop.  `cut` tells which names are left out, by those that are being
expanded. -/
def next (attachment : Attachment) (cut : List String → String → Bool) (stop : Stop) :
    List Stop :=
  match stop.node with
  | .element el =>
      match attachment.childFor? el with
      | some _ => []
      | none => Graph.stops stop.within stop.partials el.children
  | .sectionBlock _ children | .unlessBlock _ children =>
      Graph.stops stop.within stop.partials children
  | .partialRef name fallback =>
      if cut stop.names name then []
      else match resolve name stop.partials attachment.registry with
        | some found => Graph.stops (stop.within ++ [(name, found)]) found.partials found.graph
        | none => Graph.stops stop.within stop.partials fallback
  | _ => []

/-- What a stop becomes, by what the stops right beyond it become. -/
def becomes (attachment : Attachment) (stop : Stop) (inside : Graph) : Graph :=
  match stop.node with
  | .element el =>
      match attachment.childFor? el with
      | some child => [.widget (attachment.widgetFor stop.partials child el)]
      | none => [.element { el with children := inside }]
  | .sectionBlock path _ => [.sectionBlock path inside]
  | .unlessBlock path _ => [.unlessBlock path inside]
  | .partialRef _ _ => inside
  | node => [node]

/-- The warning that attaching raises at a stop. -/
def warning? (attachment : Attachment) (stop : Stop) : Option Warning :=
  match stop.node with
  | .partialRef name _ =>
      if stop.names.contains name then some (cycleWarning stop.names name)
      else match resolve name stop.partials attachment.registry with
        | some _ => none
        | none => some (unresolvedWarning name)
  | _ => none

theorem filterMap_warning?_cons (attachment : Attachment) (stop : Stop) (rest : List Stop) :
    (stop :: rest).filterMap (warning? attachment) =
      (stop.warning? attachment).toList ++ rest.filterMap (warning? attachment) := by
  rw [List.filterMap_cons]
  cases stop.warning? attachment <;> rfl

/-- The stops that given ones lead to, where `beyond` tells what lies right beyond a stop. -/
inductive Reached (beyond : Stop → List Stop) (stops : List Stop) : Stop → Prop
  | start {stop : Stop} (hmem : stop ∈ stops) : Reached beyond stops stop
  | step {stop later : Stop} (hstop : Reached beyond stops stop) (hbeyond : later ∈ beyond stop) :
      Reached beyond stops later

variable {beyond : Stop → List Stop} {stops rest : List Stop} {stop first : Stop}

theorem not_reached_nil : ¬ Reached beyond [] stop := by
  intro h
  induction h with
  | start hmem => cases hmem
  | step _ _ ih => exact ih

theorem Reached.mono (hsub : rest ⊆ stops) (h : Reached beyond rest stop) :
    Reached beyond stops stop := by
  induction h with
  | start hmem => exact .start (hsub hmem)
  | step _ hbeyond ih => exact .step ih hbeyond

/-- What is reached from right beyond a stop is reached from the stop. -/
theorem Reached.of_beyond (hfirst : first ∈ stops) (h : Reached beyond (beyond first) stop) :
    Reached beyond stops stop := by
  induction h with
  | start hmem => exact .step (.start hfirst) hmem
  | step _ hbeyond ih => exact .step ih hbeyond

/-- From several stops, each is reached, and what is reached from beyond each. -/
theorem reached_cons_iff :
    Reached beyond (first :: rest) stop ↔
      stop = first ∨ Reached beyond (beyond first) stop ∨ Reached beyond rest stop := by
  constructor
  · intro h
    induction h with
    | start hmem =>
      rcases List.mem_cons.mp hmem with rfl | hrest
      · exact .inl rfl
      · exact .inr (.inr (.start hrest))
    | step _ hbeyond ih =>
      rcases ih with rfl | hfirst | hrest
      · exact .inr (.inl (.start hbeyond))
      · exact .inr (.inl (.step hfirst hbeyond))
      · exact .inr (.inr (.step hrest hbeyond))
  · rintro (rfl | hfirst | hrest)
    · exact .start List.mem_cons_self
    · exact hfirst.of_beyond List.mem_cons_self
    · exact hrest.mono (List.subset_cons_self _ _)

end Stop

/-! ## Expansions -/

namespace Attachment

/-- Names are left out within themselves. -/
def withinItself (expanding : List String) (name : String) : Bool := expanding.contains name

/-- No name is left out. -/
def never (_ : List String) (_ : String) : Bool := false

/-- What stops become one after the other, and all stops on the way, in order. -/
inductive Expands (attachment : Attachment) (cut : List String → String → Bool) :
    List Stop → Graph → List Stop → Prop
  | nil : Expands attachment cut [] [] []
  | cons {stop : Stop} {rest inner later : List Stop} {inside after : Graph}
      (hnext : Expands attachment cut (stop.next attachment cut) inside inner)
      (hrest : Expands attachment cut rest after later) :
      Expands attachment cut (stop :: rest) (stop.becomes attachment inside ++ after)
        (stop :: (inner ++ later))

/-- The stops that are come to from given ones. -/
abbrev Meets (attachment : Attachment) (cut : List String → String → Bool) (stops : List Stop) :
    Stop → Prop :=
  Stop.Reached (Stop.next attachment cut) stops

variable {attachment : Attachment} {cut : List String → String → Bool} {stops trail : List Stop}
  {stop : Stop} {after : Graph}

/-- The stops on the way are those that are come to. -/
theorem Expands.mem_trail_iff (h : attachment.Expands cut stops after trail) :
    stop ∈ trail ↔ attachment.Meets cut stops stop := by
  induction h with
  | nil => exact ⟨nofun, fun hstop => absurd hstop Stop.not_reached_nil⟩
  | cons _ _ ihnext ihrest =>
    rw [List.mem_cons, List.mem_append, ihnext, ihrest]
    exact Stop.reached_cons_iff.symm

/-- Stops become one graph only, in one way. -/
theorem Expands.unique {after' : Graph} {trail' : List Stop}
    (h : attachment.Expands cut stops after trail)
    (h' : attachment.Expands cut stops after' trail') : after = after' ∧ trail = trail' := by
  induction h generalizing after' trail' with
  | nil =>
    cases h'
    exact ⟨rfl, rfl⟩
  | cons _ _ ihnext ihrest =>
    cases h' with
    | cons hnext' hrest' =>
      obtain ⟨rfl, rfl⟩ := ihnext hnext'
      obtain ⟨rfl, rfl⟩ := ihrest hrest'
      exact ⟨rfl, rfl⟩

end Attachment

/-! ## Room for the names -/

theorem Partials.boundNames_of_mem {partials : Partials} {binding : Binding}
    (hmem : binding ∈ partials) :
    binding.name ∈ Partials.boundNames partials ∧
      Partials.boundNames binding.partials ⊆ Partials.boundNames partials := by
  induction partials with
  | nil => cases hmem
  | cons first rest ih =>
    rw [boundNames]
    rcases List.mem_cons.mp hmem with rfl | hrest
    · obtain ⟨name, graph, inner⟩ := binding
      rw [Binding.boundNames]
      refine ⟨List.mem_append_left _ List.mem_cons_self, ?_⟩
      exact List.subset_append_of_subset_left _ (List.subset_cons_self _ _)
    · obtain ⟨hname, hinner⟩ := ih hrest
      exact ⟨List.mem_append_right _ hname, List.subset_append_of_subset_right _ hinner⟩

/-- A name that leads somewhere is bound, and so are the partials of what it leads to. -/
theorem boundNames_of_resolve {inner registry : Partials} {name : String} {body : PartialBody}
    {names : List String} (hinner : Partials.boundNames inner ⊆ names)
    (hregistry : Partials.boundNames registry ⊆ names)
    (hresolve : resolve name inner registry = some body) :
    name ∈ names ∧ Partials.boundNames body.partials ⊆ names := by
  obtain ⟨binding, hmem, hname, hbody⟩ := exists_binding_of_resolve hresolve
  rw [← hname, ← hbody]
  rcases hmem with hmem | hmem
  · obtain ⟨hbound, hsub⟩ := Partials.boundNames_of_mem hmem
    exact ⟨hinner hbound, List.Subset.trans hsub hinner⟩
  · obtain ⟨hbound, hsub⟩ := Partials.boundNames_of_mem hmem
    exact ⟨hregistry hbound, List.Subset.trans hsub hregistry⟩

/-- Names that are expanded within one another, and one more, are no more than there are. -/
theorem length_expanding_lt {expanding names : List String} {name : String}
    (hnodup : expanding.Nodup) (hsub : expanding ⊆ names) (hnew : name ∉ expanding)
    (hmem : name ∈ names) : expanding.length < names.length := by
  have hall : (name :: expanding).Nodup := List.nodup_cons.mpr ⟨hnew, hnodup⟩
  have hinside : name :: expanding ⊆ names := List.cons_subset.mpr ⟨hmem, hsub⟩
  have hle : (name :: expanding).length ≤ names.length := (hall.subperm hinside).length_le
  rw [List.length_cons] at hle
  omega

namespace PartialBody

/-- There are levels enough to expand a body: the names that are being expanded are distinct,
and with the levels that are left they are no fewer than all names that are bound. -/
structure HasRoom (names : List String) (levels : Nat) (expanding : List String)
    (body : PartialBody) : Prop where
  nodup : expanding.Nodup
  bound : expanding ⊆ names
  levels_le : names.length ≤ levels + expanding.length
  own : Partials.boundNames body.partials ⊆ names

/-- There is a level left for every name that leads somewhere, and enough after that. -/
theorem HasRoom.expand {names expanding : List String} {levels : Nat} {body inner : PartialBody}
    (h : body.HasRoom names levels expanding) {registry : Partials}
    (hregistry : Partials.boundNames registry ⊆ names) {name : String} (hnew : name ∉ expanding)
    (hresolve : resolve name body.partials registry = some inner) :
    ∃ fewer, levels = fewer + 1 ∧ inner.HasRoom names fewer (expanding ++ [name]) := by
  obtain ⟨hmem, hown⟩ := boundNames_of_resolve h.own hregistry hresolve
  have hlt := length_expanding_lt h.nodup h.bound hnew hmem
  have hlevels := h.levels_le
  refine ⟨levels - 1, by omega, ?_, ?_, ?_, hown⟩
  · exact h.nodup.append (List.nodup_singleton name) (List.disjoint_singleton.mpr hnew)
  · exact List.append_subset.mpr ⟨h.bound, List.cons_subset.mpr ⟨hmem, List.nil_subset _⟩⟩
  · rw [List.length_append, List.length_singleton]
    omega

end PartialBody

/-- The levels that attaching counts are enough. -/
theorem Attachment.hasRoom_start (attachment : Attachment) (body : PartialBody) :
    body.HasRoom
      (Partials.boundNames attachment.registry ++ Partials.boundNames body.partials)
      (attachment.nameBound body.partials) [] where
  nodup := List.nodup_nil
  bound := List.nil_subset _
  levels_le := by
    rw [List.length_append]
    exact Nat.le_refl _
  own := List.subset_append_right _ _

/-! ## Attaching expands -/

/-- What comes of stops is what they expand to, with the warnings of all stops on the way. -/
def Attachment.Accounts (attachment : Attachment) (stops : List Stop) (attached : Logged Graph) :
    Prop :=
  ∃ trail, attachment.Expands withinItself stops attached.value trail ∧
    attached.log.warnings = trail.filterMap (Stop.warning? attachment)

/-- What comes of one stop is what it becomes by what comes of those right beyond it, with its
own warning before theirs. -/
def Attachment.AccountsAt (attachment : Attachment) (stop : Stop) (attached : Logged Graph) :
    Prop :=
  ∃ inside, attachment.Accounts (stop.next attachment withinItself) inside ∧
    attached.value = stop.becomes attachment inside.value ∧
    attached.log.warnings = (stop.warning? attachment).toList ++ inside.log.warnings

theorem Attachment.Accounts.nil (attachment : Attachment) : attachment.Accounts [] (pure []) :=
  ⟨[], .nil, rfl⟩

theorem Attachment.Accounts.cons {attachment : Attachment} {stop : Stop} {rest : List Stop}
    {nodes after : Logged Graph} (hstop : attachment.AccountsAt stop nodes)
    (hrest : attachment.Accounts rest after) :
    attachment.Accounts (stop :: rest) (do return (← nodes) ++ (← after)) := by
  obtain ⟨inside, ⟨inner, hinner, hinside⟩, hvalue, hnodes⟩ := hstop
  obtain ⟨later, hlater, hafter⟩ := hrest
  refine ⟨stop :: (inner ++ later), ?_, ?_⟩
  · rw [Logged.value_bind, Logged.value_bind, Logged.value_pure, hvalue]
    exact .cons hinner hlater
  · rw [Logged.log_bind, Logged.log_bind, Logged.log_pure, Log.append_empty, Log.append_def,
      hnodes, hinside, hafter, Stop.filterMap_warning?_cons, List.filterMap_append,
      List.append_assoc]

section Graphs

variable {attachment : Attachment} {within : List (String × PartialBody)} {partials : Partials}
  {expand : List String → PartialBody → Logged Graph}

mutual
theorem Node.accounts_attach (hexpand : ∀ name found,
      name ∉ within.map Prod.fst → resolve name partials attachment.registry = some found →
        attachment.Accounts (Graph.stops (within ++ [(name, found)]) found.partials found.graph)
          (expand (within.map Prod.fst ++ [name]) found)) :
    ∀ node : Node, attachment.AccountsAt ⟨within, partials, node⟩
      (node.attach attachment ⟨partials, within.map Prod.fst, expand⟩)
  | .element ⟨tag, attributes, children, isRoot⟩ => by
    simp only [Attachment.AccountsAt, Node.attach, Stop.next, Stop.becomes, Stop.warning?]
    cases attachment.childFor? ⟨tag, attributes, children, isRoot⟩ with
    | some child => exact ⟨_, .nil attachment, rfl, rfl⟩
    | none =>
      refine ⟨_, Graph.accounts_attach hexpand children, rfl, ?_⟩
      exact List.append_nil _
  | .sectionBlock path children | .unlessBlock path children =>
    ⟨_, Graph.accounts_attach hexpand children, rfl, List.append_nil _⟩
  | .partialRef name fallback => by
    simp only [Attachment.AccountsAt, Node.attach, Stop.next, Stop.becomes, Stop.warning?,
      Stop.names, Attachment.withinItself]
    by_cases hinside : (within.map Prod.fst).contains name = true
    · simp only [hinside, if_true]
      exact ⟨_, .nil attachment, rfl, rfl⟩
    · simp only [hinside]
      have hnew : name ∉ within.map Prod.fst := by simpa using hinside
      cases hresolve : resolve name partials attachment.registry with
      | some found => exact ⟨_, hexpand name found hnew hresolve, rfl, rfl⟩
      | none => exact ⟨_, Graph.accounts_attach hexpand fallback, rfl, rfl⟩
  | .text _ | .interpolator _ | .reference _ | .triple _ | .comment _ | .widget _
  | .closingTag _ _ => ⟨_, .nil attachment, rfl, rfl⟩
theorem Graph.accounts_attach (hexpand : ∀ name found,
      name ∉ within.map Prod.fst → resolve name partials attachment.registry = some found →
        attachment.Accounts (Graph.stops (within ++ [(name, found)]) found.partials found.graph)
          (expand (within.map Prod.fst ++ [name]) found)) :
    ∀ graph : List Node, attachment.Accounts (Graph.stops within partials graph)
      (Graph.attach attachment ⟨partials, within.map Prod.fst, expand⟩ graph)
  | [] => .nil attachment
  | node :: rest =>
    .cons (Node.accounts_attach hexpand node) (Graph.accounts_attach hexpand rest)
end

end Graphs

/-- Attaching a body, within names that leave room for it, expands the stops at its nodes. -/
theorem PartialBody.accounts_attach {attachment : Attachment} {names : List String}
    (hregistry : Partials.boundNames attachment.registry ⊆ names) (levels : Nat) :
    ∀ (within : List (String × PartialBody)) (body : PartialBody),
      body.HasRoom names levels (within.map Prod.fst) →
      attachment.Accounts (Graph.stops within body.partials body.graph)
        (body.attach attachment levels (within.map Prod.fst)) := by
  induction levels with
  | zero =>
    intro within body hroom
    rw [attach]
    refine Graph.accounts_attach ?_ body.graph
    -- No level is left, so there is no name left either.
    intro name found hnew hresolve
    obtain ⟨fewer, hfewer, -⟩ := hroom.expand hregistry hnew hresolve
    cases hfewer
  | succ levels ih =>
    intro within body hroom
    rw [attach]
    refine Graph.accounts_attach ?_ body.graph
    intro name found hnew hresolve
    obtain ⟨fewer, hfewer, hinner⟩ := hroom.expand hregistry hnew hresolve
    obtain rfl : levels = fewer := Nat.succ.inj hfewer
    have hinside := ih (within ++ [(name, found)]) found
    rw [List.map_append] at hinside
    exact hinside hinner

/-- Attaching a body expands the stops at its nodes, and warns at the stops on the way. -/
theorem Attachment.accounts_attach (attachment : Attachment) (body : PartialBody) :
    attachment.Accounts body.stops (attachment.attach body) :=
  PartialBody.accounts_attach (List.subset_append_left _ _) _ [] body
    (attachment.hasRoom_start body)

/-- A view is what the graph of the template expands to, with its roots marked. -/
theorem Host.expands_attachView (host : Host) (id : ComponentId) (component : Component)
    (wrapper : Wrapper) (template : Template) :
    ∃ trail, (host.attachment component wrapper template.registry template.config).Expands
      Attachment.withinItself
      (Graph.stops [] template.partials (host.rootedGraph id component template))
      (host.attachView id component wrapper template).value.graph trail := by
  obtain ⟨trail, hexpands, -⟩ :=
    (host.attachment component wrapper template.registry template.config).accounts_attach
      ⟨host.rootedGraph id component template, template.partials⟩
  exact ⟨trail, hexpands⟩

end Stencil
