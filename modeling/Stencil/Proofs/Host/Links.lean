import Mathlib.Data.Fintype.Pigeonhole
import Mathlib.Data.Fintype.Sets
import Mathlib.Logic.Relation
import Mathlib.Order.Monotone.Basic
import Stencil.Proofs.Host.History
import Stencil.Proofs.Keyed
import Stencil.Proofs.Render.Endless
import Stencil.Proofs.Template.Children

/-!
# Components within one another

A component is linked to the children that it has been given, and to those for which a template
that was attached to it held widgets already.  Its view holds widgets only for components that it
is linked to.  So if no component comes back to itself by way of its links, renderings nest only
finitely many widgets.  A component that is a child of its own, or of one below it, may be nested
within itself, and its rendering then never ends.

* `Host.Linked` — a host that has come about, and the links of its components.
* `Host.Linked.keeps` — views and children follow the links.
* `Host.Keeps.acc` — widgets are nested finitely often where links lead back to no component.
* `Host.renderings_end_iff` — which renderings of a view come to an end.
-/

namespace Stencil

/-! ## Links -/

/-- No component comes back to itself by way of links. -/
def Acyclic (links : List (ComponentId × ComponentId)) : Prop :=
  ∀ id, ¬ Relation.TransGen (fun parent child => (parent, child) ∈ links) id id

/-- Links from earlier to later components never come back. -/
theorem Acyclic.of_lt {links : List (ComponentId × ComponentId)}
    (h : ∀ link ∈ links, link.1.number < link.2.number) : Acyclic links := by
  intro id hback
  have hlt : Relation.TransGen (· < ·) id.number id.number :=
    hback.lift ComponentId.number fun parent child hlink => h (parent, child) hlink
  rw [Relation.transGen_eq_self] at hlt
  exact Nat.lt_irrefl _ hlt

/-- Among finitely many links, those that never come back to a component end somewhere. -/
theorem Acyclic.wellFounded {links : List (ComponentId × ComponentId)} (h : Acyclic links) :
    WellFounded fun child parent => (parent, child) ∈ links := by
  refine wellFounded_iff_isEmpty_descending_chain.mpr ⟨fun ⟨chain, hchain⟩ => ?_⟩
  have hbelow : ∀ ⦃earlier later : Nat⦄, earlier < later →
      Relation.TransGen (fun parent child => (parent, child) ∈ links)
        (chain earlier) (chain later) := fun _ _ hlt =>
    Nat.rel_of_forall_rel_succ_of_lt (Relation.TransGen _) (fun n => .single (hchain n)) hlt
  -- One of the links is followed twice.
  obtain ⟨first, second, hne, hsame⟩ := Finite.exists_ne_map_eq_of_infinite
    fun n : Nat => (⟨(chain n, chain (n + 1)), hchain n⟩ : { link // link ∈ links })
  have hback : chain first = chain second := congrArg (fun link => link.1.1) hsame
  rcases Nat.lt_or_gt_of_ne hne with hlt | hlt
  · exact h (chain first) (by simpa only [hback] using hbelow hlt)
  · exact h (chain second) (by simpa only [hback] using hbelow hlt)

namespace Host

open Logged (NestsEndlessly)

/-! ## How components come to be linked -/

/-- A host that has come about, and the links of its components: each leads from a component to a
child that it was given, or to a component for which a template held a widget when it was attached
to the first one.  The registries hold no widgets. -/
inductive Linked : Host → List (ComponentId × ComponentId) → Prop
  | start : Linked .empty []
  | view {host links} (name tag : String) (data : Json) :
      Linked host links → Linked (host.add (.ofView name tag data)).2 links
  | addChild {host links} (parent : ComponentId) (selector : String) (child : ComponentId) :
      Linked host links → Linked (host.addChild parent selector child) ((parent, child) :: links)
  | attach {host links} (id : ComponentId) (component : Component) (wrapper : Wrapper)
      (template : Template) (hfound : host.component? id = some component) :
      Linked host links →
      Linked (host.setView id (host.attachView id component wrapper template).value)
        ((widgetsOfTemplate template).map (fun w => (id, w.child)) ++ links)
  | setData {host links} (id : ComponentId) (data : Json) :
      Linked host links → Linked (host.setData id data) links
  | updateRegistry {host links} (name : RegistryName) (change : Partials → Partials)
      (hnone : Binding.allWidgets (change (host.registry name)) = []) :
      Linked host links → Linked (host.updateRegistry name change) links

/-- The children and the views of components follow some links, and the registries hold no
widgets. -/
structure Keeps (host : Host) (links : List (ComponentId × ComponentId)) : Prop where
  children : ∀ id component, host.component? id = some component →
    ∀ child ∈ component.children.map Prod.snd, (id, child) ∈ links
  views : ∀ id component view, host.component? id = some component →
    component.view = some view → ∀ w ∈ widgetsOfTemplate view, (id, w.child) ∈ links
  registries : ∀ name, Binding.allWidgets (host.registry name) = []

section Linked

variable {host : Host} {links : List (ComponentId × ComponentId)}

namespace Keeps

/-- A component may change as long as what it becomes follows the links. -/
theorem update (h : host.Keeps links) (id : ComponentId) (change : Component → Component)
    (hchildren : ∀ component, host.component? id = some component →
      ∀ child ∈ (change component).children.map Prod.snd, (id, child) ∈ links)
    (hviews : ∀ component view, host.component? id = some component →
      (change component).view = some view → ∀ w ∈ widgetsOfTemplate view, (id, w.child) ∈ links) :
    (host.update id change).Keeps links where
  children := by
    intro other component hcomponent
    rw [component?_update, Option.map_eq_some_iff] at hcomponent
    obtain ⟨old, hold, rfl⟩ := hcomponent
    split
    · rename_i heq
      subst heq
      exact hchildren old hold
    · exact h.children other old hold
  views := by
    intro other component view hcomponent hview
    rw [component?_update, Option.map_eq_some_iff] at hcomponent
    obtain ⟨old, hold, rfl⟩ := hcomponent
    split at hview
    · rename_i heq
      subst heq
      exact hviews old view hold hview
    · exact h.views other old view hold hview
  registries := h.registries

theorem mono (h : host.Keeps links) {more : List (ComponentId × ComponentId)}
    (hsub : links ⊆ more) : host.Keeps more where
  children := fun id component hcomponent child hchild =>
    hsub (h.children id component hcomponent child hchild)
  views := fun id component view hcomponent hview w hw =>
    hsub (h.views id component view hcomponent hview w hw)
  registries := h.registries

theorem empty : Host.empty.Keeps [] where
  children := fun _ _ hcomponent => by cases hcomponent
  views := fun _ _ _ hcomponent => by cases hcomponent
  registries := fun name => by cases name <;> rfl

theorem add (h : host.Keeps links) (name tag : String) (data : Json) :
    (host.add (.ofView name tag data)).2.Keeps links where
  children := by
    intro id component hcomponent
    rcases component?_add hcomponent with hold | ⟨-, rfl⟩
    · exact h.children id component hold
    · exact fun _ hchild => absurd hchild List.not_mem_nil
  views := by
    intro id component view hcomponent hview
    rcases component?_add hcomponent with hold | ⟨-, rfl⟩
    · exact h.views id component view hold hview
    · cases hview
  registries := h.registries

theorem addChild (h : host.Keeps links) (parent : ComponentId) (selector : String)
    (child : ComponentId) :
    (host.addChild parent selector child).Keeps ((parent, child) :: links) := by
  have hmore := h.mono (List.subset_cons_self (parent, child) links)
  -- The child gets a parent, and the parent an entry for the child.
  have hchild := hmore.update child (fun component => { component with parent := some parent })
    (hmore.children child) (hmore.views child)
  refine hchild.update parent _ (fun component hcomponent => ?_) (hchild.views parent)
  intro other hother
  rcases List.mem_cons.mp (Keyed.map_snd_put_subset _ _ _ hother) with rfl | hold
  · exact List.mem_cons_self
  · exact hchild.children parent component hcomponent other hold

theorem attach (h : host.Keeps links) {id : ComponentId} {component : Component}
    (wrapper : Wrapper) (template : Template) (hfound : host.component? id = some component) :
    (host.setView id (host.attachView id component wrapper template).value).Keeps
      ((widgetsOfTemplate template).map (fun w => (id, w.child)) ++ links) := by
  have hmore := h.mono
    (List.subset_append_right ((widgetsOfTemplate template).map fun w => (id, w.child)) links)
  refine hmore.update id _ (hmore.children id) fun old view _ hview w hw => ?_
  cases hview
  rcases child_of_mem_attachView (h.registries template.registry) hw with hgiven | hchild
  · exact List.mem_append_left _ (List.mem_map_of_mem hgiven)
  · exact List.mem_append_right _ (h.children id component hfound w.child hchild)

theorem updateRegistry (h : host.Keeps links) (name : RegistryName) (change : Partials → Partials)
    (hnone : Binding.allWidgets (change (host.registry name)) = []) :
    (host.updateRegistry name change).Keeps links where
  children := by cases name <;> exact h.children
  views := by cases name <;> exact h.views
  registries := by
    intro other
    cases name <;> cases other
    · exact hnone
    · exact h.registries .processWide
    · exact h.registries .injected
    · exact hnone

end Keeps

/-- Whatever is done, children and views follow the links. -/
theorem Linked.keeps (h : host.Linked links) : host.Keeps links := by
  induction h with
  | start => exact .empty
  | view name tag data _ ih => exact ih.add name tag data
  | addChild parent selector child _ ih => exact ih.addChild parent selector child
  | attach id component wrapper template hfound _ ih => exact ih.attach wrapper template hfound
  | setData id data _ ih => exact ih.update id _ (ih.children id) (ih.views id)
  | updateRegistry name change hnone _ ih => exact ih.updateRegistry name change hnone

/-! ## Finitely many widgets -/

namespace Keeps

variable {within : Widget → List Widget}

/-- Where links lead back to no component, widgets are nested finitely often: those within a
widget are in the view of its child, or else smaller than the widget. -/
theorem acc (h : host.Keeps links) (hacyclic : Acyclic links)
    (hwithin : ∀ w, within w ⊆ widgetsOfTemplate (host.viewOf w)) (id : ComponentId) :
    ∀ component view, host.component? id = some component → component.view = some view →
      ∀ w ∈ widgetsOfTemplate view, Acc (fun inner outer => inner ∈ within outer) w := by
  induction id using hacyclic.wellFounded.induction with
  | _ id ih =>
    intro component view hcomponent hview w
    induction hsize : sizeOf w using Nat.strong_induction_on generalizing w with
    | _ size ihsize =>
      intro hw
      subst hsize
      refine .intro w fun inner hinner => ?_
      have hshown := hwithin w hinner
      unfold viewOf at hshown
      cases hfound : (host.component? w.child).bind Component.view with
      | some shown =>
        obtain ⟨child, hchild, hchildView⟩ := Option.bind_eq_some_iff.mp hfound
        rw [hfound] at hshown
        exact ih w.child (h.views id component view hcomponent hview w hw) child shown hchild
          hchildView inner hshown
      | none =>
        rw [hfound, Option.getD_none, widgetsOfTemplate_template] at hshown
        exact ihsize (sizeOf inner) (Widget.sizeOf_lt_of_mem_innerWidgets w hshown) inner rfl
          (closed_widgetsOfTemplate view w hw hshown)

theorem not_nestsEndlessly (h : host.Keeps links) (hacyclic : Acyclic links)
    (hwithin : ∀ w, within w ⊆ widgetsOfTemplate (host.viewOf w)) {id : ComponentId}
    {component : Component} {view : Template} (hcomponent : host.component? id = some component)
    (hview : component.view = some view) {start : List Widget}
    (hstart : start ⊆ widgetsOfTemplate view) : ¬ NestsEndlessly within start := by
  rintro ⟨chain, hfirst, hnext⟩
  exact not_acc_iff_exists_descending_chain.mpr ⟨chain, rfl, hnext⟩
    (h.acc hacyclic hwithin id component view hcomponent hview (chain 0) (hstart hfirst))

/-- Scripts put in no widgets but those of their templates. -/
theorem scriptWidgets_subset (h : host.Keeps links) (template : Template) {graph : Graph}
    (hgraph : Graph.allWidgets graph ⊆ Graph.allWidgets template.graph) (data : Json) :
    host.scriptWidgets template graph data ⊆ widgetsOfTemplate template := by
  intro w hw
  obtain ⟨piece, hpiece, hmem⟩ := List.mem_flatMap.mp hw
  exact host.showOnly_leaves template data (h.registries _ ▸ List.nil_subset _)
    (List.subset_append_of_subset_left _ hgraph) (List.subset_append_right _ _) piece hpiece hmem

/-- Trees show no widgets but those of their templates. -/
theorem treeWidgets_subset (h : host.Keeps links) (template : Template) (data : Json) :
    Piece.widgetsAll (host.tree template data).value.pieces ⊆ widgetsOfTemplate template :=
  Piece.showOnly_iff.mp <| host.showOnly_pieces <| host.showOnly_leaves template data
    (h.registries _ ▸ List.nil_subset _) (List.subset_append_left _ _)
    (List.subset_append_right _ _)

end Keeps

end Linked

/-- Markup and fragments come to an end just if no chain of widgets, each put in by the one
before, is endless.  For the views of components there is no such chain if no component comes back
to itself by way of its links, whatever the data. -/
theorem renderings_end_iff (host : Host) (view : Template) (data : Json) :
    ((host.html view data).Ends ↔ ¬ NestsEndlessly host.writtenWithin
      (host.scriptWidgets view (host.innerGraph view) data)) ∧
    ((host.outerHtml view data).Ends ↔ ¬ NestsEndlessly host.writtenWithin
      (host.scriptWidgets view view.graph data)) ∧
    ((host.fragment view data).Ends ↔ ¬ NestsEndlessly host.holes
      (Piece.widgetsAll (host.tree view data).value.pieces)) ∧
    ∀ links id component, host.Linked links → Acyclic links →
      host.component? id = some component → component.view = some view →
        (host.html view data).Ends ∧ (host.outerHtml view data).Ends ∧
          (host.fragment view data).Ends := by
  have hhtml := host.ends_html view data
  have houter := host.ends_outerHtml view data
  have hfragment := host.ends_fragment view data
  refine ⟨hhtml, houter, hfragment, ?_⟩
  intro links id component hlinked hacyclic hcomponent hview
  have hkeeps := hlinked.keeps
  have hwritten : ∀ w, host.writtenWithin w ⊆ widgetsOfTemplate (host.viewOf w) := fun w =>
    hkeeps.scriptWidgets_subset (host.viewOf w) (List.Subset.refl _) (host.dataOf w.child)
  have hholes : ∀ w, host.holes w ⊆ widgetsOfTemplate (host.viewOf w) := fun w =>
    hkeeps.treeWidgets_subset (host.viewOf w) (host.dataOf w.child)
  refine ⟨hhtml.mpr ?_, houter.mpr ?_, hfragment.mpr ?_⟩
  · exact hkeeps.not_nestsEndlessly hacyclic hwritten hcomponent hview
      (hkeeps.scriptWidgets_subset view (host.allWidgets_innerGraph view) data)
  · exact hkeeps.not_nestsEndlessly hacyclic hwritten hcomponent hview
      (hkeeps.scriptWidgets_subset view (List.Subset.refl _) data)
  · exact hkeeps.not_nestsEndlessly hacyclic hholes hcomponent hview
      (hkeeps.treeWidgets_subset view data)

/-! ## An album, and a mirror within itself -/

/-- A wrapper. -/
def plainWrapper : Wrapper := ⟨"ComponentWidget", 0⟩

/-- A template of one element that holds places with the classes of children. -/
def placesFor (tag : String) (classes : List String) : Template :=
  .ofGraph [.element ⟨tag, [], classes.map fun text =>
    .element ⟨"span", [⟨"class", .literal text⟩], [], false⟩, false⟩] [] .injected {}

/-- An album that has been given a photo, which has been given a caption. -/
def albumHost : Host :=
  ((((empty.add (.ofView "album" "main" .null)).2.add (.ofView "photo" "div" .null)).2.add
    (.ofView "caption" "div" .null)).2.addChild ⟨0⟩ "photo" ⟨1⟩).addChild ⟨1⟩ "caption" ⟨2⟩

/-- The album. -/
def album : Component :=
  { Component.ofView "album" "main" .null with children := [("photo", ⟨1⟩)] }

/-- The photo. -/
def photo : Component :=
  { Component.ofView "photo" "div" .null with
    parent := some ⟨0⟩, children := [("caption", ⟨2⟩)] }

/-- The view of the album, with two places for the photo. -/
def albumView : Template :=
  (albumHost.attachView ⟨0⟩ album plainWrapper (placesFor "p" ["photo", "old photo"])).value

/-- The album with its view. -/
def viewedAlbum : Host := albumHost.setView ⟨0⟩ albumView

/-- The view of the photo, with a place for its caption. -/
def photoView : Template :=
  (viewedAlbum.attachView ⟨1⟩ photo plainWrapper (placesFor "b" ["caption"])).value

/-- The album and the photo with their views.  The caption has none. -/
def viewedPhoto : Host := viewedAlbum.setView ⟨1⟩ photoView

/-- The links of the album and the photo. -/
def albumLinks : List (ComponentId × ComponentId) := [(⟨1⟩, ⟨2⟩), (⟨0⟩, ⟨1⟩)]

theorem linked_viewedPhoto : viewedPhoto.Linked albumLinks := by
  have halbum : albumHost.Linked albumLinks :=
    .addChild _ _ _ (.addChild _ _ _ (.view _ _ _ (.view _ _ _ (.view _ _ _ .start))))
  have hviewed : viewedAlbum.Linked albumLinks := .attach ⟨0⟩ album _ _ rfl halbum
  exact .attach ⟨1⟩ photo _ _ rfl hviewed

/-- The album shows the photo twice, each time with the place of its caption. -/
theorem html_albumView :
    Acyclic albumLinks ∧ viewedPhoto.Linked albumLinks ∧
      (viewedPhoto.component? ⟨0⟩).bind Component.view = some albumView ∧
      (viewedPhoto.html albumView .null).Ends ∧
      (viewedPhoto.html albumView .null).value =
        "<main><p><b><span class=\"caption\"></span></b>" ++
          "<b><span class=\"caption\"></span></b></p></main>" := by
  have hacyclic : Acyclic albumLinks := .of_lt (by decide)
  obtain ⟨component, hcomponent, hview⟩ : ∃ component,
      viewedPhoto.component? ⟨0⟩ = some component ∧ component.view = some albumView :=
    ⟨_, rfl, rfl⟩
  have hends := (viewedPhoto.renderings_end_iff albumView .null).2.2.2 albumLinks ⟨0⟩ component
    linked_viewedPhoto hacyclic hcomponent hview
  exact ⟨hacyclic, linked_viewedPhoto, Option.bind_eq_some_iff.mpr ⟨component, hcomponent, hview⟩,
    hends.1, by decide +kernel⟩

/-- A component that has been given itself as a child. -/
def mirrorHost : Host := (empty.add (.ofView "mirror" "div" .null)).2.addChild ⟨0⟩ "mirror" ⟨0⟩

/-- The component. -/
def mirror : Component :=
  { Component.ofView "mirror" "div" .null with
    parent := some ⟨0⟩, children := [("mirror", ⟨0⟩)] }

/-- Its view, with a place for itself. -/
def mirrorView : Template :=
  (mirrorHost.attachView ⟨0⟩ mirror plainWrapper (placesFor "div" ["mirror"])).value

/-- The component with its view is nested in itself without end. -/
theorem html_mirrorView :
    ¬ ∀ (host : Host) (links : List (ComponentId × ComponentId)) (id : ComponentId)
      (component : Component) (view : Template) (data : Json),
      host.Linked links → host.component? id = some component → component.view = some view →
        (host.html view data).Ends ∧ (host.outerHtml view data).Ends ∧
          (host.fragment view data).Ends := by
  intro hall
  have hmirror : mirrorHost.Linked [(⟨0⟩, ⟨0⟩)] := .addChild _ _ _ (.view _ _ _ .start)
  have hlinked : (mirrorHost.setView ⟨0⟩ mirrorView).Linked [(⟨0⟩, ⟨0⟩)] :=
    .attach ⟨0⟩ mirror _ _ rfl hmirror
  have hends := (hall _ _ ⟨0⟩ _ mirrorView .null hlinked rfl rfl).1
  exact absurd hends (by decide +kernel)

end Host

end Stencil
