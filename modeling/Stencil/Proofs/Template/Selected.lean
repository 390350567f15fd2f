import Stencil.Host.Attach
import Stencil.Proofs.Keyed
import Stencil.Proofs.Text.Words

/-!
# Which child an element makes place for

Children are put under selectors, some of them more than once.  An element makes place for a
child if a selector is one of the words of its literal class.  Of several such selectors the one
counts that was first used last, wherever the words stand in the class, and the child is the one
that was put under it last.

* `Element.HasClass` — a word of the literal class of an element.
* `Attachment.selects_iff` — selectors are found as whole words.
* `Host.attach_registered` — which elements are replaced, and by which widgets.
-/

namespace Stencil

/-- The literal class of an element has a word. -/
def Element.HasClass (element : Element) (word : String) : Prop :=
  ∃ text, element.staticClass? = some text ∧ Text.HasWord text.toList word.toList

/-- A selector without white space is found in a class just if it is one of its words. -/
theorem Attachment.selects_iff {text selector : String} (hword : Text.IsWord selector.toList) :
    selects text selector = true ↔ Text.HasWord text.toList selector.toList := by
  have hwords : ∀ word ∈ Text.words text.toList, Text.IsWord word :=
    fun word hmem => (Text.mem_words_iff.mp hmem).1
  rw [← Text.mem_words_iff, ← Text.occursIn_padded_iff hwords hword]
  rfl

section Registered

variable {attachment : Attachment} {registrations : List (String × ComponentId)}
  {element : Element} {child : ComponentId}
  (hchildren : attachment.children = Keyed.ofEntries registrations)
  (hwords : ∀ entry ∈ registrations, Text.IsWord entry.1.toList)
  (hroot : element.isRoot = false)

include hchildren hwords hroot

/-- An element makes place for a child if its class has one of the selectors, -/
theorem Attachment.isSome_childFor?_iff :
    (attachment.childFor? element).isSome = true ↔
      ∃ entry ∈ registrations, element.HasClass entry.1 := by
  rw [childFor?, hroot]
  cases hclass : element.staticClass? with
  | none => simp [Element.HasClass, hclass]
  | some text =>
    have hfound : ((Keyed.ofEntries registrations).reverse.find? fun entry =>
        selects text entry.1).isSome = true ↔
          ∃ entry ∈ registrations, selects text entry.1 = true :=
      Keyed.isSome_find?_reverse_ofEntries
    rw [← hchildren] at hfound
    simp only [Bool.false_eq_true, if_false, Option.bind_some, childOfClass?, Option.isSome_map,
      hfound, Element.HasClass, hclass, Option.some.injEq, exists_eq_left']
    exact exists_congr fun entry => and_congr_right fun hentry => selects_iff (hwords entry hentry)

/-- and it is the child that was put last under the selector that was first used last. -/
theorem Attachment.childFor?_eq_some (hchild : attachment.childFor? element = some child) :
    ∃ selector, element.HasClass selector ∧
      Keyed.get? selector registrations.reverse = some child ∧
      ∀ entry ∈ registrations, element.HasClass entry.1 →
        Keyed.firstUse registrations entry.1 ≤ Keyed.firstUse registrations selector := by
  rw [childFor?, hroot] at hchild
  simp only [Bool.false_eq_true, if_false, Option.bind_eq_some_iff] at hchild
  obtain ⟨text, hclass, hchild⟩ := hchild
  rw [childOfClass?, hchildren, Option.map_eq_some_iff] at hchild
  obtain ⟨⟨selector, found⟩, hfind, rfl⟩ := hchild
  obtain ⟨hselects, hlast, hlatest⟩ := Keyed.find?_reverse_ofEntries hfind
  have hword : Text.IsWord selector.toList :=
    hwords (selector, found) (List.mem_reverse.mp (Keyed.mem_of_get? hlast))
  refine ⟨selector, ⟨text, hclass, (selects_iff hword).mp hselects⟩, hlast, ?_⟩
  rintro entry hentry ⟨other, hother, hhas⟩
  obtain rfl : text = other := Option.some.inj (hclass.symm.trans hother)
  exact hlatest entry hentry ((selects_iff (hwords entry hentry)).mpr hhas)

end Registered

/-- An element becomes a widget just if it makes place for a child. -/
theorem Node.attach_element_eq_iff {attachment : Attachment} {expansion : Expansion}
    {element : Element} {widget : Widget} :
    (Node.attach attachment expansion (.element element)).value = [.widget widget] ↔
      ∃ child, attachment.childFor? element = some child ∧
        attachment.widgetFor expansion.partials child element = widget := by
  obtain ⟨tag, attributes, children, isRoot⟩ := element
  rw [Node.attach]
  cases attachment.childFor? ⟨tag, attributes, children, isRoot⟩ with
  | none => simp
  | some child => simp

namespace Host

/-- An element that is no root is replaced by a widget just if one of the selectors is a word of
its class, and then by a widget for the child that was put last under that one of these selectors
that was first used last. -/
theorem attach_registered (host : Host) {component : Component} (wrapper : Wrapper)
    (registry : RegistryName) (config : Config) {registrations : List (String × ComponentId)}
    (hchildren : component.children = Keyed.ofEntries registrations)
    (hwords : ∀ entry ∈ registrations, Text.IsWord entry.1.toList)
    (expansion : Expansion) {element : Element} (hroot : element.isRoot = false) :
    let attached := Node.attach (host.attachment component wrapper registry config) expansion
      (.element element)
    ((∃ widget, attached.value = [.widget widget]) ↔
        ∃ entry ∈ registrations, element.HasClass entry.1) ∧
      ∀ widget, attached.value = [.widget widget] →
        ∃ selector child, element.HasClass selector ∧
          (∀ entry ∈ registrations, element.HasClass entry.1 →
            Keyed.firstUse registrations entry.1 ≤ Keyed.firstUse registrations selector) ∧
          Keyed.get? selector registrations.reverse = some child ∧
          widget = ⟨wrapper, child, element, expansion.partials, registry, config⟩ := by
  intro attached
  have hattachment : (host.attachment component wrapper registry config).children =
      Keyed.ofEntries registrations := hchildren
  refine ⟨?_, ?_⟩
  · rw [← Attachment.isSome_childFor?_iff hattachment hwords hroot, Option.isSome_iff_exists]
    simp only [attached, Node.attach_element_eq_iff]
    constructor
    · rintro ⟨_, child, hchild, -⟩
      exact ⟨child, hchild⟩
    · rintro ⟨child, hchild⟩
      exact ⟨_, child, hchild, rfl⟩
  · intro widget hwidget
    obtain ⟨child, hchild, rfl⟩ := Node.attach_element_eq_iff.mp hwidget
    obtain ⟨selector, hclass, hlast, hlatest⟩ :=
      Attachment.childFor?_eq_some hattachment hwords hroot hchild
    exact ⟨selector, child, hclass, hlatest, hlast, rfl⟩

/-! ## A shelf -/

/-- What is put on a shelf, one after the other: a book, a box, and another book in the place of
the first. -/
def shelved : List (String × ComponentId) := [("book", ⟨1⟩), ("box", ⟨2⟩), ("book", ⟨3⟩)]

/-- A host with a shelf and what is put on it. -/
def shelfHost : Host :=
  shelved.foldl (fun host entry => host.addChild ⟨0⟩ entry.1 entry.2)
    ⟨[(⟨0⟩, .ofView "shelf" "ul" .null), (⟨1⟩, .ofView "old" "li" .null),
      (⟨2⟩, .ofView "case" "li" .null), (⟨3⟩, .ofView "new" "li" .null)], 4, [], []⟩

/-- The shelf. -/
def bookshelf : Component := { Component.ofView "shelf" "ul" .null with
  children := [("book", ⟨3⟩), ("box", ⟨2⟩)] }

/-- An item whose class has both selectors, next to a value and another word. -/
def boxedItem : Element :=
  ⟨"li", [⟨"class", .mixed [.text " box boxes", .interpolator ⟨"state"⟩, .text "book"]⟩], [], false⟩

/-- The selector of the box was first used last, though it stands first in the class. -/
theorem attach_boxedItem :
    shelfHost.component? ⟨0⟩ = some bookshelf ∧ bookshelf.children = Keyed.ofEntries shelved ∧
      (∀ entry ∈ shelved, Text.IsWord entry.1.toList) ∧ boxedItem.isRoot = false ∧
      ∃ widget : Widget, widget.child = ⟨2⟩ ∧
        (Node.attach (shelfHost.attachment bookshelf ⟨"ComponentWidget", 0⟩ .injected {})
          ⟨[], [], fun _ _ => pure []⟩ (.element boxedItem)).value = [.widget widget] := by
  have hchildren : bookshelf.children = Keyed.ofEntries shelved := by decide +kernel
  have hwords : ∀ entry ∈ shelved, Text.IsWord entry.1.toList := by decide +kernel
  obtain ⟨hiff, hwidget⟩ := shelfHost.attach_registered ⟨"ComponentWidget", 0⟩ .injected {}
    hchildren hwords ⟨[], [], fun _ _ => pure []⟩ (show boxedItem.isRoot = false from rfl)
  have hbox : boxedItem.HasClass "box" :=
    ⟨_, rfl, Text.mem_words_iff.mp (by decide +kernel)⟩
  obtain ⟨widget, hattach⟩ := hiff.mpr ⟨("box", ⟨2⟩), by decide, hbox⟩
  refine ⟨rfl, hchildren, hwords, rfl, widget, ?_, hattach⟩
  obtain ⟨selector, child, -, hlatest, hlast, rfl⟩ := hwidget widget hattach
  have hfirst := hlatest ("box", ⟨2⟩) (by decide) hbox
  have hmem := Keyed.mem_of_get? hlast
  -- What was put on the shelf last is the new book, but books were put there first.
  simp only [shelved, List.reverse_cons, List.reverse_nil, List.nil_append, List.cons_append,
    List.mem_cons, Prod.mk.injEq, List.not_mem_nil, or_false] at hmem
  rcases hmem with ⟨rfl, rfl⟩ | ⟨rfl, rfl⟩ | ⟨rfl, rfl⟩
  · exact absurd hfirst (by decide +kernel)
  · rfl
  · exact absurd hfirst (by decide +kernel)

end Host

end Stencil
