import Stencil.Proofs.Document.Fields

/-!
# Documents have one shape

The three shapes of a document are tried one after another, yet no value fits two of them.  An
envelope and a node are both objects, but the envelope's `t` is an array and the node's is a
number.  An array of items starts with an item if it is not empty, and a node that is an array
with a number, which is no item.  So the order of trying makes no difference.

* `ofJson?_of_readEnvelope`, `ofJson?_of_readMany`, `ofJson?_of_readItem` — the shape that fits
  is the one that is read.
* `shapeReaders` — the readers of the shapes in the order of trying.
* `shapeReaders_exclusive` — of any two of them, one fails.
* `findSome?_eq_ofJson?` — in any other order they read the same.
-/

namespace Stencil.Document

/-! ## Types are numbers -/

theorem exists_number_of_readField_type {old fields : Fields} {value : Json}
    (hread : readField "t" old value = some fields) : ∃ number, value = .number number := by
  rw [readField_eq_withField, withField] at hread
  cases value with
  | number number => exact ⟨number, rfl⟩
  | null | bool _ | string _ | array _ | object _ => cases hread

/-- Wherever the type of a node stands among its members, it is a number. -/
theorem exists_number_of_readMembers {members : List (String × Json)} {old fields : Fields}
    {type : Json} (hread : readMembers old members = some fields)
    (htype : Keyed.get? "t" members = some type) : ∃ number, type = .number number := by
  induction members generalizing old with
  | nil => cases htype
  | cons member rest ih =>
    obtain ⟨key, value⟩ := member
    obtain ⟨middle, hfirst, hrest⟩ := Option.bind_eq_some_iff.mp hread
    by_cases hkey : key = "t"
    · subst hkey
      rw [Keyed.get?, if_pos rfl, Option.some.injEq] at htype
      subst htype
      exact exists_number_of_readField_type hfirst
    · rw [Keyed.get?, if_neg hkey] at htype
      exact ih hrest htype

/-! ## Two shapes at a time -/

theorem readMany_eq_none_of_readEnvelope {value : Json} {shape : Shape}
    (henvelope : readEnvelope value = some shape) : readMany value = none := by
  cases value with
  | object members => rfl
  | null | bool _ | number _ | string _ | array _ => cases henvelope

theorem readItem_eq_none_of_readEnvelope {value : Json} {shape : Shape}
    (henvelope : readEnvelope value = some shape) : readItem value = none := by
  cases value with
  | null | bool _ | number _ | string _ | array _ => cases henvelope
  | object members =>
    rw [Option.eq_none_iff_forall_not_mem]
    intro item hitem
    -- The items of the envelope stand where a node has the number of its type.
    simp only [readEnvelope, Option.ite_none_right_eq_some] at henvelope
    obtain ⟨items, hitems, -⟩ := Option.bind_eq_some_iff.mp henvelope.2
    obtain ⟨values, hvalues⟩ : ∃ values, Keyed.get? "t" members = some (.array values) := by
      rw [Json.get?_object] at hitems
      unfold readContents at hitems
      split at hitems
      · exact ⟨_, by assumption⟩
      · cases hitems
    simp only [readItem, Option.mem_def, Option.ite_none_right_eq_some,
      Option.map_eq_some_iff] at hitem
    obtain ⟨-, fields, hfields, -⟩ := hitem
    obtain ⟨number, hnumber⟩ := exists_number_of_readMembers hfields hvalues
    cases hnumber

theorem readItem_eq_none_of_readMany {value : Json} {shape : Shape}
    (hmany : readMany value = some shape) : readItem value = none := by
  cases value with
  | null | bool _ | number _ | string _ | object _ => cases hmany
  | array values =>
    cases values with
    | nil => rw [readItem]
    | cons first rest =>
      rw [Option.eq_none_iff_forall_not_mem]
      intro item hitem
      -- The first value would be an item and the number of a type.
      obtain ⟨items, hitems, -⟩ := Option.map_eq_some_iff.mp hmany
      obtain ⟨_, hfirst, -⟩ := Option.bind_eq_some_iff.mp hitems
      rw [readItem, Option.mem_def, Option.map_eq_some_iff] at hitem
      obtain ⟨fields, hfields, -⟩ := hitem
      obtain ⟨_, htype, -⟩ := Option.bind_eq_some_iff.mp hfields
      obtain ⟨number, rfl⟩ := exists_number_of_readField_type htype
      cases hfirst

/-! ## What is read is the document -/

theorem ofJson?_of_readEnvelope {value : Json} {shape : Shape}
    (hread : readEnvelope value = some shape) : ofJson? value = some shape := by
  rw [ofJson?, hread, Option.some_or]

theorem ofJson?_of_readMany {value : Json} {shape : Shape}
    (hread : readMany value = some shape) : ofJson? value = some shape := by
  cases henvelope : readEnvelope value with
  | none => rw [ofJson?, henvelope, hread, Option.none_or, Option.some_or]
  | some other =>
    rw [readMany_eq_none_of_readEnvelope henvelope] at hread
    cases hread

theorem ofJson?_of_readItem {value : Json} {item : Item}
    (hread : readItem value = some item) : ofJson? value = some (.one item) := by
  cases henvelope : readEnvelope value with
  | some other =>
    rw [readItem_eq_none_of_readEnvelope henvelope] at hread
    cases hread
  | none =>
    cases hmany : readMany value with
    | some other =>
      rw [readItem_eq_none_of_readMany hmany] at hread
      cases hread
    | none =>
      rw [ofJson?, henvelope, hmany, hread, Option.none_or, Option.none_or, Option.map_some]

/-! ## All shapes -/

/-- The readers of the shapes, in the order in which they are tried. -/
def shapeReaders : List (Json → Option Shape) :=
  [readEnvelope, readMany, fun value => (readItem value).map .one]

theorem ofJson?_eq_findSome? (value : Json) :
    ofJson? value = shapeReaders.findSome? (· value) := by
  simp only [ofJson?, shapeReaders, List.findSome?_cons, List.findSome?_nil]
  cases readEnvelope value with
  | some shape => rfl
  | none =>
    cases readMany value with
    | some shape => rfl
    | none => cases readItem value <;> rfl

/-- No value fits two shapes. -/
theorem shapeReaders_exclusive (value : Json) :
    shapeReaders.Pairwise fun first second => first value = none ∨ second value = none := by
  simp only [shapeReaders, List.pairwise_cons, List.mem_cons, List.not_mem_nil, or_false,
    forall_eq_or_imp, forall_eq, Option.map_eq_none_iff, List.Pairwise.nil, and_true,
    false_imp_iff, implies_true]
  cases henvelope : readEnvelope value with
  | some shape =>
    have hmany := readMany_eq_none_of_readEnvelope henvelope
    have hitem := readItem_eq_none_of_readEnvelope henvelope
    exact ⟨⟨.inr hmany, .inr hitem⟩, .inr hitem⟩
  | none =>
    cases hmany : readMany value with
    | some shape => exact ⟨⟨.inl rfl, .inl rfl⟩, .inr (readItem_eq_none_of_readMany hmany)⟩
    | none => exact ⟨⟨.inl rfl, .inl rfl⟩, .inl rfl⟩

/-- Of functions of which no two give a value, the first one that does is the only one. -/
theorem findSome?_eq_of_perm {α β : Type} {f : α → Option β} {entries others : List α}
    (hperm : entries.Perm others)
    (hexclusive : entries.Pairwise fun first second => f first = none ∨ f second = none) :
    entries.findSome? f = others.findSome? f := by
  induction hperm with
  | nil => rfl
  | cons entry _ ih => rw [List.findSome?_cons, List.findSome?_cons, ih hexclusive.of_cons]
  | swap first second rest =>
    simp only [List.pairwise_cons, List.mem_cons, forall_eq_or_imp] at hexclusive
    rcases hexclusive.1.1 with hnone | hnone
    · simp [List.findSome?_cons, hnone]
    · simp [List.findSome?_cons, hnone]
  | trans hfirst _ ihfirst ihsecond =>
    have hsymm : ∀ {first second : α}, f first = none ∨ f second = none →
        f second = none ∨ f first = none := Or.symm
    rw [ihfirst hexclusive, ihsecond ((hfirst.pairwise_iff hsymm).mp hexclusive)]

/-- The readers may be tried in any order. -/
theorem findSome?_eq_ofJson? {order : List (Json → Option Shape)}
    (horder : order.Perm shapeReaders) (value : Json) :
    order.findSome? (· value) = ofJson? value := by
  rw [ofJson?_eq_findSome?]
  exact (findSome?_eq_of_perm horder.symm (shapeReaders_exclusive value)).symm

end Stencil.Document
