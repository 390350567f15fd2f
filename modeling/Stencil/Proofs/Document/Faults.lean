import Mathlib.Data.List.Basic
import Stencil.Document.Decode

/-!
# The first fault of a document

The nodes of a document are decoded in order: a node comes before those inside it, the values of
its attributes come before its children, and the items of an envelope before its partials.  Only
elements have attributes, and only elements, blocks and partials have contents; what other nodes
hold under these keys is not looked at.  Decoding fails at the first node whose type is unknown or
that lacks the field its type needs, and fails at no other node.

* `Fields.fault?` — what is wrong with a single node.
* `Fields.inside`, `Item.nodes`, `Shape.nodes` — the nodes that are decoded, in order.
* `errorOf?_decode` — the error of decoding is that of the first faulty node.
* `ofValue_eq_error_iff` — documents of the right shape, as values and as texts.
-/

namespace Stencil.Document

/-! ## The nodes of a document -/

/-- The number that stands for a type. -/
def NodeType.number : NodeType → Nat
  | .interpolator => 2
  | .triple => 3
  | .sectionBlock => 4
  | .unlessBlock => 5
  | .element => 7
  | .partialRef => 8
  | .comment => 9
  | .closingTag => 14
  | .reference => 30

theorem NodeType.eq_number {number : Nat} {type : NodeType}
    (h : NodeType.ofNumber? number = some type) : number = type.number := by
  unfold NodeType.ofNumber? at h
  split at h <;> cases h <;> rfl

/-- Whether a node has the field that its type needs. -/
def Fields.hasNeeded (fields : Fields) : NodeType → Bool
  | .element | .closingTag => fields.tag.isSome
  | .comment => true
  | _ => fields.reference.isSome

/-- What is wrong with a node, apart from those inside it. -/
def Fields.fault? (fields : Fields) : Option DecodeError :=
  match NodeType.ofNumber? fields.type with
  | none => some (.unknownType fields.type)
  | some type => if fields.hasNeeded type then none else some (.missingField type)

/-- The items of a fragment. -/
def Fragment.given : Fragment → List Item
  | .items inner => inner
  | _ => []

/-- The items inside a node: for an element, those in the values of its attributes and then its
children; for a block or a partial, its children; and none for other nodes. -/
def Fields.inside (fields : Fields) : List Item :=
  if fields.type = 7 then fields.attributes.flatMap (·.2.given) ++ fields.contents.given
  else if fields.type = 4 ∨ fields.type = 5 ∨ fields.type = 8 then fields.contents.given
  else []

theorem sizeOf_given_lt {fragment : Fragment} {item : Item} (hitem : item ∈ fragment.given) :
    sizeOf item < sizeOf fragment := by
  cases fragment with
  | items items =>
    have hlt : sizeOf item < sizeOf items := List.sizeOf_lt_of_mem hitem
    simp only [Fragment.items.sizeOf_spec]
    omega
  | absent | text _ => cases hitem

theorem sizeOf_inside_lt {fields : Fields} {item : Item} (hitem : item ∈ fields.inside) :
    sizeOf item < sizeOf fields := by
  obtain ⟨type, tag, attributes, contents, reference, comment, id, modifier⟩ := fields
  have hcontents : item ∈ contents.given → sizeOf item < sizeOf contents := sizeOf_given_lt
  have hattributes : item ∈ attributes.flatMap (·.2.given) →
      sizeOf item < sizeOf attributes := by
    intro hmem
    obtain ⟨⟨name, value⟩, hentry, hvalue⟩ := List.mem_flatMap.mp hmem
    have hlt := List.sizeOf_lt_of_mem hentry
    have hinner : sizeOf item < sizeOf value := sizeOf_given_lt hvalue
    simp only [Prod.mk.sizeOf_spec] at hlt
    omega
  simp only [Fields.mk.sizeOf_spec]
  unfold Fields.inside at hitem
  split at hitem
  · rcases List.mem_append.mp hitem with hmem | hmem
    · have := hattributes hmem
      omega
    · have := hcontents hmem
      omega
  · split at hitem
    · have := hcontents hitem
      omega
    · cases hitem

/-- The nodes of an item in the order in which they are decoded: a node before those inside. -/
def Item.nodes : Item → List Fields
  | .text _ => []
  | .node fields => fields :: fields.inside.attach.flatMap fun inner => inner.1.nodes
termination_by item => sizeOf item
decreasing_by
  have := sizeOf_inside_lt inner.2
  simp only [Item.node.sizeOf_spec]
  omega

@[simp] theorem Item.nodes_text (text : String) : (Item.text text).nodes = [] := by
  rw [nodes]

@[simp] theorem Item.nodes_node (fields : Fields) :
    (Item.node fields).nodes = fields :: fields.inside.flatMap Item.nodes := by
  rw [nodes, List.flatMap_subtype (g := Item.nodes) (by simp), List.unattach_attach]

/-- The nodes of a document in the order in which they are decoded. -/
def Shape.nodes : Shape → List Fields
  | .envelope items partials =>
      items.flatMap Item.nodes ++ (partials.flatMap (·.2.given)).flatMap Item.nodes
  | .many items => items.flatMap Item.nodes
  | .one item => item.nodes

/-- The first fault among nodes. -/
def firstFault (nodes : List Fields) : Option DecodeError := nodes.findSome? Fields.fault?

theorem firstFault_append (front rest : List Fields) :
    firstFault (front ++ rest) = (firstFault front).or (firstFault rest) :=
  List.findSome?_append

theorem firstFault_cons (node : Fields) (rest : List Fields) :
    firstFault (node :: rest) = node.fault?.or (firstFault rest) := by
  rw [firstFault, List.findSome?_cons]
  cases node.fault? <;> rfl

/-! ## Errors of decoding -/

/-- The error that decoding ends with, if it does. -/
def errorOf? {α : Type} : Except DecodeError α → Option DecodeError
  | .ok _ => none
  | .error error => some error

/-- Of two pieces of work, one after the other, the first error counts. -/
theorem errorOf?_bind {α β : Type} {first : Except DecodeError α}
    {next : α → Except DecodeError β} {fault : Option DecodeError}
    (hnext : ∀ value, errorOf? (next value) = fault) :
    errorOf? (first >>= next) = (errorOf? first).or fault := by
  cases first with
  | error error => rfl
  | ok value => exact (hnext value).trans Option.none_or.symm

/-- Work that is followed by a step without errors has its own error. -/
theorem errorOf?_bind_none {α β : Type} {first : Except DecodeError α}
    {next : α → Except DecodeError β} (hnext : ∀ value, errorOf? (next value) = none) :
    errorOf? (first >>= next) = errorOf? first := by
  rw [errorOf?_bind hnext, Option.or_none]

/-- A field that is needed and not there is the first fault. -/
theorem errorOf?_require_bind {β : Type} {type : NodeType} {field : Option String}
    {next : String → Except DecodeError β} {fault : Option DecodeError}
    (hnext : ∀ text, errorOf? (next text) = fault) :
    errorOf? (require type field >>= next) =
      (if field.isSome then none else some (.missingField type)).or fault := by
  cases field with
  | none => rfl
  | some text => exact (hnext text).trans Option.none_or.symm

-- The recursion is that of the decoder.  A node of an unknown type is the first fault by itself;
-- of any other one the needed field comes first, and what is inside it next.
mutual
/-- An item is decoded with the first fault among its nodes. -/
theorem errorOf?_decodeItem :
    ∀ item : Item, errorOf? (decodeItem item) = firstFault item.nodes
  | .text text => by
    rw [decodeItem, Item.nodes_text]
    rfl
  | .node ⟨number, tag, attributes, contents, reference, comment, id, modifier⟩ => by
    have hattributes := errorOf?_decodeAttributes attributes
    have hcontents := errorOf?_decodeFragment contents
    rw [Item.nodes_node, firstFault_cons, decodeItem, Fields.fault?]
    cases htype : NodeType.ofNumber? number with
    | none => rfl
    | some type =>
      obtain rfl := NodeType.eq_number htype
      cases type with
      | element =>
        refine errorOf?_require_bind fun _ => ?_
        refine (errorOf?_bind fun _ => errorOf?_bind_none fun _ => rfl).trans ?_
        rw [hattributes, hcontents, ← firstFault_append, ← List.flatMap_append]
        rfl
      | sectionBlock =>
        refine errorOf?_require_bind fun _ => ?_
        exact (errorOf?_bind_none fun _ => by split <;> rfl).trans hcontents
      | unlessBlock | partialRef =>
        exact errorOf?_require_bind fun _ => (errorOf?_bind_none fun _ => rfl).trans hcontents
      | interpolator | triple | reference | closingTag => exact errorOf?_require_bind fun _ => rfl
      | comment => rfl
/-- Items are decoded with the first fault among their nodes. -/
theorem errorOf?_decodeItems :
    ∀ items : List Item, errorOf? (decodeItems items) = firstFault (items.flatMap Item.nodes)
  | [] => rfl
  | item :: rest => by
    rw [decodeItems, List.flatMap_cons, firstFault_append, ← errorOf?_decodeItem item,
      ← errorOf?_decodeItems rest]
    exact errorOf?_bind fun _ => errorOf?_bind_none fun _ => rfl
theorem errorOf?_decodeFragment :
    ∀ fragment : Fragment,
      errorOf? (decodeFragment fragment) = firstFault (fragment.given.flatMap Item.nodes)
  | .absent => rfl
  | .text _ => rfl
  | .items items => errorOf?_decodeItems items
theorem errorOf?_decodeAttributes :
    ∀ entries : List (String × Fragment),
      errorOf? (decodeAttributes entries) =
        firstFault ((entries.flatMap (·.2.given)).flatMap Item.nodes)
  | [] => rfl
  | (name, .absent) :: rest => by
    rw [decodeAttributes, errorOf?_bind_none fun _ => rfl, errorOf?_decodeAttributes rest]
    rfl
  | (name, .text text) :: rest => by
    rw [decodeAttributes, errorOf?_bind_none fun _ => rfl, errorOf?_decodeAttributes rest]
    rfl
  | (name, .items items) :: rest => by
    rw [decodeAttributes, List.flatMap_cons, List.flatMap_append, firstFault_append,
      ← errorOf?_decodeAttributes rest, Fragment.given, ← errorOf?_decodeItems items]
    exact errorOf?_bind fun _ => errorOf?_bind_none fun _ => rfl
end

theorem errorOf?_decodePartials (partials : List (String × Fragment)) :
    errorOf? (decodePartials partials) =
      firstFault ((partials.flatMap (·.2.given)).flatMap Item.nodes) := by
  induction partials with
  | nil => rfl
  | cons entry rest ih =>
    obtain ⟨name, fragment⟩ := entry
    rw [decodePartials, List.flatMap_cons, List.flatMap_append, firstFault_append, ← ih,
      ← errorOf?_decodeFragment fragment]
    exact errorOf?_bind fun _ => errorOf?_bind_none fun _ => rfl

/-- A document is decoded with the first fault among its nodes. -/
theorem errorOf?_decode (shape : Shape) : errorOf? shape.decode = firstFault shape.nodes := by
  cases shape with
  | envelope items partials =>
    rw [Shape.decode, Shape.nodes, firstFault_append, ← errorOf?_decodeItems items,
      ← errorOf?_decodePartials partials]
    exact errorOf?_bind fun _ => errorOf?_bind_none fun _ => rfl
  | many items =>
    rw [Shape.decode, Shape.nodes, ← errorOf?_decodeItems items]
    exact errorOf?_bind_none fun _ => rfl
  | one item =>
    rw [Shape.decode, Shape.nodes, ← errorOf?_decodeItem item]
    exact errorOf?_bind_none fun _ => rfl

/-! ## What is not looked at -/

/-- Contents of a node that is no element, no block and no partial make no difference. -/
theorem decodeItem_contents {fields : Fields} (htype : fields.type ∉ [4, 5, 7, 8])
    (contents : Fragment) :
    decodeItem (.node { fields with contents }) = decodeItem (.node fields) := by
  obtain ⟨number, tag, attributes, old, reference, comment, id, modifier⟩ := fields
  rw [decodeItem, decodeItem]
  cases hnumber : NodeType.ofNumber? number with
  | none => rfl
  | some type =>
    obtain rfl := NodeType.eq_number hnumber
    cases type with
    | element | sectionBlock | unlessBlock | partialRef => simp [NodeType.number] at htype
    | _ => rfl

/-- Attributes of a node that is no element make no difference. -/
theorem decodeItem_attributes {fields : Fields} (htype : fields.type ≠ 7)
    (attributes : List (String × Fragment)) :
    decodeItem (.node { fields with attributes }) = decodeItem (.node fields) := by
  obtain ⟨number, tag, old, contents, reference, comment, id, modifier⟩ := fields
  rw [decodeItem, decodeItem]
  cases hnumber : NodeType.ofNumber? number with
  | none => rfl
  | some type =>
    obtain rfl := NodeType.eq_number hnumber
    cases type with
    | element => exact absurd rfl htype
    | _ => rfl

/-! ## Documents -/

/-- Decoding a document fails with the fault of its first faulty node. -/
theorem decode_eq_error_iff {shape : Shape} {fault : DecodeError} :
    shape.decode = .error fault ↔ ∃ before node after, shape.nodes = before ++ node :: after ∧
      node.fault? = some fault ∧ ∀ earlier ∈ before, earlier.fault? = none := by
  rw [← List.findSome?_eq_some_iff]
  change _ ↔ firstFault shape.nodes = some fault
  rw [← errorOf?_decode]
  cases shape.decode <;> simp [errorOf?]

/-- Decoding a document succeeds if none of its nodes is faulty. -/
theorem exists_decode_iff {shape : Shape} :
    (∃ compiled, shape.decode = .ok compiled) ↔ ∀ node ∈ shape.nodes, node.fault? = none := by
  rw [← List.findSome?_eq_none_iff]
  change _ ↔ firstFault shape.nodes = none
  rw [← errorOf?_decode]
  cases shape.decode <;> simp [errorOf?]

/-- A value of the right shape has the outcome of its decoding. -/
theorem ofValue_of_shape {value : Json} {shape : Shape} (hshape : ofJson? value = some shape) :
    ofValue value = shape.decode.mapError .decode := by
  rw [ofValue, shapeOf, hshape]
  rfl

/-- A text with nothing behind its first value is parsed as that value. -/
theorem parse_of_readFirst {text : String} {value : Json}
    (htext : Json.readFirst Json.textDepth text = .ok (value, false)) :
    parse text = ofValue value := by
  rw [parse, htext]
  rfl

/-- A document of the right shape has no graph just if one of the nodes that are decoded is
faulty, and its error is then that of the first such node; a text has the outcome of its value.
What stands where nodes of a type hold nothing makes no difference. -/
theorem ofValue_eq_error_iff {value : Json} {shape : Shape} (hshape : ofJson? value = some shape) :
    (∀ error, ofValue value = .error error ↔
      ∃ fault before node after, error = .decode fault ∧ shape.nodes = before ++ node :: after ∧
        node.fault? = some fault ∧ ∀ earlier ∈ before, earlier.fault? = none) ∧
    ((∃ compiled, ofValue value = .ok compiled) ↔ ∀ node ∈ shape.nodes, node.fault? = none) ∧
    (∀ text, Json.readFirst Json.textDepth text = .ok (value, false) →
      parse text = ofValue value) ∧
    (∀ (fields : Fields) (contents : Fragment), fields.type ∉ [4, 5, 7, 8] →
      decodeItem (.node { fields with contents }) = decodeItem (.node fields)) ∧
    ∀ (fields : Fields) (attributes : List (String × Fragment)), fields.type ≠ 7 →
      decodeItem (.node { fields with attributes }) = decodeItem (.node fields) := by
  have hvalue := ofValue_of_shape hshape
  refine ⟨fun error => ?_, ?_, fun text => parse_of_readFirst,
    fun _ contents h => decodeItem_contents h _, fun _ attributes h => decodeItem_attributes h _⟩
  · simp only [exists_and_left, ← decode_eq_error_iff]
    rw [hvalue]
    cases shape.decode <;> simp [Except.mapError, eq_comm]
  · rw [hvalue, ← exists_decode_iff]
    cases shape.decode <;> simp [Except.mapError]

/-- A document with faults at several depths.  What stands in the comment is not decoded, and the
partial in the title comes before the child and before the element behind. -/
def faultyDocument : Json :=
  .array
    [.array [.number (.integer 9), .null, .null, .array [.array [.number (.integer 99)]]],
      .object
        [("f", .array [.object [("t", .number (.integer 77))]]),
          ("a", .object [("title", .array [.string "x", .object [("t", .number (.integer 8))]])]),
          ("e", .string "p"), ("t", .number (.integer 7))],
      .object [("t", .number (.integer 7))]]

/-- The shape of `faultyDocument`. -/
def faultyShape : Shape :=
  .many
    [.node { Fields.blank with
        type := 9, contents := .items [.node { Fields.blank with type := 99 }] },
      .node { Fields.blank with
        type := 7, tag := some "p"
        attributes := [("title", .items [.text "x", .node { Fields.blank with type := 8 }])]
        contents := .items [.node { Fields.blank with type := 77 }] },
      .node { Fields.blank with type := 7 }]

theorem ofValue_faultyDocument :
    ofJson? faultyDocument = some faultyShape ∧
      ofValue faultyDocument = .error (.decode (.missingField .partialRef)) := by
  have hshape : ofJson? faultyDocument = some faultyShape := rfl
  have hnodes : faultyShape.nodes =
      [{ Fields.blank with type := 9, contents := .items [.node { Fields.blank with type := 99 }] },
        { Fields.blank with
          type := 7, tag := some "p"
          attributes := [("title", .items [.text "x", .node { Fields.blank with type := 8 }])]
          contents := .items [.node { Fields.blank with type := 77 }] }] ++
        { Fields.blank with type := 8 } ::
          [{ Fields.blank with type := 77 }, { Fields.blank with type := 7 }] := by
    simp [faultyShape, Shape.nodes, Fields.inside, Fragment.given, Fields.blank]
  exact ⟨hshape, ((ofValue_eq_error_iff hshape).1 _).mpr
    ⟨_, _, _, _, rfl, hnodes, rfl, by simp [Fields.fault?, NodeType.ofNumber?, Fields.hasNeeded]⟩⟩

end Stencil.Document
