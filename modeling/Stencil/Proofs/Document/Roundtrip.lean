import Stencil.Proofs.Document.Shapes
import Stencil.Proofs.Document.Spelling

/-!
# Documents are read as the graphs they spell

Whatever spells a graph is read and decoded as that graph, node by node: the members that a node
has are the fields that are read, and the fields that are read decode to it.  Attributes and
partials come in the order in which they are spelled, since no name is repeated.

* `Node.exists_item` — a node's spelling is read as an item that decodes to the node.
* `Compiled.exists_shape` — a document's spelling is read as a shape that decodes to its graph.
* `Document.ofValue_of_spelledBy` — the graph of a document is the one it spells, and what is
  written for a graph spells it; only one shape fits.
-/

namespace Stencil

namespace Document

/-! ## Members -/

section Members

variable {member : Option Json}

theorem eq_of_isLeftOut (h : isLeftOut member = true) :
    member = none ∨ member = some .null := by
  unfold isLeftOut at h
  split at h
  · exact .inl rfl
  · exact .inr rfl
  · cases h

theorem textField_of_isLeftOut (h : isLeftOut member = true) :
    textField none member = some none := by
  rcases eq_of_isLeftOut h with rfl | rfl <;> rfl

theorem textField_of_isText {text : String} (h : isText text member = true) :
    textField none member = some (some text) := by
  unfold isText at h
  split at h
  · simpa [textField] using h
  · cases h

theorem textField_of_isTextIfAny {text : Option String} (h : isTextIfAny text member = true) :
    textField none member = some text := by
  cases text with
  | none => exact textField_of_isLeftOut h
  | some text => exact textField_of_isText h

theorem eq_of_isNumber {number : Nat} (h : isNumber number member = true) :
    member = some (.number (.integer number)) := by
  unfold isNumber at h
  split at h
  · simpa using h
  · cases h

theorem byteOf?_natCast {number : Nat} (hbyte : number < 256) :
    byteOf? (.integer number) = some number := by
  rw [byteOf?, if_pos (by omega), Int.toNat_natCast]

theorem modifierField_of_isLeftOut (h : isLeftOut member = true) :
    modifierField none member = some none := by
  rcases eq_of_isLeftOut h with rfl | rfl <;> rfl

theorem modifierField_of_isNumber {number : Nat} (hbyte : number < 256)
    (h : isNumber number member = true) : modifierField none member = some (some number) := by
  rw [eq_of_isNumber h, modifierField, byteOf?_natCast hbyte, Option.map_some]

/-! ## Contents and attributes -/

variable {areItems : List Json → Bool} {nodes : List Node}

/-- What spells nodes is read as a fragment that decodes to them. -/
theorem exists_fragment {value : Json}
    (hitems : ∀ values, areItems values = true →
      ∃ items, readItems values = some items ∧ decodeItems items = .ok nodes)
    (h : isFragment nodes areItems value = true) :
    ∃ fragment, readPartial value = some fragment ∧ decodeFragment fragment = .ok nodes := by
  cases value with
  | array values =>
    obtain ⟨items, hread, hdecode⟩ := hitems values h
    exact ⟨.items items, by rw [readPartial, hread, Option.map_some], hdecode⟩
  | string text =>
    simp only [isFragment, isOneText] at h
    split at h
    · rw [beq_iff_eq] at h
      exact ⟨.text text, rfl, by rw [decodeFragment, h]⟩
    · cases h
  | null | bool _ | number _ | object _ => cases h

theorem contentsField_of_readPartial {value : Json} {fragment : Fragment}
    (h : readPartial value = some fragment) (old : Fragment) :
    contentsField old (some value) = some fragment := by
  cases value with
  | array _ | string _ => exact h
  | null | bool _ | number _ | object _ => cases h

theorem exists_contents
    (hitems : ∀ values, areItems values = true →
      ∃ items, readItems values = some items ∧ decodeItems items = .ok nodes)
    (h : isContents nodes areItems member = true) :
    ∃ contents, contentsField .absent member = some contents ∧
      decodeFragment contents = .ok nodes := by
  unfold isContents at h
  split at h
  · rw [List.isEmpty_iff.mp h]
    exact ⟨.absent, rfl, rfl⟩
  · rw [List.isEmpty_iff.mp h]
    exact ⟨.absent, rfl, rfl⟩
  · obtain ⟨fragment, hread, hdecode⟩ := exists_fragment hitems h
    exact ⟨fragment, contentsField_of_readPartial hread .absent, hdecode⟩

theorem exists_contents_of_isLeftOut (h : isLeftOut member = true) :
    ∃ contents, contentsField .absent member = some contents ∧
      decodeFragment contents = .ok [] := by
  rcases eq_of_isLeftOut h with rfl | rfl
  · exact ⟨.absent, rfl, rfl⟩
  · exact ⟨.absent, rfl, rfl⟩

/-- Attributes of distinct names are read in the order in which they are spelled. -/
theorem exists_attributes {attributes : List Attribute}
    {areMembers : List (String × Json) → Bool}
    (hdistinct : (attributes.map Attribute.name).Nodup)
    (hmembers : ∀ members, areMembers members = true →
      ∃ entries, readAttributes members = some entries ∧
        entries.map Prod.fst = attributes.map Attribute.name ∧
        decodeAttributes entries = .ok attributes)
    (h : isAttributes attributes areMembers member = true) :
    ∃ entries, attributesField [] member = some entries ∧
      decodeAttributes entries = .ok attributes := by
  unfold isAttributes at h
  split at h
  · rw [List.isEmpty_iff.mp h]
    exact ⟨[], rfl, rfl⟩
  · rw [List.isEmpty_iff.mp h]
    exact ⟨[], rfl, rfl⟩
  · obtain ⟨entries, hread, hnames, hdecode⟩ := hmembers _ h
    have hkeys : Keyed.ofEntries entries = entries := Keyed.ofEntries_of_nodup (hnames ▸ hdistinct)
    exact ⟨entries, by rw [attributesField, hread, Option.map_some, hkeys], hdecode⟩
  · cases h

theorem exists_attributes_of_isLeftOut (h : isLeftOut member = true) :
    ∃ entries, attributesField [] member = some entries ∧
      decodeAttributes entries = .ok [] := by
  rcases eq_of_isLeftOut h with rfl | rfl
  · exact ⟨[], rfl, rfl⟩
  · exact ⟨[], rfl, rfl⟩

end Members

/-! ## Nodes of one type -/

/-- A node is read as the fields that its members, if they are as demanded, all give. -/
theorem exists_fields_of_isNode {number : Nat} {demands : Demands} {value : Json}
    {tag reference comment id : Option String} {modifier : Option Nat}
    {attributes : List Attribute} {children : List Node}
    (hnode : isNode number demands value = true) (hbyte : number < 256)
    (he : ∀ member, demands.e member = true → textField none member = some tag)
    (ha : ∀ member, demands.a member = true → ∃ entries,
      attributesField [] member = some entries ∧ decodeAttributes entries = .ok attributes)
    (hf : ∀ member, demands.f member = true → ∃ contents,
      contentsField .absent member = some contents ∧ decodeFragment contents = .ok children)
    (hr : ∀ member, demands.r member = true → textField none member = some reference)
    (hc : ∀ member, demands.c member = true → textField none member = some comment)
    (hi : ∀ member, demands.i member = true → textField none member = some id)
    (hn : ∀ member, demands.n member = true → modifierField none member = some modifier) :
    ∃ entries contents,
      readItem value =
          some (.node ⟨number, tag, entries, contents, reference, comment, id, modifier⟩) ∧
        decodeAttributes entries = .ok attributes ∧ decodeFragment contents = .ok children := by
  unfold isNode at hnode
  split at hnode
  · rename_i members hmembers
    simp only [Demands.areMetBy, Bool.and_eq_true, and_assoc] at hnode
    obtain ⟨htype, hmet⟩ := hnode
    have hnumber := eq_of_isNumber htype
    obtain ⟨entries, hentries, hattributes⟩ := ha _ hmet.2.1
    obtain ⟨contents, hcontents, hchildren⟩ := hf _ hmet.2.2.1
    refine ⟨entries, contents, readItem_of_givenBy hmembers hnumber ?_, hattributes, hchildren⟩
    exact
      { type := by rw [hnumber, typeField, byteOf?_natCast hbyte]
        tag := he _ hmet.1
        attributes := hentries
        contents := hcontents
        reference := hr _ hmet.2.2.2.1
        comment := hc _ hmet.2.2.2.2.1
        id := hi _ hmet.2.2.2.2.2.1
        modifier := hn _ hmet.2.2.2.2.2.2 }
  · cases hnode

/-- A block is read with its reference and its contents. -/
theorem exists_contents_of_block {number : Nat} {text : String} {children : List Node}
    {areItems : List Json → Bool} {isModifier : Option Json → Bool} {modifier : Option Nat}
    {value : Json}
    (hnode : isNode number
      { r := isText text, f := isContents children areItems, n := isModifier } value = true)
    (hbyte : number < 256)
    (hitems : ∀ values, areItems values = true →
      ∃ items, readItems values = some items ∧ decodeItems items = .ok children)
    (hmodifier : ∀ member, isModifier member = true → modifierField none member = some modifier) :
    ∃ entries contents, readItem value =
        some (.node ⟨number, none, entries, contents, some text, none, none, modifier⟩) ∧
      decodeFragment contents = .ok children := by
  obtain ⟨entries, contents, hread, -, hdecode⟩ := exists_fields_of_isNode hnode hbyte
    (fun _ => textField_of_isLeftOut) (fun _ => exists_attributes_of_isLeftOut)
    (fun _ => exists_contents hitems) (fun _ => textField_of_isText)
    (fun _ => textField_of_isLeftOut) (fun _ => textField_of_isLeftOut) hmodifier
  exact ⟨entries, contents, hread, hdecode⟩

end Document

open Document

/-! ## All nodes -/

-- The recursion is that of the graph: the parts of a node are read as items that decode to them
-- wherever its spelling puts them, so only the members of the node itself have to be looked at.
mutual
/-- What spells a node is read as an item that decodes to the node. -/
theorem Node.exists_item :
    ∀ (node : Node) (value : Json), node.every Node.isWritable Node.isWritable = true →
      node.spelledBy value = true →
      ∃ item, readItem value = some item ∧ decodeItem item = .ok node
  | .text text, value, _, h => by
    cases value with
    | string found =>
      simp only [Node.spelledBy, isText, beq_iff_eq] at h
      exact ⟨.text found, rfl, by rw [decodeItem, h]⟩
    | null | bool _ | number _ | array _ | object _ => cases h
  | .interpolator path, value, _, h | .triple path, value, _, h | .reference path, value, _, h => by
    rw [Node.spelledBy] at h
    obtain ⟨entries, contents, hread, -, -⟩ := exists_fields_of_isNode h (by decide)
      (fun _ => textField_of_isLeftOut) (fun _ => exists_attributes_of_isLeftOut)
      (fun _ => exists_contents_of_isLeftOut) (fun _ => textField_of_isText)
      (fun _ => textField_of_isLeftOut) (fun _ => textField_of_isLeftOut)
      (fun _ => modifierField_of_isLeftOut)
    exact ⟨_, hread, rfl⟩
  | .sectionBlock path children, value, hwritable, h => by
    rw [Node.every, Bool.and_eq_true] at hwritable
    rw [Node.spelledBy] at h
    obtain ⟨entries, contents, hread, hdecode⟩ := exists_contents_of_block h (by decide)
      (fun values => Graph.exists_items children values hwritable.2)
      (fun _ => modifierField_of_isLeftOut)
    refine ⟨_, hread, ?_⟩
    simp only [decodeItem, NodeType.ofNumber?, require, hdecode]
    rfl
  | .unlessBlock path children, value, hwritable, h => by
    rw [Node.every, Bool.and_eq_true] at hwritable
    rw [Node.spelledBy, Bool.or_eq_true] at h
    -- The section is turned around by its type or by its modifier.
    rcases h with htype | hturned
    · obtain ⟨entries, contents, hread, hdecode⟩ := exists_contents_of_block htype (by decide)
        (fun values => Graph.exists_items children values hwritable.2)
        (fun _ => modifierField_of_isLeftOut)
      refine ⟨_, hread, ?_⟩
      simp only [decodeItem, NodeType.ofNumber?, require, hdecode]
      rfl
    · obtain ⟨entries, contents, hread, hdecode⟩ := exists_contents_of_block hturned (by decide)
        (fun values => Graph.exists_items children values hwritable.2)
        (fun _ => modifierField_of_isNumber (by decide))
      refine ⟨_, hread, ?_⟩
      simp only [decodeItem, NodeType.ofNumber?, require, hdecode]
      rfl
  | .partialRef name fallback, value, hwritable, h => by
    rw [Node.every, Bool.and_eq_true] at hwritable
    rw [Node.spelledBy] at h
    obtain ⟨entries, contents, hread, hdecode⟩ := exists_contents_of_block h (by decide)
      (fun values => Graph.exists_items fallback values hwritable.2)
      (fun _ => modifierField_of_isLeftOut)
    refine ⟨_, hread, ?_⟩
    simp only [decodeItem, NodeType.ofNumber?, require, hdecode]
    rfl
  | .element ⟨tag, attributes, children, isRoot⟩, value, hwritable, h => by
    rw [Node.every, Element.every, Bool.and_eq_true, Bool.and_eq_true, Node.isWritable,
      Bool.and_eq_true, allDistinct_iff_nodup] at hwritable
    obtain ⟨⟨hroot, hnames⟩, hattributes, hchildren⟩ := hwritable
    rw [Node.spelledBy] at h
    obtain ⟨entries, contents, hread, hdecoded, hdecode⟩ := exists_fields_of_isNode h (by decide)
      (fun _ => textField_of_isText)
      (fun _ => exists_attributes hnames
        fun members => Attribute.exists_entries attributes members hattributes)
      (fun _ => exists_contents fun values => Graph.exists_items children values hchildren)
      (fun _ => textField_of_isLeftOut) (fun _ => textField_of_isLeftOut)
      (fun _ => textField_of_isLeftOut) (fun _ => modifierField_of_isLeftOut)
    refine ⟨_, hread, ?_⟩
    simp only [Bool.not_eq_true'] at hroot
    simp only [decodeItem, NodeType.ofNumber?, require, hdecoded, hdecode, hroot]
    rfl
  | .comment text, value, _, h => by
    rw [Node.spelledBy, Bool.or_eq_true, Bool.and_eq_true] at h
    rcases h with hgiven | ⟨hempty, hnone⟩
    · obtain ⟨entries, contents, hread, -, -⟩ := exists_fields_of_isNode hgiven (by decide)
        (fun _ => textField_of_isLeftOut) (fun _ => exists_attributes_of_isLeftOut)
        (fun _ => exists_contents_of_isLeftOut) (fun _ => textField_of_isLeftOut)
        (fun _ => textField_of_isText) (fun _ => textField_of_isLeftOut)
        (fun _ => modifierField_of_isLeftOut)
      exact ⟨_, hread, rfl⟩
    · obtain ⟨entries, contents, hread, -, -⟩ := exists_fields_of_isNode hnone (by decide)
        (fun _ => textField_of_isLeftOut) (fun _ => exists_attributes_of_isLeftOut)
        (fun _ => exists_contents_of_isLeftOut) (fun _ => textField_of_isLeftOut)
        (fun _ => textField_of_isLeftOut) (fun _ => textField_of_isLeftOut)
        (fun _ => modifierField_of_isLeftOut)
      exact ⟨_, hread, by rw [beq_iff_eq.mp hempty]; rfl⟩
  | .closingTag id tag, value, _, h => by
    rw [Node.spelledBy] at h
    obtain ⟨entries, contents, hread, -, -⟩ := exists_fields_of_isNode h (by decide)
      (fun _ => textField_of_isText) (fun _ => exists_attributes_of_isLeftOut)
      (fun _ => exists_contents_of_isLeftOut) (fun _ => textField_of_isLeftOut)
      (fun _ => textField_of_isLeftOut) (fun _ => textField_of_isTextIfAny)
      (fun _ => modifierField_of_isLeftOut)
    exact ⟨_, hread, rfl⟩
  | .widget _, _, hwritable, _ => by cases hwritable
/-- What spells nodes is read as items that decode to them. -/
theorem Graph.exists_items :
    ∀ (graph : List Node) (values : List Json),
      Graph.every Node.isWritable Node.isWritable graph = true →
      Graph.spelledBy graph values = true →
      ∃ items, readItems values = some items ∧ decodeItems items = .ok graph
  | [], [], _, _ => ⟨[], rfl, rfl⟩
  | node :: rest, value :: values, hwritable, h => by
    rw [Graph.every, Bool.and_eq_true] at hwritable
    rw [Graph.spelledBy, Bool.and_eq_true] at h
    obtain ⟨item, hitem, hnode⟩ := Node.exists_item node value hwritable.1 h.1
    obtain ⟨items, hitems, hnodes⟩ := Graph.exists_items rest values hwritable.2 h.2
    refine ⟨item :: items, ?_, ?_⟩
    · rw [readItems, hitem, hitems]
      rfl
    · rw [decodeItems, hnode, hnodes]
      rfl
  | [], _ :: _, _, h | _ :: _, [], _, h => by cases h
/-- What spells attributes is read as entries that decode to them, under their names. -/
theorem Attribute.exists_entries :
    ∀ (attributes : List Attribute) (members : List (String × Json)),
      Attribute.everyAll Node.isWritable attributes = true →
      Attribute.allSpelledBy attributes members = true →
      ∃ entries, readAttributes members = some entries ∧
        entries.map Prod.fst = attributes.map Attribute.name ∧
        decodeAttributes entries = .ok attributes
  | [], [], _, _ => ⟨[], rfl, rfl, rfl⟩
  | ⟨name, contents⟩ :: rest, (key, value) :: members, hwritable, h => by
    rw [Attribute.everyAll, Bool.and_eq_true] at hwritable
    rw [Attribute.allSpelledBy, Bool.and_eq_true, Bool.and_eq_true, beq_iff_eq] at h
    obtain ⟨⟨rfl, hvalue⟩, hrest⟩ := h
    obtain ⟨fragment, hread, hdecode⟩ :=
      AttributeValue.exists_fragment contents value hwritable.1 hvalue
    obtain ⟨entries, hentries, hnames, hattributes⟩ :=
      Attribute.exists_entries rest members hwritable.2 hrest
    refine ⟨(key, fragment) :: entries, ?_, ?_, ?_⟩
    · rw [hread, hentries]
      rfl
    · rw [List.map_cons, List.map_cons, hnames]
    · rw [hdecode, hattributes]
      rfl
  | [], _ :: _, _, h | ⟨_, _⟩ :: _, [], _, h => by cases h
/-- What spells the value of an attribute is read, under any name, as a fragment that decodes
to it. -/
theorem AttributeValue.exists_fragment :
    ∀ (contents : AttributeValue) (value : Json), contents.every Node.isWritable = true →
      contents.spelledBy value = true →
      ∃ fragment, (∀ name members, readAttributes ((name, value) :: members) =
          do return (name, fragment) :: (← readAttributes members)) ∧
        ∀ name entries, decodeAttributes ((name, fragment) :: entries) =
          do return ⟨name, contents⟩ :: (← decodeAttributes entries)
  | .empty, value, _, h => by
    cases value with
    | null =>
      exact ⟨.absent, fun _ _ => by rw [readAttributes], fun _ _ => by rw [decodeAttributes]⟩
    | bool _ | number _ | string _ | array _ | object _ => cases h
  | .literal text, value, _, h => by
    cases value with
    | string found =>
      rw [AttributeValue.spelledBy, beq_iff_eq] at h
      rw [h]
      exact ⟨.text text, fun _ _ => by rw [readAttributes], fun _ _ => by rw [decodeAttributes]⟩
    | null | bool _ | number _ | array _ | object _ => cases h
  | .mixed parts, value, hwritable, h => by
    cases value with
    | array values =>
      rw [AttributeValue.every] at hwritable
      rw [AttributeValue.spelledBy] at h
      obtain ⟨items, hread, hdecode⟩ := Graph.exists_items parts values hwritable h
      refine ⟨.items items, fun _ _ => ?_, fun _ _ => ?_⟩
      · rw [readAttributes, hread]
        rfl
      · rw [decodeAttributes, hdecode]
        rfl
    | null | bool _ | number _ | string _ | object _ => cases h
end

/-! ## Documents -/

namespace Document

/-- What spells partials is read, in the same order, as fragments that decode to them. -/
theorem exists_partials {partials : List (String × Graph)} {members : List (String × Json)}
    (hwritable : partials.all (Graph.isWritable ·.2) = true)
    (h : arePartials partials members = true) :
    ∃ entries, (members.mapM fun member => (readPartial member.2).map (member.1, ·)) =
        some entries ∧
      entries.map Prod.fst = partials.map Prod.fst ∧ decodePartials entries = .ok partials := by
  induction partials generalizing members with
  | nil =>
    cases members with
    | nil => exact ⟨[], rfl, rfl, rfl⟩
    | cons member rest => cases h
  | cons first rest ih =>
    obtain ⟨name, graph⟩ := first
    cases members with
    | nil => cases h
    | cons member members =>
      obtain ⟨key, value⟩ := member
      rw [List.all_cons, Bool.and_eq_true] at hwritable
      rw [arePartials, Bool.and_eq_true, Bool.and_eq_true, beq_iff_eq] at h
      obtain ⟨⟨rfl, hvalue⟩, hrest⟩ := h
      obtain ⟨fragment, hfragment, hgraph⟩ :=
        exists_fragment (fun values => Graph.exists_items graph values hwritable.1) hvalue
      obtain ⟨entries, hentries, hnames, hdecode⟩ := ih hwritable.2 hrest
      refine ⟨(key, fragment) :: entries, ?_, ?_, ?_⟩
      · rw [List.mapM_cons, hfragment, hentries]
        rfl
      · rw [List.map_cons, List.map_cons, hnames]
      · rw [decodePartials, hgraph, hdecode]
        rfl

theorem exists_readPartials {partials : List (String × Graph)} {member : Option Json}
    (hwritable : partials.all (Graph.isWritable ·.2) = true)
    (hdistinct : (partials.map Prod.fst).Nodup) (h : arePartialsIfAny partials member = true) :
    ∃ entries, readPartials member = some entries ∧ decodePartials entries = .ok partials := by
  unfold arePartialsIfAny at h
  split at h
  · rw [List.isEmpty_iff.mp h]
    exact ⟨[], rfl, rfl⟩
  · obtain ⟨entries, hread, hnames, hdecode⟩ := exists_partials hwritable h
    have hkeys : Keyed.ofEntries entries = entries := Keyed.ofEntries_of_nodup (hnames ▸ hdistinct)
    exact ⟨entries, by rw [readPartials, hread, Option.map_some, hkeys], hdecode⟩
  · cases h

theorem exists_envelope {graph : Graph} {partials : List (String × Graph)} {value : Json}
    (hgraph : Graph.isWritable graph = true)
    (hpartials : partials.all (Graph.isWritable ·.2) = true)
    (hdistinct : (partials.map Prod.fst).Nodup) (h : isEnvelope graph partials value = true) :
    ∃ shape, readEnvelope value = some shape ∧ shape.decode = .ok ⟨graph, partials⟩ := by
  cases value with
  | null | bool _ | number _ | string _ | array _ => cases h
  | object members =>
    simp only [isEnvelope, Bool.and_eq_true] at h
    obtain ⟨⟨⟨hkeys, hversion⟩, hitems⟩, hentries⟩ := h
    cases hmember : (Keyed.get? "t" members).bind Json.items? with
    | none => simp [hmember] at hitems
    | some values =>
      rw [hmember, Option.elim_some] at hitems
      have hvalues : Keyed.get? "t" members = some (.array values) := by
        obtain ⟨found, hfound, hvalues⟩ := Option.bind_eq_some_iff.mp hmember
        cases found with
        | array _ => rw [hfound, ← Option.some.inj hvalues]
        | null | bool _ | number _ | string _ | object _ => cases hvalues
      obtain ⟨items, hread, hdecode⟩ := Graph.exists_items graph values hgraph hitems
      obtain ⟨entries, hreadAll, hdecodeAll⟩ := exists_readPartials hpartials hdistinct hentries
      refine ⟨.envelope items entries, ?_, ?_⟩
      · simp [readEnvelope, hkeys, hversion, hvalues, readContents, hread, hreadAll]
      · rw [Shape.decode, hdecode, hdecodeAll]
        rfl

theorem exists_bare {graph : Graph} {value : Json} (hgraph : Graph.isWritable graph = true)
    (h : isBare graph value = true) :
    ∃ shape, ofJson? value = some shape ∧ shape.decode = .ok ⟨graph, []⟩ := by
  simp only [isBare, Bool.or_eq_true] at h
  rcases h with hmany | hone
  · cases value with
    | null | bool _ | number _ | string _ | object _ => cases hmany
    | array values =>
      obtain ⟨items, hread, hdecode⟩ := Graph.exists_items graph values hgraph hmany
      refine ⟨.many items, ofJson?_of_readMany (by rw [readMany, hread, Option.map_some]), ?_⟩
      rw [Shape.decode, hdecode]
      rfl
  · split at hone
    · rename_i node
      rw [Graph.isWritable, Graph.every, Bool.and_eq_true] at hgraph
      obtain ⟨item, hread, hdecode⟩ := Node.exists_item node value hgraph.1 hone
      refine ⟨.one item, ofJson?_of_readItem hread, ?_⟩
      rw [Shape.decode, hdecode]
      rfl
    · cases hone

end Document

/-- What spells a graph with its partials is read as a shape that decodes to them. -/
theorem Compiled.exists_shape {compiled : Compiled} {value : Json}
    (hwritable : compiled.isWritable = true) (h : compiled.spelledBy value = true) :
    ∃ shape, ofJson? value = some shape ∧ shape.decode = .ok compiled := by
  obtain ⟨graph, partials⟩ := compiled
  simp only [Compiled.isWritable, Bool.and_eq_true, allDistinct_iff_nodup] at hwritable
  obtain ⟨⟨hgraph, hpartials⟩, hdistinct⟩ := hwritable
  simp only [Compiled.spelledBy, Bool.or_eq_true, Bool.and_eq_true] at h
  rcases h with henvelope | ⟨hnone, hbare⟩
  · obtain ⟨shape, hread, hdecode⟩ := exists_envelope hgraph hpartials hdistinct henvelope
    exact ⟨shape, ofJson?_of_readEnvelope hread, hdecode⟩
  · rw [List.isEmpty_iff.mp hnone]
    exact exists_bare hgraph hbare

/-- The graph of a document is the one it spells, with its attributes and partials in order, be
it given as a value or as a text; every graph that can be spelled has such a document; and no
document fits two shapes, so that the order of trying them makes no difference. -/
theorem Document.ofValue_of_spelledBy :
    (∀ (compiled : Compiled) (value : Json), compiled.isWritable = true →
      compiled.spelledBy value = true →
      ofValue value = .ok compiled ∧
        ∀ text, Json.readFirst Json.textDepth text = .ok (value, false) →
          parse text = .ok compiled) ∧
    (∀ compiled : Compiled, compiled.isWritable = true →
      compiled.spelledBy compiled.spell = true) ∧
    ∀ value : Json,
      (shapeReaders.Pairwise fun first second => first value = none ∨ second value = none) ∧
        ∀ order : List (Json → Option Shape), order.Perm shapeReaders →
          order.findSome? (· value) = ofJson? value := by
  refine ⟨fun compiled value hwritable hspelled => ?_, fun _ => Compiled.spelledBy_spell,
    fun value => ⟨shapeReaders_exclusive value, fun order horder => ?_⟩⟩
  · obtain ⟨shape, hread, hdecode⟩ := Compiled.exists_shape hwritable hspelled
    have hshape : shapeOf value = .ok shape := by rw [shapeOf, hread]
    have hdecoded : shape.decode.mapError ParseError.decode = .ok compiled := by
      rw [hdecode]
      rfl
    constructor
    · rw [ofValue, hshape]
      exact hdecoded
    · intro text htext
      rw [parse, htext]
      show (shapeOf value >>= fun shape => shape.decode.mapError .decode) = .ok compiled
      rw [hshape]
      exact hdecoded
  · exact findSome?_eq_ofJson? horder value

/-- A list item spelled as an array and a section turned around by a modifier, in an envelope
whose members come in another order, with a partial spelled as a string. -/
def listDocument : Json :=
  .object
    [("p", .object [("end", .string "none")]),
      ("t", .array
        [.array [.number (.integer 7), .string "li", .object [("hidden", .null)], .string "x"],
          .object [("n", .number (.integer 51)), ("r", .string "rows"),
            ("t", .number (.integer 4))]]),
      ("v", .number (.integer 4))]

/-- The text of `listDocument`. -/
def listText : String :=
  "\x7b\"p\":\x7b\"end\":\"none\"\x7d,\"t\":[[7,\"li\",\x7b\"hidden\":null\x7d,\"x\"]," ++
    "\x7b\"n\":51,\"r\":\"rows\",\"t\":4\x7d],\"v\":4\x7d"

/-- The graph and the partial that `listDocument` spells. -/
def listGraph : Compiled where
  graph :=
    [.element ⟨"li", [⟨"hidden", .empty⟩], [.text "x"], false⟩, .unlessBlock ⟨"rows"⟩ []]
  partials := [("end", [.text "none"])]

set_option maxRecDepth 4000 in
theorem readFirst_listText :
    Json.readFirst Json.textDepth listText = .ok (listDocument, false) := by
  rfl

theorem Document.parse_listText :
    listGraph.isWritable = true ∧ listGraph.spelledBy listDocument = true ∧
      ofValue listDocument = .ok listGraph ∧ parse listText = .ok listGraph := by
  have hwritable : listGraph.isWritable = true := by decide
  have hspelled : listGraph.spelledBy listDocument = true := by decide
  obtain ⟨hvalue, htext⟩ := ofValue_of_spelledBy.1 _ _ hwritable hspelled
  exact ⟨hwritable, hspelled, hvalue, htext listText readFirst_listText⟩

end Stencil
