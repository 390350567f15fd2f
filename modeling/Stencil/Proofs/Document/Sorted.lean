import Stencil.Proofs.Document.Faults
import Stencil.Proofs.Document.Fields
import Stencil.Proofs.Graph.Rearranged
import Stencil.Proofs.Json.Sorted
import Stencil.Proofs.OptionRel

/-!
# Documents with their keys in order

A document is read from a text with the members of its objects as they are written, and from data
with the members of each object in order of their keys.  If no object has a key twice, the fields
of a node are the same in both, and its attributes the same up to their order; so are the partials
of an envelope.  This goes on inside contents, attributes and partials, and hence the two documents
are decoded to graphs that are equal up to order, or neither of them is.

* `Item.Alike`, `Fields.Alike` — items that are decoded to the same up to order.
* `alike_of_fields` — a node is decoded alike if its fields are.
* `readAlike_sorted` — a value is read alike with its keys in order.
* `parse_rearranged_sorted` — documents as texts and as data.
-/

namespace Stencil.Document

/-! ## Documents that are decoded alike -/

/-- Two items that are decoded to nodes equal up to order, or of which neither is decoded. -/
def Item.Alike (item item' : Item) : Prop :=
  Option.Rel Node.Rearranged (decodeItem item).toOption (decodeItem item').toOption

/-- Two fragments of the same kind, with items that are alike. -/
inductive Fragment.Alike : Fragment → Fragment → Prop
  | absent : Fragment.Alike .absent .absent
  | text (text : String) : Fragment.Alike (.text text) (.text text)
  | items {items items' : List Item} :
      List.Forall₂ Item.Alike items items' → Fragment.Alike (.items items) (.items items')

/-- Fragments that are alike under the same keys, in whatever order. -/
def EntriesAlike (entries entries' : List (String × Fragment)) : Prop :=
  ∃ moved : List (String × Fragment), moved.Perm entries' ∧
    List.Forall₂ (fun entry entry' => entry.1 = entry'.1 ∧ entry.2.Alike entry'.2) entries moved

/-- Two nodes that have the same fields, with attributes and contents that are alike. -/
structure Fields.Alike (fields fields' : Fields) : Prop where
  type : fields.type = fields'.type
  tag : fields.tag = fields'.tag
  attributes : EntriesAlike fields.attributes fields'.attributes
  contents : fields.contents.Alike fields'.contents
  reference : fields.reference = fields'.reference
  comment : fields.comment = fields'.comment
  id : fields.id = fields'.id
  modifier : fields.modifier = fields'.modifier

/-- Two documents of the same shape, with items and partials that are alike. -/
inductive Shape.Alike : Shape → Shape → Prop
  | envelope {items items' : List Item} {partials partials' : List (String × Fragment)} :
      List.Forall₂ Item.Alike items items' → EntriesAlike partials partials' →
      Shape.Alike (.envelope items partials) (.envelope items' partials')
  | many {items items' : List Item} :
      List.Forall₂ Item.Alike items items' → Shape.Alike (.many items) (.many items')
  | one {item item' : Item} : item.Alike item' → Shape.Alike (.one item) (.one item')

theorem Item.Alike.refl (item : Item) : item.Alike item :=
  Option.Rel.refl .same _

theorem Fields.Alike.blank : Fields.blank.Alike .blank :=
  ⟨rfl, rfl, ⟨[], .nil, .nil⟩, .absent, rfl, rfl, rfl, rfl⟩

/-! ## Decoding -/

theorem decodeItems_eq_mapM (items : List Item) : decodeItems items = items.mapM decodeItem := by
  induction items with
  | nil => rw [decodeItems]; rfl
  | cons item rest ih => rw [decodeItems, ih, List.mapM_cons]

theorem decodeItems_alike {items items' : List Item} (h : List.Forall₂ Item.Alike items items') :
    Option.Rel Graph.Rearranged (decodeItems items).toOption (decodeItems items').toOption := by
  rw [decodeItems_eq_mapM, decodeItems_eq_mapM, Except.toOption_mapM, Except.toOption_mapM]
  exact (Option.Rel.mapM_forall₂ h).mono fun _ _ => Graph.rearranged_of_forall₂

theorem decodeFragment_alike {fragment fragment' : Fragment} (h : fragment.Alike fragment') :
    Option.Rel Graph.Rearranged (decodeFragment fragment).toOption
      (decodeFragment fragment').toOption := by
  cases h with
  | absent => exact .refl Graph.Rearranged.refl _
  | text text => exact .refl Graph.Rearranged.refl _
  | items hitems =>
    rw [decodeFragment, decodeFragment]
    exact decodeItems_alike hitems

/-- The value that an attribute has of its fragment. -/
def decodeValue : Fragment → Except DecodeError AttributeValue
  | .absent => .ok .empty
  | .text text => .ok (.literal text)
  | .items items => do return .mixed (← decodeItems items)

theorem decodeValue_alike {fragment fragment' : Fragment} (h : fragment.Alike fragment') :
    Option.Rel AttributeValue.Rearranged (decodeValue fragment).toOption
      (decodeValue fragment').toOption := by
  cases h with
  | absent => exact .some .empty
  | text text => exact .some (.literal text)
  | items hitems =>
    rw [decodeValue, decodeValue, Except.toOption_bind, Except.toOption_bind]
    exact (decodeItems_alike hitems).bind fun _ _ hgraph => .some (.mixed hgraph)

theorem decodeAttributes_eq_mapM (entries : List (String × Fragment)) :
    decodeAttributes entries =
      entries.mapM fun entry => do return ⟨entry.1, ← decodeValue entry.2⟩ := by
  induction entries with
  | nil => rw [decodeAttributes]; rfl
  | cons entry rest ih =>
    obtain ⟨name, fragment⟩ := entry
    cases fragment with
    | absent => rw [decodeAttributes, ih, List.mapM_cons]; rfl
    | text text => rw [decodeAttributes, ih, List.mapM_cons]; rfl
    | items items =>
      rw [decodeAttributes, ih, List.mapM_cons, decodeValue, bind_assoc, bind_assoc]
      rfl

theorem decodePartials_eq_mapM (entries : List (String × Fragment)) :
    decodePartials entries =
      entries.mapM fun entry => do return (entry.1, ← decodeFragment entry.2) := by
  induction entries with
  | nil => rfl
  | cons entry rest ih =>
    rw [decodePartials, ih, List.mapM_cons, bind_assoc]
    rfl

/-- What is made of entries that are alike, one by one, has the same order. -/
theorem mapM_entriesAlike {α : Type} {S : α → α → Prop} {f : String × Fragment → Option α}
    {entries entries' : List (String × Fragment)} (h : EntriesAlike entries entries')
    (hf : ∀ name {fragment fragment' : Fragment}, fragment.Alike fragment' →
      Option.Rel S (f (name, fragment)) (f (name, fragment'))) :
    Option.Rel (fun made made' => ∃ moved : List α, moved.Perm made' ∧ List.Forall₂ S made moved)
      (entries.mapM f) (entries'.mapM f) := by
  obtain ⟨moved, hperm, hentries⟩ := h
  have hmade : Option.Rel (List.Forall₂ S) (entries.mapM f) (moved.mapM f) := by
    refine Option.Rel.mapM_forall₂ (hentries.imp ?_)
    rintro ⟨name, fragment⟩ ⟨_, fragment'⟩ ⟨rfl, hfragment⟩
    exact hf name hfragment
  exact hmade.trans (Option.Rel.mapM_perm hperm f) fun _ moved _ hsame hmoved =>
    ⟨moved, hmoved, hsame⟩

theorem decodeAttributes_alike {entries entries' : List (String × Fragment)}
    (h : EntriesAlike entries entries') :
    Option.Rel Attribute.Rearranged (decodeAttributes entries).toOption
      (decodeAttributes entries').toOption := by
  rw [decodeAttributes_eq_mapM, decodeAttributes_eq_mapM, Except.toOption_mapM,
    Except.toOption_mapM]
  refine (mapM_entriesAlike (S := fun first second => first.name = second.name ∧
    first.value.Rearranged second.value) h fun name _ _ hfragment => ?_).mono ?_
  · rw [Except.toOption_bind, Except.toOption_bind]
    exact (decodeValue_alike hfragment).bind fun _ _ hvalue => .some ⟨rfl, hvalue⟩
  · rintro attributes attributes' ⟨moved, hperm, hvalues⟩
    exact (Attribute.rearranged_of_forall₂ hvalues).trans (Attribute.rearranged_of_perm hperm)

theorem decodePartials_alike {entries entries' : List (String × Fragment)}
    (h : EntriesAlike entries entries') :
    Option.Rel (fun partials partials' => ∃ moved : List (String × Graph), moved.Perm partials' ∧
      List.Forall₂ (fun entry entry' => entry.1 = entry'.1 ∧ Graph.Rearranged entry.2 entry'.2)
        partials moved) (decodePartials entries).toOption (decodePartials entries').toOption := by
  rw [decodePartials_eq_mapM, decodePartials_eq_mapM, Except.toOption_mapM, Except.toOption_mapM]
  refine mapM_entriesAlike h fun name _ _ hfragment => ?_
  rw [Except.toOption_bind, Except.toOption_bind]
  exact (decodeFragment_alike hfragment).bind fun _ _ hgraph => .some ⟨rfl, hgraph⟩

/-- A node whose fields are alike is decoded alike. -/
theorem alike_of_fields {fields fields' : Fields} (h : fields.Alike fields') :
    (Item.node fields).Alike (.node fields') := by
  obtain ⟨number, tag, attributes, contents, reference, comment, id, modifier⟩ := fields
  obtain ⟨_, _, attributes', contents', _, _, _, _⟩ := fields'
  obtain ⟨rfl, rfl, hattributes, hcontents, rfl, rfl, rfl, rfl⟩ := h
  have hchildren := decodeFragment_alike hcontents
  rw [Item.Alike, decodeItem, decodeItem]
  cases NodeType.ofNumber? number with
  | none => exact .none
  | some type =>
    cases type with
    | element =>
      cases tag with
      | none => exact .none
      | some tag =>
        simp only [Except.toOption_bind]
        exact (decodeAttributes_alike hattributes).bind fun _ _ hattributes =>
          hchildren.bind fun _ _ hchildren => .some (.element hattributes hchildren)
    | sectionBlock =>
      cases reference with
      | none => exact .none
      | some path =>
        simp only [Except.toOption_bind]
        refine hchildren.bind fun _ _ hchildren => ?_
        split
        · exact .some (.unlessBlock hchildren)
        · exact .some (.sectionBlock hchildren)
    | unlessBlock =>
      cases reference with
      | none => exact .none
      | some path =>
        simp only [Except.toOption_bind]
        exact hchildren.bind fun _ _ hchildren => .some (.unlessBlock hchildren)
    | partialRef =>
      cases reference with
      | none => exact .none
      | some name =>
        simp only [Except.toOption_bind]
        exact hchildren.bind fun _ _ hchildren => .some (.partialRef hchildren)
    | interpolator | triple | reference | comment | closingTag => exact .refl .same _

/-- Documents that are alike are decoded alike. -/
theorem Shape.Alike.decode {shape shape' : Shape} (h : shape.Alike shape') :
    Option.Rel Compiled.Rearranged shape.decode.toOption shape'.decode.toOption := by
  cases h with
  | envelope hitems hpartials =>
    simp only [Shape.decode, Except.toOption_bind]
    exact (decodeItems_alike hitems).bind fun _ _ hgraph =>
      (decodePartials_alike hpartials).bind fun _ _ hpartials => .some ⟨hgraph, hpartials⟩
  | many hitems =>
    simp only [Shape.decode, Except.toOption_bind]
    exact (decodeItems_alike hitems).bind fun _ _ hgraph => .some ⟨hgraph, [], .nil, .nil⟩
  | one hitem =>
    simp only [Shape.decode, Except.toOption_bind]
    exact hitem.bind fun _ _ hnode => .some ⟨.cons hnode .nil, [], .nil, .nil⟩

/-! ## Values that are read alike -/

/-- Two values that are read alike, as items and as the members of a node. -/
structure ReadAlike (value value' : Json) : Prop where
  item : Option.Rel Item.Alike (readItem value) (readItem value')
  type : ∀ old, typeField old (some value) = typeField old (some value')
  text : ∀ old, textField old (some value) = textField old (some value')
  modifier : ∀ old, modifierField old (some value) = modifierField old (some value')
  attributes : ∀ {old old'}, EntriesAlike old old' →
    Option.Rel EntriesAlike (attributesField old (some value)) (attributesField old' (some value'))
  contents : ∀ {old old' : Fragment}, old.Alike old' →
    Option.Rel Fragment.Alike (contentsField old (some value)) (contentsField old' (some value'))

/-- A field is read alike from values that are, whichever it is. -/
theorem ReadAlike.field {value value' : Json} (h : ReadAlike value value') (key : String)
    {fields fields' : Fields} (hfields : fields.Alike fields') :
    Option.Rel Fields.Alike (readField key fields value) (readField key fields' value') := by
  rw [readField_eq_withField, readField_eq_withField]
  by_cases hkey : key ∈ nodeKeys
  · obtain ⟨ht, he, ha, hf, hr, hc, hi, hn⟩ := hfields
    simp only [nodeKeys, List.mem_cons, List.not_mem_nil, or_false] at hkey
    rcases hkey with rfl | rfl | rfl | rfl | rfl | rfl | rfl | rfl
    · rw [withField, withField, ht, h.type]
      exact .map_same _ fun _ => ⟨rfl, he, ha, hf, hr, hc, hi, hn⟩
    · rw [withField, withField, he, h.text]
      exact .map_same _ fun _ => ⟨ht, rfl, ha, hf, hr, hc, hi, hn⟩
    · rw [withField, withField]
      exact (h.attributes ha).map fun _ _ halike => ⟨ht, he, halike, hf, hr, hc, hi, hn⟩
    · rw [withField, withField]
      exact (h.contents hf).map fun _ _ halike => ⟨ht, he, ha, halike, hr, hc, hi, hn⟩
    · rw [withField, withField, hr, h.text]
      exact .map_same _ fun _ => ⟨ht, he, ha, hf, rfl, hc, hi, hn⟩
    · rw [withField, withField, hc, h.text]
      exact .map_same _ fun _ => ⟨ht, he, ha, hf, hr, rfl, hi, hn⟩
    · rw [withField, withField, hi, h.text]
      exact .map_same _ fun _ => ⟨ht, he, ha, hf, hr, hc, rfl, hn⟩
    · rw [withField, withField, hn, h.modifier]
      exact .map_same _ fun _ => ⟨ht, he, ha, hf, hr, hc, hi, rfl⟩
  · rw [withField_other hkey, withField_other hkey]
    exact .some hfields

section Parts

variable {items : List Json} {members : List (String × Json)}

theorem readItems_eq_mapM (items : List Json) : readItems items = items.mapM readItem := by
  induction items with
  | nil => rw [readItems]; rfl
  | cons item rest ih => rw [readItems, ih, List.mapM_cons]

theorem readItems_sorted (hparts : ∀ item ∈ items, ReadAlike item item.sorted) :
    Option.Rel (List.Forall₂ Item.Alike) (readItems items)
      (readItems (Json.sortedItems items)) := by
  rw [readItems_eq_mapM, readItems_eq_mapM, Json.sortedItems_eq_map]
  exact Option.Rel.mapM_forall₂ <| List.forall₂_map_right_iff.mpr <|
    List.forall₂_same.mpr fun item hitem => (hparts item hitem).item

theorem readPositions_sorted (hparts : ∀ item ∈ items, ReadAlike item item.sorted)
    (keys : List String) {fields fields' : Fields} (hfields : fields.Alike fields') :
    Option.Rel Fields.Alike (readPositions keys fields items)
      (readPositions keys fields' (Json.sortedItems items)) := by
  induction items generalizing keys fields fields' with
  | nil =>
    rw [Json.sortedItems, readPositions, readPositions]
    exact .some hfields
  | cons item rest ih =>
    rw [List.forall_mem_cons] at hparts
    cases keys with
    | nil =>
      rw [Json.sortedItems, readPositions, readPositions]
      exact .none
    | cons key keys =>
      rw [Json.sortedItems, readPositions, readPositions]
      exact (hparts.1.field key hfields).bind fun _ _ hmiddle => ih hparts.2 keys hmiddle

theorem readMembers_sortedMembers (hparts : ∀ member ∈ members, ReadAlike member.2 member.2.sorted)
    {fields fields' : Fields} (hfields : fields.Alike fields') :
    Option.Rel Fields.Alike (readMembers fields members)
      (readMembers fields' (Json.sortedMembers members)) := by
  induction members generalizing fields fields' with
  | nil =>
    rw [Json.sortedMembers, readMembers, readMembers]
    exact .some hfields
  | cons member rest ih =>
    rw [List.forall_mem_cons] at hparts
    obtain ⟨key, value⟩ := member
    rw [Json.sortedMembers, readMembers, readMembers]
    exact (hparts.1.field key hfields).bind fun _ _ hmiddle => ih hparts.2 hmiddle

/-- The fragments that the members of an object give, each under its key. -/
def readEntries (read : Json → Option Fragment) (members : List (String × Json)) :
    Option (List (String × Fragment)) :=
  members.mapM fun member => (read member.2).map (member.1, ·)

theorem readEntries_cons (read : Json → Option Fragment) (name : String) (value : Json)
    (rest : List (String × Json)) :
    readEntries read ((name, value) :: rest) =
      (read value).bind fun fragment => (readEntries read rest).map ((name, fragment) :: ·) := by
  rw [readEntries, List.mapM_cons, ← readEntries]
  cases read value with
  | none => rfl
  | some fragment => cases readEntries read rest <;> rfl

theorem readAttributes_eq_readEntries (members : List (String × Json)) :
    readAttributes members =
      readEntries (fun value => contentsField .absent (some value)) members := by
  induction members with
  | nil => rw [readAttributes]; rfl
  | cons member rest ih =>
    obtain ⟨name, value⟩ := member
    rw [readEntries_cons, ← ih]
    cases value with
    | array items =>
      rw [readAttributes, contentsField]
      cases readItems items with
      | none => rfl
      | some items => cases readAttributes rest <;> rfl
    | null | string _ =>
      rw [readAttributes, contentsField]
      cases readAttributes rest <;> rfl
    | bool _ | number _ | object _ => rw [readAttributes]; rfl; all_goals simp

theorem map_fst_readEntries {read : Json → Option Fragment} {entries : List (String × Fragment)}
    (hread : readEntries read members = some entries) :
    entries.map Prod.fst = members.map Prod.fst := by
  induction members generalizing entries with
  | nil =>
    cases hread
    rfl
  | cons member rest ih =>
    obtain ⟨name, value⟩ := member
    rw [readEntries_cons] at hread
    obtain ⟨fragment, -, hread⟩ := Option.bind_eq_some_iff.mp hread
    obtain ⟨done, hdone, rfl⟩ := Option.map_eq_some_iff.mp hread
    rw [List.map_cons, List.map_cons, ih hdone]

/-- Under distinct keys no entry takes the place of another. -/
theorem map_ofEntries_readEntries (read : Json → Option Fragment)
    (hkeys : (members.map Prod.fst).Nodup) :
    (readEntries read members).map Keyed.ofEntries = readEntries read members := by
  cases hread : readEntries read members with
  | none => rfl
  | some entries =>
    rw [Option.map_some, Keyed.ofEntries_of_nodup]
    rwa [map_fst_readEntries hread]

theorem readEntries_sorted (read : Json → Option Fragment)
    (hkeys : (members.map Prod.fst).Nodup)
    (hparts : ∀ member ∈ members,
      Option.Rel Fragment.Alike (read member.2) (read member.2.sorted)) :
    Option.Rel EntriesAlike ((readEntries read members).map Keyed.ofEntries)
      ((readEntries read (Json.sortMembers (Json.sortedMembers members))).map
        Keyed.ofEntries) := by
  rw [map_ofEntries_readEntries read hkeys,
    map_ofEntries_readEntries read (Json.nodup_sortedObject hkeys)]
  -- The values are sorted where they stand, and then the members are moved.
  have hstanding : Option.Rel (List.Forall₂ fun entry entry' : String × Fragment =>
      entry.1 = entry'.1 ∧ entry.2.Alike entry'.2)
      (readEntries read members) (readEntries read (Json.sortedMembers members)) := by
    rw [Json.sortedMembers_eq_map]
    refine Option.Rel.mapM_forall₂ <| List.forall₂_map_right_iff.mpr <|
      List.forall₂_same.mpr fun member hmember => ?_
    exact (hparts member hmember).map fun _ _ halike => ⟨rfl, halike⟩
  exact hstanding.trans (Option.Rel.mapM_perm (Json.perm_sortedObject hkeys).symm _)
    fun _ moved _ halike hmoved => ⟨moved, hmoved, halike⟩

theorem readItem_array_sorted (hparts : ∀ item ∈ items, ReadAlike item item.sorted) :
    Option.Rel Item.Alike (readItem (.array items))
      (readItem (.array (Json.sortedItems items))) := by
  cases items with
  | nil =>
    rw [Json.sortedItems, readItem]
    exact .none
  | cons item rest =>
    have hfields := readPositions_sorted hparts nodeKeys Fields.Alike.blank
    rw [Json.sortedItems] at hfields ⊢
    rw [readItem, readItem]
    exact hfields.map fun _ _ => alike_of_fields

theorem readItem_object_sorted (hkeys : (members.map Prod.fst).Nodup)
    (hparts : ∀ member ∈ members, ReadAlike member.2 member.2.sorted) :
    Option.Rel Item.Alike (readItem (.object members))
      (readItem (.object (Json.sortMembers (Json.sortedMembers members)))) := by
  have hperm := Json.perm_sortedObject hkeys
  have hsorted := Json.nodup_sortedObject hkeys
  have hany : (Json.sortMembers (Json.sortedMembers members)).any (·.1 == "t") =
      members.any (·.1 == "t") := by
    rw [hperm.any_eq, Json.sortedMembers_eq_map, List.any_map]
    rfl
  rw [readItem, readItem, distinctKeys_of_nodup _ hkeys, distinctKeys_of_nodup _ hsorted, hany,
    readMembers_eq_of_perm hsorted hperm]
  split
  · exact (readMembers_sortedMembers hparts .blank).map fun _ _ => alike_of_fields
  · exact .none

end Parts

/-- A value in which no object has a key twice is read alike with its keys in order. -/
theorem readAlike_sorted :
    ∀ value : Json, value.hasDistinctKeys = true → ReadAlike value value.sorted := by
  refine Json.partsInduction ?null ?bool ?number ?string ?array ?object
  case null =>
    exact fun _ => ⟨.refl Item.Alike.refl _, fun _ => rfl, fun _ => rfl, fun _ => rfl, .some, .some⟩
  case bool =>
    exact fun _ _ => ⟨.refl Item.Alike.refl _, fun _ => rfl, fun _ => rfl, fun _ => rfl, fun _ => .none,
      fun _ => .none⟩
  case number =>
    exact fun _ _ => ⟨.refl Item.Alike.refl _, fun _ => rfl, fun _ => rfl, fun _ => rfl, fun _ => .none,
      fun _ => .none⟩
  case string =>
    exact fun _ _ => ⟨.refl Item.Alike.refl _, fun _ => rfl, fun _ => rfl, fun _ => rfl, fun _ => .none,
      fun _ => .some (.text _)⟩
  case array =>
    intro items ih hdistinct
    rw [Json.hasDistinctKeys_array] at hdistinct
    have hparts : ∀ item ∈ items, ReadAlike item item.sorted :=
      fun item hitem => ih item hitem (hdistinct item hitem)
    rw [Json.sorted]
    exact ⟨readItem_array_sorted hparts, fun _ => rfl, fun _ => rfl, fun _ => rfl, fun _ => .none,
      fun _ => (readItems_sorted hparts).map fun _ _ => .items⟩
  case object =>
    intro members ih hdistinct
    rw [Json.hasDistinctKeys_object] at hdistinct
    have hparts : ∀ member ∈ members, ReadAlike member.2 member.2.sorted :=
      fun member hmember => ih member hmember (hdistinct.2 member hmember)
    have hattributes := readEntries_sorted (fun value => contentsField .absent (some value))
      hdistinct.1 fun member hmember => (hparts member hmember).contents .absent
    rw [← readAttributes_eq_readEntries, ← readAttributes_eq_readEntries] at hattributes
    rw [Json.sorted]
    exact ⟨readItem_object_sorted hdistinct.1 hparts, fun _ => rfl, fun _ => rfl, fun _ => rfl,
      fun _ => hattributes, fun _ => .none⟩

/-! ## Documents -/

section Documents

variable {value : Json} {members : List (String × Json)}

theorem isVersion_sorted (value : Json) : isVersion value.sorted = isVersion value := by
  cases value with
  | array _ | object _ => rw [Json.sorted]; rfl
  | null | bool _ | number _ | string _ => rfl

theorem readContents_sorted {found : Option Json}
    (hfound : ∀ value ∈ found, value.hasDistinctKeys = true) :
    Option.Rel (List.Forall₂ Item.Alike) (readContents found)
      (readContents (found.map Json.sorted)) := by
  cases found with
  | none => exact .none
  | some value =>
    cases value with
    | array items =>
      have hitems := Json.hasDistinctKeys_array.mp (hfound _ rfl)
      rw [Option.map_some, Json.sorted]
      exact readItems_sorted fun item hitem => readAlike_sorted item (hitems item hitem)
    | object _ => rw [Option.map_some, Json.sorted]; exact .none
    | null | bool _ | number _ | string _ => exact .none

theorem readPartial_sorted (hvalue : value.hasDistinctKeys = true) :
    Option.Rel Fragment.Alike (readPartial value) (readPartial value.sorted) := by
  cases value with
  | string text => exact .some (.text text)
  | array items =>
    rw [Json.hasDistinctKeys_array] at hvalue
    rw [Json.sorted]
    exact (readItems_sorted fun item hitem => readAlike_sorted item (hvalue item hitem)).map
      fun _ _ => .items
  | object _ => rw [Json.sorted]; exact .none
  | null | bool _ | number _ => exact .none

theorem readPartials_sorted {found : Option Json}
    (hfound : ∀ value ∈ found, value.hasDistinctKeys = true) :
    Option.Rel EntriesAlike (readPartials found) (readPartials (found.map Json.sorted)) := by
  cases found with
  | none => exact .some ⟨[], .nil, .nil⟩
  | some value =>
    cases value with
    | object members =>
      obtain ⟨hkeys, hvalues⟩ := Json.hasDistinctKeys_object.mp (hfound _ rfl)
      rw [Option.map_some, Json.sorted]
      exact readEntries_sorted readPartial hkeys fun member hmember =>
        readPartial_sorted (hvalues member hmember)
    | array _ => rw [Option.map_some, Json.sorted]; exact .none
    | null | bool _ | number _ | string _ => exact .none

theorem readEnvelope_sorted (hvalue : value.hasDistinctKeys = true) :
    Option.Rel Shape.Alike (readEnvelope value) (readEnvelope value.sorted) := by
  cases value with
  | object members =>
    obtain ⟨hkeys, hvalues⟩ := Json.hasDistinctKeys_object.mp hvalue
    have hfound : ∀ key, ∀ value ∈ (Json.object members).get? key, value.hasDistinctKeys = true :=
      fun key value hvalue => hvalues _ (Keyed.mem_of_get? hvalue)
    have hget : ∀ key, (Json.object (Json.sortMembers (Json.sortedMembers members))).get? key =
        ((Json.object members).get? key).map Json.sorted := Json.get?_sortedObject hkeys
    have hversion : isVersion ∘ Json.sorted = isVersion := funext isVersion_sorted
    rw [Json.sorted, readEnvelope, readEnvelope, distinctKeys_of_nodup _ hkeys,
      distinctKeys_of_nodup _ (Json.nodup_sortedObject hkeys)]
    simp only [hget, Option.map_map, hversion]
    split
    · exact (readContents_sorted (hfound "t")).bind fun _ _ hitems =>
        (readPartials_sorted (hfound "p")).bind fun _ _ hpartials =>
          .some (Shape.Alike.envelope hitems hpartials)
    · exact .none
  | array _ => rw [Json.sorted]; exact .none
  | null | bool _ | number _ | string _ => exact .none

theorem readMany_sorted (hvalue : value.hasDistinctKeys = true) :
    Option.Rel Shape.Alike (readMany value) (readMany value.sorted) := by
  cases value with
  | array items =>
    rw [Json.hasDistinctKeys_array] at hvalue
    rw [Json.sorted]
    exact (readItems_sorted fun item hitem => readAlike_sorted item (hvalue item hitem)).map
      fun _ _ => .many
  | object _ => rw [Json.sorted]; exact .none
  | null | bool _ | number _ | string _ => exact .none

/-- The document of a value is alike with the keys in order, or there is none either way. -/
theorem ofJson?_sorted (hvalue : value.hasDistinctKeys = true) :
    Option.Rel Shape.Alike (ofJson? value) (ofJson? value.sorted) :=
  (readEnvelope_sorted hvalue).or <| (readMany_sorted hvalue).or <|
    (readAlike_sorted value hvalue).item.map fun _ _ => .one

theorem toOption_ofValue (value : Json) :
    (ofValue value).toOption = (ofJson? value).bind fun shape => shape.decode.toOption := by
  rw [ofValue, shapeOf]
  cases ofJson? value with
  | none => rfl
  | some shape =>
    change (shape.decode.mapError ParseError.decode).toOption = shape.decode.toOption
    cases shape.decode <;> rfl

theorem ofValue_sorted (hvalue : value.hasDistinctKeys = true) :
    Option.Rel Compiled.Rearranged (ofValue value).toOption (ofValue value.sorted).toOption := by
  rw [toOption_ofValue, toOption_ofValue]
  exact (ofJson?_sorted hvalue).bind fun _ _ => Shape.Alike.decode

/-- A text that holds one value is parsed as that value. -/
theorem parse_of_read {text : String} (hread : Json.read Json.textDepth text = .ok value) :
    parse text = ofValue value := by
  rw [Json.read] at hread
  cases hfirst : Json.readFirst Json.textDepth text with
  | error fault =>
    rw [hfirst] at hread
    cases hread
  | ok found =>
    obtain ⟨first, more⟩ := found
    rw [hfirst] at hread
    cases more with
    | true => cases hread
    | false =>
      cases hread
      exact parse_of_readFirst hfirst

/-- A text in which no object has a key twice, and the value it holds with the keys of each object
in order, are both documents or neither; and they have the same graph and partials, up to the order
of the attributes of each element and of the partials. -/
theorem parse_rearranged_sorted {text : String} {value : Json}
    (hread : Json.read Json.textDepth text = .ok value) (hkeys : value.hasDistinctKeys = true) :
    ((∃ compiled, parse text = .ok compiled) ↔ ∃ compiled, ofValue value.sorted = .ok compiled) ∧
    ∀ compiled compiled', parse text = .ok compiled → ofValue value.sorted = .ok compiled' →
      compiled.Rearranged compiled' := by
  rw [parse_of_read hread]
  exact Except.of_rel_toOption (ofValue_sorted hkeys)

end Documents

/-- A document with partials out of the order of their keys, and with attributes out of order in an
element and in the value of an attribute. -/
def disorderlyDocument : Json :=
  .object
    [("v", .number (.integer 1)),
      ("t", .array
        [.array [.number (.integer 7), .string "p", .object
          [("b", .string ""),
            ("a", .array
              [.array [.number (.integer 7), .string "i", .object
                [("d", .null), ("c", .string "")]]])]]]),
      ("p", .object [("y", .string ""), ("x", .array [])])]

/-- The text of `disorderlyDocument`. -/
def disorderlyText : String :=
  "\x7b\"v\":1,\"t\":[[7,\"p\",\x7b\"b\":\"\",\"a\":[[7,\"i\",\x7b\"d\":null,\"c\":\"\"\x7d]]\x7d]]," ++
    "\"p\":\x7b\"y\":\"\",\"x\":[]\x7d\x7d"

/-- The graph and the partials that `disorderlyText` spells. -/
def disorderlyCompiled : Compiled where
  graph :=
    [.element ⟨"p",
      [⟨"b", .literal ""⟩,
        ⟨"a", .mixed [.element ⟨"i", [⟨"d", .empty⟩, ⟨"c", .literal ""⟩], [], false⟩]⟩],
      [], false⟩]
  partials := [("y", [.text ""]), ("x", [])]

/-- The graph and the partials of `disorderlyDocument` with its keys in order. -/
def orderlyCompiled : Compiled where
  graph :=
    [.element ⟨"p",
      [⟨"a", .mixed [.element ⟨"i", [⟨"c", .literal ""⟩, ⟨"d", .empty⟩], [], false⟩]⟩,
        ⟨"b", .literal ""⟩],
      [], false⟩]
  partials := [("x", []), ("y", [.text ""])]

set_option maxRecDepth 4000 in
theorem read_disorderlyText :
    Json.read Json.textDepth disorderlyText = .ok disorderlyDocument :=
  rfl

theorem rearranged_disorderlyText :
    disorderlyDocument.hasDistinctKeys = true ∧ parse disorderlyText = .ok disorderlyCompiled ∧
      ofValue disorderlyDocument.sorted = .ok orderlyCompiled ∧
      disorderlyCompiled.Rearranged orderlyCompiled := by
  have hkeys : disorderlyDocument.hasDistinctKeys = true := by decide
  have htext : parse disorderlyText = .ok disorderlyCompiled := by
    rw [parse_of_read read_disorderlyText]
    rfl
  have hdata : ofValue disorderlyDocument.sorted = .ok orderlyCompiled := rfl
  exact ⟨hkeys, htext, hdata,
    (parse_rearranged_sorted read_disorderlyText hkeys).2 _ _ htext hdata⟩

end Stencil.Document
