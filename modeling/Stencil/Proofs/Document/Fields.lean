import Stencil.Document.Shape
import Stencil.Proofs.Keyed

/-!
# The fields of a node, read one by one

The fields of a node are read in the order in which they stand, each into what has been read so
far.  No known key is repeated, so each field of the outcome comes from the member under its
key alone, and the order makes no difference.  A node that is an array is read as the object
that has the same values under the keys in turn.

* `withField`, `readField_eq_withField` — what a member says about its field.
* `GivenBy` — the fields are those that the members under their keys give.
* `readMembers_of_givenBy`, `givenBy_of_readMembers` — what is read from members.
* `readMembers_eq_of_perm` — the order of members makes no difference.
* `nodeMembers?`, `readItem_of_givenBy` — the members of an object or an array, and the node
  read from them.
-/

namespace Stencil.Document

/-! ## Single fields -/

/-- The type of a node, which may not be null. -/
def typeField (old : Nat) : Option Json → Option Nat
  | none => some old
  | some (.number number) => byteOf? number
  | some _ => none

/-- A field that is text, where null says nothing. -/
def textField (old : Option String) : Option Json → Option (Option String)
  | none | some .null => some old
  | some (.string text) => some (some text)
  | some _ => none

/-- The attributes of a node, where null says nothing. -/
def attributesField (old : List (String × Fragment)) :
    Option Json → Option (List (String × Fragment))
  | none | some .null => some old
  | some (.object members) => (readAttributes members).map Keyed.ofEntries
  | some _ => none

/-- The contents of a node, where null says nothing. -/
def contentsField (old : Fragment) : Option Json → Option Fragment
  | none | some .null => some old
  | some (.string text) => some (.text text)
  | some (.array items) => (readItems items).map .items
  | some _ => none

/-- The modifier of a node, where null says nothing. -/
def modifierField (old : Option Nat) : Option Json → Option (Option Nat)
  | none | some .null => some old
  | some (.number number) => (byteOf? number).map some
  | some _ => none

/-- Fields with what the member under a key says; a member under any key that is not a node's
says nothing. -/
def withField (key : String) (fields : Fields) (member : Option Json) : Option Fields :=
  match key with
  | "t" => (typeField fields.type member).map fun type => { fields with type }
  | "e" => (textField fields.tag member).map fun tag => { fields with tag }
  | "a" =>
      (attributesField fields.attributes member).map fun attributes => { fields with attributes }
  | "f" => (contentsField fields.contents member).map fun contents => { fields with contents }
  | "r" => (textField fields.reference member).map fun reference => { fields with reference }
  | "c" => (textField fields.comment member).map fun comment => { fields with comment }
  | "i" => (textField fields.id member).map fun id => { fields with id }
  | "n" => (modifierField fields.modifier member).map fun modifier => { fields with modifier }
  | _ => some fields

theorem withField_other {key : String} (hkey : key ∉ nodeKeys) (fields : Fields)
    (member : Option Json) : withField key fields member = some fields := by
  unfold withField
  split
  case h_9 => rfl
  all_goals simp [nodeKeys] at hkey

/-- Each member is read on its own, by its key. -/
theorem readField_eq_withField (key : String) (fields : Fields) (value : Json) :
    readField key fields value = withField key fields (some value) := by
  obtain ⟨⟩ := fields
  by_cases hkey : key ∈ nodeKeys
  · simp only [nodeKeys, List.mem_cons, List.not_mem_nil, or_false] at hkey
    rcases hkey with rfl | rfl | rfl | rfl | rfl | rfl | rfl | rfl
    all_goals
      cases value <;>
        simp [readField, readNull, readOther, readNumber, readText, withField, typeField,
          textField, attributesField, contentsField, modifierField, nodeKeys, Function.comp_def]
  · rw [withField_other hkey]
    simp only [nodeKeys, List.mem_cons, List.not_mem_nil, or_false, not_or] at hkey
    obtain ⟨ht, he, ha, hf, hr, hc, hi, hn⟩ := hkey
    cases value <;>
      simp [readField, readNull, readOther, readNumber, readText, nodeKeys, ht, he, ha, hf, hr,
        hc, hi, hn]

/-! ## Keys -/

theorem allDistinct_iff_nodup {keys : List String} : allDistinct keys = true ↔ keys.Nodup := by
  induction keys with
  | nil => simp [allDistinct]
  | cons key rest ih => simp [allDistinct, ih]

/-- A known key that comes first is no key of the members behind it. -/
theorem distinctKeys_cons {α : Type} {known : List String} {key : String} {value : α}
    {rest : List (String × α)} :
    distinctKeys known ((key, value) :: rest) = true ↔
      (key ∈ known → key ∉ rest.map Prod.fst) ∧ distinctKeys known rest = true := by
  unfold distinctKeys
  simp only [allDistinct_iff_nodup, List.map_cons, List.filter_cons, List.contains_iff_mem]
  split
  · rename_i hknown
    simp [hknown]
  · rename_i hknown
    simp [hknown]

theorem distinctKeys_of_nodup {α : Type} (known : List String) {members : List (String × α)}
    (hkeys : (members.map Prod.fst).Nodup) : distinctKeys known members = true :=
  allDistinct_iff_nodup.mpr (hkeys.filter _)

/-- A member under a key that is not a node's hides none of a node's members. -/
theorem get?_cons_other {key known : String} (hother : key ∉ nodeKeys) (hknown : known ∈ nodeKeys)
    (value : Json) (rest : List (String × Json)) :
    Keyed.get? known ((key, value) :: rest) = Keyed.get? known rest := by
  rw [Keyed.get?, if_neg]
  rintro rfl
  exact hother hknown

/-! ## All fields -/

/-- Whether fields are those that members under their keys give, and otherwise the old ones. -/
structure GivenBy (old : Fields) (given : String → Option Json) (fields : Fields) : Prop where
  type : typeField old.type (given "t") = some fields.type
  tag : textField old.tag (given "e") = some fields.tag
  attributes : attributesField old.attributes (given "a") = some fields.attributes
  contents : contentsField old.contents (given "f") = some fields.contents
  reference : textField old.reference (given "r") = some fields.reference
  comment : textField old.comment (given "c") = some fields.comment
  id : textField old.id (given "i") = some fields.id
  modifier : modifierField old.modifier (given "n") = some fields.modifier

/-- Members that give nothing leave the old fields. -/
theorem GivenBy.eq_of_nothing {old fields : Fields} (h : GivenBy old (fun _ => none) fields) :
    fields = old := by
  obtain ⟨⟩ := old
  obtain ⟨⟩ := fields
  obtain ⟨ht, he, ha, hf, hr, hc, hi, hn⟩ := h
  simp only [typeField, textField, attributesField, contentsField, modifierField,
    Option.some.injEq] at ht he ha hf hr hc hi hn
  simp [ht, he, ha, hf, hr, hc, hi, hn]

/-- The first member is read into the old fields, and what the others give into the outcome. -/
theorem GivenBy.exists_first {old fields : Fields} {key : String} {value : Json}
    {rest : List (String × Json)}
    (h : GivenBy old (Keyed.get? · ((key, value) :: rest)) fields)
    (hkey : key ∈ nodeKeys → key ∉ rest.map Prod.fst) :
    ∃ middle, readField key old value = some middle ∧
      GivenBy middle (Keyed.get? · rest) fields := by
  rw [readField_eq_withField]
  by_cases hknown : key ∈ nodeKeys
  · -- The key does not come again, so its field stays as it is read here.
    have hrest : Keyed.get? key rest = none := Keyed.get?_of_notMem (hkey hknown)
    obtain ⟨ht, he, ha, hf, hr, hc, hi, hn⟩ := h
    simp only [nodeKeys, List.mem_cons, List.not_mem_nil, or_false] at hknown
    rcases hknown with rfl | rfl | rfl | rfl | rfl | rfl | rfl | rfl
    all_goals
      simp only [Keyed.get?, String.reduceEq, if_true, if_false] at ht he ha hf hr hc hi hn
    · rw [withField, ht]
      exact ⟨_, rfl, by rw [hrest]; rfl, he, ha, hf, hr, hc, hi, hn⟩
    · rw [withField, he]
      exact ⟨_, rfl, ht, by rw [hrest]; rfl, ha, hf, hr, hc, hi, hn⟩
    · rw [withField, ha]
      exact ⟨_, rfl, ht, he, by rw [hrest]; rfl, hf, hr, hc, hi, hn⟩
    · rw [withField, hf]
      exact ⟨_, rfl, ht, he, ha, by rw [hrest]; rfl, hr, hc, hi, hn⟩
    · rw [withField, hr]
      exact ⟨_, rfl, ht, he, ha, hf, by rw [hrest]; rfl, hc, hi, hn⟩
    · rw [withField, hc]
      exact ⟨_, rfl, ht, he, ha, hf, hr, by rw [hrest]; rfl, hi, hn⟩
    · rw [withField, hi]
      exact ⟨_, rfl, ht, he, ha, hf, hr, hc, by rw [hrest]; rfl, hn⟩
    · rw [withField, hn]
      exact ⟨_, rfl, ht, he, ha, hf, hr, hc, hi, by rw [hrest]; rfl⟩
  · refine ⟨old, withField_other hknown old (some value), ?_⟩
    obtain ⟨ht, he, ha, hf, hr, hc, hi, hn⟩ := h
    constructor
    all_goals rw [← get?_cons_other hknown (by decide) value rest]; assumption

/-- Fields that the other members give after the first one has been read are those that all of
them give. -/
theorem GivenBy.of_first {old middle fields : Fields} {key : String} {value : Json}
    {rest : List (String × Json)} (hread : readField key old value = some middle)
    (h : GivenBy middle (Keyed.get? · rest) fields)
    (hkey : key ∈ nodeKeys → key ∉ rest.map Prod.fst) :
    GivenBy old (Keyed.get? · ((key, value) :: rest)) fields := by
  rw [readField_eq_withField] at hread
  by_cases hknown : key ∈ nodeKeys
  · -- The others leave the field of this key as it was read.
    have hrest : Keyed.get? key rest = none := Keyed.get?_of_notMem (hkey hknown)
    simp only [nodeKeys, List.mem_cons, List.not_mem_nil, or_false] at hknown
    rcases hknown with rfl | rfl | rfl | rfl | rfl | rfl | rfl | rfl
    all_goals
      obtain ⟨found, hfound, rfl⟩ := Option.map_eq_some_iff.mp hread
      obtain ⟨ht, he, ha, hf, hr, hc, hi, hn⟩ := h
    · rw [hrest] at ht
      exact ⟨hfound.trans ht, he, ha, hf, hr, hc, hi, hn⟩
    · rw [hrest] at he
      exact ⟨ht, hfound.trans he, ha, hf, hr, hc, hi, hn⟩
    · rw [hrest] at ha
      exact ⟨ht, he, hfound.trans ha, hf, hr, hc, hi, hn⟩
    · rw [hrest] at hf
      exact ⟨ht, he, ha, hfound.trans hf, hr, hc, hi, hn⟩
    · rw [hrest] at hr
      exact ⟨ht, he, ha, hf, hfound.trans hr, hc, hi, hn⟩
    · rw [hrest] at hc
      exact ⟨ht, he, ha, hf, hr, hfound.trans hc, hi, hn⟩
    · rw [hrest] at hi
      exact ⟨ht, he, ha, hf, hr, hc, hfound.trans hi, hn⟩
    · rw [hrest] at hn
      exact ⟨ht, he, ha, hf, hr, hc, hi, hfound.trans hn⟩
  · rw [withField_other hknown, Option.some.injEq] at hread
    subst hread
    obtain ⟨ht, he, ha, hf, hr, hc, hi, hn⟩ := h
    constructor
    all_goals rw [get?_cons_other hknown (by decide)]; assumption

/-- The order of members makes no difference: an object is read as the fields that the members
under their keys give. -/
theorem readMembers_of_givenBy {members : List (String × Json)} {old fields : Fields}
    (hdistinct : distinctKeys nodeKeys members = true)
    (hgiven : GivenBy old (Keyed.get? · members) fields) :
    readMembers old members = some fields := by
  induction members generalizing old with
  | nil => rw [readMembers, hgiven.eq_of_nothing]
  | cons member rest ih =>
    obtain ⟨key, value⟩ := member
    rw [distinctKeys_cons] at hdistinct
    obtain ⟨middle, hread, hmiddle⟩ := hgiven.exists_first hdistinct.1
    rw [readMembers, hread, Option.bind_eq_bind, Option.bind_some, ih hdistinct.2 hmiddle]

/-- What is read from the members of an object is what the members under their keys give. -/
theorem givenBy_of_readMembers {members : List (String × Json)} {old fields : Fields}
    (hdistinct : distinctKeys nodeKeys members = true)
    (hread : readMembers old members = some fields) :
    GivenBy old (Keyed.get? · members) fields := by
  induction members generalizing old with
  | nil =>
    rw [readMembers, Option.some.injEq] at hread
    subst hread
    exact ⟨rfl, rfl, rfl, rfl, rfl, rfl, rfl, rfl⟩
  | cons member rest ih =>
    obtain ⟨key, value⟩ := member
    rw [distinctKeys_cons] at hdistinct
    obtain ⟨middle, hfirst, hrest⟩ := Option.bind_eq_some_iff.mp hread
    exact GivenBy.of_first hfirst (ih hdistinct.2 hrest) hdistinct.1

/-- The members of an object may come in any order. -/
theorem readMembers_eq_of_perm {members others : List (String × Json)}
    (hkeys : (members.map Prod.fst).Nodup) (hperm : members.Perm others) (old : Fields) :
    readMembers old members = readMembers old others := by
  have hdistinct := distinctKeys_of_nodup nodeKeys hkeys
  have hothers := distinctKeys_of_nodup nodeKeys ((hperm.map Prod.fst).nodup_iff.mp hkeys)
  have hget : (Keyed.get? · members) = (Keyed.get? · others) :=
    funext fun key => Keyed.get?_eq_of_perm hkeys hperm
  refine Option.ext fun fields => ⟨fun hread => ?_, fun hread => ?_⟩
  · exact readMembers_of_givenBy hothers (hget ▸ givenBy_of_readMembers hdistinct hread)
  · exact readMembers_of_givenBy hdistinct (hget ▸ givenBy_of_readMembers hothers hread)

/-! ## Arrays -/

/-- An array is read as the object that has its items under the keys in turn. -/
theorem readPositions_eq_readMembers {items : List Json} {keys : List String} (old : Fields)
    (hlength : items.length ≤ keys.length) :
    readPositions keys old items = readMembers old (keys.zip items) := by
  induction items generalizing keys old with
  | nil => rw [readPositions, List.zip_nil_right, readMembers]
  | cons value rest ih =>
    cases keys with
    | nil => simp at hlength
    | cons key keys =>
      rw [readPositions, List.zip_cons_cons, readMembers]
      congr 1
      funext fields
      exact ih fields (by simpa using hlength)

theorem map_fst_zip_sublist {α β : Type} (keys : List α) (values : List β) :
    ((keys.zip values).map Prod.fst).Sublist keys := by
  induction keys generalizing values with
  | nil => simp
  | cons key keys ih =>
    cases values with
    | nil => simp
    | cons value values => simpa using ih values

theorem distinctKeys_zip (items : List Json) :
    distinctKeys nodeKeys (nodeKeys.zip items) = true :=
  distinctKeys_of_nodup _ ((map_fst_zip_sublist nodeKeys items).nodup (by decide))

/-! ## Nodes -/

/-- The members of a node: those of an object in which no known key is repeated, or the items
of an array under the known keys in turn. -/
def nodeMembers? : Json → Option (List (String × Json))
  | .object members => if distinctKeys nodeKeys members then some members else none
  | .array items => if items.length ≤ nodeKeys.length then some (nodeKeys.zip items) else none
  | _ => none

/-- A node is read as the fields that its members give, in whatever order they come, from an
object as from an array. -/
theorem readItem_of_givenBy {value type : Json} {members : List (String × Json)}
    {fields : Fields} (hmembers : nodeMembers? value = some members)
    (htype : Keyed.get? "t" members = some type)
    (hgiven : GivenBy .blank (Keyed.get? · members) fields) :
    readItem value = some (.node fields) := by
  cases value with
  | object entries =>
    simp only [nodeMembers?, Option.ite_none_right_eq_some, Option.some.injEq] at hmembers
    obtain ⟨hdistinct, rfl⟩ := hmembers
    have hany : entries.any (·.1 == "t") = true :=
      List.any_eq_true.mpr ⟨_, Keyed.mem_of_get? htype, beq_self_eq_true "t"⟩
    rw [readItem, hdistinct, hany, readMembers_of_givenBy hdistinct hgiven]
    rfl
  | array items =>
    simp only [nodeMembers?, Option.ite_none_right_eq_some, Option.some.injEq] at hmembers
    obtain ⟨hlength, rfl⟩ := hmembers
    cases items with
    | nil => cases htype
    | cons first rest =>
      rw [readItem, readPositions_eq_readMembers .blank hlength,
        readMembers_of_givenBy (distinctKeys_zip _) hgiven, Option.map_some]
  | null | bool _ | number _ | string _ => cases hmembers

end Stencil.Document
