import Mathlib.Data.List.Perm.Basic
import Stencil.Json.Basic
import Stencil.Proofs.Keyed

/-!
# Values in order of their keys

If no object of a value has a key twice, then putting its objects in the order of their keys only
moves members: what stands under a key stays there.

* `Json.hasDistinctKeys` — no object within a value has a key twice.
* `Json.partsInduction` — induction over a value by its parts.
* `Json.perm_sortMembers`, `Json.perm_sortedObject` — sorting moves members.
* `Json.get?_sortedObject` — what stands under a key afterwards.
-/

namespace Stencil.Json

variable {key : String} {value : Json} {items : List Json} {members : List (String × Json)}

/-! ## Parts of values -/

mutual
/-- Whether no object within a value has a key twice. -/
def hasDistinctKeys : Json → Bool
  | .array items => itemsHaveDistinctKeys items
  | .object members => decide (members.map Prod.fst).Nodup && membersHaveDistinctKeys members
  | _ => true
/-- Whether no object within the items of an array has a key twice. -/
def itemsHaveDistinctKeys : List Json → Bool
  | [] => true
  | item :: rest => item.hasDistinctKeys && itemsHaveDistinctKeys rest
/-- Whether no object within the members of an object has a key twice. -/
def membersHaveDistinctKeys : List (String × Json) → Bool
  | [] => true
  | (_, value) :: rest => value.hasDistinctKeys && membersHaveDistinctKeys rest
end

theorem hasDistinctKeys_array :
    (Json.array items).hasDistinctKeys = true ↔
      ∀ item ∈ items, item.hasDistinctKeys = true := by
  rw [hasDistinctKeys]
  induction items with
  | nil => simp [itemsHaveDistinctKeys]
  | cons item rest ih => simp [itemsHaveDistinctKeys, ih]

theorem hasDistinctKeys_object :
    (Json.object members).hasDistinctKeys = true ↔
      (members.map Prod.fst).Nodup ∧ ∀ member ∈ members, member.2.hasDistinctKeys = true := by
  have hmembers : membersHaveDistinctKeys members = true ↔
      ∀ member ∈ members, member.2.hasDistinctKeys = true := by
    induction members with
    | nil => simp [membersHaveDistinctKeys]
    | cons member rest ih => simp [membersHaveDistinctKeys, ih]
  rw [hasDistinctKeys, Bool.and_eq_true, decide_eq_true_eq, hmembers]

/-- What holds of a value if it holds of its items, or of what stands under its keys, holds of
all values. -/
theorem partsInduction {P : Json → Prop} (null : P .null) (bool : ∀ value, P (.bool value))
    (number : ∀ value, P (.number value)) (string : ∀ value, P (.string value))
    (array : ∀ items, (∀ item ∈ items, P item) → P (.array items))
    (object : ∀ members, (∀ member ∈ members, P member.2) → P (.object members)) :
    ∀ value, P value
  | .null => null
  | .bool value => bool value
  | .number value => number value
  | .string value => string value
  | .array items => array items fun item _ =>
      partsInduction null bool number string array object item
  | .object members => object members fun member _ =>
      partsInduction null bool number string array object member.2
termination_by value => sizeOf value
decreasing_by
  · have hlt := List.sizeOf_lt_of_mem ‹item ∈ items›
    simp only [Json.array.sizeOf_spec]
    omega
  · have hlt := List.sizeOf_lt_of_mem ‹member ∈ members›
    obtain ⟨key, value⟩ := member
    simp only [Prod.mk.sizeOf_spec] at hlt
    simp only [Json.object.sizeOf_spec]
    omega

/-! ## Sorting -/

theorem sortedItems_eq_map (items : List Json) : sortedItems items = items.map sorted := by
  induction items with
  | nil => rfl
  | cons item rest ih => rw [sortedItems, ih, List.map_cons]

theorem sortedMembers_eq_map (members : List (String × Json)) :
    sortedMembers members = members.map (Prod.map id sorted) := by
  induction members with
  | nil => rfl
  | cons member rest ih =>
    obtain ⟨key, value⟩ := member
    rw [sortedMembers, ih, List.map_cons]
    rfl

theorem map_fst_sortedMembers (members : List (String × Json)) :
    (sortedMembers members).map Prod.fst = members.map Prod.fst := by
  rw [sortedMembers_eq_map, List.map_map]
  rfl

theorem get?_sortedMembers (key : String) (members : List (String × Json)) :
    Keyed.get? key (sortedMembers members) = (Keyed.get? key members).map sorted := by
  induction members with
  | nil => rfl
  | cons member rest ih =>
    obtain ⟨name, value⟩ := member
    rw [sortedMembers, Keyed.get?, Keyed.get?, ih]
    split <;> rfl

/-- A new member is put somewhere among the others. -/
theorem perm_insertMember (hkey : key ∉ members.map Prod.fst) :
    (insertMember key value members).Perm ((key, value) :: members) := by
  induction members with
  | nil => exact .refl _
  | cons member rest ih =>
    obtain ⟨name, old⟩ := member
    simp only [List.map_cons, List.mem_cons, not_or] at hkey
    rw [insertMember, if_neg hkey.1]
    split
    · exact .refl _
    · exact ((ih hkey.2).cons _).trans (.swap _ _ _)

/-- Sorting moves the members of an object. -/
theorem perm_sortMembers (hkeys : (members.map Prod.fst).Nodup) :
    (sortMembers members).Perm members := by
  have hmore : ∀ done : List (String × Json), ((members ++ done).map Prod.fst).Nodup →
      (members.foldl (fun sorted member => insertMember member.1 member.2 sorted) done).Perm
        (members ++ done) := by
    clear hkeys
    induction members with
    | nil => exact fun done _ => .refl _
    | cons member rest ih =>
      intro done hnodup
      have hnew : member.1 ∉ done.map Prod.fst := by
        intro hmem
        rw [List.cons_append, List.map_cons, List.nodup_cons, List.map_append] at hnodup
        exact hnodup.1 (List.mem_append_right _ hmem)
      have hperm : (rest ++ insertMember member.1 member.2 done).Perm (member :: rest ++ done) :=
        ((perm_insertMember hnew).append_left rest).trans List.perm_middle
      exact (ih _ ((hperm.map Prod.fst).nodup_iff.mpr hnodup)).trans hperm
  have hall := hmore [] (by rwa [List.append_nil])
  rwa [List.append_nil] at hall

/-- The members of a sorted object are those of the object, each sorted, in another order. -/
theorem perm_sortedObject (hkeys : (members.map Prod.fst).Nodup) :
    (sortMembers (sortedMembers members)).Perm (sortedMembers members) :=
  perm_sortMembers (by rwa [map_fst_sortedMembers])

theorem nodup_sortedObject (hkeys : (members.map Prod.fst).Nodup) :
    ((sortMembers (sortedMembers members)).map Prod.fst).Nodup := by
  rw [((perm_sortedObject hkeys).map Prod.fst).nodup_iff, map_fst_sortedMembers]
  exact hkeys

/-- In a sorted object, each key has what it had before, sorted. -/
theorem get?_sortedObject (hkeys : (members.map Prod.fst).Nodup) (key : String) :
    Keyed.get? key (sortMembers (sortedMembers members)) =
      (Keyed.get? key members).map sorted := by
  rw [← get?_sortedMembers]
  exact Keyed.get?_eq_of_perm (nodup_sortedObject hkeys) (perm_sortedObject hkeys)

end Stencil.Json
