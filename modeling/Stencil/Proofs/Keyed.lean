import Mathlib.Data.List.Induction
import Stencil.Keyed

/-!
# What lists of entries hold

* `Keyed.mem_of_get?`, `Keyed.get?_of_notMem` — what is found is there, and what is not there is
  not found.
* `Keyed.get?_eq_of_perm` — what is found among entries in another order.
* `Keyed.map_snd_put_subset`, `Keyed.map_snd_erase_subset` — no values appear but the one put in.
* `Keyed.ofEntries_of_nodup` — entries under distinct keys keep their places.
* `Keyed.get?_ofEntries`, `Keyed.pairwise_firstUse` — of entries that are put in one after the
  other, a key has the last value, and the place of its first use.
* `Keyed.find?_reverse_ofEntries` — what a search from the end comes to.
-/

namespace Stencil.Keyed

variable {α : Type} {key : String} {value : α} {entries : List (String × α)}

theorem mem_of_get? (h : get? key entries = some value) : (key, value) ∈ entries := by
  induction entries with
  | nil => cases h
  | cons entry rest ih =>
    obtain ⟨name, old⟩ := entry
    by_cases hname : name = key
    · rw [get?, if_pos hname, Option.some.injEq] at h
      rw [hname, h]
      exact List.mem_cons_self
    · rw [get?, if_neg hname] at h
      exact List.mem_cons_of_mem _ (ih h)

theorem get?_of_notMem (hkey : key ∉ entries.map Prod.fst) : get? key entries = none := by
  rw [Option.eq_none_iff_forall_not_mem]
  intro value hvalue
  exact hkey (List.mem_map_of_mem (mem_of_get? hvalue))

/-- The first entry under a key is found, whatever stands behind it. -/
theorem get?_append_cons {front rest : List (String × α)} (hfirst : key ∉ front.map Prod.fst) :
    get? key (front ++ (key, value) :: rest) = some value := by
  induction front with
  | nil => rw [List.nil_append, get?, if_pos rfl]
  | cons entry front ih =>
    simp only [List.map_cons, List.mem_cons, not_or] at hfirst
    rw [List.cons_append, get?, if_neg (Ne.symm hfirst.1), ih hfirst.2]

/-- Among entries under distinct keys it does not matter which comes first. -/
theorem get?_eq_of_perm {others : List (String × α)} (hkeys : (entries.map Prod.fst).Nodup)
    (hperm : entries.Perm others) : get? key entries = get? key others := by
  induction hperm with
  | nil => rfl
  | cons entry _ ih => rw [get?, get?, ih (List.nodup_cons.mp hkeys).2]
  | swap first second rest =>
    have hne : second.1 ≠ first.1 := fun heq =>
      (List.nodup_cons.mp hkeys).1 (heq ▸ List.mem_cons_self)
    by_cases hfirst : first.1 = key
    · simp [get?, hfirst, hfirst ▸ hne]
    · simp [get?, hfirst]
  | trans hfirst _ ihfirst ihsecond =>
    rw [ihfirst hkeys, ihsecond ((hfirst.map Prod.fst).nodup_iff.mp hkeys)]

theorem map_snd_put_subset (key : String) (value : α) (entries : List (String × α)) :
    (put key value entries).map Prod.snd ⊆ value :: entries.map Prod.snd := by
  induction entries with
  | nil => simp [put]
  | cons entry rest ih =>
    obtain ⟨name, old⟩ := entry
    rw [put]
    split
    · simp
    · intro found hfound
      rcases List.mem_cons.mp hfound with rfl | hrest
      · simp
      · rcases List.mem_cons.mp (ih hrest) with rfl | hold
        · simp
        · simp [hold]

theorem map_snd_erase_subset (key : String) (entries : List (String × α)) :
    (erase key entries).map Prod.snd ⊆ entries.map Prod.snd :=
  List.map_subset _ List.filter_sublist.subset

/-- A new key is put behind the others. -/
theorem put_of_notMem (hkey : key ∉ entries.map Prod.fst) :
    put key value entries = entries ++ [(key, value)] := by
  induction entries with
  | nil => rfl
  | cons entry rest ih =>
    obtain ⟨name, old⟩ := entry
    simp only [List.map_cons, List.mem_cons, not_or] at hkey
    rw [put, if_neg (Ne.symm hkey.1), ih hkey.2, List.cons_append]

theorem foldl_put_of_nodup {done : List (String × α)}
    (hkeys : ((done ++ entries).map Prod.fst).Nodup) :
    entries.foldl (fun done entry => put entry.1 entry.2 done) done = done ++ entries := by
  induction entries generalizing done with
  | nil => simp
  | cons entry rest ih =>
    obtain ⟨key, value⟩ := entry
    have hkey : key ∉ done.map Prod.fst := by
      intro hmem
      rw [List.map_append, List.nodup_append] at hkeys
      exact hkeys.2.2 key hmem key List.mem_cons_self rfl
    rw [List.foldl_cons, put_of_notMem hkey, ih (by simpa using hkeys), List.append_assoc,
      List.singleton_append]

/-- Entries under distinct keys keep their places. -/
theorem ofEntries_of_nodup (hkeys : (entries.map Prod.fst).Nodup) :
    ofEntries entries = entries :=
  foldl_put_of_nodup hkeys

/-! ## Entries put in one after the other -/

theorem ofEntries_concat (entries : List (String × α)) (entry : String × α) :
    ofEntries (entries ++ [entry]) = put entry.1 entry.2 (ofEntries entries) := by
  rw [ofEntries, List.foldl_append]
  rfl

/-- The value of a key is the one that was put in last. -/
theorem get?_ofEntries (key : String) (entries : List (String × α)) :
    get? key (ofEntries entries) = get? key entries.reverse := by
  induction entries using List.reverseRecOn with
  | nil => rfl
  | append_singleton entries entry ih =>
    rw [ofEntries_concat, List.reverse_concat, get?]
    by_cases hkey : entry.1 = key
    · rw [if_pos hkey, ← hkey, get?_put_self]
    · rw [if_neg hkey, get?_put_of_ne hkey, ih]

theorem map_fst_put (key : String) (value : α) (entries : List (String × α)) :
    (put key value entries).map Prod.fst =
      if key ∈ entries.map Prod.fst then entries.map Prod.fst
      else entries.map Prod.fst ++ [key] := by
  by_cases hkey : key ∈ entries.map Prod.fst
  · rw [if_pos hkey]
    induction entries with
    | nil => cases hkey
    | cons entry rest ih =>
      rw [put]
      split
      · rename_i hname
        rw [List.map_cons, List.map_cons, hname]
      · rename_i hname
        have hrest := (List.mem_cons.mp hkey).resolve_left (Ne.symm hname)
        rw [List.map_cons, List.map_cons, ih hrest]
  · rw [if_neg hkey, put_of_notMem hkey, List.map_append]
    rfl

theorem mem_map_fst_ofEntries (key : String) (entries : List (String × α)) :
    key ∈ (ofEntries entries).map Prod.fst ↔ key ∈ entries.map Prod.fst := by
  induction entries using List.reverseRecOn with
  | nil => rfl
  | append_singleton entries entry ih =>
    rw [ofEntries_concat, map_fst_put, List.map_append, List.mem_append, ← ih]
    split
    · rename_i hold
      refine ⟨.inl, fun h => h.elim id fun hnew => ?_⟩
      rw [List.mem_singleton.mp hnew]
      exact hold
    · exact List.mem_append

/-- The place at which a key is used first. -/
def firstUse (entries : List (String × α)) (key : String) : Nat :=
  entries.findIdx (·.1 == key)

theorem firstUse_lt (hkey : key ∈ entries.map Prod.fst) :
    firstUse entries key < entries.length := by
  obtain ⟨entry, hentry, rfl⟩ := List.mem_map.mp hkey
  exact List.findIdx_lt_length_of_exists ⟨entry, hentry, beq_self_eq_true _⟩

/-- A further entry does not change where a key is used first. -/
theorem firstUse_concat (entry : String × α) (hkey : key ∈ entries.map Prod.fst) :
    firstUse (entries ++ [entry]) key = firstUse entries key := by
  have hlt := firstUse_lt hkey
  rw [firstUse] at hlt
  rw [firstUse, firstUse, List.findIdx_append, if_pos hlt]

/-- A new key is used behind all others. -/
theorem firstUse_concat_self {entry : String × α} (hnew : entry.1 ∉ entries.map Prod.fst) :
    firstUse (entries ++ [entry]) entry.1 = entries.length := by
  have hnone : ¬ entries.findIdx (·.1 == entry.1) < entries.length := by
    rw [List.findIdx_lt_length]
    rintro ⟨other, hother, hsame⟩
    exact hnew (List.mem_map.mpr ⟨other, hother, beq_iff_eq.mp hsame⟩)
  rw [firstUse, List.findIdx_append, if_neg hnone]
  simp [List.findIdx_cons]

/-- Keys stand in the order in which they were used first. -/
theorem pairwise_firstUse (entries : List (String × α)) :
    ((ofEntries entries).map Prod.fst).Pairwise
      fun key later => firstUse entries key < firstUse entries later := by
  induction entries using List.reverseRecOn with
  | nil => exact .nil
  | append_singleton entries entry ih =>
    have hkept : ((ofEntries entries).map Prod.fst).Pairwise fun key later =>
        firstUse (entries ++ [entry]) key < firstUse (entries ++ [entry]) later := by
      refine ih.imp_of_mem fun hkey hlater hlt => ?_
      rw [firstUse_concat entry ((mem_map_fst_ofEntries _ _).mp hkey),
        firstUse_concat entry ((mem_map_fst_ofEntries _ _).mp hlater)]
      exact hlt
    rw [ofEntries_concat, map_fst_put]
    split
    · exact hkept
    · rename_i hnew
      rw [mem_map_fst_ofEntries] at hnew
      refine List.pairwise_append.mpr ⟨hkept, List.pairwise_singleton _ _, ?_⟩
      intro key hkey later hlater
      rw [List.mem_singleton.mp hlater, firstUse_concat_self hnew]
      rw [mem_map_fst_ofEntries] at hkey
      rw [firstUse_concat entry hkey]
      exact firstUse_lt hkey

/-- A search from the end for a key that passes a test comes to the one that was used first at
the latest place, and to the last value under it. -/
theorem find?_reverse_ofEntries {test : String → Bool}
    (hfind : (ofEntries entries).reverse.find? (fun entry => test entry.1) = some (key, value)) :
    test key = true ∧ get? key entries.reverse = some value ∧
      ∀ entry ∈ entries, test entry.1 = true →
        firstUse entries entry.1 ≤ firstUse entries key := by
  obtain ⟨htest, after, before, hsplit, hafter⟩ := List.find?_eq_some_iff_append.mp hfind
  have hentries : ofEntries entries = before.reverse ++ (key, value) :: after.reverse := by
    rw [← List.reverse_reverse (ofEntries entries), hsplit]
    simp
  have hpairwise := pairwise_firstUse entries
  rw [hentries, List.map_append, List.map_cons, List.pairwise_append] at hpairwise
  refine ⟨htest, ?_, ?_⟩
  · -- The key is used by no entry in front of this one.
    have hfirst : key ∉ before.reverse.map Prod.fst := by
      intro hmem
      exact Nat.lt_irrefl _ (hpairwise.2.2 key hmem key List.mem_cons_self)
    rw [← get?_ofEntries, hentries, get?_append_cons hfirst]
  · intro entry hentry hpasses
    have hmem : entry.1 ∈ (ofEntries entries).map Prod.fst :=
      (mem_map_fst_ofEntries _ _).mpr (List.mem_map_of_mem hentry)
    rw [hentries, List.map_append, List.mem_append, List.map_cons, List.mem_cons] at hmem
    rcases hmem with hbefore | heq | hlater
    · exact Nat.le_of_lt (hpairwise.2.2 _ hbefore key List.mem_cons_self)
    · exact Nat.le_of_eq (congrArg (firstUse entries) heq)
    · obtain ⟨other, hother, hsame⟩ := List.mem_map.mp hlater
      have hfails := hafter other (List.mem_reverse.mp hother)
      rw [hsame, hpasses] at hfails
      cases hfails

/-- It comes to one if an entry has been put in under such a key. -/
theorem isSome_find?_reverse_ofEntries {test : String → Bool} :
    ((ofEntries entries).reverse.find? fun entry => test entry.1).isSome = true ↔
      ∃ entry ∈ entries, test entry.1 = true := by
  have hkeys : ∀ entries : List (String × α), (∃ entry ∈ entries, test entry.1 = true) ↔
      ∃ key ∈ entries.map Prod.fst, test key = true := by
    intro entries
    simp only [List.mem_map, exists_exists_and_eq_and]
  rw [List.find?_isSome, hkeys entries]
  simp only [List.mem_reverse]
  rw [hkeys]
  simp only [mem_map_fst_ofEntries]

end Stencil.Keyed
