/-!
# Lists of entries under keys

Entries in the order their keys were first used.

* `Keyed.get?` — the entry under a key.
* `Keyed.put` — an entry under a key; a key that is there already keeps its place.
* `Keyed.get?_put_self`, `Keyed.get?_put_of_ne` — what is found afterwards.
-/

namespace Stencil.Keyed

variable {α : Type}

/-- The value of the first entry under a key. -/
def get? (key : String) : List (String × α) → Option α
  | [] => none
  | (name, value) :: rest => if name = key then some value else get? key rest

/-- Put a value under a key; a key that is there already keeps its place. -/
def put (key : String) (value : α) : List (String × α) → List (String × α)
  | [] => [(key, value)]
  | (name, old) :: rest =>
      if name = key then (key, value) :: rest else (name, old) :: put key value rest

/-- The entries without those under a key. -/
def erase (key : String) (entries : List (String × α)) : List (String × α) :=
  entries.filter (·.1 != key)

/-- The entries with each key once, at its first place and with its last value. -/
def ofEntries (entries : List (String × α)) : List (String × α) :=
  entries.foldl (fun done entry => put entry.1 entry.2 done) []

theorem get?_put_self (key : String) (value : α) (entries : List (String × α)) :
    get? key (put key value entries) = some value := by
  induction entries with
  | nil => simp [put, get?]
  | cons entry rest ih =>
      obtain ⟨name, old⟩ := entry
      simp only [put]
      split
      · simp [get?]
      · rename_i hne
        simp [get?, hne, ih]

theorem get?_put_of_ne {key other : String} (hne : key ≠ other) (value : α)
    (entries : List (String × α)) : get? other (put key value entries) = get? other entries := by
  induction entries with
  | nil => simp [put, get?, hne]
  | cons entry rest ih =>
      obtain ⟨name, old⟩ := entry
      simp only [put]
      split
      · rename_i heq
        subst heq
        simp [get?, hne]
      · simp only [get?, ih]

end Stencil.Keyed
