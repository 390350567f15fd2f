/-!
# Lists whose neighbours are joined

A list that grows at its end, where a new entry may be joined to the last one.
The list is kept with its last entry first, so only the head is looked at.

* `pushJoined` — one more entry.
* `Parted` — no two neighbours could be joined.
-/

namespace Stencil

variable {α : Type}

/-- Put an entry behind a list that is kept last entry first; if it can be joined to the
last entry, the two become one. -/
def pushJoined (join : α → α → Option α) : List α → α → List α
  | [], new => [new]
  | last :: earlier, new =>
      match join last new with
      | some joined => joined :: earlier
      | none => new :: last :: earlier

/-- Put entries one after the other behind a list that is kept last entry first. -/
def pushAllJoined (join : α → α → Option α) (list : List α) (new : List α) : List α :=
  new.foldl (pushJoined join) list

/-- The list that entries grow into from nothing, in order. -/
def joinNeighbours (join : α → α → Option α) (entries : List α) : List α :=
  (pushAllJoined join [] entries).reverse

/-- Whether no entry of a list that is kept last entry first can be joined to the one in
front of it. -/
def Parted (join : α → α → Option α) : List α → Prop
  | [] => True
  | [_] => True
  | last :: previous :: earlier =>
      join previous last = none ∧ Parted join (previous :: earlier)

@[simp] theorem pushJoined_nil (join : α → α → Option α) (new : α) :
    pushJoined join [] new = [new] := rfl

@[simp] theorem pushAllJoined_nil (join : α → α → Option α) (list : List α) :
    pushAllJoined join list [] = list := rfl

theorem pushAllJoined_append (join : α → α → Option α) (list first second : List α) :
    pushAllJoined join list (first ++ second) =
      pushAllJoined join (pushAllJoined join list first) second := by
  simp [pushAllJoined]

end Stencil
