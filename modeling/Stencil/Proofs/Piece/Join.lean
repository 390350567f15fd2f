import Stencil.Piece.Basic

/-!
# What joining neighbours keeps

Joining the neighbours in a list changes how the list is cut up, and nothing that is
gathered along it: where the measure of a joined entry is that of its two parts, the
total of the list stays the same.

* `total_joinNeighbours` — joining keeps totals.
* `joinNeighbours_eq_nil` — joining leaves nothing only where there was nothing.
* `Piece.textContents_merged` — so the text of pieces is the same, joined or not.
-/

namespace Stencil

/-! ## Totals -/

section Totals

variable {α β : Type} {join : α → α → Option α} {op : β → β → β} {unit : β} {measure : α → β}

/-- What is gathered along a list, first entry first. -/
def total (op : β → β → β) (unit : β) (measure : α → β) : List α → β
  | [] => unit
  | entry :: rest => op (measure entry) (total op unit measure rest)

/-- How a measure has to behave for its total to be kept by joining. -/
structure Additive (join : α → α → Option α) (op : β → β → β) (unit : β) (measure : α → β) :
    Prop where
  assoc : ∀ a b c, op (op a b) c = op a (op b c)
  unit_op : ∀ b, op unit b = b
  op_unit : ∀ b, op b unit = b
  joined : ∀ last new joined, join last new = some joined →
    measure joined = op (measure last) (measure new)

namespace Additive

theorem total_append (h : Additive join op unit measure) (first second : List α) :
    total op unit measure (first ++ second) =
      op (total op unit measure first) (total op unit measure second) := by
  induction first with
  | nil => rw [List.nil_append, total, h.unit_op]
  | cons entry rest ih => rw [List.cons_append, total, total, ih, h.assoc]

theorem total_singleton (h : Additive join op unit measure) (entry : α) :
    total op unit measure [entry] = measure entry := h.op_unit _

theorem total_pushJoined (h : Additive join op unit measure) (list : List α) (new : α) :
    total op unit measure (pushJoined join list new).reverse =
      op (total op unit measure list.reverse) (measure new) := by
  cases list with
  | nil => rw [pushJoined_nil, List.reverse_singleton, h.total_singleton, List.reverse_nil, total,
      h.unit_op]
  | cons last earlier =>
    cases hjoin : join last new with
    | none =>
      simp only [pushJoined, hjoin]
      rw [List.reverse_cons, h.total_append, h.total_singleton]
    | some joined =>
      simp only [pushJoined, hjoin]
      rw [List.reverse_cons, List.reverse_cons, h.total_append, h.total_append,
        h.total_singleton, h.total_singleton, h.joined last new joined hjoin, h.assoc]

theorem total_pushAllJoined (h : Additive join op unit measure) (list new : List α) :
    total op unit measure (pushAllJoined join list new).reverse =
      op (total op unit measure list.reverse) (total op unit measure new) := by
  induction new generalizing list with
  | nil => rw [pushAllJoined_nil, total, h.op_unit]
  | cons entry rest ih =>
    rw [pushAllJoined, List.foldl_cons, ← pushAllJoined, ih, h.total_pushJoined, total, h.assoc]

/-- Joining the neighbours in a list keeps its total. -/
theorem total_joinNeighbours (h : Additive join op unit measure) (entries : List α) :
    total op unit measure (joinNeighbours join entries) = total op unit measure entries := by
  rw [joinNeighbours, h.total_pushAllJoined, List.reverse_nil, total, h.unit_op]

end Additive

end Totals

/-! ## Emptiness -/

section Empty

variable {α : Type} (join : α → α → Option α)

theorem pushJoined_ne_nil (list : List α) (new : α) : pushJoined join list new ≠ [] := by
  unfold pushJoined
  split
  · exact List.cons_ne_nil _ _
  · split
    · exact List.cons_ne_nil _ _
    · exact List.cons_ne_nil _ _

theorem pushAllJoined_ne_nil {list : List α} (hlist : list ≠ []) (new : List α) :
    pushAllJoined join list new ≠ [] := by
  induction new generalizing list with
  | nil => exact hlist
  | cons entry rest ih => exact ih (pushJoined_ne_nil join list entry)

/-- Joining leaves nothing over only where there was nothing. -/
theorem joinNeighbours_eq_nil (entries : List α) :
    joinNeighbours join entries = [] ↔ entries = [] := by
  cases entries with
  | nil => simp [joinNeighbours]
  | cons entry rest =>
    have hne := pushAllJoined_ne_nil join (pushJoined_ne_nil join [] entry) rest
    simp only [joinNeighbours, List.reverse_eq_nil_iff, List.cons_ne_nil, iff_false]
    exact hne

end Empty

/-! ## Pieces -/

namespace Piece

variable {ω : Type}

/-- Pieces as they stand side by side: neighbouring texts joined, and neighbouring markups. -/
def merged (pieces : List (Piece ω)) : List (Piece ω) := joinNeighbours join? pieces

theorem merged_eq_nil (pieces : List (Piece ω)) : merged pieces = [] ↔ pieces = [] :=
  joinNeighbours_eq_nil join? pieces

/-- A measure of pieces is kept by joining if it is kept for two texts and for two markups. -/
theorem additive {β : Type} {op : β → β → β} {unit : β} {measure : Piece ω → β}
    (assoc : ∀ a b c, op (op a b) c = op a (op b c)) (unit_op : ∀ b, op unit b = b)
    (op_unit : ∀ b, op b unit = b)
    (htext : ∀ a b, measure (.text (a ++ b)) = op (measure (.text a)) (measure (.text b)))
    (hraw : ∀ a b, measure (.raw (a ++ b)) = op (measure (.raw a)) (measure (.raw b))) :
    Additive join? op unit measure where
  assoc := assoc
  unit_op := unit_op
  op_unit := op_unit
  joined := by
    intro last new joined hjoin
    unfold join? at hjoin
    split at hjoin
    · cases hjoin
      exact htext _ _
    · cases hjoin
      exact hraw _ _
    · cases hjoin

/-- The text of pieces. -/
theorem textContents_eq_total (pieces : List (Piece ω)) :
    textContents pieces = total (· ++ ·) "" textContent pieces := by
  induction pieces with
  | nil => rfl
  | cons piece rest ih => rw [textContents, total, ih]

theorem additive_textContent : Additive (join? (ω := ω)) (· ++ ·) "" textContent :=
  additive (fun _ _ _ => String.append_assoc) (fun _ => String.empty_append)
    (fun _ => String.append_empty) (fun _ _ => by simp [textContent])
    (fun _ _ => by simp [textContent])

/-- Pieces have the same text before and after they are joined. -/
theorem textContents_merged (pieces : List (Piece ω)) :
    textContents (merged pieces) = textContents pieces := by
  rw [textContents_eq_total, textContents_eq_total, merged,
    additive_textContent.total_joinNeighbours]

end Piece

end Stencil
