import Mathlib.Data.List.Basic
import Mathlib.Order.WellFounded
import Stencil.Warning

/-!
# Work within work

Work on one item may include work on others, which includes work on further ones, and so on.  If
it is cut off below a number of layers, then with one more layer it may come to an end for more
items, but only as long as it does so for one more of them each time.  So no more layers are
needed than there are items, and further ones change nothing.

* `Logged.Ends`, `Logged.Matches` — work that ends; the same work, or none that does.
* `Logged.Layered` — what is done for an item is made of what is done for those within it.
* `Logged.NestsEndlessly` — an endless chain of items within one another.
* `Logged.Layered.eq_of_le` — with more layers, what comes to an end stays as it is.
* `Logged.Layered.ends_length` — as many layers as there are items are enough.
* `Logged.Layered.ends_iff_not_nestsEndlessly` — work comes to an end unless items are within one
  another endlessly.
-/

namespace Stencil.Logged

variable {α β : Type} {work : Nat → α → Logged β} {within : α → List α} {items : List α}
  {item : α} {layers : Nat}

/-! ## Work that ends -/

/-- Whether work has come to an end. -/
def Ends (work : Logged β) : Prop := work.log.endless = false

instance (work : Logged β) : Decidable work.Ends := inferInstanceAs (Decidable (_ = false))

/-- The same work, unless there is no end in either case. -/
def Matches (one other : Logged β) : Prop := one = other ∨ ¬ one.Ends ∧ ¬ other.Ends

/-- What is made of the values of matching work matches. -/
theorem Matches.andThen {γ : Type} {one other : Logged β} (h : one.Matches other) (f : β → γ) :
    (do return f (← one) : Logged γ).Matches (do return f (← other)) := by
  rcases h with rfl | ⟨hone, hother⟩
  · exact .inl rfl
  · refine .inr ⟨?_, ?_⟩
    · rwa [Ends, log_bind, log_pure, Log.append_empty]
    · rwa [Ends, log_bind, log_pure, Log.append_empty]

/-- Work matches if its parts do, of which it is made, and with which it comes to an end. -/
theorem Matches.of_parts {γ : Type} {whole whole' : Logged γ} {part part' : α → Logged β}
    (h : ∀ item ∈ items, (part item).Matches (part' item))
    (hcongr : (∀ item ∈ items, part item = part' item) → whole = whole')
    (hends : whole.Ends ↔ ∀ item ∈ items, (part item).Ends)
    (hends' : whole'.Ends ↔ ∀ item ∈ items, (part' item).Ends) : whole.Matches whole' := by
  by_cases hsame : ∀ item ∈ items, part item = part' item
  · exact .inl (hcongr hsame)
  · simp only [not_forall] at hsame
    obtain ⟨item, hitem, hne⟩ := hsame
    obtain ⟨hnot, hnot'⟩ := (h item hitem).resolve_left hne
    exact .inr ⟨fun hend => hnot (hends.mp hend item hitem),
      fun hend => hnot' (hends'.mp hend item hitem)⟩

/-! ## Layers -/

/-- What is done for an item, in at most so many layers, is made of what is done for those right
within it in one layer less, and comes to an end just if this does. -/
structure Layered (work : Nat → α → Logged β) (within : α → List α) : Prop where
  zero : ∀ item, ¬ (work 0 item).Ends
  succ : ∀ layers item, (work (layers + 1) item).Ends ↔
    ∀ inner ∈ within item, (work layers inner).Ends
  congr : ∀ layers more item, (∀ inner ∈ within item, work layers inner = work more inner) →
    work (layers + 1) item = work (more + 1) item

/-- Whether there are items without end, the first one among given ones and each further one
within the one before. -/
def NestsEndlessly (within : α → List α) (start : List α) : Prop :=
  ∃ chain : Nat → α, chain 0 ∈ start ∧ ∀ n, chain (n + 1) ∈ within (chain n)

namespace Layered

/-- What comes to an end is the same with one more layer. -/
theorem eq_succ (h : Layered work within) (hends : (work layers item).Ends) :
    work (layers + 1) item = work layers item := by
  induction layers generalizing item with
  | zero => exact absurd hends (h.zero item)
  | succ layers ih =>
    have hinside := (h.succ layers item).mp hends
    exact h.congr (layers + 1) layers item fun inner hinner => ih (hinside inner hinner)

/-- What comes to an end is the same with more layers. -/
theorem eq_of_le (h : Layered work within) {more : Nat} (hle : layers ≤ more)
    (hends : (work layers item).Ends) : work more item = work layers item := by
  induction hle with
  | refl => rfl
  | @step more _ ih =>
    have hmore : (work more item).Ends := by rwa [ih]
    rw [h.eq_succ hmore, ih]

theorem ends_of_le (h : Layered work within) {more : Nat} (hle : layers ≤ more)
    (hends : (work layers item).Ends) : (work more item).Ends := by
  rwa [h.eq_of_le hle hends]

/-! ## As many layers as items -/

/-- The items for which work does not come to an end. -/
def unended (work : Nat → α → Logged β) (items : List α) (layers : Nat) : List α :=
  items.filter fun item => ¬ (work layers item).Ends

/-- With one more layer, work comes to an end for no more items. -/
def Stuck (work : Nat → α → Logged β) (items : List α) (layers : Nat) : Prop :=
  ∀ item ∈ items, (work (layers + 1) item).Ends → (work layers item).Ends

section Closed

variable (h : Layered work within) (hclosed : ∀ item ∈ items, within item ⊆ items)

include h

theorem unended_succ (items : List α) (layers : Nat) :
    unended work items (layers + 1) =
      (unended work items layers).filter fun item => ¬ (work (layers + 1) item).Ends := by
  rw [unended, unended, List.filter_filter]
  refine List.filter_congr fun item _ => ?_
  by_cases hends : (work layers item).Ends
  · simp [hends, h.ends_of_le (Nat.le_succ layers) hends]
  · simp [hends]

/-- Before it is stuck, work comes to an end for one more item with each layer. -/
theorem length_unended_succ_lt (hstuck : ¬ Stuck work items layers) :
    (unended work items (layers + 1)).length < (unended work items layers).length := by
  rw [h.unended_succ, List.length_filter_lt_length_iff_exists]
  simp only [Stuck, not_forall] at hstuck
  obtain ⟨item, hitem, hends, hnot⟩ := hstuck
  exact ⟨item, List.mem_filter.mpr ⟨hitem, by simpa using hnot⟩, by simpa using hends⟩

include hclosed

/-- Work comes to an end for an item where it does for those within it, so being stuck stays
so. -/
theorem stuck_succ (hstuck : Stuck work items layers) : Stuck work items (layers + 1) := by
  intro item hitem hends
  rw [h.succ] at hends ⊢
  exact fun inner hinner => hstuck inner (hclosed item hitem hinner) (hends inner hinner)

/-- Once it is stuck, work comes to an end for no more items, however many layers there are. -/
theorem ends_of_stuck (hstuck : Stuck work items layers) (hitem : item ∈ items) {more : Nat}
    (hle : layers ≤ more) : (work more item).Ends → (work layers item).Ends := by
  have hall : Stuck work items more ∧ ((work more item).Ends → (work layers item).Ends) := by
    induction hle with
    | refl => exact ⟨hstuck, id⟩
    | step _ ih => exact ⟨h.stuck_succ hclosed ih.1, ih.2 ∘ ih.1 item hitem⟩
  exact hall.2

theorem stuck_or_length_unended_le (layers : Nat) :
    Stuck work items layers ∨ (unended work items layers).length + layers ≤ items.length := by
  induction layers with
  | zero => exact .inr (List.length_filter_le _ _)
  | succ layers ih =>
    by_cases hstuck : Stuck work items layers
    · exact .inl (h.stuck_succ hclosed hstuck)
    · have hlt := h.length_unended_succ_lt hstuck
      have hle := ih.resolve_left hstuck
      exact .inr (by omega)

/-- What comes to an end at all comes to an end in as many layers as there are items. -/
theorem ends_length (hitem : item ∈ items) (hends : (work layers item).Ends) :
    (work items.length item).Ends := by
  rcases h.stuck_or_length_unended_le hclosed items.length with hstuck | hlength
  · exact h.ends_of_stuck hclosed hstuck hitem (Nat.le_max_right layers _)
      (h.ends_of_le (Nat.le_max_left layers _) hends)
  · have hnil : unended work items items.length = [] := List.length_eq_zero_iff.mp (by omega)
    rw [unended, List.filter_eq_nil_iff] at hnil
    simpa using hnil item hitem

end Closed

/-- With layers enough, more of them make no difference, unless there is no end in any number of
them. -/
theorem matches_of_length (h : Layered work within) {items items' : List α}
    {layers layers' : Nat} (hclosed : ∀ item ∈ items, within item ⊆ items)
    (hclosed' : ∀ item ∈ items', within item ⊆ items') (hitem : item ∈ items)
    (hitem' : item ∈ items') (hle : items.length ≤ layers) (hle' : items'.length ≤ layers') :
    (work layers item).Matches (work layers' item) := by
  by_cases hends : ∃ enough, (work enough item).Ends
  · obtain ⟨enough, hends⟩ := hends
    have hfirst := h.ends_length hclosed hitem hends
    have hsecond := h.ends_length hclosed' hitem' hends
    refine .inl ?_
    rw [h.eq_of_le hle hfirst, h.eq_of_le hle' hsecond,
      ← h.eq_of_le (Nat.le_max_left _ _) hfirst, ← h.eq_of_le (Nat.le_max_right _ _) hsecond]
  · exact .inr ⟨fun hend => hends ⟨_, hend⟩, fun hend => hends ⟨_, hend⟩⟩

/-! ## Endless chains -/

/-- Where work comes to an end, every way from an item to those within it does. -/
theorem acc_of_ends (h : Layered work within) (hends : (work layers item).Ends) :
    Acc (fun inner outer => inner ∈ within outer) item := by
  induction layers generalizing item with
  | zero => exact absurd hends (h.zero item)
  | succ layers ih =>
    exact .intro item fun inner hinner => ih ((h.succ layers item).mp hends inner hinner)

/-- Layers that are enough for each of some items are enough for all of them. -/
theorem exists_ends_all (h : Layered work within)
    (hall : ∀ item ∈ items, ∃ layers, (work layers item).Ends) :
    ∃ layers, ∀ item ∈ items, (work layers item).Ends := by
  induction items with
  | nil => exact ⟨0, fun _ hitem => absurd hitem List.not_mem_nil⟩
  | cons first rest ih =>
    obtain ⟨layers, hfirst⟩ := hall first List.mem_cons_self
    obtain ⟨more, hrest⟩ := ih fun item hitem => hall item (List.mem_cons_of_mem _ hitem)
    refine ⟨max layers more, List.forall_mem_cons.mpr ⟨?_, fun item hitem => ?_⟩⟩
    · exact h.ends_of_le (Nat.le_max_left _ _) hfirst
    · exact h.ends_of_le (Nat.le_max_right _ _) (hrest item hitem)

theorem exists_ends_of_acc (h : Layered work within)
    (hacc : Acc (fun inner outer => inner ∈ within outer) item) :
    ∃ layers, (work layers item).Ends := by
  induction hacc with
  | intro item _ ih =>
    obtain ⟨layers, hinside⟩ := h.exists_ends_all ih
    exact ⟨layers + 1, (h.succ layers item).mpr hinside⟩

/-- With layers enough, work comes to an end for some items just if no chain of items from them
inwards is endless. -/
theorem ends_iff_not_nestsEndlessly (h : Layered work within) {start : List α}
    (hclosed : ∀ item ∈ items, within item ⊆ items) (hstart : start ⊆ items)
    (hle : items.length ≤ layers) :
    (∀ item ∈ start, (work layers item).Ends) ↔ ¬ NestsEndlessly within start := by
  constructor
  · rintro hends ⟨chain, hfirst, hnext⟩
    exact not_acc_iff_exists_descending_chain.mpr ⟨chain, rfl, hnext⟩
      (h.acc_of_ends (hends _ hfirst))
  · intro hnot item hitem
    have hacc : Acc (fun inner outer => inner ∈ within outer) item := by
      by_contra hinfinite
      obtain ⟨chain, rfl, hnext⟩ := not_acc_iff_exists_descending_chain.mp hinfinite
      exact hnot ⟨chain, hitem, hnext⟩
    obtain ⟨enough, hends⟩ := h.exists_ends_of_acc hacc
    exact h.ends_of_le hle (h.ends_length hclosed (hstart hitem) hends)

end Layered

end Stencil.Logged
