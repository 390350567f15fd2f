import Mathlib.Data.List.Forall2
import Mathlib.Data.Option.Defs

/-!
# Results that agree, or are lacking on both sides

Two pieces of work that may fail agree if both fail, or both have results and these are related.

* `Option.Rel.bind`, `Option.Rel.map` — what is made of results that agree.
* `Option.Rel.mapM_forall₂` — work on related items.
* `Option.Rel.mapM_perm` — work on the same items in another order.
* `Except.toOption_bind`, `Except.toOption_mapM`, `Except.of_rel_toOption` — work that fails with
  errors.
-/

namespace Option.Rel

variable {α β γ δ : Type} {R : α → β → Prop} {S : γ → δ → Prop}
  {found : Option α} {found' : Option β}

theorem refl {R : α → α → Prop} (hrefl : ∀ value, R value value) (found : Option α) :
    Option.Rel R found found := by
  cases found with
  | none => exact .none
  | some value => exact .some (hrefl value)

theorem bind (h : Option.Rel R found found') {next : α → Option γ} {next' : β → Option δ}
    (hnext : ∀ value value', R value value' → Option.Rel S (next value) (next' value')) :
    Option.Rel S (found.bind next) (found'.bind next') := by
  cases h with
  | none => exact .none
  | some hvalue => exact hnext _ _ hvalue

theorem map (h : Option.Rel R found found') {f : α → γ} {f' : β → δ}
    (hmap : ∀ value value', R value value' → S (f value) (f' value')) :
    Option.Rel S (found.map f) (found'.map f') := by
  cases h with
  | none => exact .none
  | some hvalue => exact .some (hmap _ _ hvalue)

/-- Of one result two related ones may be made. -/
theorem map_same (found : Option α) {f : α → γ} {f' : α → δ}
    (hmap : ∀ value, S (f value) (f' value)) : Option.Rel S (found.map f) (found.map f') := by
  cases found with
  | none => exact .none
  | some value => exact .some (hmap value)

theorem mono {S : α → β → Prop} (h : Option.Rel R found found')
    (hmono : ∀ value value', R value value' → S value value') : Option.Rel S found found' := by
  cases h with
  | none => exact .none
  | some hvalue => exact .some (hmono _ _ hvalue)

theorem trans {T : β → γ → Prop} {U : α → γ → Prop} {found'' : Option γ}
    (h : Option.Rel R found found') (h' : Option.Rel T found' found'')
    (hcomp : ∀ value value' value'', R value value' → T value' value'' → U value value'') :
    Option.Rel U found found'' := by
  cases h with
  | none =>
    cases h'
    exact .none
  | some hvalue =>
    cases h' with
    | some hvalue' => exact .some (hcomp _ _ _ hvalue hvalue')

/-- If two attempts agree, and two further ones, so do the first ones that succeed. -/
theorem or {other : Option α} {other' : Option β} (h : Option.Rel R found found')
    (hother : Option.Rel R other other') :
    Option.Rel R (found.or other) (found'.or other') := by
  cases h with
  | none => exact hother
  | some hvalue => exact .some hvalue

/-- Work on related items has related results. -/
theorem mapM_forall₂ {items : List α} {items' : List β} {f : α → Option γ} {f' : β → Option δ}
    (h : List.Forall₂ (fun item item' => Option.Rel S (f item) (f' item')) items items') :
    Option.Rel (List.Forall₂ S) (items.mapM f) (items'.mapM f') := by
  induction h with
  | nil => exact .some .nil
  | cons hitem _ ih =>
    rw [List.mapM_cons, List.mapM_cons]
    exact hitem.bind fun _ _ hvalue => ih.bind fun _ _ hvalues => .some (.cons hvalue hvalues)

/-- Work on the same items in another order has the same results in another order. -/
theorem mapM_perm {items items' : List α} (h : items.Perm items') (f : α → Option γ) :
    Option.Rel List.Perm (items.mapM f) (items'.mapM f) := by
  induction h with
  | nil => exact .some (.refl _)
  | cons item _ ih =>
    rw [List.mapM_cons, List.mapM_cons]
    cases f item with
    | none => exact .none
    | some value => exact ih.bind fun _ _ hperm => .some (hperm.cons value)
  | swap first second rest =>
    rw [List.mapM_cons, List.mapM_cons, List.mapM_cons, List.mapM_cons]
    cases f first with
    | none => cases f second <;> exact .none
    | some value =>
      cases f second with
      | none => exact .none
      | some value' =>
        cases rest.mapM f with
        | none => exact .none
        | some values => exact .some (.swap value value' values)
  | trans _ _ ihfirst ihsecond => exact ihfirst.trans ihsecond fun _ _ _ => List.Perm.trans

end Option.Rel

namespace Except

variable {ε α β : Type}

theorem toOption_bind (first : Except ε α) (next : α → Except ε β) :
    (first >>= next).toOption = first.toOption.bind fun value => (next value).toOption := by
  cases first <;> rfl

/-- Work that agrees fails on both sides, or else has results that are related. -/
theorem of_rel_toOption {ε' : Type} {R : α → β → Prop} {first : Except ε α} {second : Except ε' β}
    (h : Option.Rel R first.toOption second.toOption) :
    ((∃ value, first = .ok value) ↔ ∃ value, second = .ok value) ∧
      ∀ value value', first = .ok value → second = .ok value' → R value value' := by
  cases first with
  | error fault =>
    cases second with
    | error fault' => simp
    | ok value' => cases h
  | ok value =>
    cases second with
    | error fault' => cases h
    | ok value' =>
      cases h with
      | some hvalue => simpa using hvalue

theorem toOption_mapM (f : α → Except ε β) (items : List α) :
    (items.mapM f).toOption = items.mapM fun item => (f item).toOption := by
  induction items with
  | nil => rfl
  | cons item rest ih =>
    rw [List.mapM_cons, List.mapM_cons, toOption_bind]
    congr 1
    funext value
    rw [toOption_bind, ih]
    rfl

end Except
