import Stencil.Proofs.OptionRel
import Stencil.Proofs.Script.Steady

/-!
# Data that differ in what their strings say

Two values resemble each other if they differ at most in strings that are not empty.  Paths
then lead to values that resemble each other, blocks show their contents in as many scopes,
and those scopes resemble each other in turn.

* `Json.resembles` — two values differ in non-empty strings only.
* `Scopes.Resemble`, `Scopes.lookup_resembles` — scopes, and what paths name in them.
* `Scopes.within_resemble`, `Scopes.withinUnless_resemble` — the scopes within blocks.
-/

namespace Stencil

namespace Json

/-! ## Values -/

mutual
/-- Whether two values differ only in strings that are not empty. -/
def resembles : Json → Json → Bool
  | .null, .null => true
  | .bool value, .bool value' => value == value'
  | .number value, .number value' => value == value'
  | .string value, .string value' => (value == "") == (value' == "")
  | .array items, .array items' => itemsResemble items items'
  | .object members, .object members' => membersResemble members members'
  | _, _ => false
/-- Whether the items of two arrays resemble each other one by one. -/
def itemsResemble : List Json → List Json → Bool
  | [], [] => true
  | item :: rest, item' :: rest' => item.resembles item' && itemsResemble rest rest'
  | _, _ => false
/-- Whether two objects have the same keys, and resembling values under them. -/
def membersResemble : List (String × Json) → List (String × Json) → Bool
  | [], [] => true
  | (key, value) :: rest, (key', value') :: rest' =>
      key == key' && value.resembles value' && membersResemble rest rest'
  | _, _ => false
end

/-- Two values, or the lack of them, that resemble each other. -/
abbrev OptionsResemble : Option Json → Option Json → Prop :=
  Option.Rel fun value value' => value.resembles value' = true

/-- Lists of values that resemble each other one by one. -/
abbrev ListsResemble : List Json → List Json → Prop :=
  List.Forall₂ fun value value' => value.resembles value' = true

/-- Where there is no value, null stands for it. -/
theorem OptionsResemble.getD {found found' : Option Json} (h : OptionsResemble found found') :
    (found.getD .null).resembles (found'.getD .null) = true := by
  cases h with
  | none => rfl
  | some hvalue => exact hvalue

theorem itemsResemble_iff {items items' : List Json} :
    itemsResemble items items' = true ↔ ListsResemble items items' := by
  induction items generalizing items' with
  | nil => cases items' <;> simp [itemsResemble]
  | cons item rest ih => cases items' <;> simp [itemsResemble, ih]

section Parts

variable {value value' : Json}

theorem get?_members_resemble (key : String) :
    ∀ {members members' : List (String × Json)}, membersResemble members members' = true →
      OptionsResemble (Keyed.get? key members) (Keyed.get? key members')
  | [], [], _ => .none
  | [], _ :: _, h => by simp [membersResemble] at h
  | _ :: _, [], h => by simp [membersResemble] at h
  | (name, value) :: rest, (name', value') :: rest', h => by
    simp only [membersResemble, Bool.and_eq_true, beq_iff_eq] at h
    obtain ⟨⟨rfl, hvalue⟩, hrest⟩ := h
    rw [Keyed.get?, Keyed.get?]
    split
    · exact .some hvalue
    · exact get?_members_resemble key hrest

theorem get?_resembles (h : value.resembles value' = true) (key : String) :
    OptionsResemble (value.get? key) (value'.get? key) := by
  cases value <;> cases value' <;> simp only [resembles, Bool.false_eq_true] at h
  case object.object members members' => exact get?_members_resemble key h
  all_goals exact .none

theorem isTruthy_resembles (h : value.resembles value' = true) :
    value.isTruthy = value'.isTruthy := by
  cases value <;> cases value' <;> simp only [resembles, Bool.false_eq_true] at h
  case null.null => rfl
  case bool.bool => simpa [isTruthy] using h
  case number.number => rw [isTruthy, isTruthy, beq_iff_eq.mp h]
  case string.string text text' =>
    have hempty : text = "" ↔ text' = "" := by
      simpa only [beq_iff_eq] using Bool.eq_iff_iff.mp (beq_iff_eq.mp h)
    simp only [isTruthy, ne_eq, hempty]
  case array.array items items' =>
    cases itemsResemble_iff.mp h <;> rfl
  case object.object => rfl

end Parts

end Json

/-! ## What blocks do with values -/

/-- Blocks that show their contents as often, with values that resemble each other. -/
inductive BlockValue.Resemble : BlockValue → BlockValue → Prop
  | skip : Resemble .skip .skip
  | once : Resemble .once .once
  | enter {value value' : Json} : value.resembles value' = true →
      Resemble (.scoped value) (.scoped value')
  | iterate {items items' : List Json} : Json.ListsResemble items items' →
      Resemble (.iterate items) (.iterate items')

theorem BlockValue.Resemble.of_resemble {value value' : Json} (h : value.resembles value' = true) :
    Resemble (.of value) (.of value') := by
  have htruthy := Json.isTruthy_resembles h
  have hplain : Resemble (if value.isTruthy then .once else .skip)
      (if value'.isTruthy then .once else .skip) := by
    rw [htruthy]
    split
    · exact .once
    · exact .skip
  cases value <;> cases value' <;> simp only [Json.resembles, Bool.false_eq_true] at h
  case array.array items items' =>
    cases Json.itemsResemble_iff.mp h with
    | nil => exact .skip
    | cons hitem hrest => exact .iterate (.cons hitem hrest)
  case object.object members members' => exact .enter (by rwa [Json.resembles])
  all_goals exact hplain

/-! ## Scopes -/

/-- Scopes at the same position whose values resemble each other. -/
structure Scope.Resemble (scope scope' : Scope) : Prop where
  value : scope.value.resembles scope'.value = true
  index : scope.index = scope'.index

namespace Scopes

/-- Data that resemble each other, with as many scopes entered that do. -/
structure Resemble (scopes scopes' : Scopes) : Prop where
  data : scopes.data.resembles scopes'.data = true
  entered : List.Forall₂ Scope.Resemble scopes.entered scopes'.entered

variable {scopes scopes' : Scopes}

theorem ofData_resemble {data data' : Json} (h : data.resembles data' = true) :
    (ofData data).Resemble (ofData data') := ⟨h, .nil⟩

theorem Resemble.push (h : scopes.Resemble scopes') {value value' : Json}
    (hvalue : value.resembles value' = true) (index : Option Nat) :
    (scopes.push value index).Resemble (scopes'.push value' index) :=
  ⟨h.data, .cons ⟨hvalue, rfl⟩ h.entered⟩

theorem Resemble.values (h : scopes.Resemble scopes') :
    Json.ListsResemble scopes.values scopes'.values := by
  refine List.rel_append ?_ (.cons h.data .nil)
  exact List.rel_map (fun _ _ hscope => hscope.value) h.entered

theorem Resemble.current (h : scopes.Resemble scopes') :
    scopes.current.resembles scopes'.current = true := by
  unfold Scopes.current
  have hentered := h.entered
  generalize scopes.entered = entered at hentered
  generalize scopes'.entered = entered' at hentered
  cases hentered with
  | nil => exact h.data
  | cons hscope _ => exact hscope.value

theorem Resemble.index? (h : scopes.Resemble scopes') : scopes.index? = scopes'.index? := by
  unfold Scopes.index?
  have hentered := h.entered
  generalize scopes.entered = entered at hentered
  generalize scopes'.entered = entered' at hentered
  induction hentered with
  | nil => rfl
  | cons hscope _ ih => rw [List.findSome?_cons, List.findSome?_cons, hscope.index, ih]

/-! ## Looking up paths -/

theorem getElem?_resembles {items items' : List Json} (h : Json.ListsResemble items items')
    (index : Nat) : Json.OptionsResemble items[index]? items'[index]? := by
  induction h generalizing index with
  | nil => exact .none
  | cons hitem _ ih =>
    cases index with
    | zero => exact .some hitem
    | succ index => exact ih index

theorem step_resembles {value value' : Json} (h : value.resembles value' = true)
    (segment : String) : Json.OptionsResemble (step value segment) (step value' segment) := by
  cases value <;> cases value' <;> simp only [Json.resembles, Bool.false_eq_true] at h
  case array.array items items' =>
    rw [step, step]
    cases segmentIndex? segment with
    | none => exact .none
    | some index => exact getElem?_resembles (Json.itemsResemble_iff.mp h) index
  case object.object members members' => exact Json.get?_members_resemble segment h
  all_goals exact .none

theorem walk_resembles {value value' : Json} (h : value.resembles value' = true)
    (segments : List String) :
    Json.OptionsResemble (walk value segments) (walk value' segments) := by
  induction segments generalizing value value' with
  | nil => exact .some h
  | cons segment rest ih =>
    rw [walk, walk]
    exact (step_resembles h segment).bind fun _ _ hpart => ih hpart

theorem findSome?_get?_resembles {values values' : List Json}
    (h : Json.ListsResemble values values') (key : String) :
    Json.OptionsResemble (values.findSome? (·.get? key)) (values'.findSome? (·.get? key)) := by
  induction h with
  | nil => exact .none
  | cons hvalue _ ih =>
    rw [List.findSome?_cons, List.findSome?_cons]
    have hfound := Json.get?_resembles hvalue key
    generalize Json.get? key _ = found at hfound
    generalize Json.get? key _ = found' at hfound
    cases hfound with
    | none => exact ih
    | some hfound => exact .some hfound

theorem start?_resembles (h : scopes.Resemble scopes') (onlyCurrent : Bool) (first : String) :
    Json.OptionsResemble (scopes.start? onlyCurrent first) (scopes'.start? onlyCurrent first) := by
  unfold start?
  split
  · exact Json.get?_resembles h.current first
  · exact findSome?_get?_resembles h.values first

/-- In scopes that resemble each other, a path names values that do. -/
theorem lookup_resembles (h : scopes.Resemble scopes') (path : Path) :
    (scopes.lookup path).resembles (scopes'.lookup path) = true := by
  unfold lookup
  split
  · exact h.current
  · split
    · rw [h.index?]
      split <;> rw [Json.resembles]
      exact beq_self_eq_true _
    · have hstart := start?_resembles h path.isLocal
      exact Json.OptionsResemble.getD <| (hstart _).bind fun _ _ hpart => walk_resembles hpart _

/-! ## Scopes within blocks -/

theorem blockValue_resemble (h : scopes.Resemble scopes') (path : Path) :
    (scopes.blockValue path).Resemble (scopes'.blockValue path) :=
  .of_resemble (lookup_resembles h path)

/-- Items that resemble each other are entered, each at its position, alike. -/
theorem push_items_resemble (h : scopes.Resemble scopes') {items items' : List Json}
    (hitems : Json.ListsResemble items items') (position : Nat → Nat) :
    List.Forall₂ Resemble (items.mapIdx fun index item => scopes.push item (some (position index)))
      (items'.mapIdx fun index item => scopes'.push item (some (position index))) := by
  induction hitems generalizing position with
  | nil => exact .nil
  | cons hitem _ ih =>
    rw [List.mapIdx_cons, List.mapIdx_cons]
    exact .cons (h.push hitem _) (ih fun index => position (index + 1))

/-- A block shows its contents in scopes that resemble each other one by one. -/
theorem within_resemble (h : scopes.Resemble scopes') (path : Path) :
    List.Forall₂ Resemble (scopes.within path) (scopes'.within path) := by
  have hvalue := blockValue_resemble h path
  unfold within
  generalize scopes.blockValue path = value at hvalue
  generalize scopes'.blockValue path = value' at hvalue
  cases hvalue with
  | skip => exact .nil
  | once => exact .cons h .nil
  | enter hscope => exact .cons (h.push hscope none) .nil
  | iterate hitems => exact push_items_resemble h hitems id

theorem withinUnless_resemble (h : scopes.Resemble scopes') (path : Path) :
    List.Forall₂ Resemble (scopes.withinUnless path) (scopes'.withinUnless path) := by
  have hvalue := blockValue_resemble h path
  unfold withinUnless
  generalize scopes.blockValue path = value at hvalue
  generalize scopes'.blockValue path = value' at hvalue
  cases hvalue with
  | skip => exact .cons h .nil
  | once | enter _ | iterate _ => exact .nil

end Scopes

end Stencil
