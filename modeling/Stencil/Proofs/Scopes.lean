import Stencil.Proofs.Text.Words
import Stencil.Scopes

/-!
# Paths into the current value

A path that starts with `this` and one that starts with a key are followed by the same steps,
but for the first name behind them: behind a key it may be the position of an item as well as a
key, behind `this` it is a key only.  So both lead to the same value, unless the current value is
an array.

* `Path.segments_ofNames` — the segments of a path spelled by names.
* `Scopes.withCurrent` — scopes with another current value.
* `Scopes.lookup_this`, `Scopes.lookup_key` — what such paths lead to.
* `Scopes.lookup_this_eq_iff` — when both lead to the same value.
-/

namespace Stencil

namespace Path

/-! ## Paths spelled by names -/

/-- The path that is spelled by names with dots between them. -/
def ofNames (names : List String) : Path := ⟨".".intercalate names⟩

/-- A plain name is a segment as it stands. -/
structure IsPlain (name : String) : Prop where
  ne_empty : name ≠ ""
  dotless : '.' ∉ name.toList
  ne_this : name ≠ "this"

instance (name : String) : Decidable (IsPlain name) :=
  decidable_of_iff (name ≠ "" ∧ '.' ∉ name.toList ∧ name ≠ "this")
    ⟨fun h => ⟨h.1, h.2.1, h.2.2⟩, fun h => ⟨h.ne_empty, h.dotless, h.ne_this⟩⟩

variable {name : String} {names : List String}

theorem toList_ofNames (names : List String) :
    (ofNames names).text.toList = ['.'].intercalate (names.map String.toList) := by
  rw [ofNames, String.toList_intercalate]
  rfl

/-- The segments of a path are the names that it is spelled by, but for empty ones and `this`. -/
theorem segments_ofNames (hne : names ≠ []) (hnames : ∀ name ∈ names, '.' ∉ name.toList) :
    (ofNames names).segments = names.filter fun name => name ≠ "" && name ≠ "this" := by
  have hpieces : Text.splitAt '.' (ofNames names).text.toList = names.map String.toList := by
    rw [toList_ofNames]
    refine Text.splitAt_intercalate (by simpa using hne) fun piece hpiece => ?_
    obtain ⟨name, hname, rfl⟩ := List.mem_map.mp hpiece
    exact hnames name hname
  rw [segments, hpieces, List.map_map]
  simp [Function.comp_def]

theorem filter_plain (hnames : ∀ name ∈ names, IsPlain name) :
    (names.filter fun name => name ≠ "" && name ≠ "this") = names := by
  refine List.filter_eq_self.mpr fun name hname => ?_
  simp [(hnames name hname).ne_empty, (hnames name hname).ne_this]

/-- Plain names are the segments of the path that they spell. -/
theorem segments_ofNames_plain (hne : names ≠ []) (hnames : ∀ name ∈ names, IsPlain name) :
    (ofNames names).segments = names := by
  rw [segments_ofNames hne fun name hname => (hnames name hname).dotless, filter_plain hnames]

/-- In front of plain names, `this` is no segment. -/
theorem segments_ofNames_this (hnames : ∀ name ∈ names, IsPlain name) :
    (ofNames ("this" :: names)).segments = names := by
  have hdotless : ∀ name ∈ "this" :: names, '.' ∉ name.toList :=
    List.forall_mem_cons.mpr ⟨by decide, fun name hname => (hnames name hname).dotless⟩
  rw [segments_ofNames (List.cons_ne_nil _ _) hdotless, List.filter_cons_of_neg (by decide),
    filter_plain hnames]

theorem toList_ofNames_cons_cons (first second : String) (rest : List String) :
    (ofNames (first :: second :: rest)).text.toList =
      first.toList ++ '.' :: (ofNames (second :: rest)).text.toList := by
  rw [toList_ofNames, toList_ofNames, List.map_cons, List.map_cons, List.intercalate_cons_cons,
    List.append_assoc, List.singleton_append]

/-- A path that starts with `this` is spelled from the current scope. -/
theorem isLocal_ofNames_this (first : String) (rest : List String) :
    (ofNames ("this" :: first :: rest)).isLocal = true := by
  rw [isLocal, toList_ofNames_cons_cons, Bool.or_eq_true]
  exact .inr (List.isPrefixOf_iff_prefix.mpr ⟨(ofNames (first :: rest)).text.toList, rfl⟩)

/-- A path that starts with a plain name is not. -/
theorem isLocal_ofNames_plain (hname : IsPlain name) (first : String) (rest : List String) :
    (ofNames (name :: first :: rest)).isLocal = false := by
  obtain ⟨tail, htext⟩ : ∃ tail, (ofNames (name :: first :: rest)).text.toList =
      name.toList ++ '.' :: tail := ⟨_, toList_ofNames_cons_cons name first rest⟩
  have hfirst := Text.splitAt_append_cons hname.dotless tail
  rw [← htext] at hfirst
  rw [isLocal, Bool.or_eq_false_iff, Bool.or_eq_false_iff]
  -- What stands in front of the first dot is the name, and neither nothing nor `this`.
  refine ⟨⟨?_, ?_⟩, ?_⟩
  · rw [beq_eq_false_iff_ne, htext]
    intro hhead
    cases hchars : name.toList with
    | nil => exact hname.ne_empty (String.toList_eq_nil_iff.mp hchars)
    | cons c chars =>
      have hdot := hname.dotless
      rw [hchars] at hhead hdot
      cases hhead
      exact hdot List.mem_cons_self
  · rw [beq_eq_false_iff_ne]
    intro hthis
    rw [hthis] at hfirst
    have hpieces := List.cons.inj (hfirst.symm.trans (by decide : _ = ["this".toList]))
    exact hname.ne_this (String.toList_inj.mp hpieces.1)
  · rw [Bool.eq_false_iff, ne_eq, List.isPrefixOf_iff_prefix]
    rintro ⟨others, hothers⟩
    have hsplit : Text.splitAt '.' ("this".toList ++ '.' :: others) =
        "this".toList :: Text.splitAt '.' others := Text.splitAt_append_cons (by decide) others
    rw [← hothers] at hfirst
    exact hname.ne_this (String.toList_inj.mp (List.cons.inj (hfirst.symm.trans hsplit)).1)

end Path

namespace Scopes

variable {scopes : Scopes} {key first : String} {rest : List String}

/-! ## The current scope -/

/-- The scopes with another value as the current one. -/
def withCurrent (scopes : Scopes) (value : Json) : Scopes :=
  match scopes.entered with
  | scope :: outer => { scopes with entered := { scope with value } :: outer }
  | [] => { scopes with data := value }

/-- The current scope is searched first. -/
theorem exists_values_withCurrent (scopes : Scopes) (value : Json) :
    ∃ outer, (scopes.withCurrent value).values = value :: outer := by
  obtain ⟨data, entered⟩ := scopes
  cases entered with
  | nil => exact ⟨[], rfl⟩
  | cons scope outer => exact ⟨_, rfl⟩

/-- A path that starts with a key of the current scope is followed from the value under it. -/
theorem lookup_key (scopes : Scopes) (hkey : Path.IsPlain key) (hindex : key ≠ "@index")
    (hnames : ∀ name ∈ first :: rest, Path.IsPlain name) (value : Json) :
    (scopes.withCurrent (.object [(key, value)])).lookup (.ofNames (key :: first :: rest)) =
      (walk value (first :: rest)).getD .null := by
  obtain ⟨outer, hvalues⟩ := exists_values_withCurrent scopes (.object [(key, value)])
  have hsegments := Path.segments_ofNames_plain (List.cons_ne_nil key (first :: rest))
    (List.forall_mem_cons.mpr ⟨hkey, hnames⟩)
  have hstart : (scopes.withCurrent (.object [(key, value)])).start? false key = some value := by
    simp [start?, hvalues, Keyed.get?]
  simp only [lookup, hsegments, if_neg hindex, Path.isLocal_ofNames_plain hkey, hstart,
    Option.bind_some]

/-- A path that starts with `this` is followed from the member of the current scope under its
first name. -/
theorem lookup_this (hfirst : first ≠ "@index")
    (hnames : ∀ name ∈ first :: rest, Path.IsPlain name) :
    scopes.lookup (.ofNames ("this" :: first :: rest)) =
      ((scopes.current.get? first).bind (walk · rest)).getD .null := by
  simp only [lookup, Path.segments_ofNames_this hnames, if_neg hfirst,
    Path.isLocal_ofNames_this, start?, if_true]

/-- The parts of a value that is no array are its members. -/
theorem step_of_not_isArray {value : Json} (harray : value.isArray = false) (segment : String) :
    step value segment = value.get? segment := by
  cases value with
  | array items => cases harray
  | _ => rfl

/-- No path leads from an array by way of a key. -/
theorem get?_of_isArray {value : Json} (harray : value.isArray = true) (name : String) :
    value.get? name = none := by
  cases value with
  | array items => rfl
  | _ => cases harray

/-- A path into the current value is resolved like the same path behind a key that holds the
value, unless the value is an array: then the path is null, and is so behind the key only if it
leads to nothing, or to null, there. -/
theorem lookup_this_eq_iff (scopes : Scopes) (hkey : Path.IsPlain key) (hindex : key ≠ "@index")
    (hfirst : first ≠ "@index") (hnames : ∀ name ∈ first :: rest, Path.IsPlain name) :
    (scopes.lookup (.ofNames ("this" :: first :: rest)) =
        (scopes.withCurrent (.object [(key, scopes.current)])).lookup
          (.ofNames (key :: first :: rest)) ↔
      scopes.current.isArray = false ∨
        (scopes.withCurrent (.object [(key, scopes.current)])).lookup
          (.ofNames (key :: first :: rest)) = .null) ∧
    (scopes.current.isArray = true →
      scopes.lookup (.ofNames ("this" :: first :: rest)) = .null) := by
  have hnull : scopes.current.isArray = true →
      scopes.lookup (.ofNames ("this" :: first :: rest)) = .null := by
    intro harray
    rw [lookup_this hfirst hnames, get?_of_isArray harray]
    rfl
  refine ⟨?_, hnull⟩
  cases harray : scopes.current.isArray with
  | true =>
    rw [hnull harray, eq_comm]
    simp
  | false =>
    have hsame := lookup_key scopes hkey hindex hnames scopes.current
    rw [walk, step_of_not_isArray harray, ← lookup_this hfirst hnames] at hsame
    simp [hsame]

/-- A table of numbers, within other scopes. -/
def tableScopes : Scopes :=
  ((ofData (.object [("rows", .null)])).push (.array []) (some 0)).push
    (.object [("rows", .array [.array [.bool true, .bool false]])]) (some 1)

/-- Items of items are found through the current value as behind a key. -/
theorem lookup_this_rows :
    (Path.IsPlain "table" ∧ "table" ≠ "@index" ∧ "rows" ≠ "@index" ∧
      ∀ name ∈ ["rows", "0", "1"], Path.IsPlain name) ∧
    tableScopes.lookup (.ofNames ["this", "rows", "0", "1"]) =
      (tableScopes.withCurrent (.object [("table", tableScopes.current)])).lookup
        (.ofNames ["table", "rows", "0", "1"]) := by
  have hkey : Path.IsPlain "table" := by decide
  have hnames : ∀ name ∈ ["rows", "0", "1"], Path.IsPlain name := by decide
  exact ⟨⟨hkey, by decide, by decide, hnames⟩,
    (lookup_this_eq_iff tableScopes hkey (by decide) (by decide) hnames).1.mpr (.inl rfl)⟩

/-- The items of the current value are not found, although they are behind a key. -/
theorem lookup_this_items :
    ¬ ∀ (scopes : Scopes) (key first : String) (rest : List String),
      Path.IsPlain key → key ≠ "@index" → first ≠ "@index" →
      (∀ name ∈ first :: rest, Path.IsPlain name) →
      scopes.lookup (.ofNames ("this" :: first :: rest)) =
        (scopes.withCurrent (.object [(key, scopes.current)])).lookup
          (.ofNames (key :: first :: rest)) := by
  intro hall
  have hsame := hall (ofData (.array [.string "a"])) "k" "0" [] (by decide) (by decide)
    (by decide) (by decide)
  have hnull : (ofData (.array [.string "a"])).lookup (.ofNames ["this", "0"]) = .null := rfl
  have hitem : ((ofData (.array [.string "a"])).withCurrent
      (.object [("k", .array [.string "a"])])).lookup (.ofNames ["k", "0"]) = .string "a" := rfl
  cases hnull.symm.trans (hsame.trans hitem)

end Scopes

end Stencil

