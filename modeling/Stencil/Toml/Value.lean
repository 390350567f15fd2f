/-!
# TOML values and tables

A TOML document is a table of values.  While it is read, each table remembers
how it came about, since a table may be opened by one header only, and dotted
keys may add to no table but those that dotted keys have made.

* `Entries.assign` — a key, maybe dotted, gets a value.
* `Entries.openTable`, `Entries.openElement` — a header opens a table, or one
  more table of an array of tables.
-/

namespace Stencil.Toml

/-- A TOML value. -/
inductive Value where
  | string (text : String)
  | integer (value : Int)
  /-- A float, by its spelling. -/
  | float (spelling : String)
  | boolean (value : Bool)
  /-- A date or time, by its spelling. -/
  | moment (spelling : String)
  | array (items : List Value)
  | table (entries : List (String × Value))
  deriving Repr, Inhabited

/-- How a table came about. -/
inductive Origin where
  /-- A header names it. -/
  | header
  /-- A longer header runs through it. -/
  | implied
  /-- A dotted key runs through it. -/
  | dotted
  deriving DecidableEq, Repr

/-- What a key is bound to while the document is being read. -/
inductive Item where
  /-- A value, which nothing adds to. -/
  | value (value : Value)
  /-- A table that may still grow. -/
  | table (origin : Origin) (entries : List (String × Item))
  /-- An array of tables, the last one first. -/
  | tables (elements : List (List (String × Item)))
  deriving Inhabited

/-- The contents of a table that is being read. -/
abbrev Entries := List (String × Item)

/-- Change what a key is bound to; a new key comes last. -/
def Entries.update (key : String) (change : Option Item → Option Item) :
    Entries → Option Entries
  | [] => (change none).map fun item => [(key, item)]
  | (name, item) :: rest =>
      if name = key then (change (some item)).map fun item => (key, item) :: rest
      else (Entries.update key change rest).map ((name, item) :: ·)

/-- Bind a key behind a path of dotted keys to a value.  The tables on the path must be
open to dotted keys, and the last one must come from a dotted key. -/
def Entries.assign : List String → String → Value → Entries → Option Entries
  | [], key, value, entries =>
      Entries.update key (fun
        | none => some (.value value)
        | some _ => none) entries
  | step :: path, key, value, entries =>
      Entries.update step (fun
        | none => (Entries.assign path key value []).map (.table .dotted)
        | some (.table .dotted inner) =>
            (Entries.assign path key value inner).map (.table .dotted)
        | some (.table .implied inner) =>
            if path.isEmpty then none
            else (Entries.assign path key value inner).map (.table .implied)
        | some (.tables (last :: earlier)) =>
            if path.isEmpty then none
            else (Entries.assign path key value last).map fun last => .tables (last :: earlier)
        | some _ => none) entries

/-- Change the table that a header names, from inside the document. -/
def Entries.within : List String → (Entries → Option Entries) → Entries → Option Entries
  | [], change, entries => change entries
  | step :: path, change, entries =>
      Entries.update step (fun
        | some (.table origin inner) => (Entries.within path change inner).map (.table origin)
        | some (.tables (last :: earlier)) =>
            (Entries.within path change last).map fun last => .tables (last :: earlier)
        | _ => none) entries

/-- Follow all but the last key of a header, making the tables it runs through, and change
what the last key is bound to. -/
def Entries.follow (last : String) (change : Option Item → Option Item) :
    List String → Entries → Option Entries
  | [], entries => Entries.update last change entries
  | step :: path, entries =>
      Entries.update step (fun
        | none => (Entries.follow last change path []).map (.table .implied)
        | some (.table origin inner) =>
            (Entries.follow last change path inner).map (.table origin)
        | some (.tables (element :: earlier)) =>
            (Entries.follow last change path element).map fun element =>
              .tables (element :: earlier)
        | some _ => none) entries

/-- Open the table that a header names: a new one, or one that only longer headers have
run through. -/
def Entries.openTable (path : List String) (last : String) (entries : Entries) : Option Entries :=
  Entries.follow last (fun
    | none => some (.table .header [])
    | some (.table .implied inner) => some (.table .header inner)
    | some _ => none) path entries

/-- Open one more table of an array of tables. -/
def Entries.openElement (path : List String) (last : String) (entries : Entries) : Option Entries :=
  Entries.follow last (fun
    | none => some (.tables [[]])
    | some (.tables elements) => some (.tables ([] :: elements))
    | some _ => none) path entries

mutual
/-- The value that an item has in the end. -/
def Item.finish : Item → Value
  | .value value => value
  | .table _ entries => .table (finishEntries entries)
  | .tables elements => .array (finishElements elements).reverse
/-- The entries of a table in the end. -/
def finishEntries : List (String × Item) → List (String × Value)
  | [] => []
  | (key, item) :: rest => (key, item.finish) :: finishEntries rest
/-- The tables of an array of tables in the end. -/
def finishElements : List (List (String × Item)) → List Value
  | [] => []
  | entries :: rest => .table (finishEntries entries) :: finishElements rest
end

end Stencil.Toml
