import Stencil.Text.Words

/-!
# Paths

A path names a value in the data, as names joined by dots.  Empty names and the
name `this` stand for the value at hand and are no segments.

* `Path.segments` — the names that are followed.
* `Path.key` — the last of them.
-/

namespace Stencil

/-- A dotted path to a bound value. -/
structure Path where
  text : String
  deriving DecidableEq, Repr

namespace Path

/-- The names a path follows. -/
def segments (path : Path) : List String :=
  ((Text.splitAt '.' path.text.toList).map String.ofList).filter
    fun name => name ≠ "" && name ≠ "this"

/-- The last name of a path, or a dot if there is none. -/
def key (path : Path) : String :=
  path.segments.getLast?.getD "."

/-- Whether a path is spelled from the current scope: it starts with a dot or with `this`. -/
def isLocal (path : Path) : Bool :=
  path.text.toList.head? == some '.' || path.text == "this" ||
    "this.".toList.isPrefixOf path.text.toList

end Path

end Stencil
