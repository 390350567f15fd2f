import Stencil.Json.Numeral
import Stencil.Json.Printer
import Stencil.Path

/-!
# Data scopes

The data that a template is rendered against, and the values that the blocks
around the current point have entered.  The data itself is never left.

* `Scopes.lookup` — the value a path names, null if there is none.
* `BlockValue.of` — what a block does with a value.
* `Json.text` — the text a value is shown as.
-/

namespace Stencil

/-! ## Values as blocks and text see them -/

/-- Whether a value counts as true. -/
def Json.isTruthy : Json → Bool
  | .null => false
  | .bool value => value
  | .number value => !value.isZero
  | .string value => value ≠ ""
  | .array items => !items.isEmpty
  | .object _ => true

/-- Whether a value is an array. -/
def Json.isArray : Json → Bool
  | .array _ => true
  | _ => false

/-- The text of a value: nothing for null, a string itself, and its JSON text otherwise. -/
def Json.text : Json → String
  | .null => ""
  | .string value => value
  | value => value.compact

/-- What a block does with the value of its path. -/
inductive BlockValue where
  /-- Show nothing. -/
  | skip
  /-- Show the contents in the current scope. -/
  | once
  /-- Show the contents with the value as a new scope. -/
  | scoped (value : Json)
  /-- Show the contents for each item, with the item as a new scope. -/
  | iterate (items : List Json)

/-- Arrays are walked through, objects entered, and any other value tested for truth. -/
def BlockValue.of : Json → BlockValue
  | .array [] => .skip
  | .array (item :: rest) => .iterate (item :: rest)
  | .object members => .scoped (.object members)
  | value => if value.isTruthy then .once else .skip

/-! ## Scopes -/

/-- A value that has been entered, with its position if it is an item of an array. -/
structure Scope where
  value : Json
  index : Option Nat

/-- The data and the scopes entered in it, innermost first. -/
structure Scopes where
  data : Json
  entered : List Scope

namespace Scopes

/-- The scopes at the start: the data alone. -/
def ofData (data : Json) : Scopes := ⟨data, []⟩

/-- The number of scopes, the data included. -/
def depth (scopes : Scopes) : Nat := scopes.entered.length + 1

/-- Enter a value. -/
def push (scopes : Scopes) (value : Json) (index : Option Nat) : Scopes :=
  { scopes with entered := ⟨value, index⟩ :: scopes.entered }

/-- Leave the innermost scope; the data stays. -/
def pop (scopes : Scopes) : Scopes :=
  { scopes with entered := scopes.entered.tail }

@[simp] theorem pop_push (scopes : Scopes) (value : Json) (index : Option Nat) :
    (scopes.push value index).pop = scopes := rfl

/-- The values of the scopes, innermost first. -/
def values (scopes : Scopes) : List Json :=
  scopes.entered.map Scope.value ++ [scopes.data]

/-- The value of the innermost scope. -/
def current (scopes : Scopes) : Json :=
  match scopes.entered with
  | scope :: _ => scope.value
  | [] => scopes.data

/-- The position of the innermost item that is being walked through. -/
def index? (scopes : Scopes) : Option Nat :=
  scopes.entered.findSome? Scope.index

/-! ## Looking up paths -/

/-- The greatest position that a segment can spell, plus one. -/
def indexBound : Nat := Nat.pow 2 64

/-- The position that a segment spells: digits, with a plus sign in front or not. -/
def segmentIndex? (segment : String) : Option Nat :=
  let digits :=
    match segment.toList with
    | '+' :: rest => rest
    | chars => chars
  if digits.isEmpty || !digits.all Char.isDigit then none
  else
    let index := Numeral.natOf digits
    if index < indexBound then some index else none

/-- The part of a value that a segment names: an item of an array by its position, or a
member of an object by its key. -/
def step (value : Json) (segment : String) : Option Json :=
  match value with
  | .array items => (segmentIndex? segment).bind (items[·]?)
  | value => value.get? segment

/-- The part of a value that segments lead to. -/
def walk : Json → List String → Option Json
  | value, [] => some value
  | value, segment :: rest => (step value segment).bind (walk · rest)

/-- The value that the first segment of a path names: a member of the current scope, or
of the innermost scope that has one. -/
def start? (scopes : Scopes) (onlyCurrent : Bool) (first : String) : Option Json :=
  if onlyCurrent then scopes.current.get? first
  else scopes.values.findSome? (·.get? first)

/-- The value a path names, null if there is none. -/
def lookup (scopes : Scopes) (path : Path) : Json :=
  match path.segments with
  | [] => scopes.current
  | first :: rest =>
      if first = "@index" then
        match scopes.index? with
        | some index => .number (.integer index)
        | none => .null
      else ((scopes.start? path.isLocal first).bind (walk · rest)).getD .null

/-- What a block does with the value of a path. -/
def blockValue (scopes : Scopes) (path : Path) : BlockValue :=
  .of (scopes.lookup path)

/-- The text of the value of a path. -/
def text (scopes : Scopes) (path : Path) : String :=
  (scopes.lookup path).text

end Scopes

end Stencil
