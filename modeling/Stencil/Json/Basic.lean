import Stencil.Keyed

/-!
# JSON values

The values that documents are spelled in and that templates are rendered
against.  A value keeps the members of its objects in the order they were
written, repeated keys included; `Json.sorted` is the form in which data is
held, with one member per key, in the order of the keys.

* `Json.get?` — the member of an object under a key.
* `Json.sorted` — keys in order, the last of several members with one key.
* `Json.ofMembers` — an object in that form.
-/

namespace Stencil

/-- A number is an integer, or a binary64 double given by its bits. -/
inductive Number where
  /-- An integer, written without a point or an exponent. -/
  | integer (value : Int)
  /-- A double, by its IEEE 754 bit pattern. -/
  | double (bits : UInt64)
  deriving DecidableEq, Repr, Inhabited

/-- The bits of a double without its sign. -/
def Number.magnitudeBits (bits : UInt64) : UInt64 :=
  bits &&& 0x7fffffffffffffff

/-- Only the integer zero and the two zeros among the doubles are zero. -/
def Number.isZero : Number → Bool
  | .integer value => value == 0
  | .double bits => magnitudeBits bits == 0

/-- A JSON value. -/
inductive Json where
  | null
  | bool (value : Bool)
  | number (value : Number)
  | string (value : String)
  | array (items : List Json)
  | object (members : List (String × Json))
  deriving Repr, Inhabited

namespace Json

/-! ## Parts of a value -/

/-- The member of an object under a key; nothing for any other value. -/
def get? (key : String) : Json → Option Json
  | .object members => Keyed.get? key members
  | _ => none

/-- The text of a string value. -/
def string? : Json → Option String
  | .string value => some value
  | _ => none

/-- The value of a boolean. -/
def bool? : Json → Option Bool
  | .bool value => some value
  | _ => none

/-- The items of an array. -/
def items? : Json → Option (List Json)
  | .array items => some items
  | _ => none

/-- The members of an object. -/
def members? : Json → Option (List (String × Json))
  | .object members => some members
  | _ => none

/-- The value of a number that is an integer. -/
def integer? : Json → Option Int
  | .number (.integer value) => some value
  | _ => none

/-- The value of an integer that is not negative. -/
def nat? (value : Json) : Option Nat :=
  value.integer?.bind Int.toNat?

@[simp] theorem get?_object (key : String) (members : List (String × Json)) :
    (Json.object members).get? key = Keyed.get? key members := rfl

/-! ## Objects in order of their keys -/

/-- Put a member into a list that is in order of its keys, in place of one with
the same key. -/
def insertMember (key : String) (value : Json) :
    List (String × Json) → List (String × Json)
  | [] => [(key, value)]
  | (name, old) :: rest =>
      if key = name then (key, value) :: rest
      else if key < name then (key, value) :: (name, old) :: rest
      else (name, old) :: insertMember key value rest

/-- The members in order of their keys, the last of several with one key. -/
def sortMembers (members : List (String × Json)) : List (String × Json) :=
  members.foldl (fun sorted member => insertMember member.1 member.2 sorted) []

/-- The object with the given members, in order of their keys. -/
def ofMembers (members : List (String × Json)) : Json :=
  .object (sortMembers members)

mutual
/-- A value with every object in order of its keys. -/
def sorted : Json → Json
  | .array items => .array (sortedItems items)
  | .object members => .object (sortMembers (sortedMembers members))
  | value => value
/-- The items of an array, each with its objects in order. -/
def sortedItems : List Json → List Json
  | [] => []
  | item :: rest => item.sorted :: sortedItems rest
/-- The members of an object, each value with its objects in order. -/
def sortedMembers : List (String × Json) → List (String × Json)
  | [] => []
  | (key, value) :: rest => (key, value.sorted) :: sortedMembers rest
end

end Json

end Stencil
