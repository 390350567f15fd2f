import Stencil.Json.Basic

/-!
# The shape of documents

A document spells a graph as JSON.  Text is a string and a node an object with
short keys, of which `t` gives the type; the others are the tag name `e`, the
attributes `a`, the contents `f`, the reference `r`, the comment `c`, the address
`i` and the modifier `n`.  A node may also be an array of these fields in the order
t, e, a, f, r, c, i, n.  A document is an envelope with a version `v`, items `t` and
partials `p`, or an array of items, or one item.

Reading the shape checks the type of every field of every node, also of fields that
the type of the node does not use.

* `Document.ofJson?` — the document that a value spells.
-/

namespace Stencil.Document

/-! ## Items -/

mutual
/-- An item of a graph: text or a node. -/
inductive Item where
  | text (text : String)
  | node (fields : Fields)

/-- The fields of a node. -/
structure Fields where
  type : Nat
  tag : Option String
  attributes : List (String × Fragment)
  contents : Fragment
  reference : Option String
  comment : Option String
  id : Option String
  modifier : Option Nat

/-- The contents of a node or the value of an attribute. -/
inductive Fragment where
  /-- No contents, or an attribute without a value. -/
  | absent
  | text (text : String)
  | items (items : List Item)
end

/-- The fields of a node of which none has been read yet. -/
def Fields.blank : Fields := ⟨0, none, [], .absent, none, none, none, none⟩

instance : Inhabited Fields := ⟨.blank⟩

/-! ## Keys -/

/-- The keys of a node, in the order of its fields. -/
def nodeKeys : List String := ["t", "e", "a", "f", "r", "c", "i", "n"]

/-- The keys of an envelope. -/
def envelopeKeys : List String := ["v", "t", "p"]

/-- Whether a list holds no value twice. -/
def allDistinct : List String → Bool
  | [] => true
  | key :: rest => !rest.contains key && allDistinct rest

/-- Whether no known key is repeated. -/
def distinctKeys {α : Type} (known : List String) (members : List (String × α)) : Bool :=
  allDistinct ((members.map Prod.fst).filter known.contains)

/-! ## Fields that hold no items -/

/-- The field of a key that is null. -/
def readNull (key : String) (fields : Fields) : Option Fields :=
  match key with
  | "t" => none
  | _ => some fields

/-- The field of a key that is a string. -/
def readText (key text : String) (fields : Fields) : Option Fields :=
  match key with
  | "e" => some { fields with tag := some text }
  | "f" => some { fields with contents := .text text }
  | "r" => some { fields with reference := some text }
  | "c" => some { fields with comment := some text }
  | "i" => some { fields with id := some text }
  | "t" | "a" | "n" => none
  | _ => some fields

/-- A number that fits into a byte. -/
def byteOf? : Number → Option Nat
  | .integer value => if 0 ≤ value ∧ value < 256 then some value.toNat else none
  | .double _ => none

/-- The field of a key that is a number. -/
def readNumber (key : String) (number : Number) (fields : Fields) : Option Fields :=
  match key with
  | "t" => (byteOf? number).map fun type => { fields with type }
  | "n" => (byteOf? number).map fun modifier => { fields with modifier := some modifier }
  | _ => if nodeKeys.contains key then none else some fields

/-- The field of a key that is of a type no field has. -/
def readOther (key : String) (fields : Fields) : Option Fields :=
  if nodeKeys.contains key then none else some fields

/-! ## Reading items -/

mutual
/-- The item that a value spells. -/
def readItem : Json → Option Item
  | .string text => some (.text text)
  | .object members =>
      if distinctKeys nodeKeys members && members.any (·.1 == "t") then
        (readMembers .blank members).map .node
      else none
  | .array [] => none
  | .array (item :: rest) => (readPositions nodeKeys .blank (item :: rest)).map .node
  | _ => none

/-- The items that values spell. -/
def readItems : List Json → Option (List Item)
  | [] => some []
  | value :: rest => do
      let item ← readItem value
      let items ← readItems rest
      return item :: items

/-- Fields with the one that a key and its value give. -/
def readField (key : String) (fields : Fields) : Json → Option Fields
  | .null => readNull key fields
  | .bool _ => readOther key fields
  | .number number => readNumber key number fields
  | .string text => readText key text fields
  | .array items =>
      if key = "f" then (readItems items).map fun items => { fields with contents := .items items }
      else readOther key fields
  | .object members =>
      if key = "a" then
        (readAttributes members).map fun entries =>
          { fields with attributes := Keyed.ofEntries entries }
      else readOther key fields

/-- Fields with those that the members of an object give. -/
def readMembers (fields : Fields) : List (String × Json) → Option Fields
  | [] => some fields
  | (key, value) :: rest => do readMembers (← readField key fields value) rest

/-- Fields with those that the items of an array give, for keys in order. -/
def readPositions (keys : List String) (fields : Fields) : List Json → Option Fields
  | [] => some fields
  | value :: rest =>
      match keys with
      | [] => none
      | key :: keys => do readPositions keys (← readField key fields value) rest

/-- The attributes that the members of an object give. -/
def readAttributes : List (String × Json) → Option (List (String × Fragment))
  | [] => some []
  | (name, .null) :: rest => do return (name, .absent) :: (← readAttributes rest)
  | (name, .string text) :: rest => do return (name, .text text) :: (← readAttributes rest)
  | (name, .array items) :: rest => do
      let items ← readItems items
      return (name, .items items) :: (← readAttributes rest)
  | _ :: _ => none
end

/-! ## Documents -/

/-- A document. -/
inductive Shape where
  /-- An envelope with its items and partials. -/
  | envelope (items : List Item) (partials : List (String × Fragment))
  /-- An array of items. -/
  | many (items : List Item)
  /-- A single item. -/
  | one (item : Item)

/-- A version number. -/
def isVersion : Json → Bool
  | .number (.integer value) => 0 ≤ value && value < (Nat.pow 2 32 : Int)
  | _ => false

/-- The body of a partial: text or an array of items. -/
def readPartial : Json → Option Fragment
  | .string text => some (.text text)
  | .array items => (readItems items).map .items
  | _ => none

/-- The partials of an envelope, none if there is no such member. -/
def readPartials : Option Json → Option (List (String × Fragment))
  | none => some []
  | some (.object members) =>
      (members.mapM fun member => (readPartial member.2).map (member.1, ·)).map Keyed.ofEntries
  | some _ => none

/-- The items of an envelope. -/
def readContents : Option Json → Option (List Item)
  | some (.array items) => readItems items
  | _ => none

/-- The envelope that a value spells. -/
def readEnvelope : Json → Option Shape
  | .object members =>
      let value := Json.object members
      if distinctKeys envelopeKeys members && ((value.get? "v").map isVersion).getD false then do
        let items ← readContents (value.get? "t")
        let partials ← readPartials (value.get? "p")
        return .envelope items partials
      else none
  | _ => none

/-- The array of items that a value spells. -/
def readMany : Json → Option Shape
  | .array items => (readItems items).map .many
  | _ => none

/-- The document that a value spells: an envelope, an array of items or an item, the first
that fits. -/
def ofJson? (value : Json) : Option Shape :=
  (readEnvelope value).or ((readMany value).or ((readItem value).map .one))

end Stencil.Document
