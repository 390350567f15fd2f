import Stencil.Json.NumberText

/-!
# Writing JSON texts

Values are written on one line without blanks, or over several lines with two
blanks for each level.  Inside strings only the quote, the backslash and the
control characters below U+0020 are escaped.

* `Json.compact` — the text on one line.
* `Json.indented` — the text over several lines.
-/

namespace Stencil.Json

/-! ## Strings -/

/-- The digit for a number below sixteen. -/
def hexDigit (n : Nat) : Char := Nat.digitChar n

/-- A character as it stands inside a quoted string. -/
def quotedChar : Char → List Char
  | '"' => ['\\', '"']
  | '\\' => ['\\', '\\']
  | '\x08' => ['\\', 'b']
  | '\x0c' => ['\\', 'f']
  | '\n' => ['\\', 'n']
  | '\r' => ['\\', 'r']
  | '\t' => ['\\', 't']
  | c =>
      if c.toNat < 0x20 then
        ['\\', 'u', '0', '0', hexDigit (c.toNat / 16), hexDigit (c.toNat % 16)]
      else [c]

/-- A text in quotes. -/
def quoted (text : String) : String :=
  "\"" ++ String.ofList (text.toList.flatMap quotedChar) ++ "\""

/-! ## On one line -/

mutual
/-- The text of a value, on one line and without blanks. -/
def compact : Json → String
  | .null => "null"
  | .bool value => if value then "true" else "false"
  | .number value => value.text
  | .string value => quoted value
  | .array items => "[" ++ ",".intercalate (compactItems items) ++ "]"
  | .object members => "\x7b" ++ ",".intercalate (compactMembers members) ++ "\x7d"
/-- The texts of the items of an array. -/
def compactItems : List Json → List String
  | [] => []
  | item :: rest => item.compact :: compactItems rest
/-- The texts of the members of an object. -/
def compactMembers : List (String × Json) → List String
  | [] => []
  | (key, value) :: rest => (quoted key ++ ":" ++ value.compact) :: compactMembers rest
end

/-! ## Over several lines -/

/-- The start of a line at a level. -/
def lineStart (level : Nat) : String :=
  "\n" ++ String.ofList (List.replicate (2 * level) ' ')

/-- Parts between brackets, each on its own line one level deeper; no lines if there
are no parts. -/
def block (level : Nat) (opening closing : String) (parts : List String) : String :=
  if parts.isEmpty then opening ++ closing
  else
    opening ++ lineStart (level + 1) ++ ("," ++ lineStart (level + 1)).intercalate parts ++
      lineStart level ++ closing

mutual
/-- The text of a value over several lines, from a level on. -/
def indentedAt (level : Nat) : Json → String
  | .array items => block level "[" "]" (indentedItems (level + 1) items)
  | .object members => block level "\x7b" "\x7d" (indentedMembers (level + 1) members)
  | .null => "null"
  | .bool value => if value then "true" else "false"
  | .number value => value.text
  | .string value => quoted value
/-- The texts of the items of an array. -/
def indentedItems (level : Nat) : List Json → List String
  | [] => []
  | item :: rest => item.indentedAt level :: indentedItems level rest
/-- The texts of the members of an object. -/
def indentedMembers (level : Nat) : List (String × Json) → List String
  | [] => []
  | (key, value) :: rest =>
      (quoted key ++ ": " ++ value.indentedAt level) :: indentedMembers level rest
end

/-- The text of a value over several lines, with two blanks for each level. -/
def indented (value : Json) : String := value.indentedAt 0

end Stencil.Json
