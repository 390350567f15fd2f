import Stencil.Json.Token

/-!
# Reading JSON texts

A machine walks over the tokens of a text with a stack of the arrays and objects
that are still open.  Each token is used once, so reading ends, and the first
token that does not fit decides the fault: a text that stops too early is
`unfinished`, any other one is `malformed`.  A text nested deeper than a limit is
malformed at the bracket that passes it.

* `Json.readFirst` — the first value of a text, and whether more follows it.
* `Json.read` — the value of a text that holds nothing else.
-/

namespace Stencil.Json

/-- Why a text is not JSON. -/
inductive Fault where
  /-- No continuation of the text is JSON. -/
  | malformed
  /-- The text ends before its value does. -/
  | unfinished
  deriving DecidableEq, Repr

/-- An array or object that is still open, with its contents so far, last first. -/
inductive Opened where
  /-- An array. -/
  | items (done : List Json)
  /-- An object between members. -/
  | members (done : List (String × Json))
  /-- An object that waits for the value of a key. -/
  | member (done : List (String × Json)) (key : String)

/-- What the machine expects next. -/
inductive Expected where
  /-- A value, or the end of the array just opened. -/
  | firstItem
  /-- A value. -/
  | value
  /-- A key, or the end of the object just opened. -/
  | firstKey
  /-- A key. -/
  | key
  /-- The colon behind a key. -/
  | colon
  /-- A comma or the end of the innermost array or object. -/
  | separator
  deriving DecidableEq, Repr

/-- What becomes of a complete value: it is the whole text's, or goes into the innermost
array or object. -/
inductive Placed where
  | whole (value : Json)
  | inside (stack : List Opened)

/-- Put a complete value where it belongs. -/
def placeValue (value : Json) : List Opened → Placed
  | [] => .whole value
  | .items done :: stack => .inside (.items (value :: done) :: stack)
  | .members done :: stack => .inside (.members done :: stack)
  | .member done key :: stack => .inside (.members ((key, value) :: done) :: stack)

/-- The value of a token that is a value by itself. -/
def Token.value? : Token → Option Json
  | .null => some .null
  | .bool value => some (.bool value)
  | .number value => some (.number value)
  | .string value => some (.string value)
  | _ => none

/-- The fault of a token that stands where a value should. -/
def Token.fault : Token → Fault
  | .unfinished => .unfinished
  | .unfinishedString => .unfinished
  | _ => .malformed

/-- Walk over the tokens: the first value and the tokens behind it. -/
def readTokens (depthLimit : Nat) :
    List Token → List Opened → Expected → Except Fault (Json × List Token)
  | [], _, _ => .error .unfinished
  | token :: rest, stack, expected =>
      let complete (value : Json) (stack : List Opened) :
          Except Fault (Json × List Token) :=
        match placeValue value stack with
        | .whole value => .ok (value, rest)
        | .inside stack => readTokens depthLimit rest stack .separator
      let enter (opened : Opened) (next : Expected) : Except Fault (Json × List Token) :=
        if stack.length < depthLimit then readTokens depthLimit rest (opened :: stack) next
        else .error .malformed
      let value : Except Fault (Json × List Token) :=
        match token with
        | .openBracket => enter (.items []) .firstItem
        | .openBrace => enter (.members []) .firstKey
        | _ =>
            match token.value? with
            | some value => complete value stack
            | none => .error token.fault
      match expected, token, stack with
      | .firstItem, .closeBracket, .items done :: stack => complete (.array done.reverse) stack
      | .firstItem, _, _ => value
      | .value, _, _ => value
      | .firstKey, .closeBrace, .members done :: stack => complete (.object done.reverse) stack
      | .firstKey, .string key, .members done :: stack =>
          readTokens depthLimit rest (.member done key :: stack) .colon
      | .firstKey, .unfinishedString, _ => .error .unfinished
      | .key, .string key, .members done :: stack =>
          readTokens depthLimit rest (.member done key :: stack) .colon
      | .key, .unfinishedString, _ => .error .unfinished
      | .colon, .colon, stack => readTokens depthLimit rest stack .value
      | .separator, .comma, .items done :: stack =>
          readTokens depthLimit rest (.items done :: stack) .value
      | .separator, .comma, .members done :: stack =>
          readTokens depthLimit rest (.members done :: stack) .key
      | .separator, .closeBracket, .items done :: stack => complete (.array done.reverse) stack
      | .separator, .closeBrace, .members done :: stack =>
          complete (.object done.reverse) stack
      | _, _, _ => .error .malformed

/-- The number of arrays and objects that may be open at once in a text. -/
def textDepth : Nat := 127

/-- The first value of a text, and whether anything but blanks follows it. -/
def readFirst (depthLimit : Nat) (text : String) : Except Fault (Json × Bool) := do
  let (value, rest) ← readTokens depthLimit (Token.ofText text.toList) [] .value
  return (value, !rest.isEmpty)

/-- The value of a text that holds one value and blanks. -/
def read (depthLimit : Nat) (text : String) : Except Fault Json := do
  let (value, more) ← readFirst depthLimit text
  if more then .error .malformed else return value

end Stencil.Json
