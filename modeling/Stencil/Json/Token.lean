import Stencil.Json.Numeral

/-!
# The tokens of a JSON text

A text is cut into brackets, commas, colons, words, numbers and strings.  Some
tokens stand for faults: characters that no text can mend (`invalid`), and a token that
the end of the text cuts off (`unfinished`, or `unfinishedString` for a string).

* `Token.ofText` — the tokens of a text, blanks left out, up to the first fault.
-/

namespace Stencil.Json

/-- A token of a JSON text. -/
inductive Token where
  | openBracket
  | closeBracket
  | openBrace
  | closeBrace
  | comma
  | colon
  | null
  | bool (value : Bool)
  | number (value : Number)
  | string (value : String)
  /-- Characters that belong to no text. -/
  | invalid
  /-- A word or number that the end of the text cuts off. -/
  | unfinished
  /-- A string that the end of the text cuts off. -/
  | unfinishedString
  deriving DecidableEq, Repr

/-- The characters that may stand between tokens. -/
def isBlank (c : Char) : Bool :=
  c = ' ' || c = '\n' || c = '\t' || c = '\r'

/-! ## Strings -/

/-- The value of a hexadecimal digit. -/
def hexDigit? (c : Char) : Option Nat :=
  if '0' ≤ c ∧ c ≤ '9' then some (c.toNat - '0'.toNat)
  else if 'a' ≤ c ∧ c ≤ 'f' then some (c.toNat - 'a'.toNat + 10)
  else if 'A' ≤ c ∧ c ≤ 'F' then some (c.toNat - 'A'.toNat + 10)
  else none

/-- The number that four hexadecimal digits spell. -/
def hexQuad? (a b c d : Char) : Option Nat := do
  let a ← hexDigit? a
  let b ← hexDigit? b
  let c ← hexDigit? c
  let d ← hexDigit? d
  return ((a * 16 + b) * 16 + c) * 16 + d

/-- The character that a letter behind a backslash stands for. -/
def escapedChar? : Char → Option Char
  | '"' => some '"'
  | '\\' => some '\\'
  | '/' => some '/'
  | 'b' => some '\x08'
  | 'f' => some '\x0c'
  | 'n' => some '\n'
  | 'r' => some '\r'
  | 't' => some '\t'
  | _ => none

/-- Whether a unit is the first half of a pair. -/
def isHighHalf (unit : Nat) : Bool := 0xD800 ≤ unit && unit < 0xDC00

/-- Whether a unit is the second half of a pair. -/
def isLowHalf (unit : Nat) : Bool := 0xDC00 ≤ unit && unit < 0xE000

/-- The character that a pair of halves stands for. -/
def pairedChar (high low : Nat) : Char :=
  Char.ofNat (0x10000 + (high - 0xD800) * 0x400 + (low - 0xDC00))

/-- The fault of an escape with fewer than four characters left: it is cut off, unless
the characters that are left are four bytes long. -/
def shortEscape (rest : List Char) : Token :=
  if (String.ofList rest).utf8ByteSize < 4 then .unfinishedString else .invalid

/-- The string behind an opening quote, with its characters so far (last first), and the
rest of the text. -/
def takeString (done : List Char) : List Char → Token × List Char
  | [] => (.unfinishedString, [])
  | '"' :: rest => (.string (String.ofList done.reverse), rest)
  | '\\' :: 'u' :: a :: b :: c :: d :: rest =>
      match hexQuad? a b c d with
      | none => (.invalid, [])
      | some unit =>
          if isLowHalf unit then (.invalid, [])
          else if isHighHalf unit then
            match rest with
            | [] => (.unfinishedString, [])
            | ['\\'] => (.unfinishedString, [])
            | '\\' :: 'u' :: e :: f :: g :: h :: rest =>
                match hexQuad? e f g h with
                | none => (.invalid, [])
                | some low =>
                    if isLowHalf low then takeString (pairedChar unit low :: done) rest
                    else (.invalid, [])
            | '\\' :: 'u' :: rest => (shortEscape rest, [])
            | _ => (.invalid, [])
          else takeString (Char.ofNat unit :: done) rest
  | '\\' :: 'u' :: rest => (shortEscape rest, [])
  | ['\\'] => (.unfinishedString, [])
  | '\\' :: c :: rest =>
      match escapedChar? c with
      | some value => takeString (value :: done) rest
      | none => (.invalid, [])
  | c :: rest =>
      if c.toNat < 0x20 then (.invalid, []) else takeString (c :: done) rest

/-! ## Numbers -/

/-- The digits at the front of a text, at least one, and the rest; or the fault. -/
def takeDigits (text : List Char) : Except Token (List Char × List Char) :=
  match text with
  | [] => .error .unfinished
  | c :: _ =>
      if c.isDigit then .ok (text.takeWhile Char.isDigit, text.dropWhile Char.isDigit)
      else .error .invalid

/-- The digits behind a point, where the text goes on with one. -/
def takeFraction : List Char → Except Token (Option (List Char) × List Char)
  | '.' :: rest => do
      let (digits, rest) ← takeDigits rest
      return (some digits, rest)
  | text => return (none, text)

/-- The exponent, where the text goes on with one. -/
def takeExponent : List Char → Except Token (Option (Bool × List Char) × List Char)
  | c :: rest =>
      if c = 'e' ∨ c = 'E' then do
        let (down, rest) :=
          match rest with
          | '+' :: rest => (false, rest)
          | '-' :: rest => (true, rest)
          | rest => (false, rest)
        let (digits, rest) ← takeDigits rest
        return (some (down, digits), rest)
      else return (none, c :: rest)
  | [] => return (none, [])

/-- The digits in front of the point: a zero stands alone. -/
def takeWhole (text : List Char) : Except Token (List Char × List Char) := do
  let (digits, rest) ← takeDigits text
  match digits with
  | '0' :: _ :: _ => .error .invalid
  | _ => return (digits, rest)

/-- A number without its sign, and the rest of the text. -/
def takeMagnitude (negative : Bool) (text : List Char) : Except Token (Token × List Char) := do
  let (whole, rest) ← takeWhole text
  let (fraction, rest) ← takeFraction rest
  let (exponent, rest) ← takeExponent rest
  match (Numeral.mk negative whole fraction exponent).value? with
  | some value => return (.number value, rest)
  | none => .error .invalid

/-- The number at the front of a text, and the rest of it. -/
def takeNumber (text : List Char) : Token × List Char :=
  let taken :=
    match text with
    | '-' :: rest => takeMagnitude true rest
    | _ => takeMagnitude false text
  match taken with
  | .ok found => found
  | .error fault => (fault, [])

/-! ## Words and the whole text -/

/-- The rest of a text behind a word, if the text starts with it; or the fault. -/
def takeWord (token : Token) : List Char → List Char → Token × List Char
  | [], rest => (token, rest)
  | _ :: _, [] => (.unfinished, [])
  | w :: word, c :: rest => if w = c then takeWord token word rest else (.invalid, [])

/-- The token that starts with a character that is not blank, and the rest of the text. -/
def takeToken (c : Char) (rest : List Char) : Token × List Char :=
  match c with
  | '[' => (.openBracket, rest)
  | ']' => (.closeBracket, rest)
  | '\x7b' => (.openBrace, rest)
  | '\x7d' => (.closeBrace, rest)
  | ',' => (.comma, rest)
  | ':' => (.colon, rest)
  | '"' => takeString [] rest
  | 'n' => takeWord .null ['u', 'l', 'l'] rest
  | 't' => takeWord (.bool true) ['r', 'u', 'e'] rest
  | 'f' => takeWord (.bool false) ['a', 'l', 's', 'e'] rest
  | _ => if c = '-' ∨ c.isDigit then takeNumber (c :: rest) else (.invalid, [])

/-- The tokens of a text, at most `bound` of them. -/
def tokensWithin : Nat → List Char → List Token
  | 0, _ => []
  | _ + 1, [] => []
  | bound + 1, c :: rest =>
      if isBlank c then tokensWithin bound rest
      else
        let (token, rest) := takeToken c rest
        token :: tokensWithin bound rest

/-- The tokens of a text.  Each takes at least one character, so the length of the text
bounds their number. -/
def Token.ofText (text : List Char) : List Token :=
  tokensWithin text.length text

end Stencil.Json
