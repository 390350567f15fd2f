import Stencil.Json.Numeral
import Stencil.Toml.Value

/-!
# TOML strings, numbers and dates

Each reader takes a value from the front of a text and gives the rest, or
nothing if the text does not start with such a value.

* `takeQuoted` — strings of all four kinds.
* `takeNumber` — dates, times, floats and integers.
-/

namespace Stencil.Toml

/-! ## Characters -/

/-- Blanks within a line. -/
def isBlank (c : Char) : Bool := c = ' ' || c = '\t'

/-- The text without the blanks at its front. -/
def skipBlanks (text : List Char) : List Char := text.dropWhile isBlank

/-- The characters that may stand in comments and literal strings: no control
characters but the tab. -/
def isPrintable (c : Char) : Bool :=
  c = '\t' || (0x20 ≤ c.toNat && c.toNat ≠ 0x7F)

/-- The rest of a text behind a line break. -/
def takeLineBreak : List Char → Option (List Char)
  | '\n' :: rest => some rest
  | '\r' :: '\n' :: rest => some rest
  | _ => none

/-- The characters of a key that needs no quotes. -/
def isBareKeyChar (c : Char) : Bool :=
  c.isAlphanum || c = '_' || c = '-'

/-- The value of a hexadecimal digit. -/
def hexDigit? (c : Char) : Option Nat :=
  if c.isDigit then some (c.toNat - '0'.toNat)
  else if 'a' ≤ c ∧ c ≤ 'f' then some (c.toNat - 'a'.toNat + 10)
  else if 'A' ≤ c ∧ c ≤ 'F' then some (c.toNat - 'A'.toNat + 10)
  else none

/-! ## Strings -/

/-- The character with a code, unless the code belongs to no character. -/
def charOfCode? (code : Nat) : Option Char :=
  if code < 0xD800 ∨ (0xDFFF < code ∧ code < 0x110000) then some (Char.ofNat code) else none

/-- The character that hexadecimal digits spell. -/
def hexChar? (digits : List Char) : Option Char := do
  let values ← digits.mapM hexDigit?
  charOfCode? (values.foldl (fun code digit => 16 * code + digit) 0)

/-- The character that a letter behind a backslash stands for. -/
def escapedChar? : Char → Option Char
  | 'b' => some '\x08'
  | 't' => some '\t'
  | 'n' => some '\n'
  | 'f' => some '\x0c'
  | 'r' => some '\r'
  | '"' => some '"'
  | '\\' => some '\\'
  | _ => none

/-- A string between single-line quotes, with its characters so far (last first). -/
def takeBasic (done : List Char) : List Char → Option (String × List Char)
  | [] => none
  | '"' :: rest => some (String.ofList done.reverse, rest)
  | '\\' :: 'u' :: a :: b :: c :: d :: rest => do
      takeBasic ((← hexChar? [a, b, c, d]) :: done) rest
  | '\\' :: 'U' :: a :: b :: c :: d :: e :: f :: g :: h :: rest => do
      takeBasic ((← hexChar? [a, b, c, d, e, f, g, h]) :: done) rest
  | '\\' :: c :: rest => do takeBasic ((← escapedChar? c) :: done) rest
  | c :: rest => if isPrintable c then takeBasic (c :: done) rest else none

/-- A literal string on a single line. -/
def takeLiteral (done : List Char) : List Char → Option (String × List Char)
  | [] => none
  | '\'' :: rest => some (String.ofList done.reverse, rest)
  | c :: rest => if isPrintable c then takeLiteral (c :: done) rest else none

/-- Where a reader of a string over several lines stands. -/
inductive LineState where
  /-- Among the characters of the string. -/
  | within
  /-- Behind a backslash and blanks, in front of the line break. -/
  | folding
  /-- Behind a backslash and a line break: blanks and line breaks are left out. -/
  | folded
  deriving DecidableEq, Repr

/-- A string over several lines.  Up to two quotes in a row belong to the string; three
end it, with at most two more in front of them that still belong to it. -/
def takeLines (done : List Char) : LineState → List Char → Option (String × List Char)
  | _, [] => none
  | .folding, '\n' :: rest => takeLines done .folded rest
  | .folding, '\r' :: '\n' :: rest => takeLines done .folded rest
  | .folding, c :: rest => if isBlank c then takeLines done .folding rest else none
  | .folded, '\n' :: rest => takeLines done .folded rest
  | .folded, '\r' :: '\n' :: rest => takeLines done .folded rest
  | .folded, ' ' :: rest => takeLines done .folded rest
  | .folded, '\t' :: rest => takeLines done .folded rest
  | _, '"' :: '"' :: '"' :: '"' :: '"' :: rest =>
      some (String.ofList ('"' :: '"' :: done).reverse, rest)
  | _, '"' :: '"' :: '"' :: '"' :: rest => some (String.ofList ('"' :: done).reverse, rest)
  | _, '"' :: '"' :: '"' :: rest => some (String.ofList done.reverse, rest)
  | _, '\n' :: rest => takeLines ('\n' :: done) .within rest
  | _, '\r' :: '\n' :: rest => takeLines ('\n' :: done) .within rest
  | _, '\\' :: '\n' :: rest => takeLines done .folded rest
  | _, '\\' :: '\r' :: '\n' :: rest => takeLines done .folded rest
  | _, '\\' :: ' ' :: rest => takeLines done .folding rest
  | _, '\\' :: '\t' :: rest => takeLines done .folding rest
  | _, '\\' :: 'u' :: a :: b :: c :: d :: rest => do
      takeLines ((← hexChar? [a, b, c, d]) :: done) .within rest
  | _, '\\' :: 'U' :: a :: b :: c :: d :: e :: f :: g :: h :: rest => do
      takeLines ((← hexChar? [a, b, c, d, e, f, g, h]) :: done) .within rest
  | _, '\\' :: c :: rest => do takeLines ((← escapedChar? c) :: done) .within rest
  | _, c :: rest => if isPrintable c then takeLines (c :: done) .within rest else none

/-- A literal string over several lines. -/
def takeLiteralLines (done : List Char) : List Char → Option (String × List Char)
  | [] => none
  | '\'' :: '\'' :: '\'' :: '\'' :: '\'' :: rest =>
      some (String.ofList ('\'' :: '\'' :: done).reverse, rest)
  | '\'' :: '\'' :: '\'' :: '\'' :: rest => some (String.ofList ('\'' :: done).reverse, rest)
  | '\'' :: '\'' :: '\'' :: rest => some (String.ofList done.reverse, rest)
  | '\n' :: rest => takeLiteralLines ('\n' :: done) rest
  | '\r' :: '\n' :: rest => takeLiteralLines ('\n' :: done) rest
  | c :: rest => if isPrintable c then takeLiteralLines (c :: done) rest else none

/-- The text without one line break at its front. -/
def skipLineBreak (text : List Char) : List Char := (takeLineBreak text).getD text

/-- A string of any kind, from its opening quotes on. -/
def takeQuoted : List Char → Option (String × List Char)
  | '"' :: '"' :: '"' :: rest => takeLines [] .within (skipLineBreak rest)
  | '"' :: rest => takeBasic [] rest
  | '\'' :: '\'' :: '\'' :: rest => takeLiteralLines [] (skipLineBreak rest)
  | '\'' :: rest => takeLiteral [] rest
  | _ => none

/-! ## Digits -/

/-- Digits at the front of a text, single underscores between them left out; at least one. -/
def takeDigitsBy (isDigit : Char → Bool) : List Char → Option (List Char × List Char)
  | [] => none
  | [c] => if isDigit c then some ([c], []) else none
  | c :: '_' :: rest =>
      if isDigit c then (takeDigitsBy isDigit rest).map fun (digits, rest) => (c :: digits, rest)
      else none
  | c :: d :: rest =>
      if isDigit c then
        if isDigit d then
          (takeDigitsBy isDigit (d :: rest)).map fun (digits, rest) => (c :: digits, rest)
        else some ([c], d :: rest)
      else none

/-- Decimal digits. -/
def takeDecimalDigits : List Char → Option (List Char × List Char) := takeDigitsBy Char.isDigit

/-- Exactly `count` decimal digits, as a number. -/
def takeFixed (count : Nat) (text : List Char) : Option (Nat × List Char) :=
  let digits := text.take count
  if digits.length = count && digits.all Char.isDigit then
    some (Numeral.natOf digits, text.drop count)
  else none

/-- The sign at the front of a text: whether there is one, and whether it is a minus. -/
def takeSign : List Char → (List Char × Bool) × List Char
  | '+' :: rest => ((['+'], false), rest)
  | '-' :: rest => ((['-'], true), rest)
  | rest => (([], false), rest)

/-! ## Dates and times -/

/-- The number of days of a month. -/
def daysOfMonth (year month : Nat) : Nat :=
  if month = 2 then
    if year % 4 = 0 ∧ (year % 100 ≠ 0 ∨ year % 400 = 0) then 29 else 28
  else if month = 4 ∨ month = 6 ∨ month = 9 ∨ month = 11 then 30
  else 31

/-- The rest of a text behind a character. -/
def expect (c : Char) : List Char → Option (List Char)
  | d :: rest => if d = c then some rest else none
  | [] => none

/-- The rest of a text behind a date. -/
def skipDate (text : List Char) : Option (List Char) := do
  let (year, rest) ← takeFixed 4 text
  let (month, rest) ← takeFixed 2 (← expect '-' rest)
  let (day, rest) ← takeFixed 2 (← expect '-' rest)
  if 1 ≤ month ∧ month ≤ 12 ∧ 1 ≤ day ∧ day ≤ daysOfMonth year month then some rest else none

/-- The rest of a text behind a fraction of a second, if there is one. -/
def skipSecondFraction : List Char → List Char
  | '.' :: c :: rest => if c.isDigit then rest.dropWhile Char.isDigit else '.' :: c :: rest
  | rest => rest

/-- The rest of a text behind a time of day. -/
def skipTime (text : List Char) : Option (List Char) := do
  let (hour, rest) ← takeFixed 2 text
  let (minute, rest) ← takeFixed 2 (← expect ':' rest)
  let (second, rest) ← takeFixed 2 (← expect ':' rest)
  if hour ≤ 23 ∧ minute ≤ 59 ∧ second ≤ 60 then some (skipSecondFraction rest) else none

/-- The rest of a text behind an offset from universal time. -/
def skipOffset : List Char → Option (List Char)
  | [] => none
  | c :: rest =>
      if c = 'Z' ∨ c = 'z' then some rest
      else if c = '+' ∨ c = '-' then do
        let (hour, rest) ← takeFixed 2 rest
        let (minute, rest) ← takeFixed 2 (← expect ':' rest)
        if hour ≤ 23 ∧ minute ≤ 59 then some rest else none
      else none

/-- The rest of a text behind a date, a time, or both with or without an offset. -/
def skipMoment (text : List Char) : Option (List Char) :=
  match skipDate text with
  | none => skipTime text
  | some rest =>
      match rest with
      | c :: behind =>
          if c = 'T' ∨ c = 't' ∨ c = ' ' then
            match skipTime behind with
            | some rest => some ((skipOffset rest).getD rest)
            | none => some rest
          else some rest
      | [] => some rest

/-! ## Numbers -/

/-- Whether digits times a power of ten are too great for a double, even after rounding. -/
def overflows (digits : Nat) (exponent : Int) : Bool :=
  if digits = 0 ∨ exponent + Nat.log2 digits < 200 then false
  else if 400 < exponent then true
  else Nat.pow 2 1024 - Nat.pow 2 970 ≤
    digits * Nat.pow 10 exponent.toNat / Nat.pow 10 (-exponent).toNat

/-- The digits of a decimal integer: a zero stands alone. -/
def takeWhole (text : List Char) : Option (List Char × List Char) := do
  let (digits, rest) ← takeDecimalDigits text
  match digits with
  | '0' :: _ :: _ => none
  | _ => some (digits, rest)

/-- The digits behind a point or an exponent mark. -/
def takeExponent : List Char → Option (Int × List Char)
  | [] => none
  | c :: rest =>
      if c = 'e' ∨ c = 'E' then do
        let ((_, negative), rest) := takeSign rest
        let (digits, rest) ← takeDecimalDigits rest
        let value : Int := Numeral.natOf digits
        some (if negative then -value else value, rest)
      else none

/-- The rest of a text behind the name of a value. -/
def expectWord : List Char → List Char → Option (List Char)
  | [], rest => some rest
  | c :: word, text => (expect c text).bind (expectWord word)

/-- The rest of a text behind a decimal float, if it is no greater than a double can be;
the outer option tells whether the text starts with a float at all. -/
def takeDecimalFloat (text : List Char) : Option (Option (List Char)) := do
  let ((_, negative), rest) := takeSign text
  let (whole, rest) ← takeWhole rest
  let judge (digits : List Char) (exponent : Int) (rest : List Char) :=
    if !negative && overflows (Numeral.natOf digits) exponent then none else some rest
  match rest with
  | '.' :: rest =>
      match takeDecimalDigits rest with
      | none => some none
      | some (fraction, rest) =>
          let digits := whole ++ fraction
          match takeExponent rest with
          | some (exponent, rest) => some (judge digits (exponent - fraction.length) rest)
          | none => some (judge digits (-(fraction.length : Int)) rest)
  | rest => (takeExponent rest).map fun (exponent, rest) => judge whole exponent rest

/-- The rest of a text behind an infinity or a value that is no number. -/
def skipSpecialFloat (text : List Char) : Option (List Char) :=
  let (_, rest) := takeSign text
  match expectWord "inf".toList rest with
  | some rest => some rest
  | none => expectWord "nan".toList rest

/-- The least and the greatest integer. -/
def fitsInteger (value : Int) : Bool :=
  -(Nat.pow 2 63 : Int) ≤ value && value < (Nat.pow 2 63 : Int)

/-- An integer in a base, with digits of that base. -/
def takeInBase (base : Nat) (text : List Char) : Option (Int × List Char) := do
  let isDigit (c : Char) : Bool := ((hexDigit? c).map (decide <| · < base)).getD false
  let (digits, rest) ← takeDigitsBy isDigit text
  let value : Int :=
    ((digits.filterMap hexDigit?).foldl (fun value digit => base * value + digit) 0 : Nat)
  if fitsInteger value then some (value, rest) else none

/-- An integer: decimal with or without a sign, or hexadecimal, octal or binary. -/
def takeInteger : List Char → Option (Int × List Char)
  | '0' :: 'x' :: rest => takeInBase 16 rest
  | '0' :: 'o' :: rest => takeInBase 8 rest
  | '0' :: 'b' :: rest => takeInBase 2 rest
  | text => do
      let ((_, negative), rest) := takeSign text
      let (digits, rest) ← takeWhole rest
      let magnitude : Int := Numeral.natOf digits
      let value := if negative then -magnitude else magnitude
      if fitsInteger value then some (value, rest) else none

/-- The part of a text in front of its rest. -/
def spellingBefore (text rest : List Char) : String :=
  String.ofList (text.take (text.length - rest.length))

/-- A value that starts with a sign or a digit. -/
def takeNumber (text : List Char) : Option (Value × List Char) :=
  match skipMoment text with
  | some rest => some (.moment (spellingBefore text rest), rest)
  | none =>
      match takeDecimalFloat text with
      | some (some rest) => some (.float (spellingBefore text rest), rest)
      | some none => none
      | none =>
          match skipSpecialFloat text with
          | some rest => some (.float (spellingBefore text rest), rest)
          | none => (takeInteger text).map fun (value, rest) => (.integer value, rest)

end Stencil.Toml
