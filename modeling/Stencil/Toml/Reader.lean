import Stencil.Toml.Scalar

/-!
# Reading TOML documents

A document is a run of lines: blank lines and comments, headers that open tables,
and keys with their values.  Values may be nested, up to a limit, so reading a
value recurses on the levels that are left.

* `Toml.read` — the entries of a document.
-/

namespace Stencil.Toml

/-! ## Comments and keys -/

/-- The text without a comment at its front. -/
def skipComment : List Char → List Char
  | '#' :: rest => rest.dropWhile isPrintable
  | text => text

/-- The rest of a text behind blanks, a comment and the end of the line. -/
def skipLineEnd (text : List Char) : Option (List Char) :=
  match skipComment (skipBlanks text) with
  | [] => some []
  | rest => takeLineBreak rest

/-- A key without dots. -/
def takeSimpleKey : List Char → Option (String × List Char)
  | '"' :: rest => takeBasic [] rest
  | '\'' :: rest => takeLiteral [] rest
  | text =>
      let key := text.takeWhile isBareKeyChar
      if key.isEmpty then none else some (String.ofList key, text.dropWhile isBareKeyChar)

/-- The number of parts that a key must stay below, and of levels that values must. -/
def nestingLimit : Nat := 80

/-- The parts of a dotted key, at most `bound` of them, with blanks around each. -/
def takeKeyParts : Nat → List Char → Option (List String × List Char)
  | 0, _ => none
  | bound + 1, text => do
      let (part, rest) ← takeSimpleKey (skipBlanks text)
      match skipBlanks rest with
      | '.' :: rest =>
          let (parts, rest) ← takeKeyParts bound rest
          some (part :: parts, rest)
      | rest => some ([part], rest)

/-- A dotted key: all its parts but the last, and the last. -/
def takeKey (text : List Char) : Option ((List String × String) × List Char) := do
  let (parts, rest) ← takeKeyParts (nestingLimit - 1) text
  let last ← parts.getLast?
  some ((parts.dropLast, last), rest)

/-! ## Values -/

/-- The rest of a text behind blanks, line breaks and comments, each comment with the end
of its line; `bound` is at least the number of lines. -/
def skipLines : Nat → List Char → Option (List Char)
  | 0, text => some text
  | bound + 1, text =>
      match skipBlanks text with
      | '#' :: rest => do skipLines bound (← takeLineBreak (rest.dropWhile isPrintable))
      | rest =>
          match takeLineBreak rest with
          | some rest => skipLines bound rest
          | none => some rest

/-- The items of an array behind its opening bracket, at most `bound` of them. -/
def takeItems (takeValue : List Char → Option (Value × List Char)) :
    Nat → List Char → Option (List Value × List Char)
  | 0, _ => none
  | bound + 1, text => do
      let rest ← skipLines text.length text
      match rest with
      | ']' :: rest => some ([], rest)
      | rest =>
          let (item, rest) ← takeValue rest
          match ← skipLines rest.length rest with
          | ',' :: rest =>
              let (items, rest) ← takeItems takeValue bound rest
              some (item :: items, rest)
          | ']' :: rest => some ([item], rest)
          | _ => none

/-- A key, the equals sign and the value. -/
def takeAssignment (takeValue : List Char → Option (Value × List Char)) (text : List Char) :
    Option (((List String × String) × Value) × List Char) := do
  let (key, rest) ← takeKey text
  let (value, rest) ← takeValue (skipBlanks (← expect '=' rest))
  some ((key, value), rest)

/-- The assignments of a table within a line, at most `bound` of them, added to its
entries. -/
def takeInlineEntries (takeValue : List Char → Option (Value × List Char)) :
    Nat → Entries → List Char → Option (Entries × List Char)
  | 0, _, _ => none
  | bound + 1, entries, text => do
      let (((path, key), value), rest) ← takeAssignment takeValue text
      let entries ← entries.assign path key value
      match skipBlanks rest with
      | ',' :: rest => takeInlineEntries takeValue bound entries rest
      | '\x7d' :: rest => some (entries, rest)
      | _ => none

/-- A table within a line, behind its opening brace. -/
def takeInlineTable (takeValue : List Char → Option (Value × List Char))
    (text : List Char) : Option (Value × List Char) :=
  match skipBlanks text with
  | '\x7d' :: rest => some (.table [], rest)
  | text =>
      (takeInlineEntries takeValue text.length [] text).map fun (entries, rest) =>
        (.table (finishEntries entries), rest)

/-- A value with at most `levels` levels of arrays and tables. -/
def takeValue : (levels : Nat) → List Char → Option (Value × List Char)
  | levels, text =>
      match text with
      | [] => none
      | '"' :: _ => (takeQuoted text).map fun (string, rest) => (.string string, rest)
      | '\'' :: _ => (takeQuoted text).map fun (string, rest) => (.string string, rest)
      | '[' :: rest =>
          match levels with
          | 0 => none
          | levels + 1 =>
              (takeItems (takeValue levels) (rest.length + 1) rest).map fun (items, rest) =>
                (.array items, rest)
      | '\x7b' :: rest =>
          match levels with
          | 0 => none
          | levels + 1 => takeInlineTable (takeValue levels) rest
      | 't' :: _ => (expectWord "true".toList text).map fun rest => (.boolean true, rest)
      | 'f' :: _ => (expectWord "false".toList text).map fun rest => (.boolean false, rest)
      | 'i' :: _ => takeNumber text
      | 'n' :: _ => takeNumber text
      | c :: _ => if c = '+' ∨ c = '-' ∨ c.isDigit then takeNumber text else none

/-! ## Documents -/

/-- A document that is being read: its entries and the header that is open. -/
structure Progress where
  entries : Entries
  header : List String

/-- Add an assignment to the table that is open. -/
def Progress.assign (progress : Progress) (path : List String) (key : String) (value : Value) :
    Option Progress :=
  (Entries.within progress.header (Entries.assign path key value) progress.entries).map
    fun entries => { progress with entries }

/-- A header, and the rest of its line. -/
def takeHeader (progress : Progress) (text : List Char) : Option (Progress × List Char) :=
  match text with
  | '[' :: '[' :: text => do
      let ((path, last), rest) ← takeKey text
      let rest ← expect ']' (← expect ']' rest)
      let entries ← progress.entries.openElement path last
      some (⟨entries, path ++ [last]⟩, ← skipLineEnd rest)
  | '[' :: text => do
      let ((path, last), rest) ← takeKey text
      let rest ← expect ']' rest
      let entries ← progress.entries.openTable path last
      some (⟨entries, path ++ [last]⟩, ← skipLineEnd rest)
  | _ => none

/-- The lines of a document, at most `bound` of them. -/
def readLines : Nat → Progress → List Char → Option Entries
  | 0, progress, _ => some progress.entries
  | bound + 1, progress, text =>
      match skipBlanks text with
      | [] => some progress.entries
      | '#' :: rest => do readLines bound progress (← skipLineEnd ('#' :: rest))
      | '[' :: rest => do
          let (progress, rest) ← takeHeader progress ('[' :: rest)
          readLines bound progress rest
      | '\n' :: rest => readLines bound progress rest
      | '\r' :: '\n' :: rest => readLines bound progress rest
      | rest => do
          let (((path, key), value), rest) ← takeAssignment (takeValue (nestingLimit - 1)) rest
          readLines bound (← progress.assign path key value) (← skipLineEnd rest)

/-- The text without a byte order mark at its front. -/
def skipByteOrderMark : List Char → List Char
  | c :: rest => if c.toNat = 0xFEFF then rest else c :: rest
  | [] => []

/-- The entries of a document; nothing if the text is no document. -/
def read (text : String) : Option (List (String × Value)) :=
  let chars := skipByteOrderMark text.toList
  (readLines (chars.length + 1) ⟨[], []⟩ chars).map finishEntries

end Stencil.Toml
