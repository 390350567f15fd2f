/-!
# Escaping text for markup

Text content may not hold the characters that start tags and entities, and a
quoted attribute value may not hold its quote either.  Each such character is
written as an entity and every other one as itself, so escaping works character
by character.

* `escapeText_append` — escaping joins up.
-/

namespace Stencil.Text

/-- A character as it is written in text content. -/
def escapeTextChar : Char → List Char
  | '&' => ['&', 'a', 'm', 'p', ';']
  | '<' => ['&', 'l', 't', ';']
  | '>' => ['&', 'g', 't', ';']
  | c => [c]

/-- A character as it is written in a quoted attribute value. -/
def escapeAttributeChar : Char → List Char
  | '"' => ['&', 'q', 'u', 'o', 't', ';']
  | c => escapeTextChar c

/-- Text content, escaped. -/
def escapeText (text : String) : String :=
  String.ofList (text.toList.flatMap escapeTextChar)

/-- An attribute value, escaped. -/
def escapeAttribute (text : String) : String :=
  String.ofList (text.toList.flatMap escapeAttributeChar)

theorem toList_escapeText (text : String) :
    (escapeText text).toList = text.toList.flatMap escapeTextChar := by
  simp [escapeText]

theorem toList_escapeAttribute (text : String) :
    (escapeAttribute text).toList = text.toList.flatMap escapeAttributeChar := by
  simp [escapeAttribute]

theorem escapeText_append (a b : String) :
    escapeText (a ++ b) = escapeText a ++ escapeText b := by
  simp [escapeText, String.ofList_append]

end Stencil.Text
