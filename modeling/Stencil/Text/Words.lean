/-!
# Words, separators and letters

Cutting a text at a separator or at white space, searching it for another text,
and comparing names without regard to the case of the letters A to Z.

* `words` — the longest pieces without white space.
* `splitAt` — the pieces between separators, empty ones included.
* `occursIn` — whether one text stands within another.
* `sameName` — equality up to the case of ASCII letters.
-/

namespace Stencil.Text

/-! ## White space -/

/-- The characters with the Unicode property White_Space. -/
def isWhiteSpace (c : Char) : Bool :=
  let n := c.toNat
  (9 ≤ n && n ≤ 13) || n = 0x20 || n = 0x85 || n = 0xA0 || n = 0x1680 ||
    (0x2000 ≤ n && n ≤ 0x200A) || n = 0x2028 || n = 0x2029 || n = 0x202F ||
    n = 0x205F || n = 0x3000

/-- The words of a text whose current word starts with `word` (last character first). -/
def wordsFrom (word : List Char) : List Char → List (List Char)
  | [] => if word.isEmpty then [] else [word.reverse]
  | c :: rest =>
      if isWhiteSpace c then
        if word.isEmpty then wordsFrom [] rest else word.reverse :: wordsFrom [] rest
      else wordsFrom (c :: word) rest

/-- The words of a text: the longest pieces without white space. -/
def words (text : List Char) : List (List Char) := wordsFrom [] text

/-! ## Separators -/

/-- The pieces of a text between the separators; one more than there are separators. -/
def splitAt (separator : Char) : List Char → List (List Char)
  | [] => [[]]
  | c :: rest =>
      if c = separator then [] :: splitAt separator rest
      else
        match splitAt separator rest with
        | [] => [[c]]
        | piece :: pieces => (c :: piece) :: pieces

/-! ## Searching -/

/-- Whether the first text stands somewhere within the second. -/
def occursIn (part : List Char) : List Char → Bool
  | [] => part.isEmpty
  | c :: rest => part.isPrefixOf (c :: rest) || occursIn part rest

theorem occursIn_iff (part text : List Char) :
    occursIn part text = true ↔ ∃ before after, text = before ++ part ++ after := by
  induction text with
  | nil =>
      simp only [occursIn, List.isEmpty_iff]
      constructor
      · intro h
        exact ⟨[], [], by simp [h]⟩
      · rintro ⟨before, after, h⟩
        have := congrArg List.length h
        simp only [List.length_nil, List.length_append] at this
        exact List.length_eq_zero_iff.1 (by omega)
  | cons c rest ih =>
      simp only [occursIn, Bool.or_eq_true, List.isPrefixOf_iff_prefix, ih]
      constructor
      · rintro (⟨after, h⟩ | ⟨before, after, h⟩)
        · exact ⟨[], after, by simp [h]⟩
        · exact ⟨c :: before, after, by simp [h]⟩
      · rintro ⟨before, after, h⟩
        cases before with
        | nil => exact .inl ⟨after, by simpa using h.symm⟩
        | cons d before =>
            simp only [List.cons_append, List.cons.injEq] at h
            exact .inr ⟨before, after, h.2⟩

/-! ## Names without regard to case -/

/-- Whether two names are equal but for the case of the letters A to Z. -/
def sameName (a b : String) : Bool :=
  a.toList.map Char.toLower == b.toList.map Char.toLower

end Stencil.Text
