import Mathlib.Logic.Basic
import Stencil.Text.Words

/-!
# The words of a text

The words of a text stand in it between white space.  Words with a single blank in front of,
between and behind them hold a word between blanks only if it is one of them: no blank belongs
to a word, so that nothing is found across two words, within a longer one or at an end.

* `IsWord`, `HasWord` — words, and where they stand in a text.
* `mem_words_iff` — the words of a text are those that stand in it.
* `words_append_cons` — a text is cut into words at each white space.
* `occursIn_padded_iff` — what is found between blanks among padded words.
* `splitAt_intercalate` — pieces joined by separators are told apart again.
-/

namespace Stencil.Text

/-- A word is not empty and holds no white space. -/
structure IsWord (word : List Char) : Prop where
  ne_nil : word ≠ []
  solid : ∀ c ∈ word, isWhiteSpace c = false

instance (word : List Char) : Decidable (IsWord word) :=
  decidable_of_iff (word ≠ [] ∧ word.any isWhiteSpace = false) <| by
    simp only [List.any_eq_false, Bool.not_eq_true]
    exact ⟨fun h => ⟨h.1, h.2⟩, fun h => ⟨h.ne_nil, h.solid⟩⟩

/-- A text ends with white space, if it does not end at once. -/
def EndsOpen (text : List Char) : Prop := ∀ c, text.getLast? = some c → isWhiteSpace c = true

/-- A text starts with white space, if it does not end at once. -/
def StartsOpen (text : List Char) : Prop := ∀ c, text.head? = some c → isWhiteSpace c = true

/-- A word stands in a text, with white space or an end of the text on either side. -/
def HasWord (text word : List Char) : Prop :=
  IsWord word ∧ ∃ before after, text = before ++ word ++ after ∧ EndsOpen before ∧ StartsOpen after

variable {text word : List Char} {c : Char}

theorem endsOpen_nil : EndsOpen [] := fun _ h => by cases h

theorem startsOpen_nil : StartsOpen [] := fun _ h => by cases h

theorem startsOpen_cons (hc : isWhiteSpace c = true) (rest : List Char) :
    StartsOpen (c :: rest) := by
  intro d hd
  cases hd
  exact hc

theorem endsOpen_concat (hc : isWhiteSpace c = true) (front : List Char) :
    EndsOpen (front ++ [c]) := by
  intro d hd
  rw [List.getLast?_concat] at hd
  cases hd
  exact hc

/-- A text that ends open is empty or ends with white space. -/
theorem EndsOpen.cases (h : EndsOpen text) :
    text = [] ∨ ∃ front c, text = front ++ [c] ∧ isWhiteSpace c = true := by
  rcases List.eq_nil_or_concat text with rfl | ⟨front, c, rfl⟩
  · exact .inl rfl
  · exact .inr ⟨front, c, List.concat_eq_append, h c (by simp)⟩

theorem StartsOpen.cases (h : StartsOpen text) :
    text = [] ∨ ∃ c rest, text = c :: rest ∧ isWhiteSpace c = true := by
  cases text with
  | nil => exact .inl rfl
  | cons c rest => exact .inr ⟨c, rest, rfl, h c rfl⟩

/-- What stands behind white space stands in the whole text. -/
theorem HasWord.behind (h : HasWord text word) (hc : isWhiteSpace c = true) (front : List Char) :
    HasWord (front ++ c :: text) word := by
  obtain ⟨hword, before, after, rfl, hbefore, hafter⟩ := h
  refine ⟨hword, front ++ c :: before, after, by simp, ?_, hafter⟩
  rcases hbefore.cases with rfl | ⟨inner, d, rfl, hd⟩
  · exact endsOpen_concat hc front
  · rw [← List.cons_append, ← List.append_assoc]
    exact endsOpen_concat hd _

/-! ## Cutting a text into words -/

/-- A text is cut at white space, whatever word it starts with. -/
theorem wordsFrom_append_cons (hc : isWhiteSpace c = true) (rest : List Char) :
    ∀ (text word : List Char),
      wordsFrom word (text ++ c :: rest) = wordsFrom word text ++ words rest
  | [], word => by
    simp only [List.nil_append, wordsFrom, hc, if_true]
    cases word <;> rfl
  | d :: text, word => by
    rw [List.cons_append, wordsFrom, wordsFrom]
    by_cases hd : isWhiteSpace d = true
    · rw [if_pos hd, if_pos hd, wordsFrom_append_cons hc rest text []]
      split <;> rfl
    · rw [if_neg hd, if_neg hd, wordsFrom_append_cons hc rest text (d :: word)]

/-- A text is cut into words at white space. -/
theorem words_append_cons (hc : isWhiteSpace c = true) (text rest : List Char) :
    words (text ++ c :: rest) = words text ++ words rest :=
  wordsFrom_append_cons hc rest text []

/-- White space in front of a text belongs to no word. -/
theorem words_cons (hc : isWhiteSpace c = true) (text : List Char) :
    words (c :: text) = words text :=
  words_append_cons hc [] text

theorem wordsFrom_solid (hsolid : ∀ c ∈ text, isWhiteSpace c = false)
    (hne : word.reverse ++ text ≠ []) : wordsFrom word text = [word.reverse ++ text] := by
  induction text generalizing word with
  | nil =>
    rw [List.append_nil] at hne ⊢
    rw [wordsFrom, if_neg (by simpa using hne)]
  | cons d rest ih =>
    obtain ⟨hd, hrest⟩ := List.forall_mem_cons.mp hsolid
    rw [wordsFrom, if_neg (Bool.not_eq_true _ ▸ hd), ih hrest (by simp)]
    simp

/-- A word is its own only word. -/
theorem IsWord.words_eq (h : IsWord word) : words word = [word] :=
  wordsFrom_solid h.solid h.ne_nil

theorem hasWord_of_mem_wordsFrom (hsolid : ∀ c ∈ word, isWhiteSpace c = false)
    {found : List Char} (hfound : found ∈ wordsFrom word text) :
    HasWord (word.reverse ++ text) found := by
  induction text generalizing word with
  | nil =>
    rw [wordsFrom] at hfound
    split at hfound
    · cases hfound
    · rename_i hne
      rw [List.mem_singleton.mp hfound]
      have hword : IsWord word.reverse :=
        ⟨by simpa using hne, fun c hc => hsolid c (List.mem_reverse.mp hc)⟩
      exact ⟨hword, [], [], by simp, endsOpen_nil, startsOpen_nil⟩
  | cons d rest ih =>
    rw [wordsFrom] at hfound
    by_cases hd : isWhiteSpace d = true
    · rw [if_pos hd] at hfound
      have hrest : found ∈ wordsFrom [] rest → HasWord (word.reverse ++ d :: rest) found := by
        intro hlater
        have hbehind : HasWord rest found := ih (fun _ hc => absurd hc List.not_mem_nil) hlater
        exact hbehind.behind hd word.reverse
      split at hfound
      · exact hrest hfound
      · rename_i hne
        rcases List.mem_cons.mp hfound with rfl | hlater
        · -- The word that the text starts with ends here.
          have hword : IsWord word.reverse :=
            ⟨by simpa using hne, fun c hc => hsolid c (List.mem_reverse.mp hc)⟩
          exact ⟨hword, [], d :: rest, by simp, endsOpen_nil, startsOpen_cons hd rest⟩
        · exact hrest hlater
    · rw [if_neg hd] at hfound
      have hmore : ∀ c ∈ d :: word, isWhiteSpace c = false :=
        List.forall_mem_cons.mpr ⟨Bool.eq_false_iff.mpr hd, hsolid⟩
      simpa using ih hmore hfound

/-- The words of a text are those that stand in it between white space. -/
theorem mem_words_iff : word ∈ words text ↔ HasWord text word := by
  constructor
  · exact fun h => hasWord_of_mem_wordsFrom (by simp) h
  · rintro ⟨hword, before, after, rfl, hbefore, hafter⟩
    have hrest : word ∈ words (word ++ after) := by
      rcases hafter.cases with rfl | ⟨c, rest, rfl, hc⟩
      · rw [List.append_nil, hword.words_eq]
        exact List.mem_singleton_self word
      · rw [words_append_cons hc, hword.words_eq]
        exact List.mem_cons_self
    rcases hbefore.cases with rfl | ⟨front, c, rfl, hc⟩
    · exact hrest
    · rw [List.append_assoc, List.append_assoc, List.singleton_append, words_append_cons hc]
      exact List.mem_append_right _ hrest

/-! ## Padded words -/

/-- Words with a single blank in front of, between and behind them. -/
def padded (words : List (List Char)) : List Char :=
  [' '] ++ [' '].intercalate words ++ [' ']

/-- Each padded word has a blank behind it. -/
theorem padded_cons (word : List Char) (rest : List (List Char)) :
    padded (word :: rest) = ' ' :: (word :: rest).flatMap (· ++ [' ']) := by
  have hbehind : ∀ (first : List Char) (others : List (List Char)),
      [' '].intercalate (first :: others) ++ [' '] =
        (first :: others).flatMap (· ++ [' ']) := by
    intro first others
    induction others generalizing first with
    | nil => simp
    | cons second others ih =>
      rw [List.intercalate_cons_cons, List.append_assoc, ih, List.flatMap_cons]
      simp
  rw [padded, List.append_assoc, hbehind, List.singleton_append]

theorem isWhiteSpace_blank : isWhiteSpace ' ' = true := by decide

/-- Padding words and cutting into words again gives the words. -/
theorem words_padded {list : List (List Char)} (hlist : ∀ word ∈ list, IsWord word) :
    words (padded list) = list := by
  cases list with
  | nil => decide
  | cons first rest =>
    rw [padded_cons, words_cons isWhiteSpace_blank]
    generalize first :: rest = list at hlist
    induction list with
    | nil => rfl
    | cons word others ih =>
      obtain ⟨hword, hothers⟩ := List.forall_mem_cons.mp hlist
      rw [List.flatMap_cons, List.append_assoc, List.singleton_append,
        words_append_cons isWhiteSpace_blank, hword.words_eq, ih hothers, List.singleton_append]

/-- Among padded words, a word is found between blanks just if it is one of them. -/
theorem occursIn_padded_iff {list : List (List Char)} (hlist : ∀ word ∈ list, IsWord word)
    (hword : IsWord word) :
    occursIn ([' '] ++ word ++ [' ']) (padded list) = true ↔ word ∈ list := by
  rw [occursIn_iff]
  constructor
  · rintro ⟨before, after, htext⟩
    rw [← words_padded hlist, htext, mem_words_iff]
    exact ⟨hword, before ++ [' '], ' ' :: after, by simp, endsOpen_concat isWhiteSpace_blank _,
      startsOpen_cons isWhiteSpace_blank _⟩
  · intro hmem
    obtain ⟨front, back, rfl⟩ := List.append_of_mem hmem
    -- The blank in front of the word is the first of all, or stands behind the word before.
    obtain ⟨before, hbefore⟩ : ∃ before, ' ' :: front.flatMap (· ++ [' ']) = before ++ [' '] := by
      rcases List.eq_nil_or_concat front with rfl | ⟨others, last, rfl⟩
      · exact ⟨[], rfl⟩
      · exact ⟨' ' :: (others.flatMap (· ++ [' ']) ++ last), by simp⟩
    refine ⟨before, back.flatMap (· ++ [' ']), ?_⟩
    have hpadded : padded (front ++ word :: back) =
        ' ' :: (front ++ word :: back).flatMap (· ++ [' ']) := by
      cases front with
      | nil => exact padded_cons _ _
      | cons first rest => exact padded_cons _ _
    rw [hpadded, List.flatMap_append, List.flatMap_cons, ← List.cons_append, hbefore]
    simp

/-! ## Cutting a text at separators -/

section Separators

variable {separator : Char} {piece : List Char} {pieces : List (List Char)}

/-- There is at least one piece. -/
theorem splitAt_ne_nil (separator : Char) (text : List Char) : splitAt separator text ≠ [] := by
  cases text with
  | nil => exact List.cons_ne_nil _ _
  | cons c rest =>
    rw [splitAt]
    split
    · exact List.cons_ne_nil _ _
    · split <;> exact List.cons_ne_nil _ _

/-- A text without separators is a single piece. -/
theorem splitAt_of_notMem (hpiece : separator ∉ piece) : splitAt separator piece = [piece] := by
  induction piece with
  | nil => rfl
  | cons c rest ih =>
    simp only [List.mem_cons, not_or] at hpiece
    rw [splitAt, if_neg (Ne.symm hpiece.1), ih hpiece.2]

/-- The first piece of a text ends at its first separator. -/
theorem splitAt_append_cons (hpiece : separator ∉ piece) (text : List Char) :
    splitAt separator (piece ++ separator :: text) = piece :: splitAt separator text := by
  induction piece with
  | nil => rw [List.nil_append, splitAt, if_pos rfl]
  | cons c rest ih =>
    simp only [List.mem_cons, not_or] at hpiece
    rw [List.cons_append, splitAt, if_neg (Ne.symm hpiece.1), ih hpiece.2]

/-- Pieces that are joined by separators are told apart again. -/
theorem splitAt_intercalate (hne : pieces ≠ []) (hpieces : ∀ piece ∈ pieces, separator ∉ piece) :
    splitAt separator ([separator].intercalate pieces) = pieces := by
  induction pieces with
  | nil => exact absurd rfl hne
  | cons piece rest ih =>
    obtain ⟨hpiece, hrest⟩ := List.forall_mem_cons.mp hpieces
    cases rest with
    | nil => rw [List.intercalate_singleton, splitAt_of_notMem hpiece]
    | cons second others =>
      rw [List.intercalate_cons_cons, List.append_assoc, List.singleton_append,
        splitAt_append_cons hpiece, ih (List.cons_ne_nil _ _) hrest]

end Separators

end Stencil.Text
