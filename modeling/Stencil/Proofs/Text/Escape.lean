import Mathlib.Data.List.Infix
import Stencil.Proofs.Text.Words
import Stencil.Text.Escape

/-!
# Entities, and reading them back

A character that markup keeps for itself is written as an entity: between an ampersand and a
semicolon stands its name.  Writing such characters one kind after the other, each throughout
the whole text, comes to the same as going through the text once, as long as no entity that is
already there holds a character still to be written.  The ampersand is therefore written first.
From text written so, the characters can be read back.

* `Entity`, `writeChar` — a character as it is written with a list of entities.
* `replaceInTurn_eq_flatMap` — one replacement after the other, and one character after the other.
* `readBack_flatMap_writeChar` — reading the entities back gives the text.
* `Escapes` — what holds of a way to escape text.
* `escapes_text_attribute` — it holds of the escaping of text content and of attribute values.
-/

namespace Stencil.Text

/-! ## Entities -/

/-- A character that markup keeps for itself, and the name it is written by. -/
structure Entity where
  char : Char
  name : List Char
  deriving DecidableEq

namespace Entity

/-- An entity as it stands in a text. -/
def written (entity : Entity) : List Char := '&' :: (entity.name ++ [';'])

def ampersand : Entity := ⟨'&', ['a', 'm', 'p']⟩

def less : Entity := ⟨'<', ['l', 't']⟩

def greater : Entity := ⟨'>', ['g', 't']⟩

def quote : Entity := ⟨'"', ['q', 'u', 'o', 't']⟩

/-- The entities in text content, in the order in which they are put in. -/
def ofText : List Entity := [ampersand, less, greater]

/-- The entities in attribute values, in the order in which they are put in. -/
def ofAttribute : List Entity := ofText ++ [quote]

theorem ofText_subset : ofText ⊆ ofAttribute := List.subset_append_left ofText [quote]

end Entity

/-! ## Writing a character -/

/-- A character as it is written with the entities of a list. -/
def writeChar (entities : List Entity) (c : Char) : List Char :=
  match entities.find? (fun entity => entity.char == c) with
  | some entity => entity.written
  | none => [c]

variable {entities : List Entity} {c : Char}

/-- A character is written as an entity that stands for it, or as itself if there is none. -/
theorem writeChar_cases (entities : List Entity) (c : Char) :
    (∃ entity ∈ entities, entity.char = c ∧ writeChar entities c = entity.written) ∨
      (∀ entity ∈ entities, entity.char ≠ c) ∧ writeChar entities c = [c] := by
  unfold writeChar
  cases hfind : entities.find? (fun entity => entity.char == c) with
  | none => exact .inr ⟨by simpa using hfind, rfl⟩
  | some entity =>
    have hchar : entity.char = c := by simpa using List.find?_some hfind
    exact .inl ⟨entity, List.mem_of_find?_eq_some hfind, hchar, rfl⟩

theorem writeChar_of_forall_ne (h : ∀ entity ∈ entities, entity.char ≠ c) :
    writeChar entities c = [c] := by
  rcases writeChar_cases entities c with ⟨entity, hmem, hchar, -⟩ | ⟨-, hwrite⟩
  · exact absurd hchar (h entity hmem)
  · exact hwrite

theorem writeChar_cons (entity : Entity) (entities : List Entity) (c : Char) :
    writeChar (entity :: entities) c =
      if c = entity.char then entity.written else writeChar entities c := by
  unfold writeChar
  by_cases h : c = entity.char
  · rw [if_pos h, List.find?_cons_of_pos (by simpa using h.symm)]
  · rw [if_neg h, List.find?_cons_of_neg (by simpa using Ne.symm h)]

/-- An entity for another character does not matter. -/
theorem writeChar_concat_of_ne {entity : Entity} (h : entity.char ≠ c) :
    writeChar (entities ++ [entity]) c = writeChar entities c := by
  unfold writeChar
  rw [List.find?_append, List.find?_cons_of_neg (by simpa using h), List.find?_nil, Option.or_none]

/-- In text content, a character is written with the entities of text content. -/
theorem escapeTextChar_eq : escapeTextChar = writeChar Entity.ofText := by
  funext c
  unfold escapeTextChar
  split
  · rfl
  · rfl
  · rfl
  · rename_i hampersand hless hgreater
    rw [writeChar_of_forall_ne]
    simp [Entity.ofText, Entity.ampersand, Entity.less, Entity.greater, Ne.symm hampersand,
      Ne.symm hless, Ne.symm hgreater]

/-- In attribute values, a character is written with the entities of attribute values. -/
theorem escapeAttributeChar_eq : escapeAttributeChar = writeChar Entity.ofAttribute := by
  funext c
  unfold escapeAttributeChar
  split
  · rfl
  · rename_i hquote
    rw [escapeTextChar_eq, Entity.ofAttribute, writeChar_concat_of_ne (Ne.symm hquote)]

theorem toList_escapeText_eq (text : String) :
    (escapeText text).toList = text.toList.flatMap (writeChar Entity.ofText) := by
  rw [toList_escapeText, escapeTextChar_eq]

theorem toList_escapeAttribute_eq (text : String) :
    (escapeAttribute text).toList = text.toList.flatMap (writeChar Entity.ofAttribute) := by
  rw [toList_escapeAttribute, escapeAttributeChar_eq]

/-! ## One replacement after the other -/

/-- The text with a replacement for each occurrence of a character: what stands between the
occurrences, joined by the replacement. -/
def replaceAll (c : Char) (replacement text : List Char) : List Char :=
  replacement.intercalate (splitAt c text)

/-- The text after all characters of the first entity have been replaced, then those of the
second, and so on. -/
def replaceInTurn (entities : List Entity) (text : List Char) : List Char :=
  entities.foldl (fun text entity => replaceAll entity.char entity.written text) text

/-- Replacing a character goes through the text character by character. -/
theorem replaceAll_eq_flatMap (c : Char) (replacement text : List Char) :
    replaceAll c replacement text = text.flatMap fun d => if d = c then replacement else [d] := by
  unfold replaceAll
  induction text with
  | nil => rfl
  | cons d rest ih =>
    obtain ⟨piece, pieces, hsplit⟩ := List.exists_cons_of_ne_nil (splitAt_ne_nil c rest)
    rw [List.flatMap_cons, ← ih, splitAt, hsplit]
    by_cases hd : d = c
    · rw [if_pos hd, if_pos hd, List.intercalate_cons_cons, List.nil_append]
    · rw [if_neg hd, if_neg hd]
      cases pieces <;> simp

/-- Text without characters to write as entities is written as it is. -/
theorem flatMap_writeChar_of_forall_ne {text : List Char}
    (h : ∀ c ∈ text, ∀ entity ∈ entities, entity.char ≠ c) :
    text.flatMap (writeChar entities) = text := by
  induction text with
  | nil => rfl
  | cons c rest ih =>
    obtain ⟨hc, hrest⟩ := List.forall_mem_cons.mp h
    rw [List.flatMap_cons, writeChar_of_forall_ne hc, ih hrest, List.singleton_append]

/-- Replacing one character after the other is writing each character with its entity, if no
entity holds a character that is replaced later. -/
theorem replaceInTurn_eq_flatMap
    (hturn : entities.Pairwise fun entity later => later.char ∉ entity.written)
    (text : List Char) : replaceInTurn entities text = text.flatMap (writeChar entities) := by
  induction entities generalizing text with
  | nil => exact (flatMap_writeChar_of_forall_ne (by simp)).symm
  | cons entity rest ih =>
    obtain ⟨hentity, hrest⟩ := List.pairwise_cons.mp hturn
    have hkept : entity.written.flatMap (writeChar rest) = entity.written :=
      flatMap_writeChar_of_forall_ne fun c hc later hlater heq =>
        hentity later hlater (heq ▸ hc)
    have hchar : ∀ c, (if c = entity.char then entity.written else [c]).flatMap (writeChar rest) =
        writeChar (entity :: rest) c := by
      intro c
      rw [writeChar_cons]
      split
      · exact hkept
      · exact List.flatMap_singleton _ _
    calc replaceInTurn (entity :: rest) text
        = replaceInTurn rest (replaceAll entity.char entity.written text) := rfl
      _ = (text.flatMap fun c => if c = entity.char then entity.written else [c]).flatMap
            (writeChar rest) := by rw [ih hrest, replaceAll_eq_flatMap]
      _ = text.flatMap (writeChar (entity :: rest)) := by simp only [List.flatMap_assoc, hchar]

/-- The other way round, the ampersand of an entity is replaced once more. -/
example : replaceInTurn [.less, .ampersand] ['<'] = ['&', 'a', 'm', 'p', ';', 'l', 't', ';'] := by
  decide

/-! ## Reading entities back -/

/-- The text with each entity read as its character, from left to right. -/
def readBack : List Char → List Char
  | '&' :: 'a' :: 'm' :: 'p' :: ';' :: rest => '&' :: readBack rest
  | '&' :: 'l' :: 't' :: ';' :: rest => '<' :: readBack rest
  | '&' :: 'g' :: 't' :: ';' :: rest => '>' :: readBack rest
  | '&' :: 'q' :: 'u' :: 'o' :: 't' :: ';' :: rest => '"' :: readBack rest
  | c :: rest => c :: readBack rest
  | [] => []

theorem readBack_cons (hc : c ≠ '&') (rest : List Char) :
    readBack (c :: rest) = c :: readBack rest := by
  conv_lhs => unfold readBack
  split <;> simp_all

theorem readBack_written_append {entity : Entity} (hentity : entity ∈ Entity.ofAttribute)
    (rest : List Char) : readBack (entity.written ++ rest) = entity.char :: readBack rest := by
  have hcases : entity = .ampersand ∨ entity = .less ∨ entity = .greater ∨ entity = .quote := by
    simpa [Entity.ofAttribute, Entity.ofText] using hentity
  rcases hcases with rfl | rfl | rfl | rfl <;> rfl

/-- Reading the entities back gives the text, if the ampersand is written as one. -/
theorem readBack_flatMap_writeChar (hknown : entities ⊆ Entity.ofAttribute)
    (hampersand : Entity.ampersand ∈ entities) (text : List Char) :
    readBack (text.flatMap (writeChar entities)) = text := by
  induction text with
  | nil => rfl
  | cons c rest ih =>
    rw [List.flatMap_cons]
    rcases writeChar_cases entities c with ⟨entity, hmem, rfl, hwrite⟩ | ⟨hplain, hwrite⟩
    · rw [hwrite, readBack_written_append (hknown hmem), ih]
    · rw [hwrite, List.singleton_append, readBack_cons (Ne.symm (hplain _ hampersand)), ih]

/-- What is read is not read again. -/
example : readBack ['&', 'a', 'm', 'p', ';', 'l', 't', ';'] = ['&', 'l', 't', ';'] := by decide

/-! ## What stands in written text -/

/-- Of the characters that are written as entities, only the ampersand stands in one. -/
theorem Entity.char_notMem_written : ∀ entity ∈ ofAttribute, ∀ special ∈ ofAttribute,
    special.char ≠ '&' → special.char ∉ entity.written := by decide

/-- A character that is written as an entity is not found in written text, unless it is the
ampersand. -/
theorem notMem_flatMap_writeChar (hknown : entities ⊆ Entity.ofAttribute)
    (hc : c ∈ entities.map Entity.char) (hne : c ≠ '&') (text : List Char) :
    c ∉ text.flatMap (writeChar entities) := by
  obtain ⟨special, hspecial, rfl⟩ := List.mem_map.mp hc
  intro hmem
  obtain ⟨d, -, hd⟩ := List.mem_flatMap.mp hmem
  rcases writeChar_cases entities d with ⟨entity, hentity, -, hwrite⟩ | ⟨hplain, hwrite⟩
  · rw [hwrite] at hd
    exact Entity.char_notMem_written entity (hknown hentity) special (hknown hspecial) hne hd
  · -- A special character is not written as itself.
    rw [hwrite, List.mem_singleton] at hd
    exact hplain special hspecial hd

/-- A tail that starts with a character which the front does not have is behind the front. -/
theorem suffix_of_suffix_append {front tail rest : List Char} (hfront : c ∉ front)
    (h : c :: tail <:+ front ++ rest) : c :: tail <:+ rest := by
  induction front with
  | nil => exact h
  | cons d front ih =>
    obtain ⟨hd, hfront⟩ := not_or.mp (List.mem_cons.not.mp hfront)
    rcases List.suffix_cons_iff.mp h with heq | hsuffix
    · exact absurd (List.cons.inj heq).1 hd
    · exact ih hfront hsuffix

theorem Entity.ampersand_notMem_name : ∀ entity ∈ ofAttribute, '&' ∉ entity.name ++ [';'] := by
  decide

/-- Wherever there is an ampersand in written text, an entity begins. -/
theorem exists_written_prefix (hknown : entities ⊆ Entity.ofAttribute)
    (hampersand : Entity.ampersand ∈ entities) {text tail : List Char}
    (h : '&' :: tail <:+ text.flatMap (writeChar entities)) :
    ∃ entity ∈ entities, entity.written <+: '&' :: tail := by
  induction text with
  | nil => exact absurd (List.suffix_nil.mp h) (List.cons_ne_nil _ _)
  | cons c rest ih =>
    rw [List.flatMap_cons] at h
    rcases writeChar_cases entities c with ⟨entity, hmem, -, hwrite⟩ | ⟨hplain, hwrite⟩
    · rw [hwrite, Entity.written, List.cons_append] at h
      rcases List.suffix_cons_iff.mp h with heq | hbehind
      · exact ⟨entity, hmem, rest.flatMap (writeChar entities), heq.symm⟩
      · have hname := Entity.ampersand_notMem_name entity (hknown hmem)
        exact ih (suffix_of_suffix_append hname hbehind)
    · rw [hwrite] at h
      have hother : '&' ∉ [c] := List.mem_singleton.not.mpr (hplain _ hampersand)
      exact ih (suffix_of_suffix_append hother h)

/-! ## Escaping -/

/-- A text with its entities read back. -/
def unescape (text : String) : String := String.ofList (readBack text.toList)

/-- What holds of a way to escape text that writes characters as entities and so keeps some
characters out of it. -/
structure Escapes (entities : List Entity) (barred : List Char) (escape : String → String) :
    Prop where
  /-- The characters are replaced throughout the text, one after the other. -/
  inTurn : ∀ text, (escape text).toList = replaceInTurn entities text.toList
  /-- The parts of a text are escaped apart from each other. -/
  append : ∀ first second, escape (first ++ second) = escape first ++ escape second
  /-- Reading the entities back gives the text. -/
  unescape_escape : ∀ text, unescape (escape text) = text
  /-- No two texts are escaped alike. -/
  injective : Function.Injective escape
  /-- No character that is barred gets through. -/
  notMem : ∀ text, ∀ c ∈ barred, c ∉ (escape text).toList
  /-- Every ampersand begins one of the entities. -/
  ampersand : ∀ text tail, '&' :: tail <:+ (escape text).toList →
    ∃ entity ∈ entities, entity.written <+: '&' :: tail

/-- Writing the characters of a text with entities, the ampersand first, is a way to escape it. -/
theorem escapes_of_toList {barred : List Char} {escape : String → String}
    (hescape : ∀ text, (escape text).toList = text.toList.flatMap (writeChar entities))
    (hknown : entities ⊆ Entity.ofAttribute) (hampersand : Entity.ampersand ∈ entities)
    (hturn : entities.Pairwise fun entity later => later.char ∉ entity.written)
    (hbarred : barred = (entities.map Entity.char).filter (· ≠ '&')) :
    Escapes entities barred escape := by
  have hread : ∀ text, unescape (escape text) = text := by
    intro text
    rw [unescape, hescape, readBack_flatMap_writeChar hknown hampersand, String.ofList_toList]
  exact
    { inTurn := by
        intro text
        rw [hescape, replaceInTurn_eq_flatMap hturn]
      append := by
        intro first second
        rw [← String.toList_inj, String.toList_append, hescape, hescape, hescape,
          String.toList_append, List.flatMap_append]
      unescape_escape := hread
      injective := Function.LeftInverse.injective hread
      notMem := by
        intro text c hc
        rw [hbarred, List.mem_filter, decide_eq_true_iff] at hc
        rw [hescape]
        exact notMem_flatMap_writeChar hknown hc.1 hc.2 _
      ampersand := by
        intro text tail htail
        rw [hescape] at htail
        exact exists_written_prefix hknown hampersand htail }

/-- Text content and attribute values are escaped so that they can be read back.  Neither has
angle brackets left in it, attribute values have no quotes, and ampersands begin entities. -/
theorem escapes_text_attribute :
    Escapes Entity.ofText ['<', '>'] escapeText ∧
      Escapes Entity.ofAttribute ['<', '>', '"'] escapeAttribute := by
  constructor
  · exact escapes_of_toList toList_escapeText_eq Entity.ofText_subset
      (by decide) (by decide) (by decide)
  · exact escapes_of_toList toList_escapeAttribute_eq (List.Subset.refl _)
      (by decide) (by decide) (by decide)

end Stencil.Text
