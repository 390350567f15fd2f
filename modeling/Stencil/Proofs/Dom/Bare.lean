import Stencil.Proofs.Dom.Hollow

/-!
# Pieces that are written the same by both writers

Pieces can be written as markup, or made into a fragment that is written as markup.  The two
writers differ on widgets, and on void elements that hold pieces.

* `Piece.isBare` — no widgets, and nothing within void elements.
* `Piece.markupAll_eq_shown` — such pieces are written the same by both.
-/

namespace Stencil.Piece

variable {ω : Type}

mutual
/-- Whether there is no widget in a piece, and nothing in a void element in it. -/
def isBare (voids : List String) : Piece ω → Bool
  | .element tag _ (some children) => !isVoidTag voids tag && areBare voids children
  | .block _ (some children) => areBare voids children
  | .widget _ => false
  | _ => true
/-- Whether there is no widget in pieces, and nothing in a void element in them. -/
def areBare (voids : List String) : List (Piece ω) → Bool
  | [] => true
  | piece :: rest => piece.isBare voids && areBare voids rest
end

variable {voids : List String} {pieces : List (Piece ω)} {piece : Piece ω}

theorem areBare_iff :
    areBare voids pieces = true ↔ ∀ piece ∈ pieces, piece.isBare voids = true := by
  induction pieces with
  | nil => simp [areBare]
  | cons first rest ih => simp [areBare, ih]

/-- An element is bare if its children are, and if it has none in case it is void. -/
theorem isBare_element {tag : String} {attributes : List OutputAttribute}
    (hpieces : areBare voids pieces = true)
    (hvoid : isVoidTag voids tag = true → pieces = []) :
    (Piece.element tag attributes (childrenOf pieces)).isBare voids = true := by
  cases pieces with
  | nil => rfl
  | cons first rest =>
    have htag : isVoidTag voids tag = false := by
      cases htag : isVoidTag voids tag with
      | false => rfl
      | true => cases hvoid htag
    rw [childrenOf_cons, isBare, htag, hpieces]
    rfl

theorem isBare_block (kind : BlockKind) (hpieces : areBare voids pieces = true) :
    (Piece.block kind (childrenOf pieces)).isBare voids = true := by
  cases pieces with
  | nil => rfl
  | cons first rest =>
    rw [childrenOf_cons, isBare]
    exact hpieces

/-- What pieces are joined to is text or markup, and so it is bare. -/
theorem isBare_of_join? {last new joined : Piece ω} (h : join? last new = some joined) :
    joined.isBare voids = true := by
  unfold join? at h
  split at h
  · cases h
    rfl
  · cases h
    rfl
  · cases h

theorem areBare_pushJoined (hpieces : ∀ other ∈ pieces, other.isBare voids = true)
    (hpiece : piece.isBare voids = true) :
    ∀ other ∈ pushJoined join? pieces piece, other.isBare voids = true := by
  cases pieces with
  | nil =>
    intro other hother
    rw [List.mem_singleton.mp hother]
    exact hpiece
  | cons last earlier =>
    cases hjoin : join? last piece with
    | none => simpa [pushJoined, hjoin, hpiece] using hpieces
    | some joined =>
      have hearlier : ∀ other ∈ earlier, other.isBare voids = true :=
        fun other hother => hpieces other (List.mem_cons_of_mem _ hother)
      simpa [pushJoined, hjoin, isBare_of_join? hjoin] using hearlier

mutual
theorem hollows_of_isBare :
    ∀ (piece : Piece ω) (_ : piece.isBare voids = true),
      piece.widgetFree = true ∧ piece.hollows voids = 0
  | .text _, _ | .raw _, _ | .comment _, _ | .attr _, _ => ⟨rfl, rfl⟩
  | .element _ _ none, _ | .block _ none, _ => ⟨rfl, rfl⟩
  | .element tag attributes (some children), hbare => by
    rw [isBare, Bool.and_eq_true, Bool.not_eq_true'] at hbare
    obtain ⟨hfree, hnone⟩ := hollowsAll_of_areBare children hbare.2
    refine ⟨hfree, ?_⟩
    rw [hollows, hbare.1, hnone, Bool.false_and, if_neg Bool.false_ne_true]
  | .block kind (some children), hbare => hollowsAll_of_areBare children hbare
  | .widget _, hbare => by cases hbare
/-- No bare piece is a hollow element. -/
theorem hollowsAll_of_areBare :
    ∀ (pieces : List (Piece ω)) (_ : areBare voids pieces = true),
      widgetFreeAll pieces = true ∧ hollowsAll voids pieces = 0
  | [], _ => ⟨rfl, rfl⟩
  | piece :: rest, hbare => by
    rw [areBare, Bool.and_eq_true] at hbare
    obtain ⟨hfree, hnone⟩ := hollows_of_isBare piece hbare.1
    obtain ⟨hfrees, hnones⟩ := hollowsAll_of_areBare rest hbare.2
    rw [widgetFreeAll, hollowsAll, hfree, hfrees, hnone, hnones]
    exact ⟨rfl, rfl⟩
end

/-- Bare pieces are written the same as markup and as a fragment. -/
theorem markupAll_eq_shown (hole : ω → String) (nodes : ω → List Dom.Node)
    (hpieces : areBare voids pieces = true) :
    markupAll voids hole pieces = (shownAll voids nodes pieces).html := by
  obtain ⟨hfree, hnone⟩ := hollowsAll_of_areBare pieces hpieces
  exact markupAll_eq_shown_of_hollows hole nodes pieces hfree hnone

end Stencil.Piece
