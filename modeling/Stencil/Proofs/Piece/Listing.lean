import Stencil.Proofs.Piece.Join

/-!
# Pieces listed one after the other

The pre-order listing of pieces has an entry for each element and each block, in front of
the entries of its children, and one for each other piece.  Two listings are the same in
runs if it makes no difference which of them is joined to what stands before, so texts may
be cut up differently in them, and markups.

* `Piece.listing`, `Piece.listingAll` — pieces listed in pre-order, without their children.
* `Piece.SameRuns` — listings that differ only in how runs of text and markup are cut up.
* `Piece.sameRuns_pushJoined` — joining pieces leaves their listing the same in runs.
-/

namespace Stencil.Piece

variable {ω : Type}

/-! ## Listings -/

mutual
/-- The entries of a piece: the piece without its children, and the entries of its
children. -/
def listing : Piece ω → List (Piece ω)
  | .element tag attributes (some children) =>
      .element tag attributes none :: listingAll children
  | .block kind (some children) => .block kind none :: listingAll children
  | piece => [piece]
/-- The entries of pieces, one after the other. -/
def listingAll : List (Piece ω) → List (Piece ω)
  | [] => []
  | piece :: rest => piece.listing ++ listingAll rest
end

theorem listingAll_append (first second : List (Piece ω)) :
    listingAll (first ++ second) = listingAll first ++ listingAll second := by
  induction first with
  | nil => rfl
  | cons piece rest ih => rw [List.cons_append, listingAll, listingAll, ih, List.append_assoc]

theorem listingAll_concat (earlier : List (Piece ω)) (last : Piece ω) :
    listingAll (last :: earlier).reverse = listingAll earlier.reverse ++ last.listing := by
  rw [List.reverse_cons, listingAll_append, listingAll, listingAll, List.append_nil]

/-- The entries of an element are the element itself and those of its children. -/
theorem listing_element (tag : String) (attributes : List OutputAttribute)
    (children : List (Piece ω)) :
    (Piece.element tag attributes (childrenOf children)).listing =
      .element tag attributes none :: listingAll children := by
  cases children with
  | nil => rfl
  | cons first rest => rw [childrenOf_cons, listing]

theorem listing_block (kind : BlockKind) (children : List (Piece ω)) :
    (Piece.block kind (childrenOf children)).listing =
      .block kind none :: listingAll children := by
  cases children with
  | nil => rfl
  | cons first rest => rw [childrenOf_cons, listing]

/-- Only pieces that are their own listing are ever joined. -/
theorem listing_of_join? {last new joined : Piece ω} (h : join? last new = some joined) :
    last.listing = [last] ∧ new.listing = [new] ∧ joined.listing = [joined] := by
  unfold join? at h
  split at h
  · cases h
    exact ⟨rfl, rfl, rfl⟩
  · cases h
    exact ⟨rfl, rfl, rfl⟩
  · cases h

/-! ## Runs of text and of markup -/

/-- Putting in two pieces that can be joined is putting in what they are joined to. -/
theorem pushJoined_pushJoined {last new joined : Piece ω} (h : join? last new = some joined)
    (before : List (Piece ω)) :
    pushJoined join? (pushJoined join? before last) new = pushJoined join? before joined := by
  unfold join? at h
  split at h
  · cases h
    cases before with
    | nil => rfl
    | cons piece earlier => cases piece <;> simp [pushJoined, join?, String.append_assoc]
  · cases h
    cases before with
    | nil => rfl
    | cons piece earlier => cases piece <;> simp [pushJoined, join?, String.append_assoc]
  · cases h

/-- It makes no difference which of two listings is put in, whatever stands before. -/
def SameRuns (first second : List (Piece ω)) : Prop :=
  ∀ before, pushAllJoined join? before first = pushAllJoined join? before second

namespace SameRuns

variable {first second third first' second' : List (Piece ω)}

theorem refl (entries : List (Piece ω)) : SameRuns entries entries := fun _ => rfl

theorem trans (h : SameRuns first second) (h' : SameRuns second third) : SameRuns first third :=
  fun before => (h before).trans (h' before)

theorem append (h : SameRuns first first') (h' : SameRuns second second') :
    SameRuns (first ++ second) (first' ++ second') := by
  intro before
  rw [pushAllJoined_append, pushAllJoined_append, h before, h' _]

/-- Listings that are the same in runs are the same once their runs are joined. -/
theorem merged_eq (h : SameRuns first second) : merged first = merged second :=
  congrArg List.reverse (h [])

end SameRuns

theorem sameRuns_join? {last new joined : Piece ω} (h : join? last new = some joined) :
    SameRuns [joined] [last, new] :=
  fun before => (pushJoined_pushJoined h before).symm

/-- Putting a piece behind others adds its entries, and at most joins the first of them to
the last one before. -/
theorem sameRuns_pushJoined (pieces : List (Piece ω)) (new : Piece ω) :
    SameRuns (listingAll (pushJoined join? pieces new).reverse)
      (listingAll pieces.reverse ++ new.listing) := by
  cases pieces with
  | nil =>
    rw [pushJoined_nil, listingAll_concat]
    exact .refl _
  | cons last earlier =>
    cases hjoin : join? last new with
    | none =>
      simp only [pushJoined, hjoin]
      rw [listingAll_concat]
      exact .refl _
    | some joined =>
      obtain ⟨hlast, hnew, hjoined⟩ := listing_of_join? hjoin
      simp only [pushJoined, hjoin]
      rw [listingAll_concat, listingAll_concat, hlast, hnew, hjoined, List.append_assoc]
      exact (SameRuns.refl _).append (sameRuns_join? hjoin)

end Stencil.Piece
