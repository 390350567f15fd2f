import Stencil.Proofs.Assembly.Parallel
import Stencil.Proofs.Json.Resembles
import Stencil.Proofs.Script.Compositional

/-!
# Scripts for data that resemble each other

Where all values are shown as text, the data that a graph is rendered against decide which of
its parts are shown, and how often, and what is said in its texts.  For data that differ in
what their strings say the first is the same, so the scripts differ only in what their texts
say.

* `Piece.SameButText` — pieces that are the same but for what a text says.
* `PartialBody.walk_uniform` — the scripts for two data that resemble each other.
-/

namespace Stencil

/-- Whether a node is no value that is shown as markup. -/
def Node.isNoTriple : Node → Bool
  | .triple _ => false
  | _ => true

/-- Two pieces that are the same, or both text. -/
inductive Piece.SameButText : Piece Widget → Piece Widget → Prop
  | same (piece : Piece Widget) : SameButText piece piece
  | text (s s' : String) : SameButText (.text s) (.text s')

/-- Two scripts that are the same but for what their texts say. -/
abbrev Script.SameButText : Script → Script → Prop :=
  Script.Parallel Eq Piece.SameButText

/-- In scopes that resemble each other, the walk goes the same way. -/
def Walk.Uniform (walk : Walk) : Prop :=
  walk.Steady ∧ ∀ scopes scopes', scopes.Resemble scopes' →
    Script.SameButText (walk.steps scopes) (walk.steps scopes')

theorem Script.SameButText.flatMap {walk : Walk} (h : walk.Uniform) {around around' : List Scopes}
    (haround : List.Forall₂ Scopes.Resemble around around') :
    Script.SameButText (around.flatMap walk.steps) (around'.flatMap walk.steps) := by
  induction haround with
  | nil => exact .nil
  | cons hscopes _ ih =>
    rw [List.flatMap_cons, List.flatMap_cons]
    exact (h.2 _ _ hscopes).append ih

/-- Walks that show no value as markup are uniform if their parts are. -/
theorem Walk.compositional_uniform : Walk.Compositional Node.isNoTriple Walk.Uniform where
  skip := ⟨.skip, fun _ _ _ => .nil⟩
  seq := by
    intro first second hfirst hsecond
    refine ⟨.seq hfirst.1 hsecond.1, fun scopes scopes' h => ?_⟩
    rw [hfirst.1.steps_seq, hfirst.1.steps_seq]
    exact (hfirst.2 _ _ h).append (hsecond.2 _ _ h)
  inFrame := fun kind name _ hbody =>
    ⟨.inFrame kind name hbody.1, fun scopes scopes' h =>
      .frame kind name (hbody.2 scopes scopes' h) .nil⟩
  sectionContents := by
    intro path body hbody
    refine ⟨.sectionContents path hbody.1, fun scopes scopes' h => ?_⟩
    rw [hbody.1.steps_sectionContents, hbody.1.steps_sectionContents]
    exact .flatMap hbody (Scopes.within_resemble h path)
  unlessContents := by
    intro path body hbody
    refine ⟨.unlessContents path hbody.1, fun scopes scopes' h => ?_⟩
    rw [hbody.1.steps_unlessContents, hbody.1.steps_unlessContents]
    exact .flatMap hbody (Scopes.withinUnless_resemble h path)
  warning := fun w => ⟨.emit _, fun _ _ _ => .warning w .nil⟩
  text := fun s => ⟨.emit _, fun _ _ _ => .leaf (.same (.text s)) .nil⟩
  comment := fun s => ⟨.emit _, fun _ _ _ => .leaf (.same (.comment s)) .nil⟩
  interpolator := fun path => ⟨.emitText _ path, fun _ _ _ => .leaf (.text _ _) .nil⟩
  triple := fun _ htest => by cases htest
  closingTag := fun id tag _ => ⟨.emit _, fun _ _ _ => .closingTag (.refl _) .nil⟩
  widget := fun w _ => ⟨.emit _, fun _ _ _ => .leaf (.same (.widget w)) .nil⟩

/-- The scripts of a body for data that resemble each other are the same but for what their
texts say, if no value that can be reached is shown as markup. -/
theorem PartialBody.walk_uniform (registry : Partials) (limit left : Nat) (body : PartialBody)
    (hevery : ∀ reached, body.Reaches registry reached →
      Graph.every Node.isNoTriple Node.isNoTriple reached.graph = true) :
    (body.walk registry limit left).Uniform :=
  PartialBody.walk_of_compositional Walk.compositional_uniform registry limit left body hevery

end Stencil
