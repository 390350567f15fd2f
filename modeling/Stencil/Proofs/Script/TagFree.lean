import Stencil.Proofs.Script.Compositional
import Stencil.Proofs.Script.Contents

/-!
# Graphs without closing tags

Only a closing tag in a graph becomes a closing tag of its script.  So where a
rendering can get to none, its script has none, whatever the data are.

* `PartialBody.walk_tagFree` — the script of a body from which no closing tag is reached.
-/

namespace Stencil

/-- Whether a node is no closing tag. -/
def Node.isNoTag : Node → Bool
  | .closingTag _ _ => false
  | _ => true

/-- The script of a walk holds no closing tag, whatever scopes the walk starts in. -/
def Walk.TagFree (walk : Walk) : Prop := ∀ scopes, Script.tagFree (walk.steps scopes) = true

/-- Scripts have no closing tags if their parts have none. -/
theorem Script.compositional_tagFree :
    Script.Compositional Node.isNoTag (Script.tagFree · = true) where
  nil := rfl
  append := by
    intro first second hfirst hsecond
    rw [tagFree_append, hfirst, hsecond, Bool.and_self]
  frame := by
    intro kind name body hbody
    rw [tagFree, Directive.tagFree, hbody, tagFree, Bool.and_self]
  warning := fun _ => rfl
  text := fun _ => rfl
  comment := fun _ => rfl
  triple := fun _ _ _ => rfl
  closingTag := fun _ _ htest => by cases htest
  widget := fun _ _ => rfl

/-- Where no closing tag can be reached from a body, its script has none. -/
theorem PartialBody.walk_tagFree (registry : Partials) (limit left : Nat) (body : PartialBody)
    (hevery : ∀ reached, body.Reaches registry reached →
      Graph.every Node.isNoTag Node.isNoTag reached.graph = true) :
    (body.walk registry limit left).TagFree :=
  Script.compositional_tagFree.steps_walk registry limit left body hevery

end Stencil
