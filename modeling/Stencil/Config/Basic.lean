import Stencil.Text.Words

/-!
# Render configuration

The settings that builders, interpretation and attachment share.

* `Config.isVoid` — the elements that are written without a closing tag.
-/

namespace Stencil

/-- The elements of HTML that never have contents. -/
def htmlVoidElements : List String :=
  ["area", "base", "br", "col", "embed", "hr", "img", "input", "link", "meta", "param",
    "source", "track", "wbr"]

/-- The settings of a rendering. -/
structure Config where
  /-- What the addresses of top-level frames start with. -/
  startId : String := ""
  /-- The tag a template is wrapped in when no tag is given. -/
  wrapTag : String := "div"
  /-- How deep partials may be nested. -/
  maxPartialDepth : Nat := 64
  /-- The elements written without a closing tag when they have no children. -/
  voidElements : List String := htmlVoidElements
  deriving DecidableEq, Repr

/-- Whether a tag is among void elements, without regard to case. -/
def isVoidTag (voidElements : List String) (tag : String) : Bool :=
  voidElements.any (Text.sameName · tag)

/-- Whether an element is written without a closing tag when it has no children. -/
def Config.isVoid (config : Config) (tag : String) : Bool :=
  isVoidTag config.voidElements tag

end Stencil
