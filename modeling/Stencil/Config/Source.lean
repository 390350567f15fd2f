import Stencil.Config.Basic
import Stencil.Keyed
import Stencil.Toml.Reader

/-!
# Configuration files

A configuration file is a TOML document whose table `render` holds the settings.
What it leaves out keeps its default, and what it does not know it ignores.

* `Config.ofToml?` — the configuration that a document gives.
-/

namespace Stencil

open Toml

/-- The settings that a document gives. -/
structure Settings where
  startId : Option String
  wrapTag : Option String
  maxPartialDepth : Option Nat
  voidElements : Option (List String)

namespace Settings

/-- No settings. -/
def none : Settings := ⟨.none, .none, .none, .none⟩

/-- A setting that is text. -/
def textOf? : Value → Option String
  | .string text => some text
  | _ => .none

/-- A setting that is a number. -/
def countOf? : Value → Option Nat
  | .integer value => value.toNat?
  | _ => .none

/-- A setting that is a list of texts. -/
def textsOf? : Value → Option (List String)
  | .array items => items.mapM textOf?
  | _ => .none

/-- A setting that may be left out, but not be of another type. -/
def optional {α : Type} (read : Value → Option α) : Option Value → Option (Option α)
  | .none => some .none
  | some value => (read value).map some

/-- The settings of the value of `render`: a table, or a list of the four settings in
order.  A date stands for a table without them. -/
def ofValue? : Value → Option Settings
  | .table entries => do
      return { startId := ← optional textOf? (Keyed.get? "start_id" entries)
               wrapTag := ← optional textOf? (Keyed.get? "wrap_tag" entries)
               maxPartialDepth := ← optional countOf? (Keyed.get? "max_partial_depth" entries)
               voidElements := ← optional textsOf? (Keyed.get? "void_elements" entries) }
  | .array (startId :: wrapTag :: depth :: voids :: _) => do
      return { startId := ← textOf? startId
               wrapTag := ← textOf? wrapTag
               maxPartialDepth := ← countOf? depth
               voidElements := ← textsOf? voids }
  | .moment _ => some none
  | _ => .none

/-- The settings of a document. -/
def ofEntries? (entries : List (String × Value)) : Option Settings :=
  match Keyed.get? "render" entries with
  | some value => ofValue? value
  | .none => some none

/-- A configuration changed by settings. -/
def apply (settings : Settings) (config : Config) : Config :=
  { startId := settings.startId.getD config.startId
    wrapTag := settings.wrapTag.getD config.wrapTag
    maxPartialDepth := settings.maxPartialDepth.getD config.maxPartialDepth
    voidElements := settings.voidElements.getD config.voidElements }

end Settings

/-- The configuration that a document gives; nothing if it is no document or a setting has
the wrong type. -/
def Config.ofToml? (text : String) : Option Config := do
  let settings ← Settings.ofEntries? (← Toml.read text)
  return settings.apply {}

end Stencil
