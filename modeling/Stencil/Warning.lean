/-!
# Warnings

Rendering and attaching never fail.  What looks wrong in a graph is mended, and
a warning says so.

* `Log` — the warnings of a piece of work, and whether it came to an end.
* `Logged` — a value with the log of the work that made it.
-/

namespace Stencil

/-- What a warning is about. -/
inductive WarningKind where
  /-- A close that does not fit the innermost open frame. -/
  | tagMismatch
  /-- A close with nothing open. -/
  | strayClose
  /-- A partial that is bound nowhere. -/
  | unresolvedPartial
  /-- A partial that includes itself, or partials nested too deep. -/
  | partialCycle
  /-- An attribute outside of a start tag. -/
  | misplacedAttribute
  deriving DecidableEq, Repr

namespace WarningKind

/-- Every kind of warning. -/
def all : List WarningKind :=
  [.tagMismatch, .strayClose, .unresolvedPartial, .partialCycle, .misplacedAttribute]

/-- The name of a kind. -/
def name : WarningKind → String
  | .tagMismatch => "tag-mismatch"
  | .strayClose => "stray-close"
  | .unresolvedPartial => "unresolved-partial"
  | .partialCycle => "partial-cycle"
  | .misplacedAttribute => "misplaced-attribute"

/-- The kind with a name. -/
def ofName? (name : String) : Option WarningKind :=
  all.find? (·.name == name)

end WarningKind

/-- A warning. -/
structure Warning where
  kind : WarningKind
  message : String
  deriving DecidableEq, Repr

/-- The warnings of one kind, in the order they were raised. -/
def Warning.ofKind (kind : WarningKind) (warnings : List Warning) : List Warning :=
  warnings.filter (·.kind == kind)

/-- The log of a piece of work. -/
structure Log where
  /-- The warnings, in the order they were raised. -/
  warnings : List Warning
  /-- Whether the work was cut off because it would never have ended. -/
  endless : Bool
  deriving DecidableEq, Repr

namespace Log

/-- The log of work that raised no warning. -/
def empty : Log := ⟨[], false⟩

/-- The log of two pieces of work, one after the other. -/
def append (a b : Log) : Log := ⟨a.warnings ++ b.warnings, a.endless || b.endless⟩

instance : Append Log := ⟨append⟩

theorem append_def (a b : Log) :
    a ++ b = ⟨a.warnings ++ b.warnings, a.endless || b.endless⟩ := rfl

@[simp] theorem append_empty (log : Log) : log ++ empty = log := by
  cases log; simp [append_def, empty]

theorem append_assoc (a b c : Log) : a ++ b ++ c = a ++ (b ++ c) := by
  simp [append_def, Bool.or_assoc]

/-- A log with one more warning. -/
def warn (log : Log) (warning : Warning) : Log :=
  { log with warnings := log.warnings ++ [warning] }

end Log

/-- A value with the log of the work that made it. -/
structure Logged (α : Type) where
  value : α
  log : Log

namespace Logged

variable {α β : Type}

/-- A value made without a warning. -/
protected def pure (value : α) : Logged α := ⟨value, .empty⟩

/-- Work on the value of earlier work. -/
protected def bind (work : Logged α) (next : α → Logged β) : Logged β :=
  let result := next work.value
  ⟨result.value, work.log ++ result.log⟩

instance : Monad Logged where
  pure := Logged.pure
  bind := Logged.bind

@[simp] theorem value_pure (value : α) : (pure value : Logged α).value = value := rfl

@[simp] theorem log_pure (value : α) : (pure value : Logged α).log = .empty := rfl

@[simp] theorem value_bind (work : Logged α) (next : α → Logged β) :
    (work >>= next).value = (next work.value).value := rfl

@[simp] theorem log_bind (work : Logged α) (next : α → Logged β) :
    (work >>= next).log = work.log ++ (next work.value).log := rfl

/-- Work that never ends, cut off with a value in its place. -/
def cutOff (value : α) : Logged α := ⟨value, ⟨[], true⟩⟩

end Logged

end Stencil
