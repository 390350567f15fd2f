/-!
# Arguments of the command line

The program takes a graph file and options, each by a letter or by a word, with the
value attached or as the next argument.  The option to wrap may go without a value.
Behind a double hyphen nothing is an option.

* `Arguments.parse` — what the arguments ask for.
-/

namespace Stencil.CommandLine

/-- How output is written. -/
inductive Format where
  | html
  | tree
  | fragment
  deriving DecidableEq, Repr

/-- The format with a name. -/
def Format.ofName? : String → Option Format
  | "html" => some .html
  | "tree" => some .tree
  | "fragment" => some .fragment
  | _ => none

/-- What a template is wrapped in. -/
inductive Wrapping where
  /-- An element with the tag of the configuration. -/
  | configured
  /-- An element with a tag. -/
  | tag (tag : String)
  deriving DecidableEq, Repr

/-- What the program is asked to render. -/
structure Arguments where
  /-- The file of the graph; standard input if there is none. -/
  graph : Option String
  data : Option String
  /-- The names and files of partials, in order. -/
  partials : List (String × String)
  config : Option String
  format : Option Format
  wrapping : Option Wrapping
  deriving DecidableEq, Repr

/-- What the arguments ask for. -/
inductive Request where
  /-- Render something. -/
  | render (arguments : Arguments)
  /-- Show what the options are. -/
  | help
  /-- The arguments make no sense. -/
  | misuse
  deriving DecidableEq, Repr

/-- An option. -/
inductive Switch where
  | data
  | withPartial
  | config
  | format
  | wrap
  | help
  deriving DecidableEq, Repr

/-- The option with a letter. -/
def Switch.ofLetter? : Char → Option Switch
  | 'd' => some .data
  | 'p' => some .withPartial
  | 'c' => some .config
  | 'f' => some .format
  | 'w' => some .wrap
  | 'h' => some .help
  | _ => none

/-- The option with a word. -/
def Switch.ofWord? : String → Option Switch
  | "data" => some .data
  | "partial" => some .withPartial
  | "config" => some .config
  | "format" => some .format
  | "wrap" => some .wrap
  | "help" => some .help
  | _ => none

/-- The parts of a text in front of the first equals sign and behind it. -/
def splitAtEquals (text : List Char) : List Char × Option (List Char) :=
  let behind := text.dropWhile (· ≠ '=')
  (text.takeWhile (· ≠ '='), if behind.isEmpty then none else some behind.tail)

namespace Arguments

/-- No arguments. -/
def none : Arguments := ⟨.none, .none, [], .none, .none, .none⟩

/-- A setting that is given only once. -/
def once {α : Type} (old : Option α) (new : α) : Option (Option α) :=
  match old with
  | .none => some (some new)
  | some _ => .none

/-- A path, which is not empty. -/
def path? (text : String) : Option String := if text = "" then .none else some text

/-- The name and the file of a partial, neither of them empty. -/
def namedFile? (text : String) : Option (String × String) :=
  match splitAtEquals text.toList with
  | (name, some file) =>
      if name.isEmpty || file.isEmpty then .none
      else some (String.ofList name, String.ofList file)
  | (_, .none) => .none

/-- Arguments with the value of an option. -/
def setValue (arguments : Arguments) (switch : Switch) (value : String) : Option Arguments :=
  match switch with
  | .data => do return { arguments with data := ← once arguments.data (← path? value) }
  | .withPartial => do
      return { arguments with partials := arguments.partials ++ [← namedFile? value] }
  | .config => do return { arguments with config := ← once arguments.config (← path? value) }
  | .format => do
      return { arguments with format := ← once arguments.format (← Format.ofName? value) }
  | .wrap => do return { arguments with wrapping := ← once arguments.wrapping (.tag value) }
  | .help => .none

/-- Arguments in which the option that waits for a value goes without one. -/
def settle (arguments : Arguments) : Option Switch → Option Arguments
  | .none => some arguments
  | some .wrap => do
      return { arguments with wrapping := ← once arguments.wrapping .configured }
  | some _ => .none

/-- Arguments with one that is no option: the file of the graph. -/
def setGraph (arguments : Arguments) (value : String) : Option Arguments := do
  return { arguments with graph := ← once arguments.graph (← path? value) }

/-- An argument as it looks by itself. -/
inductive Shape where
  /-- The end of the options. -/
  | separator
  /-- An option, with its value if that is attached. -/
  | switch (switch : Switch) (value : Option String)
  /-- An option that does not exist. -/
  | unknown
  | plain

/-- An option and its attached value; help takes none. -/
def shapeOfSwitch (switch : Option Switch) (value : Option (List Char)) : Shape :=
  match switch, value with
  | some .help, some _ => .unknown
  | some switch, value => .switch switch (value.map String.ofList)
  | .none, _ => .unknown

/-- The value attached to the letter of an option. -/
def attachedToLetter : List Char → Option (List Char)
  | [] => .none
  | '=' :: value => some value
  | value => some value

/-- What an argument looks like.  Letters may follow the letter for help. -/
def shapeOf (argument : List Char) : Shape :=
  match argument with
  | ['-', '-'] => .separator
  | '-' :: '-' :: word =>
      let (word, value) := splitAtEquals word
      shapeOfSwitch (Switch.ofWord? (String.ofList word)) value
  | ['-', 'h'] => .switch .help .none
  | '-' :: 'h' :: _ => .switch .help .none
  | '-' :: letter :: value =>
      shapeOfSwitch (Switch.ofLetter? letter) (attachedToLetter value)
  | _ => .plain

/-- Go through arguments, with the option that waits for its value. -/
def parseFrom (arguments : Arguments) (waiting : Option Switch) : List String → Request
  | [] =>
      match arguments.settle waiting with
      | some arguments => .render arguments
      | .none => .misuse
  | argument :: rest =>
      match shapeOf argument.toList with
      | .separator =>
          match (arguments.settle waiting).bind fun arguments =>
            rest.foldlM setGraph arguments with
          | some arguments => .render arguments
          | .none => .misuse
      | .unknown => .misuse
      | .switch .help _ => if (arguments.settle waiting).isSome then .help else .misuse
      | .switch switch (some value) =>
          match (arguments.settle waiting).bind (·.setValue switch value) with
          | some arguments => parseFrom arguments .none rest
          | .none => .misuse
      | .switch switch .none =>
          match arguments.settle waiting with
          | some arguments => parseFrom arguments (some switch) rest
          | .none => .misuse
      | .plain =>
          let next :=
            match waiting with
            | some switch => arguments.setValue switch argument
            | .none => arguments.setGraph argument
          match next with
          | some arguments => parseFrom arguments .none rest
          | .none => .misuse

/-- What arguments ask for. -/
def parse (arguments : List String) : Request := parseFrom none .none arguments

end Arguments

end Stencil.CommandLine
