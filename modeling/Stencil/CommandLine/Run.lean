import Stencil.CommandLine.Arguments
import Stencil.Config.Source
import Stencil.Host.Source
import Stencil.Json.Reader
import Stencil.Piece.View

/-!
# Running the command line

The configuration is read first, then the graph, the partials in order, and the
data; the first of them that fails ends the run.  Files come from an environment,
so that a run can be followed without a disk.

* `CommandLine.run` — the output of a run, or why it failed.
* `CommandLine.execute` — what the program leaves behind.
-/

namespace Stencil.CommandLine

/-! ## Files -/

/-- Why a file cannot be read. -/
inductive ReadError where
  | missing
  /-- The bytes of the file are no text. -/
  | notText
  /-- Anything else, in the words of the system. -/
  | other (message : String)
  deriving DecidableEq, Repr

/-- The words for an error. -/
def ReadError.message : ReadError → String
  | .missing => "No such file or directory (os error 2)"
  | .notText => "stream did not contain valid UTF-8"
  | .other message => message

/-- Where files and standard input are read from. -/
structure Environment (m : Type → Type) where
  fileText : String → m (Except ReadError String)
  inputText : m (Except ReadError String)

/-! ## Failures -/

/-- Why a run fails. -/
inductive Failure where
  | configUnreadable (path : String) (error : ReadError)
  | configMalformed (path : String)
  | inputUnreadable (error : ReadError)
  | graphUnreadable (path : String) (error : ReadError)
  | graphMalformed (error : Document.ParseError)
  | dataUnreadable (path : String) (error : ReadError)
  | dataMalformed (path : String)
  deriving DecidableEq, Repr

/-- The part of a message that says what failed. -/
def Failure.headline : Failure → String
  | .configUnreadable path error =>
      "Error: loading config '" ++ path ++ "': Failed to read config file: " ++ error.message
  | .configMalformed path =>
      "Error: loading config '" ++ path ++ "': Failed to parse config TOML:"
  | .inputUnreadable error => "Error: reading from stdin: " ++ error.message
  | .graphUnreadable path error =>
      "Error: error reading graph file " ++ path ++ ": " ++ error.message
  | .graphMalformed (.decode error) => "Error: " ++ error.message
  | .graphMalformed _ => "Error: invalid graph JSON:"
  | .dataUnreadable path error =>
      "Error: reading data file '" ++ path ++ "': " ++ error.message
  | .dataMalformed path => "Error: parsing data file '" ++ path ++ "':"

/-- The part of a message that says more about a text that is malformed. -/
def Failure.detail : Failure → String
  | .configMalformed _ => " not a configuration"
  | .graphMalformed (.json .malformed) => " malformed text"
  | .graphMalformed (.json .unfinished) => " unfinished text"
  | .graphMalformed .shape => " not a document"
  | .dataMalformed _ => " malformed text"
  | _ => ""

/-! ## Running -/

/-- Work that reads from an environment and may fail. -/
abbrev Work (m : Type → Type) := ExceptT Failure m

variable {m : Type → Type} [Monad m]

/-- The text of a file. -/
def readText (environment : Environment m) (path : String) (fail : ReadError → Failure) :
    Work m String := do
  match ← environment.fileText path with
  | .ok text => return text
  | .error error => throw (fail error)

/-- The configuration of a file, the default one if there is no file. -/
def readConfig (environment : Environment m) : Option String → Work m Config
  | none => return {}
  | some path => do
      let text ← readText environment path (.configUnreadable path)
      match Config.ofToml? text with
      | some config => return config
      | none => throw (.configMalformed path)

/-- The document of a text. -/
def compile (text : String) : Work m Compiled :=
  match Document.parse text with
  | .ok compiled => return compiled
  | .error error => throw (.graphMalformed error)

/-- The document of a file. -/
def readDocument (environment : Environment m) (path : String) : Work m Compiled := do
  compile (← readText environment path (.graphUnreadable path))

/-- The document of a file, or of standard input. -/
def readGraph (environment : Environment m) : Option String → Work m Compiled
  | some path => readDocument environment path
  | none => do
      match ← environment.inputText with
      | .ok text => compile text
      | .error error => throw (.inputUnreadable error)

/-- The registry of partials from files. -/
def readPartials (environment : Environment m) : List (String × String) → Partials →
    Work m Partials
  | [], registry => return registry
  | (name, path) :: rest, registry => do
      let compiled ← readDocument environment path
      readPartials environment rest (registry.bind name compiled.body)

/-- The data of a file, null if there is no file. -/
def readData (environment : Environment m) : Option String → Work m Json
  | none => return .null
  | some path => do
      let text ← readText environment path (.dataUnreadable path)
      match Json.read Json.textDepth text with
      | .ok value => return value.sorted
      | .error _ => throw (.dataMalformed path)

/-- A template within the element that is asked for. -/
def applyWrapping (template : Template) : Option Wrapping → Template
  | none => template
  | some .configured => template.wrapDefault
  | some (.tag tag) => template.wrap tag

/-- What a widget is called in the output of a tree. -/
def labelOf (host : Host) (widget : Widget) : WidgetLabel :=
  ⟨widget.wrapper.name, host.nameOf widget.child⟩

/-- A template in a format. -/
def renderAs (host : Host) (template : Template) (data : Json) : Format → Logged String
  | .html => host.html template data
  | .tree => do
      let tree ← host.tree template data
      return (tree.json (labelOf host)).indented
  | .fragment => do
      let fragment ← host.fragment template data
      return fragment.htmlWith template.config.voidElements

/-- The output of a run, which is a line. -/
def run (environment : Environment m) (arguments : Arguments) : Work m (Logged String) := do
  let config ← readConfig environment arguments.config
  let compiled ← readGraph environment arguments.graph
  let registry ← readPartials environment arguments.partials []
  let data ← readData environment arguments.data
  let host : Host := { Host.empty with processWide := registry }
  let template := applyWrapping (.ofCompiled compiled .processWide config) arguments.wrapping
  let output := renderAs host template data (arguments.format.getD .html)
  return output >>= fun text => pure (text ++ "\n")

/-- What the options are. -/
def helpText : String :=
  "Render compiled template graphs against JSON data\n\n" ++
  "Usage: stencil [OPTIONS] [GRAPH]\n\n" ++
  "Arguments:\n" ++
  "  [GRAPH]  Graph file (standard input if there is none)\n\n" ++
  "Options:\n" ++
  "  -d, --data <FILE>          JSON data to render against\n" ++
  "  -p, --partial <NAME=FILE>  Partial to register (repeatable)\n" ++
  "  -c, --config <FILE>        Render configuration (TOML)\n" ++
  "  -f, --format <FORMAT>      Output format: html, tree, fragment\n" ++
  "  -w, --wrap [TAG]           Wrap the output in TAG, or in the configured tag\n" ++
  "  -h, --help                 Print help\n"

/-- What is said to arguments that make no sense. -/
def misuseText : String := "Error: these arguments make no sense; try --help\n"

/-- What a program leaves behind. -/
structure Exit where
  code : UInt32
  output : String
  /-- What failed. -/
  failure : Option Failure
  warnings : List Warning

/-- What the program does with its arguments. -/
def execute (environment : Environment m) (arguments : List String) : m Exit := do
  match Arguments.parse arguments with
  | .help => return ⟨0, helpText, none, []⟩
  | .misuse => return ⟨2, "", none, []⟩
  | .render arguments => do
      match ← (run environment arguments).run with
      | .ok output => return ⟨0, output.value, none, output.log.warnings⟩
      | .error failure => return ⟨1, "", some failure, []⟩

end Stencil.CommandLine
