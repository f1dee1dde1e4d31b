import OpenApiServer.Cli.Arguments
import OpenApiServer.Cli.Color
import OpenApiServer.Code.Scaffold

/-!
# The commands of the program

`list operations` shows the operations of a document, and `generate` writes a package for it.
-/

namespace OpenApiServer.Cli

namespace Grammar

def colorArgument : Named :=
  ⟨"color", none, some ⟨"COLOR", ColorMode.all.map ColorMode.name, some ColorMode.auto.name⟩,
    "Control color output"⟩

def themeArgument : Named :=
  ⟨"theme", none, some ⟨"THEME", ThemeMode.all.map ThemeMode.name, some ThemeMode.auto.name⟩,
    "Terminal theme (dark or light background)"⟩

def defaultVisibility : String := "public"

def visibilityArgument : Named :=
  ⟨"visibility", none, some ⟨"VISIBILITY", [], some defaultVisibility⟩,
    "Visibility of generated items (public or crate)"⟩

def packageArgument : Named :=
  ⟨"crate-name", none, some ⟨"NAME", [], none⟩,
    "Package name for the generated crate (default: snake_case of `info.title`)"⟩

def basePathArgument : Named :=
  ⟨"base-path", none, some ⟨"PATH", [], none⟩,
    "Route prefix (default: path of the first server URL)"⟩

def verboseFlag : Named :=
  ⟨"verbose", some 'v', none, "Print per-kind statistics and every warning"⟩

def quietFlag : Named :=
  ⟨"quiet", some 'q', none, "Suppress non-essential output (errors only)"⟩

def inputName : String := "SCHEMA_FILE"

def outputName : String := "OUTPUT_DIR"

def operations : Command where
  name := "operations"
  about := "List every operation with the handler name it generates"
  version := none
  named := [colorArgument, themeArgument]
  positionals := [⟨inputName, "OpenAPI document (JSON or YAML)"⟩]
  commands := []
  conflicts := []

def list : Command where
  name := "list"
  about := "List information from an API document"
  version := none
  named := [colorArgument, themeArgument]
  positionals := []
  commands := [operations]
  conflicts := []

def generate : Command where
  name := "generate"
  about := "Generate a server scaffold crate from an API document"
  version := none
  named := [visibilityArgument, packageArgument, basePathArgument, colorArgument, themeArgument,
    verboseFlag, quietFlag]
  positionals := [
    ⟨inputName,
      "OpenAPI document; `.yaml` and `.yml` files are read as YAML, anything else as JSON"⟩,
    ⟨outputName, "Directory that receives `Cargo.toml` and `src/`"⟩]
  commands := []
  conflicts := [("verbose", "quiet")]

/-- The whole command line. -/
def program : Command where
  name := generatorName
  about := "Typed Rust server scaffolds from OpenAPI v3 documents"
  version := some generatorVersion
  named := [colorArgument, themeArgument]
  positionals := []
  commands := [list, generate]
  conflicts := []

end Grammar

/-- What `generate` is asked to do. The visibility is checked when the command is run. -/
structure GenerateRequest where
  input : String
  output : String
  visibility : String
  packageName : Option String
  basePath : Option String
  verbose : Bool
  quiet : Bool
  deriving DecidableEq, Repr

inductive Task where
  | listOperations (input : String)
  | generate (request : GenerateRequest)
  deriving DecidableEq, Repr

def Task.input : Task → String
  | .listOperations input => input
  | .generate r => r.input

structure Invocation where
  task : Task
  color : ColorMode
  theme : ThemeMode
  deriving DecidableEq, Repr

namespace Invocation

def textOf (g : Given) (name : String) : String := (g.value? name).getD ""

def request (g : Given) : GenerateRequest where
  input := textOf g Grammar.inputName
  output := textOf g Grammar.outputName
  visibility := (g.value? "visibility").getD Grammar.defaultVisibility
  packageName := g.value? "crate-name"
  basePath := g.value? "base-path"
  verbose := g.isSet "verbose"
  quiet := g.isSet "quiet"

def ofGiven (g : Given) : Invocation where
  task :=
    if g.commands.contains Grammar.generate.name then .generate (request g)
    else .listOperations (textOf g Grammar.inputName)
  color := ((g.value? "color").bind ColorMode.ofName?).getD .auto
  theme := ((g.value? "theme").bind ThemeMode.ofName?).getD .auto

/-- What a list of arguments asks for. -/
def ofArguments (arguments : List String) : Except Halt Invocation :=
  (Grammar.program.parse arguments).map ofGiven

end Invocation

end OpenApiServer.Cli
