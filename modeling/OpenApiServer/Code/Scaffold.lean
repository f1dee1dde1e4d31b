import OpenApiServer.Build.Server
import OpenApiServer.Code.Format
import OpenApiServer.Code.Server
import OpenApiServer.Document.Basic

/-!
# The generated package

What a package says about itself: its name, and the title and version of the document. The name is
the title in snake case and starts with a letter. The version of the package is the version of the
document if that has three parts that are all numbers.
-/

namespace OpenApiServer

/-- The name and the version of the generator, as it writes them into files. -/
def generatorName : String := "oas3-scaffold"

def generatorVersion : String := "0.1.0"

structure Package where
  name : String
  title : String
  version : String
  deriving DecidableEq, Repr

namespace Package

def nameFor (text : String) : String :=
  let name := Name.snakeCase [text]
  match name.toList with
  | [] => "api_scaffold"
  | first :: _ =>
    if Name.isLetter first then name
    else "api_" ++ String.ofList (name.toList.dropWhile (· == '_'))

def defaultVersion : String := "0.1.0"

/-- The package of a document; a given name replaces the title in its name. -/
def ofDocument (d : Document) (name? : Option String) : Package :=
  let title := d.title?.getD "Untitled API"
  ⟨nameFor (name?.getD title), title, d.version?.getD defaultVersion⟩

def isVersionPart (cs : List Char) : Bool := (Http.Scalar.parseInteger .u64 cs).isOk

/-- The version of the package. -/
def packageVersion (p : Package) : String :=
  let parts := Text.splitOn '.' p.version.toList
  if parts.length == 3 && parts.all isVersionPart then p.version else defaultVersion

def quoteAsApostrophe (c : Char) : Char := if c = '"' then '\'' else c

/-- The text of the manifest. -/
def manifest (p : Package) : String :=
  let title := String.ofList (p.title.toList.map quoteAsApostrophe)
  "# AUTO-GENERATED by `" ++ generatorName ++ "` " ++ generatorVersion ++ " from \"" ++ title ++
  "\".\n[package]\nname = \"" ++ p.name ++ "\"\nversion = \"" ++ p.packageVersion ++
  "\"\nedition = \"2024\"\npublish = false\n\n[dependencies]\nanyhow = \"1\"\n" ++
  "oas3-scaffold-support = \"" ++ generatorVersion ++ "\"\n" ++
  "serde = \x7b version = \"1\", features = [\"derive\"] \x7d\nserde_json = \"1\"\n"

end Package

end OpenApiServer

/-!
## The files of the generated package

A package has a manifest, a root module, a module of types and a module of the server. Each source
file starts with a comment that names the document.
-/

namespace OpenApiServer

/-- A file by its path inside the package. -/
structure GeneratedFile where
  path : String
  content : String
  deriving DecidableEq, Repr

namespace Scaffold

/-- What is chosen for a run besides the document. -/
structure Options where
  visibility : Code.Visibility
  packageName : Option String
  basePath : Option String

def Options.basePathFor (o : Options) (d : Document) : String :=
  match o.basePath with
  | some path => BasePath.normalize path
  | none => d.basePath

/-- The comment at the start of a source file. -/
def header (p : Package) : String :=
  "//! AUTO-GENERATED CODE - DO NOT EDIT!\n//!\n//! " ++ p.title ++ " " ++ p.version ++
  "\n//! Generated by `" ++ generatorName ++ "` " ++ generatorVersion ++ "\n\n"

def rootItems (visibility : Code.Visibility) : List Code.Item :=
  [.module .everyone "server", .module .everyone "types",
    .useNames visibility "server" ["Api", "handle"]]

def source (p : Package) (path : String) (items : List Code.Item) : GeneratedFile :=
  ⟨path, header p ++ Code.render items⟩

/-- The files of a package, in the order of the parts of a package. -/
def files (p : Package) (visibility : Code.Visibility) (m : ServerModel) : List GeneratedFile :=
  [⟨"Cargo.toml", p.manifest⟩,
    source p "src/lib.rs" (rootItems visibility),
    source p "src/types.rs" (Code.typeItems visibility m),
    source p "src/server.rs" (Code.serverItems visibility m)]

/-- What a run makes of a document. -/
structure Result where
  package : Package
  basePath : String
  files : List GeneratedFile
  model : ServerModel

def generate (d : Document) (o : Options) : Except BuildError Result := do
  let basePath := o.basePathFor d
  let model ← d.server basePath
  let package := Package.ofDocument d o.packageName
  return ⟨package, basePath, files package o.visibility model, model⟩

end Scaffold

end OpenApiServer
