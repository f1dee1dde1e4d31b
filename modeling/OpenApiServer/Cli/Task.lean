import OpenApiServer.Cli.Invocation
import OpenApiServer.Cli.Table
import OpenApiServer.Cli.Script
import OpenApiServer.Code.Scaffold
import OpenApiServer.Declaration.Counts
import OpenApiServer.Document.Source

/-!
# From an invocation to its steps

Everything is made in memory before the first file is written, so a document that cannot be turned
into a server leaves nothing behind.
-/

namespace OpenApiServer.Cli

/-- Goes on with a result, or reports why there is none. -/
def attempt {α : Type} (result : Except ErrorReport α) (next : α → List Step) : List Step :=
  match result with
  | .ok a => next a
  | .error report => report.steps

/-- The report on an input that cannot be read. -/
def readReport (path : String) (f : FileFault) : ErrorReport :=
  ⟨"failed to open " ++ path,
    [path ++ ": unable to open file: " ++ f.message ++ ": IO error", f.message ++ ": IO error",
      f.message]⟩

def buildReport (e : BuildError) : ErrorReport := ⟨e.message, []⟩

/-- The document in the text of a file. -/
def loadDocument (path : String) (text : Except FileFault String) :
    Except ErrorReport Document := do
  let text ← text.mapError (readReport path)
  let format := Source.Format.ofExtension ((Path.extension? path).getD "")
  let root ← (Source.mk format text).read.mapError fun f => ⟨f.message, [f.cause]⟩
  (Document.ofJson root).mapError buildReport

/-- The columns of a terminal whose size is not known. -/
def defaultColumns : Nat := 80

def listOperations (colors : Colors) (path : String) (text : Except FileFault String) :
    List Step :=
  attempt (loadDocument path text) fun d =>
    [.print ((OperationRow.table colors (OperationRow.ofDocument d)).render defaultColumns ++ "\n")]

namespace GenerateRequest

/-- A line of the progress of a run. -/
def log (r : GenerateRequest) (c : Colors) (role : Role) (message : String) : List Step :=
  if r.quiet then [] else [.log (c.pick .timestamp) (c.paint role message)]

def printed (r : GenerateRequest) (text : String) : List Step :=
  if r.quiet then [] else [.print text]

/-- A line of the statistics. -/
def count (r : GenerateRequest) (c : Colors) (label value : String) : List Step :=
  r.printed ("            " ++ c.paint .label label ++ " " ++ c.paint .value value ++ "\n")

/-- The numbers of declarations of each kind. -/
def details (r : GenerateRequest) (c : Colors) (n : DeclarationCounts) : List Step :=
  let kind (k : Nat) (what : String) : List Step := r.count c "" (toString k ++ " " ++ what)
  kind n.records "structs" ++ kind n.enums "enums" ++ kind n.unions "unions" ++
    kind n.aliases "type aliases" ++ kind n.responses "response enums" ++
    r.count c "Conversions:"
      (toString n.enumConversions ++ " enum, " ++ toString n.conversions ++ " composition") ++
    (if n.boxedFields = 0 then [] else r.count c "Boxed fields:" (toString n.boxedFields))

def warnings (r : GenerateRequest) (c : Colors) (texts : List String) : List Step :=
  if texts.isEmpty || !r.verbose || r.quiet then []
  else .print "\n" :: texts.map fun text =>
    .warn (c.paint .accent "Warning:" ++ " " ++ c.paint .primary text ++ "\n")

def statistics (r : GenerateRequest) (c : Colors) (m : ServerModel) : List Step :=
  let n := m.counts
  r.count c "Types generated:" (toString n.types) ++
    (if r.verbose then r.details c n else []) ++
    r.count c "Operations converted:" (toString n.operations) ++
    r.count c "Routes:" (toString n.routes) ++
    (if m.warnings.isEmpty then []
      else r.count c "Warnings:" (toString m.warnings.length)) ++
    r.warnings c m.warnings

/-- Writes the files of a package below a folder. -/
def writeFiles (output : String) (files : List GeneratedFile) : List Step :=
  files.flatMap fun f =>
    let path := Path.join output f.path
    [.makeFolder (Path.parent path), .write path f.content]

def visibilityReport (name : String) : ErrorReport :=
  ⟨"Invalid visibility '" ++ name ++ "': expected 'public' or 'crate'", []⟩

def visibility? (r : GenerateRequest) : Except ErrorReport Code.Visibility :=
  match Code.Visibility.ofName? r.visibility with
  | some v => .ok v
  | none => .error (visibilityReport r.visibility)

/-- Reports on a generated package and writes it. -/
def deliver (r : GenerateRequest) (c : Colors) (result : Scaffold.Result) : List Step :=
  r.statistics c result.model ++
    r.log c .primary ("Writing to: " ++ r.output) ++
    writeFiles r.output result.files ++
    r.printed "\n" ++
    r.log c .success "Successfully generated server scaffold"

/-- Generates the package of a document. -/
def generateSteps (r : GenerateRequest) (c : Colors) (visibility : Code.Visibility)
    (d : Document) : List Step :=
  let name := (Package.ofDocument d r.packageName).name
  let options : Scaffold.Options := ⟨visibility, r.packageName, r.basePath⟩
  r.log c .primary ("Generating server scaffold `" ++ name ++ "`...") ++
    attempt ((Scaffold.generate d options).mapError buildReport) (r.deliver c)

def steps (r : GenerateRequest) (c : Colors) (text : Except FileFault String) : List Step :=
  attempt r.visibility? fun visibility =>
    r.log c .primary ("Loading API document from: " ++ r.input) ++
      attempt (loadDocument r.input text) (r.generateSteps c visibility)

end GenerateRequest

/-- What is known about the place where the program runs. -/
structure Surroundings where
  isTerminal : Bool
  terminalColors : Option String
  deriving Repr

namespace Invocation

def colors (i : Invocation) (s : Surroundings) : Colors :=
  ⟨i.color.enabled s.isTerminal, i.theme.theme s.terminalColors⟩

/-- The steps of an invocation, given the text of its input. -/
def steps (i : Invocation) (s : Surroundings) (text : Except FileFault String) : List Step :=
  match i.task with
  | .listOperations input => listOperations (i.colors s) input text
  | .generate r => r.steps (i.colors s) text

end Invocation

/-- The steps when no command is run. -/
def Halt.steps : Halt → List Step
  | .help text => [.print text]
  | .version text => [.print text]
  | .nothingGiven text => [.warn text, .stop 2]
  | .refused e =>
    [.warn ("error: " ++ e.message ++ "\n\nFor more information, try '--help'.\n"), .stop 2]

end OpenApiServer.Cli
