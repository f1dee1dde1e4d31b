import OpenApiServer.Cli.Color
import OpenApiServer.Text.Basic

/-!
# Paths and what can go wrong with files

A path is a text with slashes between its parts. A fault of the file system has a text and, for the
usual faults, a number.
-/

namespace OpenApiServer.Cli

inductive FileFault where
  | notFound
  | alreadyExists
  | notFolder
  | isFolder
  | other (text : String)
  deriving DecidableEq, Repr

def FileFault.message : FileFault → String
  | .notFound => "No such file or directory (os error 2)"
  | .alreadyExists => "File exists (os error 17)"
  | .notFolder => "Not a directory (os error 20)"
  | .isFolder => "Is a directory (os error 21)"
  | .other text => text

namespace Path

/-- The parts of a path; a part that is a point stands for the place itself. -/
def parts (path : String) : List (List Char) :=
  (Text.splitOn '/' path.toList).filter (!·.isEmpty)

/-- What is behind the last point of the last part, unless that point starts the part. -/
def extension? (path : String) : Option String :=
  match ((parts path).filter (· != ['.'])).getLast? with
  | none => none
  | some name =>
    let ending := (name.reverse.takeWhile (· != '.')).reverse
    if name = ['.', '.'] ∨ ending.length + 1 ≥ name.length then none
    else some (String.ofList ending)

/-- A path below a folder. -/
def join (folder path : String) : String :=
  if folder.toList.getLast? == some '/' then folder ++ path else folder ++ "/" ++ path

/-- Takes slashes and points that stand for the place itself from the end of a reversed path. -/
def trimReversed : List Char → List Char
  | ['/'] => ['/']
  | '/' :: rest => trimReversed rest
  | '.' :: '/' :: rest => trimReversed ('/' :: rest)
  | cs => cs

/-- The folder that a path lies in. -/
def parent (path : String) : String :=
  String.ofList (trimReversed (path.toList.reverse.dropWhile (· != '/'))).reverse

end Path

end OpenApiServer.Cli

/-!
## What a run does

A run is a list of steps: output, folders to make and files to write. A step that fails ends the
run with a report.
-/

namespace OpenApiServer.Cli

/-- A message with its causes, the nearest first. -/
structure ErrorReport where
  message : String
  causes : List String
  deriving DecidableEq, Repr

namespace ErrorReport

/-- A text of several lines, the lines after the first indented by `indent`. -/
def indented (indent : String) (text : String) : String :=
  Text.joinWith ("\n" ++ indent) ((Text.splitOn '\n' text.toList).map String.ofList)

/-- A number with blanks before it, so that it ends in the fifth column. -/
def column (n : Nat) : String :=
  let digits := toString n
  String.ofList (List.replicate (5 - digits.length) ' ') ++ digits

def causeLines : List String → List String
  | [cause] => ["    " ++ indented "    " cause]
  | causes => causes.zipIdx.map fun (cause, i) => column i ++ ": " ++ indented "       " cause

/-- The report as it is printed; several causes are numbered. -/
def text (r : ErrorReport) : String :=
  "Error: " ++ r.message ++
    (if r.causes.isEmpty then ""
      else "\n\nCaused by:\n" ++ Text.joinWith "\n" (causeLines r.causes)) ++ "\n"

end ErrorReport

inductive Step where
  | print (text : String)
  | log (color : Option Rgb) (message : String)
  | warn (text : String)
  | makeFolder (path : String)
  | write (path : String) (text : String)
  | stop (code : Nat)
  deriving Repr

namespace Step

def logLine (color : Option Rgb) (time message : String) : String :=
  Style.apply ⟨color, false⟩ ("[" ++ time ++ "]") ++ " " ++ message ++ "\n"

/-- The report on a folder or a file that could not be written. -/
def report (verb path : String) (f : FileFault) : ErrorReport :=
  ⟨"failed to " ++ verb ++ " " ++ path, [f.message]⟩

end Step

/-- The steps that report an error. -/
def ErrorReport.steps (r : ErrorReport) : List Step := [.warn r.text, .stop 1]

end OpenApiServer.Cli
