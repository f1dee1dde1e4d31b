import OpenApiServer.Cli.Task

/-!
# Running in a folder

A `Folder` is a tree of files in memory. Running a list of steps in it gives what the program would
print and leave behind on a disk.
-/

namespace OpenApiServer.Cli

/-- Files with their texts, and the folders below this one, by their parts from here. -/
structure Folder where
  files : List (List String × String)
  folders : List (List String)

namespace Folder

def isFolder (f : Folder) (place : List String) : Bool :=
  place.isEmpty || f.folders.contains place

def isFile (f : Folder) (place : List String) : Bool := (f.files.lookup place).isSome

/-- Follows the parts of a path; only what lies in a folder can be reached. -/
def follow (f : Folder) : List String → List String → Except FileFault (List String)
  | place, [] => .ok place
  | place, part :: rest =>
    if f.isFile place then .error .notFolder
    else if !f.isFolder place then .error .notFound
    else if part = "." then follow f place rest
    else if part = ".." then follow f place.dropLast rest
    else follow f (place ++ [part]) rest

def locate (f : Folder) (path : String) : Except FileFault (List String) :=
  f.follow [] ((Path.parts path).map String.ofList)

/-- The place of a file. A slash at the end of its path asks for a folder. -/
def locateFile (f : Folder) (path : String) : Except FileFault (List String) := do
  let place ← f.locate path
  if path.toList.getLast? == some '/' then f.follow place ["."] else return place

def read (f : Folder) (path : String) : Except FileFault String := do
  let place ← f.locateFile path
  match f.files.lookup place with
  | some text => return text
  | none => .error (if f.isFolder place then .isFolder else .notFound)

def setFile (f : Folder) (place : List String) (text : String) : Folder :=
  if f.isFile place then
    { f with files := f.files.map fun (p, old) => if p = place then (p, text) else (p, old) }
  else { f with files := f.files ++ [(place, text)] }

def write (f : Folder) (path text : String) : Except FileFault Folder := do
  let place ← f.locateFile path
  if f.isFolder place then .error .isFolder else return f.setFile place text

/-- Makes one folder. -/
def makeFolder (f : Folder) (path : String) : Except FileFault Folder := do
  let place ← f.locate path
  if f.isFolder place || f.isFile place then .error .alreadyExists
  else return { f with folders := f.folders ++ [place] }

def folderExists (f : Folder) (path : String) : Bool :=
  match f.locate path with
  | .ok place => f.isFolder place
  | .error _ => false

/-- Makes a folder and those above it; it is no error if the folder is there. -/
def makeFoldersFrom : Nat → Folder → String → Except FileFault Folder
  | 0, f, path => f.makeFolder path
  | depth + 1, f, path =>
    if path.isEmpty then .ok f
    else match f.makeFolder path with
      | .ok f => .ok f
      | .error .notFound => do
        let f ← makeFoldersFrom depth f (Path.parent path)
        if f.folderExists path then return f else f.makeFolder path
      | .error e => if f.folderExists path then .ok f else .error e

def makeFolders (f : Folder) (path : String) : Except FileFault Folder :=
  makeFoldersFrom path.length f path

/-- The folders above a file, from the outermost. -/
def above (place : List String) : List (List String) :=
  (List.range place.length).map (place.take ·)

/-- A folder with the given files. -/
def ofFiles (files : List (String × String)) : Folder :=
  files.foldl (fun f (path, text) =>
    let place := (Path.parts path).map String.ofList
    { f.setFile place text with folders := f.folders ++ above place }) ⟨[], []⟩

/-- The files that are new or have another text than before. -/
def changesSince (f before : Folder) : List (String × String) :=
  (f.files.filter fun (place, text) => before.files.lookup place != some text).map
    fun (place, text) => (Text.joinWith "/" place, text)

end Folder

/-- What a run has printed and left behind. -/
structure Outcome where
  code : Nat
  stdout : String
  stderr : String
  folder : Folder

namespace Outcome

def fail (o : Outcome) (r : ErrorReport) : Outcome :=
  { o with code := 1, stderr := o.stderr ++ r.text }

/-- Runs steps at a time of day, up to the first that fails. -/
def run (time : String) : Outcome → List Step → Outcome
  | o, [] => o
  | o, .print text :: rest => run time { o with stdout := o.stdout ++ text } rest
  | o, .log color message :: rest =>
    run time { o with stdout := o.stdout ++ Step.logLine color time message } rest
  | o, .warn text :: rest => run time { o with stderr := o.stderr ++ text } rest
  | o, .stop code :: _ => { o with code }
  | o, .makeFolder path :: rest =>
    match o.folder.makeFolders path with
    | .ok folder => run time { o with folder } rest
    | .error e => o.fail (Step.report "create" path e)
  | o, .write path text :: rest =>
    match o.folder.write path text with
    | .ok folder => run time { o with folder } rest
    | .error e => o.fail (Step.report "write" path e)

end Outcome

/-- Runs the program with arguments in a folder. -/
def Folder.run (f : Folder) (s : Surroundings) (time : String) (arguments : List String) :
    Outcome :=
  let steps := match Invocation.ofArguments arguments with
    | .error halt => halt.steps
    | .ok i => i.steps s (f.read i.task.input)
  Outcome.run time ⟨0, "", "", f⟩ steps

end OpenApiServer.Cli
