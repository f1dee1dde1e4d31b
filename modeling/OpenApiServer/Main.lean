import OpenApiServer.Cli.Task
import Std.Time.Format

/-!
# The program

Reads the input that the arguments name and carries out the steps of the run.
-/

namespace OpenApiServer.Cli

/-- The fault of a file that is of the wrong kind, by its number. -/
def FileFault.ofNumber (n : UInt32) : FileFault := if n = 21 then .isFolder else .notFolder

/-- The fault that an error of the operating system stands for. -/
def FileFault.ofError : IO.Error → FileFault
  | .noFileOrDirectory .. => .notFound
  | .noSuchThing .. => .notFound
  | .alreadyExists .. => .alreadyExists
  | .inappropriateType _ number _ => .ofNumber number
  | e => .other (toString e)

def attempted {α : Type} (action : IO α) : IO (Except FileFault α) := do
  match ← action.toBaseIO with
  | .ok a => return .ok a
  | .error e => return .error (.ofError e)

def timeOfDay : IO String := do
  let now ← Std.Time.PlainTime.now
  let two (n : Int) : String := if n < 10 then "0" ++ toString n else toString n
  return two now.hour.val ++ ":" ++ two now.minute.val ++ ":" ++ two now.second.val

def failWith (r : ErrorReport) : IO UInt32 := do
  (← IO.getStderr).putStr r.text
  return 1

/-- Carries out steps up to the first that fails. -/
def carryOut : List Step → IO UInt32
  | [] => return 0
  | .print text :: rest => do
    (← IO.getStdout).putStr text
    carryOut rest
  | .log color message :: rest => do
    (← IO.getStdout).putStr (Step.logLine color (← timeOfDay) message)
    carryOut rest
  | .warn text :: rest => do
    (← IO.getStderr).putStr text
    carryOut rest
  | .stop code :: _ => return code.toUInt32
  | .makeFolder path :: rest => do
    match ← attempted (IO.FS.createDirAll path) with
    | .ok _ => carryOut rest
    | .error e => failWith (Step.report "create" path e)
  | .write path text :: rest => do
    match ← attempted (IO.FS.writeFile path text) with
    | .ok _ => carryOut rest
    | .error e => failWith (Step.report "write" path e)

end OpenApiServer.Cli

open OpenApiServer.Cli in
def main (arguments : List String) : IO UInt32 := do
  match Invocation.ofArguments arguments with
  | .error halt => carryOut halt.steps
  | .ok i => do
    let text ← attempted (IO.FS.readFile i.task.input)
    let isTerminal ← (← IO.getStdout).isTty
    carryOut (i.steps ⟨isTerminal, ← IO.getEnv "COLORFGBG"⟩ text)
