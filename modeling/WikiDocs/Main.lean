import WikiDocs.CommandLine
import WikiDocs.Sink.Journal

/-!
The program on the files of the machine. The conversion itself runs on a
journal, whose steps are then carried out one by one.
-/

namespace WikiDocs.Main

open CommandLine

def readFile? (path : String) : IO (Option ByteArray) := do
  try
    return some (← IO.FS.readBinFile path)
  catch _ =>
    return none

/-- Whether a path leads to a directory: only a directory has an entry for itself. -/
def isDirectory (path : String) : IO Bool := do
  if path.isEmpty then
    return false
  try
    let _ ← IO.FS.Handle.mk (FileTree.join path ".") .read
    return true
  catch _ =>
    return false

/-- Everybody may read and execute, the owner may write. -/
def scriptRights : IO.FileRight :=
  { user := { read := true, write := true, execution := true }
    group := { read := true, execution := true }
    other := { read := true, execution := true } }

def carryOut (output : String) (steps : List Journal.Step) : IO Unit := do
  let mut files : Array IO.FS.Handle := #[]
  for step in steps do
    match step with
    | .create name =>
      files := files.push (← IO.FS.Handle.mk (FileTree.join output name) .write)
    | .writeLine file line =>
      if let some handle := files[file]? then
        handle.putStr (String.ofList (line ++ ['\n']))
    | .finishScript name =>
      for handle in files do
        handle.flush
      IO.setAccessRights (FileTree.join output name) scriptRights
  for handle in files do
    handle.flush

/-- What went wrong on the machine, in its words and with its number there. -/
def causeOf : IO.Error → Cause
  | .noFileOrDirectory _ code words | .inappropriateType _ code words
  | .invalidArgument _ code words | .permissionDenied _ code words
  | .resourceExhausted _ code words | .alreadyExists _ code words
  | .noSuchThing _ code words | .otherError code words | .illegalOperation code words
  | .resourceBusy code words | .unsupportedOperation code words =>
    .described (words ++ " (os error " ++ toString code ++ ")")
  | e => .described (toString e)

def finish (ending : Ending) : IO UInt32 := do
  (← IO.getStdout).putStr ending.stdout
  (← IO.getStderr).putStr ending.stderr
  return UInt32.ofNat ending.code

def fulfil (request : Request) : IO UInt32 := do
  let some input ← readFile? request.input
    | finish (.ofAnswer request (.error (.inputNotFound request.input)))
  if !(← isDirectory request.output) then
    return ← finish (.ofAnswer request (.error (.outputDirNotFound request.output)))
  let title := FileConversion.firstTitle request.options request.input
  let o := convert ({} : Journal) (request.options.withFirstTitle title) input.data.toList
  for notice in o.notices do
    IO.eprintln ("[" ++ notice.level.name ++ "] " ++ notice.message)
  try
    carryOut request.output o.state.steps
    finish (.ofAnswer request o.answer)
  catch e =>
    finish (.ofAnswer request (.error (.io (causeOf e))))

end WikiDocs.Main

def main (arguments : List String) : IO UInt32 := do
  match WikiDocs.CommandLine.request arguments (← IO.getEnv "WIKI2RST_RENDERER") with
  | .error stop => WikiDocs.Main.finish (.ofStop stop)
  | .ok request => WikiDocs.Main.fulfil request
