/-
  The program — a session on the files of this machine.
-/
import FormDrift.Report.Time
import FormDrift.Session
import Std.Time.DateTime.Timestamp

namespace FormDrift.Program

/-- The fault that an error of the machine stands for. -/
def faultOf : IO.Error → FileFault
  | .noFileOrDirectory .. => .notFound
  | .inappropriateType .. => .notFolder
  | _ => .denied

/-- What is at a path, but not what is in it: folders and files are empty. -/
def nodeAt (path : String) : IO (Except FileFault FileNode) := do
  if path.isEmpty then return .error .notFound
  try
    let data ← ((← IO.currentDir) / path).metadata
    match data.type with
    | .dir => return .ok (.folder [])
    | _ => return .ok (.file #[])
  catch e => return .error (faultOf e)

/-- The text of the file at a path. -/
def readText (path : String) : IO (Except FileFault String) := do
  match ← nodeAt path with
  | .ok (.file _) =>
    try
      let content ← IO.FS.readBinFile ((← IO.currentDir) / path)
      return (FileNode.file content.data).text
    catch e => return .error (faultOf e)
  | .ok node => return node.text
  | .error fault => return .error fault

/-- The files and folders at and below a path, the files without what is in them; links are
not followed. -/
partial def below (path : String) : IO FileNode := do
  let place := (← IO.currentDir) / path
  try
    match (← place.symlinkMetadata).type with
    | .dir =>
      let entries ← place.readDir
      return .folder (← entries.toList.mapM fun entry => do
        return (entry.fileName, ← below (Path.join path entry.fileName)))
    | .file => return .file #[]
    | .symlink => return .link none
    | .other => return .closed
  catch _ => return .closed

/-- Where a search in the folder at a path starts. -/
def searchStart? (path : String) : IO (Option FileNode) := do
  match ← nodeAt path with
  | .ok (.folder _) => return some (← below (if path.endsWith "/" then path else path ++ "/"))
  | .ok _ => return some (← below path)
  | .error _ => return none

/-- Access to the files of this machine. -/
def files : FileAccess IO where
  has path := return (← nodeAt path).isOk
  read := readText
  searchStart?

/-- What a session on this machine depends on. -/
def surroundings : IO Surroundings := do
  let environment ← Environment.variableNames.filterMapM fun name => do
    return (← IO.getEnv name).map fun value => (name, value)
  let now ← Std.Time.Timestamp.now
  return {
    workingFolder := (← IO.currentDir).toString
    environment
    outputTerminal := ← (← IO.getStdout).isTty
    messageTerminal := ← (← IO.getStderr).isTty
    outputOpen := true
    time := Report.timeText now.toSecondsSinceUnixEpoch.toInt.toNat }

/-- Writes a text; that nobody reads it is no fault. -/
def write (stream : IO.FS.Stream) (text : String) : IO Unit := do
  try
    stream.putStr text
    stream.flush
  catch _ => return

/-- Runs a session and returns its status. -/
def run (args : List String) : IO UInt32 := do
  match CommandLine.parse args with
  | .error fault =>
    write (← if fault.status = .success then IO.getStdout else IO.getStderr) (fault.message ++ "\n")
    return UInt32.ofNat fault.status.code
  | .ok invocation =>
    let outcome ← Session.run files (← surroundings) invocation
    write (← IO.getStdout) outcome.output
    write (← IO.getStderr) (Render.unlines outcome.messages)
    return UInt32.ofNat outcome.status.code

end FormDrift.Program

/-- Runs the program. -/
def main (args : List String) : IO UInt32 := FormDrift.Program.run args
